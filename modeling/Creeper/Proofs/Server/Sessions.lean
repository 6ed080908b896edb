/-
The sessions of the server and a session by itself.

`Creeper.Session` is one connection and nothing else: no threads, no
array that another handler could write to, no operations that wait.
`server_sessions` says that with handlers that keep no state nothing else
can be seen of a server, on any of its connections. What is known of a
session, from how its reads are cut to what is answered, is then known of
each connection of the server.
-/
import Creeper.Proofs.Server.Conversation
import Creeper.Proofs.Server.Requests
import Creeper.Proofs.Session.Framing
import Creeper.Stateless

namespace Creeper

open Lib

-- =================================================================== the reads

section

variable {C : Type} {R : C → Type} {π σ ι : Type} {app : App C R π}
  {below : Service C R σ}

/-- Every read has had from one byte to as many as fit. -/
def ReadsFit (connection : Nat → Connection) : Prop :=
  ∀ session, ∀ chunk ∈ (connection session).received,
    0 < chunk.length ∧ chunk.length ≤ maxLength

/-- A connection that has received one more. -/
theorem ReadsFit.receives {connection : Nat → Connection} {session : Nat}
    {chunk : Str} (h : ReadsFit connection) (hpos : 0 < chunk.length)
    (hfits : chunk.length ≤ maxLength) :
    ReadsFit (Function.update connection session
      { connection session with
        received := (connection session).received ++ [chunk] }) := by
  intro s other hmem
  by_cases hs : s = session
  · subst hs
    rw [Function.update_self, List.mem_append, List.mem_singleton] at hmem
    rcases hmem with hbefore | rfl
    · exact h s other hbefore
    · exact ⟨hpos, hfits⟩
  · rw [Function.update_of_ne hs] at hmem
    exact h s other hmem

/-- One that has sent something. -/
theorem ReadsFit.sends {connection : Nat → Connection} {session : Nat}
    {message : Str} (h : ReadsFit connection) :
    ReadsFit (Function.update connection session
      { connection session with
        sent := (connection session).sent ++ [message] }) := by
  intro s other hmem
  by_cases hs : s = session
  · subst hs
    rw [Function.update_self] at hmem
    exact h s other hmem
  · rw [Function.update_of_ne hs] at hmem
    exact h s other hmem

/-- A step of a thread of the server. -/
theorem ReadsFit.step [DecidableEq ι] {now next : Workers ι π σ}
    {e : WorkerEvent ι C R} (hstep : WorkerStep app below now e next)
    (h : ReadsFit now.shared.1.connection) :
    ReadsFit next.shared.1.connection := by
  obtain ⟨⟨io, t⟩, point⟩ := now
  obtain ⟨x, q, hdoes, rfl⟩ := hstep.does
  show ReadsFit x.1.connection
  generalize hp : point e.1 = p at hdoes
  generalize he : e.2 = a at hdoes
  cases hdoes with
  | reacts hreacts =>
      cases hreacts with
      | read hoperations hpos hfits => exact h.receives hpos hfits
      | _ => exact h
  | writes => exact h.sends
  | _ => exact h

end

-- ================================================================= one session

variable {beast : Beast} {handle : Request → Response}

variable (beast handle) in
theorem respondAll_stateless (chunks : List Str) :
    respondAll beast (stateless handle) () chunks
      = some (chunks.map (answerTo beast handle)) := by
  induction chunks with
  | nil => rfl
  | cons chunk chunks ih =>
      rw [respondAll, respond_stateless]
      simp only [ih, Option.map_some, List.map_cons]

/-- A session can read what fits, one after the other, if its handlers
return. -/
theorem session_reads (beast : Beast) (handle : Request → Response)
    {chunks : List Str}
    (hfits : ∀ chunk ∈ chunks, 0 < chunk.length ∧ chunk.length ≤ maxLength)
    {s : Session Unit} (hphase : s.phase = .reading) :
    ∃ events s', Run (Session.Step beast (stateless handle)) s events s'
      ∧ readsOf events = chunks := by
  induction chunks generalizing s with
  | nil => exact ⟨[], s, .nil s, rfl⟩
  | cons chunk chunks ih =>
      obtain ⟨hfirst, hrest⟩ := List.forall_mem_cons.mp hfits
      obtain ⟨hpos, hlength⟩ := hfirst
      have hresponse := (handleResponse_fill s.world s.buffer hlength).trans
        (respond_stateless beast handle chunk)
      obtain ⟨mid, hturn, hmid⟩ : ∃ mid,
          Run (Session.Step beast (stateless handle)) s
            [.read chunk, .written] mid ∧ mid.phase = .reading :=
        ⟨_, .cons (.read hphase hpos hlength hresponse)
          (.cons (.written rfl) (.nil _)), rfl⟩
      obtain ⟨events, s', hrun, hreads⟩ := ih hrest hmid
      exact ⟨_, s', hturn.append hrun, congrArg (chunk :: ·) hreads⟩

-- ==================================================================== a server

section

variable {ι : Type} [DecidableEq ι] {buffer : Nat → Buffer}
  {es : List (WorkerEvent ι Empty fun _ => Empty)} {now : Workers ι Str Unit}

/-- A connection is sent what a stateless server answers. -/
theorem stateless_sent
    (h : Run (WorkerStep (statelessApp beast handle) noService)
      (serverStart buffer ()) es now) (session : Nat) :
    (now.shared.1.connection session).sent
        <+: (now.shared.1.connection session).received.map
          (answerTo beast handle)
      ∧ (now.shared.1.connection session).received.length
        ≤ (now.shared.1.connection session).sent.length + 1 := by
  obtain ⟨gs, gs', reqsMid, reqs, hbefore, hafter, -, -, -, hnow⟩ :=
    server_requests h (.nil now)
      (asked_requestOf (statelessApp beast handle) now.shared.1.connection)
  -- there is no code, so no request has made a step
  have hstart : reqs.point = fun request =>
      answerTo beast handle (requestOf now.shared.1.connection request) := by
    have hrun := hbefore.append hafter
    generalize gs ++ gs' = fs at hrun
    cases hrun with
    | nil => rfl
    | cons hmove =>
        cases hmove with
        | call hcode => cases hcode
  obtain ⟨v, hstage⟩ := hnow.stages session
  obtain ⟨hsent, hreceived⟩ := hstage.lengths
  refine ⟨List.prefix_iff_getElem?.mpr ?_, hreceived⟩
  intro j hj
  have hanswered := hstage.answered j _ (List.getElem?_eq_getElem hj)
  rw [hstart] at hanswered
  have hin : j < (now.shared.1.connection session).received.length := by
    omega
  obtain ⟨hrequest, -⟩ := asked_requestOf (statelessApp beast handle)
    now.shared.1.connection session j _ (List.getElem?_eq_getElem hin)
  have hresponse : some (answerTo beast handle
      (requestOf now.shared.1.connection (session, j)))
        = some (now.shared.1.connection session).sent[j] :=
    Option.some.inj hanswered
  rw [hrequest] at hresponse
  rw [List.getElem?_map, List.getElem?_eq_getElem hin]
  exact hresponse

end

/-- On each of its connections, a server whose handlers keep no state is
a session by itself that has read the same: whatever its threads do and
whatever the other clients send, it has handed to `async_write` what that
session hands to it, up to a last response that is on its way. -/
theorem server_sessions {ι : Type} [DecidableEq ι] (beast : Beast)
    (handle : Request → Response) (buffer : Nat → Buffer)
    {es : List (WorkerEvent ι Empty fun _ => Empty)} {now : Workers ι Str Unit}
    (h : Run (WorkerStep (statelessApp beast handle) noService)
      (serverStart buffer ()) es now) (session : Nat) :
    ∃ events s, Run (Session.Step beast (stateless handle))
        (.start (buffer session) ()) events s
      ∧ readsOf events = (now.shared.1.connection session).received
      ∧ (now.shared.1.connection session).sent <+: s.sent
      ∧ s.sent.length ≤ (now.shared.1.connection session).sent.length + 1 := by
  have hfits : ReadsFit now.shared.1.connection := by
    refine h.invariant (I := fun now => ReadsFit now.shared.1.connection)
      (fun _ _ _ hfits hstep => hfits.step hstep) ?_
    exact fun _ _ hmem => absurd hmem List.not_mem_nil
  obtain ⟨events, s, hrun, hreads⟩ := session_reads beast handle
    (hfits session) (s := .start (buffer session) ()) rfl
  obtain ⟨hsent, hlength⟩ := stateless_sent h session
  have hall : s.sent = (now.shared.1.connection session).received.map
      (answerTo beast handle) := by
    have hsent := run_sent hrun
    rw [hreads] at hsent
    change (respondAll beast (stateless handle) () _).map _ = _ at hsent
    rw [respondAll_stateless] at hsent
    exact (Option.some.inj hsent).symm
  refine ⟨events, s, hrun, hreads, ?_, ?_⟩
  · rw [hall]
    exact hsent
  · rw [hall, List.length_map]
    exact hlength

theorem server_sessions_health :
    ∃ es, ∃ now : Workers (Fin numThreads) Str Unit,
      Run (WorkerStep healthApp noService)
        (serverStart (fun _ => zeroBuffer) ()) es now
      ∧ (now.shared.1.connection 0).received = [plainGet.bytes]
      ∧ ∃ events s, Run (Session.Step reference
          (stateless HealthRequestHandler.handleRequest))
          (.start zeroBuffer ()) events s
        ∧ readsOf events = (now.shared.1.connection 0).received
        ∧ (now.shared.1.connection 0).sent <+: s.sent
        ∧ s.sent.length ≤ (now.shared.1.connection 0).sent.length + 1 := by
  obtain ⟨es, now, hrun, hconnection⟩ := health_run
  exact ⟨es, now, hrun, congrArg Connection.received hconnection,
    server_sessions reference HealthRequestHandler.handleRequest
      (fun _ => zeroBuffer) hrun 0⟩

end Creeper

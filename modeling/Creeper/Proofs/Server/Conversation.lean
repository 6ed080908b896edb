/-
A conversation on one connection.

Everything else about the server says what it never does. Here is
something that it can do: accept a connection, and answer on it one
message after the other (`server_converses`), each as the app answers it
by itself. One thread in `run()` is enough for that, and a turn of the
conversation leaves all threads where they were: the others may sit in a
handler that sleeps, and the conversation goes on for as long as the
client likes.
-/
import Creeper.Proofs.Server.Threads

namespace Creeper

open Lib

variable {C : Type} {R : C → Type} {π σ ι : Type} {app : App C R π}
  {below : Service C R σ} {io : IoService} {t t' : σ} {session : Nat}

-- ================================================================== a message

/-- Where the app has ended, it has no code left. -/
def App.Ends (app : App C R π) : Prop :=
  ∀ requestMsg p ended, app.result requestMsg p = some ended →
    app.code p = none

/-- The app answers a message by itself. -/
def App.Answers (app : App C R π) (below : Service C R σ) (t : σ)
    (requestMsg responseMsg : Str) (t' : σ) : Prop :=
  ∃ p, Goes app.code below (fun _ => True) (t, app.enter requestMsg) (t', p)
    ∧ app.result requestMsg p = some (some responseMsg)

/-- A call of the app, made by a thread. -/
def Answer.ofApp (a : Answer C R) :
    Answer (ServerCall C) (ServerCall.Reply R) :=
  ⟨.app a.1, a.2⟩

/-- What the app does by itself, a thread does in its handler. -/
theorem App.Ends.handling (hends : app.Ends) (io : IoService)
    (session : Nat) (requestMsg : Str) {p p' : π} {as : List (Answer C R)}
    (h : Run (Solo app.code below) (t, p) as (t', p')) :
    Run (Solo (workerCode app) (ServerServes below))
      ((io, t), app.proceed session requestMsg p) (as.map Answer.ofApp)
      ((io, t'), app.proceed session requestMsg p') := by
  generalize hx : (t, p) = x at h
  generalize hy : (t', p') = y at h
  induction h generalizing t p with
  | nil =>
      cases hx
      cases hy
      exact .nil _
  | cons hstep _ ih =>
      subst hx
      cases hstep with
      | @call _ _ _ c k r hcode hserves =>
          have hopen : app.result requestMsg p = none := by
            cases hresult : app.result requestMsg p with
            | none => rfl
            | some ended =>
                rw [hends _ _ _ hresult] at hcode
                cases hcode
          have hhandling : app.proceed session requestMsg p
              = .handling session requestMsg p := by
            rw [App.proceed, hopen]
          have hworker : workerCode app (.handling session requestMsg p)
              = some ⟨.app c, fun r =>
                app.proceed session requestMsg (k r)⟩ := by
            rw [workerCode, hcode]
            rfl
          rw [hhandling]
          exact .cons (.call hworker (.app hserves)) (ih rfl hy)

-- ===================================================================== a turn

/-- A turn of a conversation: a message that fits, and the answer of the
app to it. -/
def App.Exchange (app : App C R π) (below : Service C R σ) (t : σ)
    (e : Str × Str) (t' : σ) : Prop :=
  0 < e.1.length ∧ e.1.length ≤ maxLength ∧ app.Answers below t e.1 e.2 t'

/-- The other connections are what they were. -/
def OthersKept (session : Nat) (now next : Workers ι π σ) : Prop :=
  ∀ s, s ≠ session →
    next.shared.1.connection s = now.shared.1.connection s

/-- A thread is in `run()`, and a session reads. -/
structure Idle (i : ι) (session : Nat) (c : Connection) (t : σ)
    (now : Workers ι π σ) : Prop where
  thread : now.point i = .run
  reading : .readSome session ∈ now.shared.1.operations
  connection : now.shared.1.connection session = c
  shared : now.shared.2 = t

/-- A thread by itself reads a message. -/
theorem reads_goes (app : App C R π) (below : Service C R σ) (t : σ)
    {before after : List Operation} {requestMsg : Str}
    (hoperations : io.operations = before ++ .readSome session :: after)
    (hpos : 0 < requestMsg.length) (hfits : requestMsg.length ≤ maxLength) :
    Goes (workerCode app) (ServerServes below) (fun _ => True)
      ((io, t), .run)
      (({ io.receive session requestMsg hfits with
          operations := before ++ after }, t),
        app.proceed session requestMsg (app.enter requestMsg)) := by
  have hdata : ((io.receive session requestMsg hfits).buffer
      session).data.take requestMsg.length = requestMsg := by
    simp only [IoService.receive, Function.update_self, Buffer.take_fill]
  refine .call rfl (.reacted (.read hoperations hpos hfits)) trivial ?_
  refine .call rfl (.handler rfl) trivial ?_
  refine .call rfl .data trivial ?_
  simp only [hdata]
  exact .refl _

/-- And writes a response, after which the session reads again. -/
theorem writes_goes (app : App C R π) (below : Service C R σ)
    (io : IoService) (t : σ) (session : Nat) (responseMsg : Str) :
    Goes (workerCode app) (ServerServes below) (fun _ => True)
      ((io, t), .logging session responseMsg)
      (({ io.send session responseMsg with
          operations := (io.operations ++ []) ++ [.readSome session] }, t),
        .run) := by
  refine .call (r := true) rfl .loggedEndpoint trivial ?_
  refine .call rfl .asyncWrite trivial ?_
  refine .call rfl .workFinished trivial ?_
  refine .call rfl (.reacted (@IoService.Reacts.written _ _ _ _ _ true rfl))
    trivial ?_
  refine .call rfl (.handler rfl) trivial ?_
  refine .call rfl .asyncReadSome trivial ?_
  refine .call rfl .workFinished trivial ?_
  exact .refl _

variable [DecidableEq ι] {now : Workers ι π σ} {c : Connection} {i : ι}

/-- A turn of the conversation. -/
theorem Idle.turn (hends : app.Ends) {e : Str × Str}
    (h : Idle i session c t now) (hexchange : app.Exchange below t e t') :
    ∃ es next, Run (WorkerStep app below) now es next
      ∧ (∀ e ∈ es, e.1 = i) ∧ next.point = now.point
      ∧ OthersKept session now next
      ∧ Idle i session ⟨c.received ++ [e.1], c.sent ++ [e.2]⟩ t' next := by
  obtain ⟨hthread, hreading, rfl, rfl⟩ := h
  obtain ⟨before, after, hoperations⟩ := List.append_of_mem hreading
  obtain ⟨requestMsg, responseMsg⟩ := e
  obtain ⟨hpos, hfits, p, ⟨as, hrun, -⟩, hresult⟩ := hexchange
  have hanswered : app.proceed session requestMsg p
      = .logging session responseMsg := by
    rw [App.proceed, hresult]
  have hreads :=
    reads_goes app below now.shared.2 hoperations hpos hfits
  have hhandling := hends.handling
    { now.shared.1.receive session requestMsg hfits with
      operations := before ++ after } session requestMsg hrun
  rw [hanswered] at hhandling
  have hhandles : Goes (workerCode app) (ServerServes below) (fun _ => True)
      _ _ := ⟨_, hhandling, fun _ _ => trivial⟩
  obtain ⟨es, hruns, hes⟩ := Run.of_goes hthread
    (hreads.trans (hhandles.trans (writes_goes app below _ t' session _)))
  refine ⟨es, _, hruns, hes, rfl, ?_, hthread, ?_, ?_, rfl⟩
  · intro s hs
    simp only [IoService.send, IoService.receive, Function.update_of_ne hs]
  · exact List.mem_append_right _ (List.mem_singleton_self _)
  · simp only [IoService.send, IoService.receive, Function.update_self]

/-- Any number of turns. -/
theorem Idle.turns (hends : app.Ends) {exchanges : List (Str × Str)}
    (hexchanges : Run (app.Exchange below) t exchanges t')
    (h : Idle i session c t now) :
    ∃ es next, Run (WorkerStep app below) now es next
      ∧ (∀ e ∈ es, e.1 = i) ∧ next.point = now.point
      ∧ OthersKept session now next
      ∧ Idle i session ⟨c.received ++ exchanges.map Prod.fst,
        c.sent ++ exchanges.map Prod.snd⟩ t' next := by
  induction hexchanges generalizing now c with
  | nil =>
      refine ⟨[], now, .nil now, nofun, rfl, fun _ _ => rfl, ?_⟩
      simp only [List.map_nil, List.append_nil]
      exact h
  | cons hexchange _ ih =>
      obtain ⟨es, mid, hfirst, hes, hsame, hkept, hmid⟩ :=
        h.turn hends hexchange
      obtain ⟨es', next, hrest, hes', hsame', hkept', hnext⟩ := ih hmid
      refine ⟨es ++ es', next, hfirst.append hrest,
        List.forall_mem_append.mpr ⟨hes, hes'⟩, hsame'.trans hsame,
        fun s hs => (hkept' s hs).trans (hkept s hs), ?_⟩
      simp only [List.append_assoc, List.singleton_append] at hnext
      exact hnext

/-- A connection is accepted, and its session reads. -/
theorem idle_accepts (app : App C R π) (below : Service C R σ)
    (now : Workers ι π σ) (hthread : now.point i = .run)
    (haccept : .accept session ∈ now.shared.1.operations) :
    ∃ es next, Run (WorkerStep app below) now es next
      ∧ (∀ e ∈ es, e.1 = i) ∧ next.point = now.point
      ∧ OthersKept session now next
      ∧ Idle i session (now.shared.1.connection session) now.shared.2 next := by
  obtain ⟨io', hgoes, hreading, hconnection⟩ :=
    accepts_goes app below now.shared.2 haccept
  obtain ⟨es, hrun, hes⟩ := Run.of_goes hthread hgoes
  exact ⟨es, _, hrun, hes, rfl, fun s _ => congrFun hconnection s, hthread,
    hreading, congrFun hconnection session, rfl⟩

/-- Two parts of a conversation with a server that has been constructed,
on its first connection and no other, after which all threads are in
`run()`. -/
theorem server_talks (hends : app.Ends) (i : ι) (buffer : Nat → Buffer)
    {exchanges exchanges' : List (Str × Str)} {t'' : σ}
    (hfirst : Run (app.Exchange below) t exchanges t')
    (hrest : Run (app.Exchange below) t' exchanges' t'') :
    ∃ es es', ∃ mid now : Workers ι π σ,
      Run (WorkerStep app below) (serverStart buffer t) es mid
      ∧ Run (WorkerStep app below) mid es' now
      ∧ mid.shared.1.connection 0
        = ⟨exchanges.map Prod.fst, exchanges.map Prod.snd⟩
      ∧ now.shared.1.connection 0
        = ⟨exchanges.map Prod.fst ++ exchanges'.map Prod.fst,
          exchanges.map Prod.snd ++ exchanges'.map Prod.snd⟩
      ∧ (∀ s, s ≠ 0 → now.shared.1.connection s = {})
      ∧ now.shared.2 = t''
      ∧ ∀ j, now.point j = .run := by
  obtain ⟨es, start, hstart, -, hsame, hkept, hidle⟩ := idle_accepts app below
    (serverStart buffer t) (i := i) rfl (List.mem_singleton_self _)
  obtain ⟨es', mid, hruns, -, hsame', hkept', hmid⟩ :=
    hidle.turns hends hfirst
  obtain ⟨es'', now, hruns', -, hsame'', hkept'', hnow⟩ :=
    hmid.turns hends hrest
  refine ⟨es ++ es', es'', mid, now, hstart.append hruns, hruns',
    hmid.connection, hnow.connection, fun s hs => ?_, hnow.shared,
    fun j => ?_⟩
  · rw [hkept'' s hs, hkept' s hs, hkept s hs]
    rfl
  · rw [hsame'', hsame', hsame]
    rfl

/-- One thread in `run()` is enough for a client to talk to the server,
whatever the other threads are in the middle of and for however long:
its connection is accepted, if it has not been, and any messages that fit
are answered on it one after the other, as the app answers them by
itself. -/
theorem server_converses (app : App C R π) (below : Service C R σ)
    (hends : app.Ends) (now : Workers ι π σ) (i : ι) (session : Nat)
    (hthread : now.point i = .run)
    (hopen : .accept session ∈ now.shared.1.operations
      ∨ .readSome session ∈ now.shared.1.operations)
    {exchanges : List (Str × Str)}
    (hexchanges : Run (app.Exchange below) now.shared.2 exchanges t') :
    ∃ es next, Run (WorkerStep app below) now es next
      ∧ (∀ e ∈ es, e.1 = i) ∧ next.point = now.point
      ∧ next.shared.2 = t'
      ∧ next.shared.1.connection session
        = ⟨(now.shared.1.connection session).received
            ++ exchanges.map Prod.fst,
          (now.shared.1.connection session).sent
            ++ exchanges.map Prod.snd⟩ := by
  have hidle : ∃ es mid, Run (WorkerStep app below) now es mid
      ∧ (∀ e ∈ es, e.1 = i) ∧ mid.point = now.point
      ∧ Idle i session (now.shared.1.connection session) now.shared.2 mid := by
    rcases hopen with haccept | hreading
    · obtain ⟨es, mid, hrun, hes, hsame, -, hmid⟩ :=
        idle_accepts app below now hthread haccept
      exact ⟨es, mid, hrun, hes, hsame, hmid⟩
    · exact ⟨[], now, .nil now, nofun, rfl, hthread, hreading, rfl, rfl⟩
  obtain ⟨es, mid, hfirst, hes, hsame, hmid⟩ := hidle
  obtain ⟨es', next, hrest, hes', hsame', -, hnext⟩ :=
    hmid.turns hends hexchanges
  exact ⟨es ++ es', next, hfirst.append hrest,
    List.forall_mem_append.mpr ⟨hes, hes'⟩, hsame'.trans hsame, hnext.shared,
    hnext.connection⟩

/-- A client asks for the root, and the server says that it is there. -/
theorem health_exchange :
    healthApp.Exchange noService ()
      (plainGet.bytes,
        answerTo reference HealthRequestHandler.handleRequest plainGet.bytes)
      () :=
  ⟨by decide, by decide, _, .refl _, rfl⟩

/-- And is answered. -/
theorem health_run :
    ∃ es, ∃ now : Workers (Fin numThreads) Str Unit,
      Run (WorkerStep healthApp noService)
        (serverStart (fun _ => zeroBuffer) ()) es now
      ∧ now.shared.1.connection 0 = ⟨[plainGet.bytes],
        [answerTo reference HealthRequestHandler.handleRequest
          plainGet.bytes]⟩ := by
  have hthread : 0 < numThreads := by decide
  obtain ⟨es, es', mid, now, hfirst, hrest, -, hconnection, -⟩ :=
    server_talks (fun _ _ _ _ => rfl) (Fin.mk 0 hthread)
      (fun _ => zeroBuffer) (.nil ()) (.cons health_exchange (.nil ()))
  exact ⟨es ++ es', now, hfirst.append hrest, hconnection⟩

theorem server_converses_health :
    ∃ es, ∃ next : Workers (Fin numThreads) Str Unit,
      Run (WorkerStep healthApp noService)
        (serverStart (fun _ => zeroBuffer) ()) es next
      ∧ (next.shared.1.connection 0).received
        = [plainGet.bytes, plainGet.bytes] := by
  have hthread : 0 < numThreads := by decide
  obtain ⟨es, next, hrun, -, -, -, hconnection⟩ := server_converses healthApp
    noService (fun _ _ _ _ => rfl) (serverStart (fun _ => zeroBuffer) ())
    (Fin.mk 0 hthread) 0 rfl (Or.inl (List.mem_singleton_self _))
    (.cons health_exchange (.cons health_exchange (.nil ())))
  exact ⟨es, next, hrun, congrArg Connection.received hconnection⟩

end Creeper

/-
What the connections are answered.

The messages that come in on all connections are handled at once, and
the handlers share what they work on. `server_answers` takes the server
apart at this place. What a handler does with a message is code of its
own (`app.code`), one piece for each message, all of them over what they
share, in any order of their steps; and the connections only carry the
messages in and the responses out. A connection is sent the responses to
its own messages, in their order, each before the next message is read.

The messages are counted by connection, `(session, j)` being the `j`-th
of a session. They are what the connections have received in the end, so
the requests can be there from the start: one that has not come in yet
has made no step.
-/
import Creeper.Proofs.Server.Conversation

namespace Creeper

open Lib

variable {C : Type} {R : C → Type} {π σ : Type}

-- ================================================================ the requests

/-- The `j`-th message of a session. -/
def requestOf (connection : Nat → Connection) (request : Nat × Nat) : Str :=
  (connection request.1).received.getD request.2 []

/-- The handlers of messages, over what they share. -/
abbrev Requests (π σ : Type) : Type := Running (Nat × Nat) π σ

section

variable {app : App C R π} {below : Service C R σ} {msg : Nat × Nat → Str}
  {start point point' : Nat × Nat → π} {session : Nat} {c : Connection}
  {v : ThreadPoint π}

/-- Where a thread is, by what its connection has received and sent. -/
def ThreadPoint.At (app : App C R π) (msg : Nat × Nat → Str)
    (point : Nat × Nat → π) (session : Nat) (c : Connection) :
    ThreadPoint π → Prop
  | .waiting s => s = session ∧ c.received.length = c.sent.length
  | .accepted s => s = session ∧ c.received.length = c.sent.length
  | .reading s => s = session ∧ c.received.length = c.sent.length
  | .flushing s => s = session ∧ c.received.length = c.sent.length
  | .handling s requestMsg p =>
      s = session ∧ c.received.length = c.sent.length + 1
        ∧ requestMsg = msg (session, c.sent.length)
        ∧ point (session, c.sent.length) = p
  | .logging s responseMsg =>
      s = session ∧ c.received.length = c.sent.length + 1
        ∧ app.result (msg (session, c.sent.length))
          (point (session, c.sent.length)) = some (some responseMsg)
  | .writing s responseMsg =>
      s = session ∧ c.received.length = c.sent.length + 1
        ∧ app.result (msg (session, c.sent.length))
          (point (session, c.sent.length)) = some (some responseMsg)
  | .ended =>
      c.sent.length ≤ c.received.length
        ∧ c.received.length ≤ c.sent.length + 1

/-- The requests of a session, and where its thread is. -/
structure Stage (app : App C R π) (msg : Nat × Nat → Str)
    (start point : Nat × Nat → π) (session : Nat) (c : Connection)
    (v : ThreadPoint π) : Prop where
  /-- Each response is that to the message. -/
  answered : ∀ j responseMsg, c.sent[j]? = some responseMsg →
    app.result (msg (session, j)) (point (session, j))
      = some (some responseMsg)
  /-- The message has not come in. -/
  fresh : ∀ j, c.received.length ≤ j →
    point (session, j) = start (session, j)
  /-- A request has not begun, has ended, or is being handled. -/
  placed : ∀ j, point (session, j) = start (session, j)
    ∨ (app.result (msg (session, j)) (point (session, j))).isSome
    ∨ (j = c.sent.length
      ∧ v = .handling session (msg (session, j)) (point (session, j)))
  stage : v.At app msg point session c

/-- A session is about its own requests. -/
theorem Stage.congr (h : Stage app msg start point session c v)
    (hpoint : ∀ j, point' (session, j) = point (session, j)) :
    Stage app msg start point' session c v := by
  refine ⟨?_, ?_, ?_, ?_⟩
  · intro j responseMsg hj
    rw [hpoint]
    exact h.answered j responseMsg hj
  · intro j hj
    rw [hpoint]
    exact h.fresh j hj
  · intro j
    rw [hpoint]
    exact h.placed j
  · have hstage := h.stage
    cases v with
    | handling s requestMsg p =>
        obtain ⟨hs, hlength, hmsg, hp⟩ := hstage
        exact ⟨hs, hlength, hmsg, (hpoint _).trans hp⟩
    | logging s responseMsg =>
        obtain ⟨hs, hlength, hresult⟩ := hstage
        exact ⟨hs, hlength, by rw [hpoint]; exact hresult⟩
    | writing s responseMsg =>
        obtain ⟨hs, hlength, hresult⟩ := hstage
        exact ⟨hs, hlength, by rw [hpoint]; exact hresult⟩
    | _ => exact hstage

/-- A session that handles no request. -/
theorem Stage.idle (h : Stage app msg start point session c v)
    (hidle : ∀ requestMsg p, v ≠ .handling session requestMsg p) (j : Nat) :
    point (session, j) = start (session, j)
      ∨ (app.result (msg (session, j)) (point (session, j))).isSome := by
  rcases h.placed j with hstart | hended | hhandling
  · exact Or.inl hstart
  · exact Or.inr hended
  · exact absurd hhandling.2 (hidle _ _)

/-- A thread that goes on from the app. -/
theorem Stage.goOn {requestMsg : Str} {p : π}
    (answered : ∀ j responseMsg, c.sent[j]? = some responseMsg →
      app.result (msg (session, j)) (point (session, j))
        = some (some responseMsg))
    (fresh : ∀ j, c.received.length ≤ j →
      point (session, j) = start (session, j))
    (placed : ∀ j, j ≠ c.sent.length → point (session, j) = start (session, j)
      ∨ (app.result (msg (session, j)) (point (session, j))).isSome)
    (hlength : c.received.length = c.sent.length + 1)
    (hmsg : requestMsg = msg (session, c.sent.length))
    (hp : point (session, c.sent.length) = p) :
    Stage app msg start point session c (app.goOn session requestMsg p) := by
  refine ⟨answered, fresh, fun j => ?_, ?_⟩
  · by_cases hj : j = c.sent.length
    · subst hj
      right
      rw [hp, ← hmsg]
      unfold App.goOn
      cases hresult : app.result requestMsg p with
      | none => exact Or.inr ⟨rfl, rfl⟩
      | some ended => exact Or.inl rfl
    · rcases placed j hj with hstart | hended
      · exact Or.inl hstart
      · exact Or.inr (Or.inl hended)
  unfold App.goOn
  cases hresult : app.result requestMsg p with
  | none => exact ⟨rfl, hlength, hmsg, hp⟩
  | some ended =>
      cases ended with
      | none =>
          show _ ∧ _
          omega
      | some responseMsg =>
          refine ⟨rfl, hlength, ?_⟩
          rw [← hmsg, hp]
          exact hresult

/-- The requests are where the threads of their connections are. -/
structure Handles (app : App C R π) (msg : Nat × Nat → Str)
    (start : Nat × Nat → π) (abs : Threads π σ) (reqs : Requests π σ) :
    Prop where
  shared : reqs.shared = abs.shared.2
  stages : ∀ session, Stage app msg start reqs.point session
    (abs.shared.1 session) (abs.point session)

/-- What changes is one session. -/
theorem Handles.of_change {connection : Nat → Connection} {t t' : σ}
    {threads : Nat → ThreadPoint π}
    (h : Handles app msg start ⟨(connection, t), threads⟩ ⟨t, point⟩)
    (hpoint : ∀ request, request.1 ≠ session →
      point' request = point request)
    (hstage : Stage app msg start point' session c v) :
    Handles app msg start ⟨(Function.update connection session c, t'),
      Function.update threads session v⟩ ⟨t', point'⟩ := by
  refine ⟨rfl, fun s => ?_⟩
  show Stage app msg start point' s (Function.update connection session c s)
    (Function.update threads session v s)
  by_cases hs : s = session
  · subst hs
    rw [Function.update_self, Function.update_self]
    exact hstage
  · rw [Function.update_of_ne hs, Function.update_of_ne hs]
    exact (h.stages s).congr fun j => hpoint (s, j) hs

/-- Where the thread of a session is. -/
theorem Handles.at {connection : Nat → Connection} {t : σ}
    {threads : Nat → ThreadPoint π}
    (h : Handles app msg start ⟨(connection, t), threads⟩ ⟨t, point⟩)
    (hthread : threads session = v) :
    Stage app msg start point session (connection session) v := by
  rw [← hthread]
  exact h.stages session

/-- The thread of a session goes on without its connection. -/
theorem Handles.goes {connection : Nat → Connection} {t : σ}
    {threads : Nat → ThreadPoint π}
    (h : Handles app msg start ⟨(connection, t), threads⟩ ⟨t, point⟩)
    {p : ThreadPoint π} (hthread : threads session = p)
    (hidle : ∀ requestMsg q, p ≠ .handling session requestMsg q)
    (hat : v.At app msg point session (connection session)) :
    Handles app msg start ⟨(connection, t), Function.update threads session v⟩
      ⟨t, point⟩ := by
  have hstage := h.at hthread
  have hplaced : ∀ j, point (session, j) = start (session, j)
      ∨ (app.result (msg (session, j)) (point (session, j))).isSome
      ∨ (j = (connection session).sent.length
        ∧ v = .handling session (msg (session, j)) (point (session, j))) := by
    intro j
    rcases hstage.idle hidle j with hstart | hended
    · exact Or.inl hstart
    · exact Or.inr (Or.inl hended)
  have hnext : Handles app msg start
      ⟨(Function.update connection session (connection session), t),
        Function.update threads session v⟩ ⟨t, point⟩ :=
    h.of_change (fun _ _ => rfl)
      ⟨hstage.answered, hstage.fresh, hplaced, hat⟩
  rw [Function.update_eq_self] at hnext
  exact hnext

/-- The messages are what the connections have received, and each is
handled from the beginning. -/
def Asked (app : App C R π) (msg : Nat × Nat → Str) (start : Nat × Nat → π)
    (connection : Nat → Connection) : Prop :=
  ∀ session j requestMsg, (connection session).received[j]?
    = some requestMsg → msg (session, j) = requestMsg
      ∧ start (session, j) = app.enter requestMsg

/-- A message comes in, and its handler begins. -/
theorem Handles.receives {connection : Nat → Connection} {t : σ}
    {threads : Nat → ThreadPoint π} {chunk : Str}
    (h : Handles app msg start ⟨(connection, t), threads⟩ ⟨t, point⟩)
    (hthread : threads session = .reading session)
    (hasked : Asked app msg start (Function.update connection session
      { connection session with
        received := (connection session).received ++ [chunk] })) :
    Handles app msg start ⟨(Function.update connection session
        { connection session with
          received := (connection session).received ++ [chunk] }, t),
      Function.update threads session
        (app.goOn session chunk (app.enter chunk))⟩ ⟨t, point⟩ := by
  have hstage := h.at hthread
  obtain ⟨-, hlength⟩ := hstage.stage
  obtain ⟨hmsg, hstart⟩ : msg (session, (connection session).sent.length)
      = chunk ∧ start (session, (connection session).sent.length)
        = app.enter chunk := by
    apply hasked
    rw [Function.update_self, ← hlength]
    exact List.getElem?_concat_length
  refine h.of_change (fun _ _ => rfl) (Stage.goOn hstage.answered ?_
    (fun j _ => hstage.idle nofun j) ?_ hmsg.symm ?_)
  · intro j hj
    apply hstage.fresh
    rw [List.length_append, List.length_singleton] at hj
    show (connection session).received.length ≤ j
    omega
  · show (_ ++ [chunk]).length = _
    rw [List.length_append, List.length_singleton, hlength]
  · rw [← hstart]
    exact hstage.fresh _ (Nat.le_of_eq hlength)

/-- A response is sent. -/
theorem Handles.sends {connection : Nat → Connection} {t : σ}
    {threads : Nat → ThreadPoint π} {responseMsg : Str}
    (h : Handles app msg start ⟨(connection, t), threads⟩ ⟨t, point⟩)
    (hthread : threads session = .writing session responseMsg) :
    Handles app msg start ⟨(Function.update connection session
        { connection session with
          sent := (connection session).sent ++ [responseMsg] }, t),
      Function.update threads session (.flushing session)⟩ ⟨t, point⟩ := by
  have hstage := h.at hthread
  obtain ⟨-, hlength, hresult⟩ := hstage.stage
  have hidle : ∀ requestMsg (p : π), ThreadPoint.writing session responseMsg
      ≠ .handling session requestMsg p := by
    intro requestMsg p heq
    cases heq
  refine h.of_change (fun _ _ => rfl) ⟨?_, hstage.fresh, fun j => ?_, rfl, ?_⟩
  · intro j other hj
    have hj : ((connection session).sent ++ [responseMsg])[j]?
        = some other := hj
    rcases Nat.lt_trichotomy j (connection session).sent.length with
      hlt | rfl | hgt
    · rw [List.getElem?_append_left hlt] at hj
      exact hstage.answered j other hj
    · rw [List.getElem?_concat_length] at hj
      obtain rfl := Option.some.inj hj
      exact hresult
    · rw [List.getElem?_eq_none (by simp; omega)] at hj
      cases hj
  · rcases hstage.idle hidle j with hstart | hended
    · exact Or.inl hstart
    · exact Or.inr (Or.inl hended)
  · show (connection session).received.length = (_ ++ [responseMsg]).length
    rw [List.length_append, List.length_singleton]
    exact hlength

/-- The code of a request makes a step. -/
theorem Handles.computes {connection : Nat → Connection} {t t' : σ}
    {threads : Nat → ThreadPoint π} {requestMsg : Str} {p q : π}
    (h : Handles app msg start ⟨(connection, t), threads⟩ ⟨t, point⟩)
    (hthread : threads session = .handling session requestMsg p) :
    Handles app msg start ⟨(connection, t'), Function.update threads session
        (app.goOn session requestMsg q)⟩
      ⟨t', Function.update point
        (session, (connection session).sent.length) q⟩ := by
  have hstage := h.at hthread
  obtain ⟨-, hlength, hmsg, hp⟩ := hstage.stage
  have hother : ∀ j, j ≠ (connection session).sent.length →
      Function.update point (session, (connection session).sent.length) q
        (session, j) = point (session, j) := by
    intro j hj
    apply Function.update_of_ne
    intro heq
    exact hj (congrArg Prod.snd heq)
  have hothers : ∀ request : Nat × Nat, request.1 ≠ session →
      Function.update point (session, (connection session).sent.length) q
        request = point request := by
    intro request hrequest
    apply Function.update_of_ne
    intro heq
    exact hrequest (congrArg Prod.fst heq)
  have hgoes : Stage app msg start (Function.update point
      (session, (connection session).sent.length) q) session
      (connection session) (app.goOn session requestMsg q) := by
    refine Stage.goOn ?_ ?_ ?_ hlength hmsg (Function.update_self ..)
    · intro j responseMsg hj
      have hlt := (List.getElem?_eq_some_iff.mp hj).1
      rw [hother j (Nat.ne_of_lt hlt)]
      exact hstage.answered j responseMsg hj
    · intro j hj
      rw [hother j (by omega)]
      exact hstage.fresh j hj
    · intro j hj
      rw [hother j hj]
      rcases hstage.placed j with hstart | hended | hhandling
      · exact Or.inl hstart
      · exact Or.inr hended
      · exact absurd hhandling.1 hj
  have hnext : Handles app msg start ⟨(_, t'), _⟩ ⟨t', _⟩ :=
    h.of_change hothers hgoes
  rw [Function.update_eq_self] at hnext
  exact hnext

/-- A step of the threads is one of the requests, or none. -/
theorem thread_step {abs abs' : Threads π σ}
    {e : ThreadEvent C R} {reqs : Requests π σ}
    (hstep : ThreadStep app below abs e abs')
    (hasked : Asked app msg start abs'.shared.1)
    (h : Handles app msg start abs reqs) :
    ∃ gs reqs', Run (Move app.code below) reqs gs reqs'
      ∧ gs.map Prod.snd = e.app.toList
      ∧ Handles app msg start abs' reqs' := by
  obtain ⟨⟨connection, t⟩, threads⟩ := abs
  obtain ⟨shared, point⟩ := reqs
  obtain rfl : shared = t := h.shared
  cases hstep with
  | @call session c k r x hcode hserves =>
  change threadCode app (threads session) = some ⟨c, k⟩ at hcode
  change ThreadServes below c (connection, shared) r x at hserves
  generalize hp : threads session = p at hcode
  have hat := (h.at hp).stage
  cases p with
  | waiting s =>
      cases hcode
      cases hserves with
      | accept =>
          refine ⟨[], _, .nil _, rfl, h.goes hp nofun ?_⟩
          obtain ⟨hs, hlength⟩ := hat
          cases r with
          | true => exact ⟨hs, hlength⟩
          | false =>
              show _ ∧ _
              omega
  | accepted s =>
      cases hcode
      cases hserves with
      | endpoint =>
          refine ⟨[], _, .nil _, rfl, h.goes hp nofun ?_⟩
          obtain ⟨hs, hlength⟩ := hat
          cases r with
          | true => exact ⟨hs, hlength⟩
          | false =>
              show _ ∧ _
              omega
  | reading s =>
      obtain ⟨rfl, hlength⟩ := hat
      cases hcode
      cases hserves with
      | read => exact ⟨[], _, .nil _, rfl, h.receives hp hasked⟩
      | readFailed =>
          refine ⟨[], _, .nil _, rfl, h.goes hp nofun ?_⟩
          show _ ∧ _
          omega
  | handling s requestMsg p =>
      obtain ⟨rfl, hlength, hmsg, hpoint⟩ := hat
      obtain ⟨⟨c', next⟩, hown, heq⟩ := Option.map_eq_some_iff.mp hcode
      cases heq
      cases hserves with
      | app hbelow =>
          refine ⟨_, _, .cons (.call ?_ hbelow) (.nil _), rfl, h.computes hp⟩
          rw [← hown, ← hpoint]
  | logging s responseMsg =>
      obtain ⟨hs, hlength, hresult⟩ := hat
      cases hcode
      cases hserves with
      | endpoint =>
          refine ⟨[], _, .nil _, rfl, h.goes hp nofun ?_⟩
          cases r with
          | true => exact ⟨hs, hlength, hresult⟩
          | false =>
              show _ ∧ _
              omega
  | writing s responseMsg =>
      obtain ⟨rfl, -⟩ := hat
      cases hcode
      cases hserves with
      | write => exact ⟨[], _, .nil _, rfl, h.sends hp⟩
  | flushing s =>
      obtain ⟨hs, hlength⟩ := hat
      cases hcode
      cases hserves with
      | flush =>
          refine ⟨[], _, .nil _, rfl, h.goes hp nofun ?_⟩
          cases r with
          | true => exact ⟨hs, hlength⟩
          | false =>
              show _ ∧ _
              omega
  | ended => cases hcode

-- =================================================================== the runs

/-- A connection that has received more, among the others. -/
theorem received_update {connection : Nat → Connection} {s : Nat}
    (hc : (connection s).received <+: c.received) (session : Nat) :
    (connection session).received
      <+: (Function.update connection s c session).received := by
  by_cases hs : session = s
  · subst hs
    rw [Function.update_self]
    exact hc
  · have hsame := congrArg Connection.received
      (Function.update_of_ne hs c connection)
    exact ⟨[], (List.append_nil _).trans hsame.symm⟩

/-- What has come in on a connection stays there. -/
theorem ThreadStep.received {abs abs' : Threads π σ}
    {e : ThreadEvent C R}
    (hstep : ThreadStep app below abs e abs') (session : Nat) :
    (abs.shared.1 session).received <+: (abs'.shared.1 session).received := by
  cases hstep with
  | @call s c k r x hcode hserves =>
  obtain ⟨⟨connection, t⟩, threads⟩ := abs
  change ThreadServes below c (connection, t) r x at hserves
  show (connection session).received <+: (x.1 session).received
  cases hserves with
  | read =>
      refine received_update ?_ session
      exact List.prefix_append ..
  | write =>
      refine received_update ?_ session
      exact List.prefix_rfl
  | _ => exact List.prefix_rfl

/-- What the messages are in the end, they are all along. -/
theorem Asked.before {abs abs' : Threads π σ}
    {es : List (ThreadEvent C R)}
    (h : Run (ThreadStep app below) abs es abs')
    (hasked : Asked app msg start abs'.shared.1) :
    Asked app msg start abs.shared.1 := by
  intro session j requestMsg hj
  have hgrows : (abs.shared.1 session).received
      <+: (abs'.shared.1 session).received :=
    h.climbs (r := fun a b : Threads π σ =>
        (a.shared.1 session).received <+: (b.shared.1 session).received)
      (fun _ => List.prefix_rfl) (fun _ _ _ => List.IsPrefix.trans)
      fun _ _ _ hstep => hstep.received session
  have hlt := (List.getElem?_eq_some_iff.mp hj).1
  obtain ⟨rest, hrest⟩ := hgrows
  apply hasked session
  rw [← hrest, List.getElem?_append_left hlt]
  exact hj

/-- The threads of the connections handle their messages. -/
theorem threads_requests {abs abs' : Threads π σ}
    {fs : List (ThreadEvent C R)}
    (h : Run (ThreadStep app below) abs fs abs')
    (hasked : Asked app msg start abs'.shared.1) {reqs : Requests π σ}
    (hreqs : Handles app msg start abs reqs) :
    ∃ gs reqs', Run (Move app.code below) reqs gs reqs'
      ∧ gs.map Prod.snd = fs.filterMap ThreadEvent.app
      ∧ Handles app msg start abs' reqs' := by
  induction h generalizing reqs with
  | nil => exact ⟨[], reqs, .nil reqs, rfl, hreqs⟩
  | @cons _ _ _ e fs hstep hrest ih =>
      obtain ⟨gs, mid, hfirst, hshown, hmid⟩ :=
        thread_step hstep (hasked.before hrest) hreqs
      obtain ⟨gs', reqs', hrun, hshown', hend⟩ := ih hasked hmid
      refine ⟨gs ++ gs', reqs', hfirst.append hrun, ?_, hend⟩
      rw [List.map_append, hshown, hshown']
      cases hlabel : e.app with
      | none =>
          rw [List.filterMap_cons_none hlabel]
          rfl
      | some c =>
          rw [List.filterMap_cons_some hlabel]
          rfl

/-- No message has come in. -/
theorem handles_start (app : App C R π) (msg : Nat × Nat → Str)
    (start : Nat × Nat → π) (t : σ) :
    Handles app msg start (threadsStart t) ⟨t, start⟩ :=
  ⟨rfl, fun _ => ⟨nofun, fun _ _ => rfl, fun _ => Or.inl rfl, rfl, rfl⟩⟩

/-- The messages are what the connections have received. -/
theorem asked_requestOf (app : App C R π) (connection : Nat → Connection) :
    Asked app (requestOf connection)
      (fun request => app.enter (requestOf connection request))
      connection := by
  intro session j requestMsg hj
  have hmsg : requestOf connection (session, j) = requestMsg := by
    show (connection session).received.getD j [] = requestMsg
    rw [List.getD_eq_getElem?_getD, hj, Option.getD_some]
  exact ⟨hmsg, congrArg app.enter hmsg⟩

/-- At most one message of a connection has no response. -/
theorem Stage.lengths {point : Nat × Nat → π}
    (h : Stage app msg start point session c v) :
    c.sent.length ≤ c.received.length
      ∧ c.received.length ≤ c.sent.length + 1 := by
  have hat := h.stage
  cases v with
  | handling s requestMsg p =>
      obtain ⟨-, hlength, -⟩ := hat
      omega
  | logging s responseMsg =>
      obtain ⟨-, hlength, -⟩ := hat
      omega
  | writing s responseMsg =>
      obtain ⟨-, hlength, -⟩ := hat
      omega
  | ended => exact hat
  | _ =>
      obtain ⟨-, hlength⟩ := hat
      omega

-- ================================================================= the server

variable {ι : Type}

/-- The requests are where the threads of the server are. -/
def Handled (app : App C R π) (msg : Nat × Nat → Str)
    (start : Nat × Nat → π) (now : Workers ι π σ) (reqs : Requests π σ) :
    Prop :=
  ∃ abs, Follows app now abs ∧ Handles app msg start abs reqs

section

variable {now : Workers ι π σ} {reqs : Requests π σ}

/-- They work on the same. -/
theorem Handled.shared (h : Handled app msg start now reqs) :
    reqs.shared = now.shared.2 := by
  obtain ⟨abs, hfollows, hreqs⟩ := h
  rw [hreqs.shared, hfollows.shared]

/-- Each session is somewhere. -/
theorem Handled.stages (h : Handled app msg start now reqs)
    (session : Nat) :
    ∃ v, Stage app msg start reqs.point session
      (now.shared.1.connection session) v := by
  obtain ⟨abs, hfollows, hreqs⟩ := h
  refine ⟨abs.point session, ?_⟩
  have hstage := hreqs.stages session
  rw [hfollows.shared] at hstage
  exact hstage

/-- Where the app goes on, it is where it has been. -/
theorem App.goOn_eq_handling {session s : Nat} {requestMsg requestMsg' : Str}
    {p q : π}
    (h : app.goOn session requestMsg p = .handling s requestMsg' q) :
    requestMsg = requestMsg' ∧ p = q := by
  unfold App.goOn at h
  cases hresult : app.result requestMsg p with
  | none =>
      rw [hresult] at h
      cases h
      exact ⟨rfl, rfl⟩
  | some ended =>
      rw [hresult] at h
      cases ended <;> cases h

/-- A session whose message has been read handles it from the
beginning. -/
theorem Operation.view_eq_handling {operation : Operation}
    {buffer : Nat → Buffer} {s : Nat} {requestMsg : Str} {p : π}
    (h : operation.view app buffer = .handling s requestMsg p) :
    p = app.enter requestMsg := by
  cases operation with
  | ready completion =>
      cases completion with
      | accepted session ok => cases ok <;> cases h
      | read session bytesTransferred =>
          cases bytesTransferred with
          | none => cases h
          | some n =>
              obtain ⟨rfl, rfl⟩ := App.goOn_eq_handling h
              rfl
      | written session ok => cases ok <;> cases h
  | _ => cases h

/-- A thread that handles a message is at the beginning, or in the
middle. -/
theorem WorkerPoint.view_eq_handling {q : WorkerPoint π}
    {buffer : Nat → Buffer} {s : Nat} {requestMsg : Str} {p : π}
    (h : q.view app buffer = .handling s requestMsg p) :
    p = app.enter requestMsg ∨ q = .handling s requestMsg p := by
  cases q with
  | handleRead session n =>
      left
      obtain ⟨rfl, rfl⟩ := App.goOn_eq_handling h
      rfl
  | handling session requestMsg' p' =>
      cases h
      exact Or.inr rfl
  | _ => cases h

/-- A request that has begun and has not ended is with a thread. -/
theorem Handled.located (h : Handled app msg start now reqs)
    (hasked : Asked app msg start now.shared.1.connection)
    {session j : Nat}
    (hbegun : reqs.point (session, j) ≠ start (session, j))
    (hresult : app.result (msg (session, j)) (reqs.point (session, j))
      = none) :
    ∃ i, now.point i
      = .handling session (msg (session, j)) (reqs.point (session, j)) := by
  obtain ⟨abs, hfollows, hreqs⟩ := h
  have hstage := hreqs.stages session
  rw [hfollows.shared] at hstage
  obtain ⟨hlast, hthread⟩ : j = (now.shared.1.connection session).sent.length
      ∧ abs.point session
        = .handling session (msg (session, j)) (reqs.point (session, j)) := by
    rcases hstage.placed j with hstart | hended | hhandling
    · exact absurd hstart hbegun
    · rw [hresult] at hended
      cases hended
    · exact hhandling
  have hat := hstage.stage
  rw [hthread] at hat
  obtain ⟨-, hlength, -⟩ := hat
  have hstart : start (session, j) = app.enter (msg (session, j)) := by
    have hin : j < (now.shared.1.connection session).received.length := by
      rw [hlength, hlast]
      exact Nat.lt_succ_self _
    obtain ⟨hmsg, hstart⟩ :=
      hasked session j _ (List.getElem?_eq_getElem hin)
    rw [hstart, hmsg]
  have hmiddle : reqs.point (session, j) ≠ app.enter (msg (session, j)) := by
    rw [← hstart]
    exact hbegun
  have hmade : session < now.shared.1.made := by
    by_contra hge
    rw [hfollows.unmade session (Nat.le_of_not_lt hge)] at hthread
    cases hthread
  rcases hfollows.placed session hmade with
    ⟨operation, hmem, rfl⟩ | ⟨i, hi⟩ | hended
  · rw [hfollows.queued operation hmem] at hthread
    exact absurd (Operation.view_eq_handling hthread) hmiddle
  · rw [hfollows.held i session hi] at hthread
    rcases WorkerPoint.view_eq_handling hthread with henter | hpoint
    · exact absurd henter hmiddle
    · exact ⟨i, hpoint⟩
  · rw [hended] at hthread
    cases hthread

end

variable [DecidableEq ι] {buffer : Nat → Buffer} {t : σ}
  {mid now : Workers ι π σ} {es es' : List (WorkerEvent ι C R)}

/-- What the server does comes to what the requests do, also between two
points of its run. -/
theorem server_requests
    (hbefore : Run (WorkerStep app below) (serverStart buffer t) es mid)
    (hafter : Run (WorkerStep app below) mid es' now)
    (hasked : Asked app msg start now.shared.1.connection) :
    ∃ gs gs' reqsMid reqs, Run (Move app.code below) ⟨t, start⟩ gs reqsMid
      ∧ Run (Move app.code below) reqsMid gs' reqs
      ∧ gs.map Prod.snd = es.filterMap WorkerEvent.app
      ∧ gs'.map Prod.snd = es'.filterMap WorkerEvent.app
      ∧ Handled app msg start mid reqsMid ∧ Handled app msg start now reqs := by
  obtain ⟨fs, absMid, hthreads, hshown, hmid⟩ := hbefore.follows
    (fun _ _ _ _ hfollows hmove => server_step hmove hfollows)
    (follows_start app buffer t)
  obtain ⟨fs', abs, hthreads', hshown', hnow⟩ := hafter.follows
    (fun _ _ _ _ hfollows hmove => server_step hmove hfollows) hmid
  have hconnection : abs.shared.1 = now.shared.1.connection := by
    rw [hnow.shared]
  rw [← hconnection] at hasked
  obtain ⟨gs, reqsMid, hrun, hcalls, hreqsMid⟩ :=
    threads_requests hthreads (hasked.before hthreads')
      (handles_start app msg start t)
  obtain ⟨gs', reqs, hrun', hcalls', hreqs⟩ :=
    threads_requests hthreads' hasked hreqsMid
  exact ⟨gs, gs', reqsMid, reqs, hrun, hrun', hcalls.trans hshown,
    hcalls'.trans hshown', ⟨absMid, hmid, hreqsMid⟩, ⟨abs, hnow, hreqs⟩⟩

end

/-- Whatever the threads of the server do, the messages of its
connections are handled by the code of the app, each on its own over what
they share; a response that is sent is what the handler of its message
has ended with; and a connection is sent one response to a message, in
order, before the next is read. -/
theorem server_answers {ι : Type} [DecidableEq ι] (app : App C R π)
    (below : Service C R σ) (buffer : Nat → Buffer) (t : σ)
    {es : List (WorkerEvent ι C R)} {now : Workers ι π σ}
    (h : Run (WorkerStep app below) (serverStart buffer t) es now) :
    ∃ gs reqs, Run (Move app.code below)
        ⟨t, fun request =>
          app.enter (requestOf now.shared.1.connection request)⟩ gs reqs
      ∧ gs.map Prod.snd = es.filterMap WorkerEvent.app
      ∧ reqs.shared = now.shared.2
      ∧ ∀ session,
        (now.shared.1.connection session).sent.length
            ≤ (now.shared.1.connection session).received.length
          ∧ (now.shared.1.connection session).received.length
            ≤ (now.shared.1.connection session).sent.length + 1
          ∧ (∀ j responseMsg,
            (now.shared.1.connection session).sent[j]? = some responseMsg →
            app.result (requestOf now.shared.1.connection (session, j))
              (reqs.point (session, j)) = some (some responseMsg))
          ∧ ∀ j, (now.shared.1.connection session).received.length ≤ j →
            reqs.point (session, j)
              = app.enter (requestOf now.shared.1.connection (session, j)) := by
  obtain ⟨gs, gs', _, reqs, hfirst, hsecond, hcalls, hnone, -, hreqs⟩ :=
    server_requests h (.nil now)
      (asked_requestOf app now.shared.1.connection)
  obtain rfl := List.map_eq_nil_iff.mp hnone
  obtain rfl := Run.nil_iff.mp hsecond
  refine ⟨gs, _, hfirst, hcalls, hreqs.shared, fun session => ?_⟩
  obtain ⟨v, hstage⟩ := hreqs.stages session
  exact ⟨hstage.lengths.1, hstage.lengths.2, hstage.answered, hstage.fresh⟩

theorem server_answers_health :
    ∃ es, ∃ now : Workers (Fin numThreads) Str Unit,
      Run (WorkerStep healthApp noService)
        (serverStart (fun _ => zeroBuffer) ()) es now
      ∧ (now.shared.1.connection 0).received = [plainGet.bytes]
      ∧ ∃ gs reqs, Run (Move healthApp.code noService)
          ⟨(), fun request => healthApp.enter
            (requestOf now.shared.1.connection request)⟩ gs reqs
        ∧ gs.map Prod.snd = es.filterMap WorkerEvent.app := by
  obtain ⟨es, now, hrun, hconnection⟩ := health_run
  obtain ⟨gs, reqs, hreqs, hcalls, -⟩ :=
    server_answers healthApp noService (fun _ => zeroBuffer) () hrun
  exact ⟨es, now, hrun, congrArg Connection.received hconnection, gs, reqs,
    hreqs, hcalls⟩

end Creeper

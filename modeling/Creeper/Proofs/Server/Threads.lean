/-
The sessions of the server, as threads of their own.

Nothing locks a session, and any thread of the server may run any of its
handlers. But a session has at most one operation under way, or one
handler that runs, because a handler asks for an operation only as the
last thing it does. So where each session is makes a ledger
(`sessions`), like that of a pool: an operation that is through is taken
by a thread, and given back as the next one. `server_threads` is what
follows: the server goes through the steps of one thread for each
connection (`threadCode`), and of no others.

What a session is about is read off its place (`Completion.view`,
`Operation.view`, `WorkerPoint.view`). A read that is through has its
bytes in `data_` until the handler comes for them; they are still there,
since no other operation of the session can be under way.
-/
import Creeper.Lib.Pool
import Creeper.Proofs.Server.Steps
import Creeper.Proofs.Session.Framing
import Creeper.Stateless
import Creeper.Threads

namespace Creeper

open Lib

variable {C : Type} {R : C → Type} {π σ : Type}

/-- The bytes of a read are at the front of the array. -/
theorem Buffer.take_fill (buffer : Buffer) {chunk : Str}
    (h : chunk.length ≤ maxLength) :
    (buffer.fill chunk h).data.take chunk.length = chunk :=
  List.take_left

-- ================================================================= the views

/-- The session whose handler a thread runs, until it has asked for its
next operation. -/
def WorkerPoint.session : WorkerPoint π → Option Nat
  | .handleAccept session => some session
  | .start session => some session
  | .asyncAccept session => some session
  | .handleRead session _ => some session
  | .handling session _ _ => some session
  | .logging session _ => some session
  | .asyncWrite session _ => some session
  | .handleWrite session => some session
  | _ => none

/-- Where the thread of a connection is whose operation is through. -/
def Completion.view (app : App C R π) (buffer : Nat → Buffer) :
    Completion → ThreadPoint π
  | .accepted session true => .accepted session
  | .accepted _ false => .ended
  | .read session (some bytesTransferred) =>
      app.goOn session ((buffer session).data.take bytesTransferred)
        (app.enter ((buffer session).data.take bytesTransferred))
  | .read _ none => .ended
  | .written session true => .reading session
  | .written _ false => .ended

/-- Where it is whose operation is under way. -/
def Operation.view (app : App C R π) (buffer : Nat → Buffer) :
    Operation → ThreadPoint π
  | .accept session => .waiting session
  | .readSome session => .reading session
  | .write session _ => .flushing session
  | .ready completion => completion.view app buffer

/-- And where it is whose handler runs. -/
def WorkerPoint.view (app : App C R π) (buffer : Nat → Buffer) :
    WorkerPoint π → ThreadPoint π
  | .handleAccept session => .accepted session
  | .start session => .reading session
  | .asyncAccept session => .waiting session
  | .handleRead session bytesTransferred =>
      app.goOn session ((buffer session).data.take bytesTransferred)
        (app.enter ((buffer session).data.take bytesTransferred))
  | .handling session requestMsg p => .handling session requestMsg p
  | .logging session responseMsg => .logging session responseMsg
  | .asyncWrite session responseMsg => .writing session responseMsg
  | .handleWrite session => .reading session
  | _ => .ended

section

variable {app : App C R π} {buffer buffer' : Nat → Buffer} {session : Nat}

/-- An operation is about the array of its session. -/
theorem Operation.view_congr {operation : Operation}
    (h : buffer' operation.session = buffer operation.session) :
    operation.view app buffer' = operation.view app buffer := by
  cases operation with
  | ready completion =>
      cases completion with
      | read session bytesTransferred =>
          cases bytesTransferred with
          | none => rfl
          | some n =>
              show app.goOn session ((buffer' session).data.take n) _ = _
              rw [show buffer' session = buffer session from h]
              rfl
      | accepted session ok => cases ok <;> rfl
      | written session ok => cases ok <;> rfl
  | _ => rfl

/-- A handler is about the array of its session. -/
theorem WorkerPoint.view_congr {p : WorkerPoint π}
    (hp : p.session = some session)
    (h : buffer' session = buffer session) :
    p.view app buffer' = p.view app buffer := by
  cases p with
  | handleRead s n =>
      cases hp
      show app.goOn _ ((buffer' session).data.take n) _ = _
      rw [h]
      rfl
  | _ => rfl

/-- A handler is about the session of its operation. -/
theorem Completion.view_handler_session {completion : Completion}
    (h : (completion.handler (π := π)).session = some session) :
    session = completion.session := by
  cases completion with
  | accepted s ok =>
      cases ok with
      | true => exact (Option.some.inj h).symm
      | false => cases h
  | read s bytesTransferred =>
      cases bytesTransferred with
      | some n => exact (Option.some.inj h).symm
      | none => cases h
  | written s ok =>
      cases ok with
      | true => exact (Option.some.inj h).symm
      | false => cases h

/-- It begins where its operation has left off. -/
theorem Completion.view_handler {completion : Completion}
    (h : (completion.handler (π := π)).session = some session) :
    session = completion.session
      ∧ (completion.handler (π := π)).view app buffer
        = completion.view app buffer := by
  refine ⟨Completion.view_handler_session h, ?_⟩
  cases completion with
  | accepted s ok =>
      cases ok with
      | true => rfl
      | false => cases h
  | read s bytesTransferred =>
      cases bytesTransferred with
      | some n => rfl
      | none => cases h
  | written s ok =>
      cases ok with
      | true => rfl
      | false => cases h

/-- Or ends with it. -/
theorem Completion.view_of_handler {completion : Completion}
    (h : (completion.handler (π := π)).session = none) :
    completion.view app buffer = .ended := by
  cases completion with
  | accepted s ok =>
      cases ok with
      | true => cases h
      | false => rfl
  | read s bytesTransferred =>
      cases bytesTransferred with
      | some n => cases h
      | none => rfl
  | written s ok =>
      cases ok with
      | true => cases h
      | false => rfl

/-- So does a thread that goes on from the app. -/
theorem App.view_proceed {requestMsg : Str} {p : π} {s : Nat}
    (h : (app.proceed session requestMsg p).session = some s) :
    s = session ∧ (app.proceed session requestMsg p).view app buffer
      = app.goOn session requestMsg p := by
  unfold App.proceed App.goOn at *
  cases hresult : app.result requestMsg p with
  | none =>
      rw [hresult] at h
      cases h
      exact ⟨rfl, rfl⟩
  | some ended =>
      rw [hresult] at h
      cases ended with
      | none => cases h
      | some responseMsg =>
          cases h
          exact ⟨rfl, rfl⟩

/-- Or ends. -/
theorem App.goOn_of_proceed {requestMsg : Str} {p : π}
    (h : (app.proceed session requestMsg p).session = none) :
    app.goOn session requestMsg p = .ended := by
  unfold App.proceed at h
  unfold App.goOn
  cases hresult : app.result requestMsg p with
  | none =>
      rw [hresult] at h
      cases h
  | some ended =>
      rw [hresult] at h
      cases ended with
      | none => rfl
      | some responseMsg => cases h

end

-- =============================================================== the sessions

variable {ι : Type}

/-- Where the sessions are: waiting for their handlers, or with the
thread that runs it. -/
def sessions (now : Workers ι π σ) : Ledger ι Nat :=
  ⟨now.shared.1.operations.map Operation.session,
    WorkerPoint.session ∘ now.point⟩

/-- The threads of the connections are where the sessions are. -/
structure Follows (app : App C R π) (now : Workers ι π σ)
    (abs : Threads π σ) : Prop where
  /-- Each session made is in at most one place. -/
  sound : Ledger.Sound (List.range now.shared.1.made) (sessions now)
  shared : abs.shared = (now.shared.1.connection, now.shared.2)
  queued : ∀ operation ∈ now.shared.1.operations,
    abs.point operation.session = operation.view app now.shared.1.buffer
  held : ∀ i session, (now.point i).session = some session →
    abs.point session = (now.point i).view app now.shared.1.buffer
  unmade : ∀ session, now.shared.1.made ≤ session →
    abs.point session = .waiting session
  /-- A session that is in no place has ended. -/
  placed : ∀ session, session < now.shared.1.made →
    (∃ operation ∈ now.shared.1.operations, operation.session = session)
      ∨ (∃ i, (now.point i).session = some session)
      ∨ abs.point session = .ended

section

variable [DecidableEq ι] {app : App C R π} {io io' : IoService} {t t' : σ}
  {point : ι → WorkerPoint π} {abs : Threads π σ} {i : ι}
  {q : WorkerPoint π} {session : Nat} {v : ThreadPoint π}

theorem sessions_update :
    sessions ⟨(io', t'), Function.update point i q⟩
      = ⟨io'.operations.map Operation.session,
        Function.update (WorkerPoint.session ∘ point) i q.session⟩ := by
  unfold sessions
  rw [Function.comp_update]

/-- What changes is one session and its thread. -/
theorem Follows.of_change (h : Follows app ⟨(io, t), point⟩ abs)
    (session : Nat)
    (hsound : Ledger.Sound (List.range io'.made)
      (sessions ⟨(io', t'), Function.update point i q⟩))
    (hmade : io.made ≤ io'.made) (hsession : session < io'.made)
    (hbuffer : ∀ s, s ≠ session → io'.buffer s = io.buffer s)
    (hoperations : ∀ operation ∈ io'.operations,
      (operation ∈ io.operations ∧ operation.session ≠ session)
        ∨ (operation.session = session
          ∧ operation.view app io'.buffer = v))
    (hq : ∀ s, q.session = some s →
      s = session ∧ q.view app io'.buffer = v)
    (hothers : ∀ j, j ≠ i → (point j).session ≠ some session)
    (hi : ∀ s, (point i).session = some s → s = session)
    (hold : ∀ s, s ≠ session → s < io'.made → s < io.made)
    (hkept : ∀ operation ∈ io.operations, operation.session ≠ session →
      operation ∈ io'.operations)
    (hplaced : (∃ operation ∈ io'.operations, operation.session = session)
      ∨ q.session = some session ∨ v = .ended) :
    Follows app ⟨(io', t'), Function.update point i q⟩
      ⟨(io'.connection, t'), Function.update abs.point session v⟩ := by
  refine ⟨hsound, rfl, ?_, ?_, ?_, ?_⟩
  · intro operation hmem
    rcases hoperations operation hmem with ⟨hold, hne⟩ | ⟨heq, hview⟩
    · show Function.update abs.point session v operation.session = _
      rw [Function.update_of_ne hne,
        Operation.view_congr (hbuffer _ hne)]
      exact h.queued operation hold
    · show Function.update abs.point session v operation.session = _
      rw [heq, Function.update_self]
      exact hview.symm
  · intro j s hj
    show Function.update abs.point session v s
      = (Function.update point i q j).view app io'.buffer
    replace hj : (Function.update point i q j).session = some s := hj
    by_cases hji : j = i
    · subst hji
      rw [Function.update_self] at hj ⊢
      obtain ⟨rfl, hview⟩ := hq s hj
      rw [Function.update_self]
      exact hview.symm
    · rw [Function.update_of_ne hji] at hj ⊢
      have hne : s ≠ session := by
        intro heq
        subst heq
        exact hothers j hji hj
      rw [Function.update_of_ne hne,
        WorkerPoint.view_congr hj (hbuffer s hne)]
      exact h.held j s hj
  · intro s hs
    have hne : s ≠ session := by
      intro heq
      subst heq
      exact absurd hsession (Nat.not_lt.mpr hs)
    show Function.update abs.point session v s = _
    rw [Function.update_of_ne hne]
    exact h.unmade s (Nat.le_trans hmade hs)
  · intro s hs
    show (∃ operation ∈ io'.operations, _)
      ∨ (∃ j, (Function.update point i q j).session = some s)
      ∨ Function.update abs.point session v s = .ended
    by_cases hne : s = session
    · subst hne
      rw [Function.update_self]
      rcases hplaced with hqueued | hheld | hended
      · exact Or.inl hqueued
      · refine Or.inr (Or.inl ⟨i, ?_⟩)
        rw [Function.update_self]
        exact hheld
      · exact Or.inr (Or.inr hended)
    · rw [Function.update_of_ne hne]
      rcases h.placed s (hold s hne hs) with
        ⟨operation, hmem, heq⟩ | ⟨j, hj⟩ | hended
      · exact Or.inl ⟨operation, hkept operation hmem
          (by rw [heq]; exact hne), heq⟩
      · refine Or.inr (Or.inl ⟨j, ?_⟩)
        have hji : j ≠ i := by
          intro heq
          subst heq
          exact hne (hi s hj)
        rw [Function.update_of_ne hji]
        exact hj
      · exact Or.inr (Or.inr hended)

/-- The thread of a connection stays where it is. -/
theorem Follows.of_stutter (h : Follows app ⟨(io, t), point⟩ abs)
    (session : Nat)
    (hnext : Follows app ⟨(io', t), Function.update point i q⟩
      ⟨(io'.connection, t),
        Function.update abs.point session (abs.point session)⟩)
    (hconnection : io'.connection = io.connection) :
    Follows app ⟨(io', t), Function.update point i q⟩ abs := by
  have hshared := h.shared
  rw [Function.update_eq_self, hconnection] at hnext
  obtain ⟨shared, abspoint⟩ := abs
  obtain rfl : shared = (io.connection, t) := hshared
  exact hnext

omit [DecidableEq ι] in
/-- A session that a thread has is in no other place. -/
theorem Follows.only (h : Follows app ⟨(io, t), point⟩ abs)
    (hi : (point i).session = some session) :
    session < io.made
      ∧ (∀ operation ∈ io.operations, operation.session ≠ session)
      ∧ ∀ j, j ≠ i → (point j).session ≠ some session := by
  refine ⟨List.mem_range.mp (h.sound.held i session hi), ?_, ?_⟩
  · intro operation hmem heq
    apply h.sound.apart i session hi
    rw [← heq]
    exact List.mem_map_of_mem hmem
  · intro j hji hj
    exact hji (h.sound.one j i session hj hi)

/-- A handler goes on, or ends without another operation. -/
theorem Follows.handles (h : Follows app ⟨(io, t), point⟩ abs)
    (hi : (point i).session = some session)
    (hq : ∀ s, q.session = some s → s = session ∧ q.view app io.buffer = v)
    (hend : q.session = none → v = .ended) :
    Follows app ⟨(io, t'), Function.update point i q⟩
      ⟨(io.connection, t'), Function.update abs.point session v⟩ := by
  obtain ⟨hmade, hoperations, hothers⟩ := h.only hi
  refine h.of_change session ?_ (Nat.le_refl _) hmade (fun _ _ => rfl) ?_ hq
    hothers ?_ (fun _ _ hs => hs) (fun _ hmem _ => hmem) (Or.inr ?_)
  · rw [sessions_update]
    exact h.sound.settle hi fun s hs => (hq s hs).1
  · exact fun operation hmem => Or.inl ⟨hmem, hoperations operation hmem⟩
  · intro s hs
    rw [hi] at hs
    exact (Option.some.inj hs).symm
  · cases hsession : q.session with
    | none => exact Or.inr (hend hsession)
    | some s => exact Or.inl (congrArg some (hq s hsession).1)

/-- A handler asks for the next operation of its session. -/
theorem Follows.initiates {operation : Operation}
    (h : Follows app ⟨(io, t), point⟩ abs) (io' : IoService)
    (hi : (point i).session = some session) (hq : q.session = none)
    (hsame : io'.operations = io.operations ∧ io'.buffer = io.buffer
      ∧ io'.made = io.made)
    (hsession : operation.session = session)
    (hview : operation.view app io.buffer = v) :
    Follows app ⟨(io'.initiate operation, t), Function.update point i q⟩
      ⟨(io'.connection, t), Function.update abs.point session v⟩ := by
  obtain ⟨hmade, hoperations, hothers⟩ := h.only hi
  obtain ⟨hsameOperations, hsameBuffer, hsameMade⟩ := hsame
  show Follows app _ ⟨((io'.initiate operation).connection, t), _⟩
  refine h.of_change session ?_ (Nat.le_of_eq hsameMade.symm)
    (by show _ < io'.made; rw [hsameMade]; exact hmade)
    (fun s _ => congrFun hsameBuffer s) ?_ ?_ hothers ?_ ?_ ?_ (Or.inl ?_)
  · rw [sessions_update, hq]
    show Ledger.Sound (List.range io'.made)
      ⟨(io'.operations ++ [operation]).map Operation.session, _⟩
    rw [hsameMade, hsameOperations, List.map_append, List.map_singleton,
      hsession]
    exact h.sound.give hi
  · intro other hmem
    have hmem : other ∈ io'.operations ++ [operation] := hmem
    rw [hsameOperations, List.mem_append, List.mem_singleton] at hmem
    rcases hmem with hold | rfl
    · exact Or.inl ⟨hold, hoperations other hold⟩
    · right
      refine ⟨hsession, ?_⟩
      show other.view app io'.buffer = v
      rw [hsameBuffer]
      exact hview
  · intro s hs
    rw [hq] at hs
    cases hs
  · intro s hs
    rw [hi] at hs
    exact (Option.some.inj hs).symm
  · intro s _ hs
    have hs : s < io'.made := hs
    rw [hsameMade] at hs
    exact hs
  · intro other hmem _
    show other ∈ io'.operations ++ [operation]
    rw [hsameOperations]
    exact List.mem_append_left _ hmem
  · exact ⟨operation, List.mem_append_right _ (List.mem_singleton_self _),
      hsession⟩

omit [DecidableEq ι] in
/-- A session that has an operation is in no other place. -/
theorem Follows.only_queued {operation : Operation}
    {before after : List Operation} (h : Follows app ⟨(io, t), point⟩ abs)
    (hoperations : io.operations = before ++ operation :: after) :
    operation.session < io.made
      ∧ (∀ other ∈ before ++ after, other ∈ io.operations
        ∧ other.session ≠ operation.session)
      ∧ ∀ j, (point j).session ≠ some operation.session := by
  have hmem : operation ∈ io.operations := by
    rw [hoperations]
    exact List.mem_append_right _ (List.mem_cons_self ..)
  have hqueued : operation.session ∈ io.operations.map Operation.session :=
    List.mem_map_of_mem hmem
  refine ⟨List.mem_range.mp (h.sound.queued _ hqueued), ?_, ?_⟩
  · intro other hother
    refine ⟨?_, fun heq => ?_⟩
    · rw [hoperations]
      exact List.perm_middle.mem_iff.mpr (List.mem_cons_of_mem _ hother)
    · have hnodup : (io.operations.map Operation.session).Nodup :=
        h.sound.nodup
      rw [hoperations, List.map_append, List.map_cons,
        List.nodup_middle, List.nodup_cons, ← List.map_append] at hnodup
      apply hnodup.1
      rw [← heq]
      exact List.mem_map_of_mem hother
  · intro j hj
    exact h.sound.apart j _ hj hqueued

omit [DecidableEq ι] in
/-- Where its thread is. -/
theorem Follows.queued_at {operation : Operation}
    {before after : List Operation} (h : Follows app ⟨(io, t), point⟩ abs)
    (hoperations : io.operations = before ++ operation :: after) :
    abs.point operation.session = operation.view app io.buffer := by
  refine h.queued operation ?_
  show operation ∈ io.operations
  rw [hoperations]
  exact List.mem_append_right _ (List.mem_cons_self ..)

/-- An operation is seen through. -/
theorem Follows.reacts {operation' : Operation}
    {before after : List Operation} (h : Follows app ⟨(io, t), point⟩ abs)
    (operation : Operation)
    (hi : (point i).session = none) (hq : q.session = none)
    (hoperations : io.operations = before ++ operation :: after)
    (hoperations' : io'.operations = before ++ operation' :: after)
    (hsession : operation'.session = operation.session)
    (hmade : io'.made = io.made)
    (hbuffer : ∀ s, s ≠ operation.session → io'.buffer s = io.buffer s)
    (hview : operation'.view app io'.buffer = v) :
    Follows app ⟨(io', t), Function.update point i q⟩
      ⟨(io'.connection, t),
        Function.update abs.point operation.session v⟩ := by
  obtain ⟨hlt, hothers, hpoints⟩ := h.only_queued hoperations
  refine h.of_change operation.session ?_ (Nat.le_of_eq hmade.symm)
    (by rw [hmade]; exact hlt) hbuffer ?_ ?_ (fun j _ => hpoints j) ?_ ?_ ?_ (Or.inl ?_)
  · rw [sessions_update, hq]
    have hhold : Function.update (WorkerPoint.session ∘ point) i none
        = WorkerPoint.session ∘ point := by
      rw [← hi]
      exact Function.update_eq_self ..
    have hmap : io'.operations.map Operation.session
        = io.operations.map Operation.session := by
      rw [hoperations', hoperations]
      simp [hsession]
    rw [hhold, hmap, hmade]
    exact h.sound
  · intro other hmem
    rw [hoperations', List.perm_middle.mem_iff, List.mem_cons] at hmem
    rcases hmem with rfl | hother
    · exact Or.inr ⟨hsession, hview⟩
    · exact Or.inl (hothers other hother)
  · intro s hs
    rw [hq] at hs
    cases hs
  · intro s hs
    rw [hi] at hs
    cases hs
  · intro s _ hs
    rw [hmade] at hs
    exact hs
  · intro other hmem hne
    rw [hoperations, List.perm_middle.mem_iff, List.mem_cons] at hmem
    rw [hoperations', List.perm_middle.mem_iff]
    rcases hmem with rfl | hother
    · exact absurd rfl hne
    · exact List.mem_cons_of_mem _ hother
  · refine ⟨operation', ?_, hsession⟩
    rw [hoperations']
    exact List.mem_append_right _ (List.mem_cons_self ..)

/-- A thread takes an operation that is through. -/
theorem Follows.takes {completion : Completion}
    {before after : List Operation} (h : Follows app ⟨(io, t), point⟩ abs)
    (hi : (point i).session = none)
    (hoperations : io.operations = before ++ .ready completion :: after) :
    Follows app ⟨({ io with operations := before ++ after }, t),
      Function.update point i completion.handler⟩ abs := by
  obtain ⟨hlt, hothers, hpoints⟩ := h.only_queued hoperations
  refine h.of_stutter _ (h.of_change completion.session ?_
    (Nat.le_refl _) hlt (fun _ _ => rfl) ?_ ?_ (fun j _ => hpoints j) ?_
    (fun _ _ hs => hs) ?_ (Or.inr ?_)) rfl
  · rw [sessions_update]
    refine h.sound.pick completion.session ?_ ?_
    · show (io.operations.map Operation.session).Perm
        (_ :: (before ++ after).map Operation.session)
      rw [hoperations]
      exact List.perm_middle.map Operation.session
    · intro s hs
      exact Completion.view_handler_session hs
  · exact fun other hother => Or.inl (hothers other hother)
  · intro s hs
    obtain ⟨heq, hview⟩ := Completion.view_handler hs
    exact ⟨heq, hview.trans (h.queued_at hoperations).symm⟩
  · intro s hs
    rw [hi] at hs
    cases hs
  · intro other hmem hne
    rw [hoperations, List.perm_middle.mem_iff, List.mem_cons] at hmem
    rcases hmem with rfl | hother
    · exact absurd rfl hne
    · exact hother
  · cases hsession : (completion.handler (π := π)).session with
    | none =>
        right
        exact (h.queued_at hoperations).trans
          (Completion.view_of_handler hsession)
    | some s =>
        left
        exact congrArg some
          (Completion.view_handler_session hsession)

/-- A session is made. -/
theorem Follows.makes (h : Follows app ⟨(io, t), point⟩ abs)
    (hi : (point i).session = none) :
    Follows app ⟨({ io with made := io.made + 1 }, t),
      Function.update point i (.asyncAccept io.made)⟩ abs := by
  have hfresh : io.made ∉ List.range io.made := List.not_mem_range_self
  refine h.of_stutter _ (h.of_change io.made ?_ (Nat.le_succ _)
    (Nat.lt_succ_self _) (fun _ _ => rfl) ?_ ?_ ?_ ?_ ?_
    (fun _ hmem _ => hmem) (Or.inr (Or.inl rfl))) rfl
  · rw [sessions_update]
    exact h.sound.mint (List.range_subset.mpr (Nat.le_succ _))
      (List.mem_range.mpr (Nat.lt_succ_self _)) hfresh
  · intro operation hmem
    refine Or.inl ⟨hmem, fun heq => hfresh ?_⟩
    have hqueued := h.sound.queued _ (List.mem_map_of_mem hmem)
    rw [heq] at hqueued
    exact hqueued
  · intro s hs
    cases hs
    exact ⟨rfl, (h.unmade io.made (Nat.le_refl _)).symm⟩
  · intro j _ hj
    exact hfresh (h.sound.held j _ hj)
  · intro s hs
    rw [hi] at hs
    cases hs
  · intro s hne hs
    have hs : s < io.made + 1 := hs
    omega

/-- A thread without a session goes on without one. -/
theorem Follows.idles (h : Follows app ⟨(io, t), point⟩ abs) (work : Nat)
    (hi : (point i).session = none) (hq : q.session = none) :
    Follows app ⟨({ io with work := work }, t), Function.update point i q⟩
      abs := by
  have hhold : WorkerPoint.session ∘ Function.update point i q
      = WorkerPoint.session ∘ point := by
    rw [Function.comp_update, hq, ← hi]
    exact Function.update_eq_self ..
  refine ⟨?_, h.shared, h.queued, ?_, h.unmade, ?_⟩
  · show Ledger.Sound _ ⟨io.operations.map Operation.session,
      WorkerPoint.session ∘ Function.update point i q⟩
    rw [hhold]
    exact h.sound
  · intro j s hj
    have hj : (Function.update point i q j).session = some s := hj
    show _ = (Function.update point i q j).view app io.buffer
    by_cases hji : j = i
    · subst hji
      rw [Function.update_self, hq] at hj
      cases hj
    · rw [Function.update_of_ne hji] at hj ⊢
      exact h.held j s hj
  · intro s hs
    rcases h.placed s hs with hqueued | ⟨j, hj⟩ | hended
    · exact Or.inl hqueued
    · exact Or.inr (Or.inl ⟨j, (congrFun hhold j).trans hj⟩)
    · exact Or.inr (Or.inr hended)

-- ================================================================== a step

variable {below : Service C R σ}

/-- One step of the thread of a session. -/
theorem ThreadStep.once {session : Nat} {p : ThreadPoint π} {c : ThreadCall C}
    {k : c.Reply R → ThreadPoint π} {r : c.Reply R}
    {x : (Nat → Connection) × σ} (hp : abs.point session = p)
    (hcode : threadCode app p = some ⟨c, k⟩)
    (hserves : ThreadServes below c abs.shared r x) :
    Run (ThreadStep app below) abs [(session, ⟨c, r⟩)]
      ⟨x, Function.update abs.point session (k r)⟩ := by
  refine .cons (.call ?_ hserves) (.nil _)
  rw [hp]
  exact hcode

/-- An operation is seen through, and the thread of its session goes on. -/
theorem Follows.reacted (h : Follows app ⟨(io, t), point⟩ abs)
    (hi : (point i).session = none) (hreacts : io.Reacts io') :
    ∃ fs abs', Run (ThreadStep app below) abs fs abs'
      ∧ fs.filterMap ThreadEvent.app = []
      ∧ Follows app ⟨(io', t), Function.update point i .run⟩ abs' := by
  obtain ⟨shared, threads⟩ := abs
  obtain rfl : shared = (io.connection, t) := h.shared
  cases hreacts with
  | @accepted before after session ok hoperations =>
      refine ⟨_, _, ThreadStep.once (r := ok)
        (h.queued_at hoperations) rfl .accept, rfl, ?_⟩
      refine h.reacts (.accept session) hi rfl hoperations rfl rfl rfl
        (fun _ _ => rfl) ?_
      cases ok <;> rfl
  | @read before after session chunk hoperations hpos hfits =>
      refine ⟨_, _, ThreadStep.once (r := some chunk)
        (h.queued_at hoperations) rfl (.read hpos hfits), rfl, ?_⟩
      refine h.reacts (.readSome session) hi rfl hoperations
        rfl rfl rfl (fun s hs => Function.update_of_ne hs ..) ?_
      simp only [Operation.view, Completion.view, IoService.receive,
        Function.update_self, Buffer.take_fill]
  | @readFailed before after session hoperations =>
      refine ⟨_, _, ThreadStep.once (r := none)
        (h.queued_at hoperations) rfl .readFailed, rfl, ?_⟩
      exact h.reacts (.readSome session) hi rfl hoperations
        rfl rfl rfl (fun _ _ => rfl) rfl
  | @written before after session message ok hoperations =>
      refine ⟨_, _, ThreadStep.once (r := ok)
        (h.queued_at hoperations) rfl .flush, rfl, ?_⟩
      refine h.reacts (.write session message) hi rfl
        hoperations rfl rfl rfl (fun _ _ => rfl) ?_
      cases ok <;> rfl

/-- A handler asks for what its session is about to do anyway. -/
theorem Follows.initiates_stutter {operation : Operation}
    (h : Follows app ⟨(io, t), point⟩ abs)
    (hi : (point i).session = some session) (hq : q.session = none)
    (hsession : operation.session = session)
    (hview : operation.view app io.buffer = (point i).view app io.buffer) :
    Follows app ⟨(io.initiate operation, t), Function.update point i q⟩ abs :=
  h.of_stutter session (h.initiates io hi hq ⟨rfl, rfl, rfl⟩ hsession
    (hview.trans (h.held i session hi).symm)) rfl

/-- A step of the server is one of the thread of a session, or none. -/
theorem server_step {now next : Workers ι π σ} {e : WorkerEvent ι C R}
    (hmove : WorkerStep app below now e next) (h : Follows app now abs) :
    ∃ fs abs', Run (ThreadStep app below) abs fs abs'
      ∧ fs.filterMap ThreadEvent.app = e.app.toList
      ∧ Follows app next abs' := by
  obtain ⟨⟨io, t⟩, point⟩ := now
  obtain ⟨i, a⟩ := e
  obtain ⟨x, q, hdoes, rfl⟩ := hmove.does
  obtain ⟨shared, threads⟩ := abs
  obtain rfl : shared = (io.connection, t) := h.shared
  have hview : ∀ session, (point i).session = some session →
      threads session = (point i).view app io.buffer := h.held i
  change WorkerDoes app below io t (point i) a x q at hdoes
  show ∃ fs abs', _ ∧ _ ∧ Follows app ⟨x, Function.update point i q⟩ abs'
  generalize hp : point i = p at hdoes hview
  have hi : (point i).session = p.session := by rw [hp]
  cases hdoes with
  | reacts hreacts => exact h.reacted hi hreacts
  | takes hoperations => exact ⟨[], _, .nil _, rfl, h.takes hi hoperations⟩
  | returns => exact ⟨[], _, .nil _, rfl, h.idles io.work hi rfl⟩
  | @endpoint session =>
      refine ⟨_, _, ThreadStep.once (r := true) (hview session rfl) rfl
        .endpoint, rfl, h.handles hi (fun s hs => ?_) nofun⟩
      cases hs
      exact ⟨rfl, rfl⟩
  | @noEndpoint session =>
      exact ⟨_, _, ThreadStep.once (r := false) (hview session rfl) rfl
        .endpoint, rfl, h.handles hi nofun fun _ => rfl⟩
  | starts =>
      exact ⟨[], _, .nil _, rfl, h.initiates_stutter hi rfl rfl (by rw [hp]; rfl)⟩
  | makes => exact ⟨[], _, .nil _, rfl, h.makes hi⟩
  | accepts =>
      exact ⟨[], _, .nil _, rfl, h.initiates_stutter hi rfl rfl (by rw [hp]; rfl)⟩
  | @reads session n =>
      refine ⟨[], _, .nil _, rfl, h.of_stutter session
        (h.handles hi (fun s hs => ?_) fun hend => ?_) rfl⟩
      · obtain ⟨heq, hproceed⟩ := App.view_proceed hs
        exact ⟨heq, hproceed.trans (hview session rfl).symm⟩
      · exact (hview session rfl).trans (App.goOn_of_proceed hend)
  | @app session requestMsg p c next r t' hcode hbelow =>
      have hthread : threadCode app (.handling session requestMsg p)
          = some ⟨.app c, fun r => app.goOn session requestMsg (next r)⟩ := by
        simp only [threadCode, hcode, Option.map_some]
      exact ⟨_, _, ThreadStep.once (r := r) (hview session rfl) hthread
        (.app hbelow), rfl, h.handles hi (fun s hs => App.view_proceed hs)
          App.goOn_of_proceed⟩
  | @logs session responseMsg =>
      refine ⟨_, _, ThreadStep.once (r := true) (hview session rfl) rfl
        .endpoint, rfl, h.handles hi (fun s hs => ?_) nofun⟩
      cases hs
      exact ⟨rfl, rfl⟩
  | @cannotLog session responseMsg =>
      exact ⟨_, _, ThreadStep.once (r := false) (hview session rfl) rfl
        .endpoint, rfl, h.handles hi nofun fun _ => rfl⟩
  | @writes session responseMsg =>
      exact ⟨_, _, ThreadStep.once (hview session rfl) rfl .write, rfl,
        h.initiates (io.send session responseMsg) hi rfl
          ⟨rfl, rfl, rfl⟩ rfl rfl⟩
  | readsOn =>
      exact ⟨[], _, .nil _, rfl, h.initiates_stutter hi rfl rfl (by rw [hp]; rfl)⟩
  | throws => exact ⟨[], _, .nil _, rfl, h.idles _ hi rfl⟩
  | finishes => exact ⟨[], _, .nil _, rfl, h.idles _ hi rfl⟩

end

-- =================================================================== the runs

/-- Nothing has been accepted. -/
theorem follows_start (app : App C R π) (buffer : Nat → Buffer) (t : σ) :
    Follows app (serverStart (ι := ι) buffer t) (threadsStart t) := by
  refine ⟨⟨?_, ?_, ?_, ?_, ?_⟩, rfl, ?_, ?_, fun _ _ => rfl, ?_⟩
  · exact List.nodup_singleton 0
  · intro session hmem
    obtain rfl := List.mem_singleton.mp hmem
    exact List.mem_range.mpr Nat.one_pos
  · nofun
  · nofun
  · nofun
  · intro operation hmem
    obtain rfl := List.mem_singleton.mp hmem
    rfl
  · nofun
  · intro session hs
    obtain rfl := Nat.lt_one_iff.mp hs
    exact Or.inl ⟨_, List.mem_singleton_self _, rfl⟩

/-- Whatever the threads of the server do, they do what one thread for
each connection does: each session is in one place, and its connection
and what the app works on are as that thread has left them. -/
theorem server_threads [DecidableEq ι] (app : App C R π)
    (below : Service C R σ) (buffer : Nat → Buffer) (t : σ)
    {es : List (WorkerEvent ι C R)} {now : Workers ι π σ}
    (h : Run (WorkerStep app below) (serverStart buffer t) es now) :
    ∃ fs abs, Run (ThreadStep app below) (threadsStart t) fs abs
      ∧ fs.filterMap ThreadEvent.app = es.filterMap WorkerEvent.app
      ∧ Follows app now abs :=
  h.follows (fun _ _ _ _ hfollows hmove => server_step hmove hfollows)
    (follows_start app buffer t)

/-- A server that only says that it is there. -/
abbrev healthApp : App Empty (fun _ => Empty) Str :=
  statelessApp reference HealthRequestHandler.handleRequest

theorem server_threads_health :
    ∃ es, ∃ now : Workers (Fin numThreads) Str Unit,
      Run (WorkerStep healthApp noService)
        (serverStart (fun _ => zeroBuffer) ()) es now
      ∧ .readSome 0 ∈ now.shared.1.operations
      ∧ ∃ fs abs, Run (ThreadStep healthApp noService) (threadsStart ()) fs abs
        ∧ fs.filterMap ThreadEvent.app = es.filterMap WorkerEvent.app
        ∧ Follows healthApp now abs := by
  have hthread : 0 < numThreads := by decide
  obtain ⟨es, now, hrun, -, hreading⟩ := accepted_run healthApp noService
    (Fin.mk 0 hthread) (fun _ => zeroBuffer) ()
  exact ⟨es, now, hrun, hreading,
    server_threads healthApp noService (fun _ => zeroBuffer) () hrun⟩

end Creeper

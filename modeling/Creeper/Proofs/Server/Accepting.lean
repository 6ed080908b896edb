/-
How long the server listens.

`start_accept` asks for one accept, and the handler of that accept calls
`start_accept` again, if it comes to that: `remote_endpoint()` throws for
a connection that is gone by then, before the call. So the accept is
handed on like a connection of a pool of one, and the throw is where it
is dropped (`accept_ledger`). Nothing brings it back.

Every exception costs a thread. And a thread leaves `run()` without one
only when there is no work, which is as long as there is an accept never
(`work_eq`). `server_life` has the three together.
-/
import Mathlib.Data.Set.Function
import Creeper.Lib.Pool
import Creeper.Lib.Totals
import Creeper.Proofs.Server.Threads

namespace Creeper

open Lib

variable {C : Type} {R : C → Type} {ι π σ : Type}

-- ================================================================= the accept

/-- The accept, or its handler that waits to be run. -/
def Operation.accepts : Operation → Option Unit
  | .accept _ => some ()
  | .ready (.accepted _ _) => some ()
  | _ => none

/-- The handler of the accept, up to the next accept. -/
def WorkerPoint.accepts : WorkerPoint π → Option Unit
  | .handleAccept _ => some ()
  | .start _ => some ()
  | .startAccept => some ()
  | .asyncAccept _ => some ()
  | _ => none

/-- Where the accept is. -/
def accepting (now : Workers ι π σ) : Ledger ι Unit :=
  ⟨now.shared.1.operations.filterMap Operation.accepts,
    WorkerPoint.accepts ∘ now.point⟩

/-- `remote_endpoint()` throws in `handle_accept`. -/
def AcceptThrew : Answer (ServerCall C) (ServerCall.Reply R) → Bool
  | ⟨.acceptedEndpoint _, there⟩ => !there
  | _ => false

/-- What a step does with the accept. -/
def acceptHandover : Answer (ServerCall C) (ServerCall.Reply R) → Handover
  | ⟨.run, .handler (.accepted _ _)⟩ => .take
  | ⟨.asyncAccept _, _⟩ => .give
  | ⟨.acceptedEndpoint _, false⟩ => .drop
  | _ => .keep

/-- It is dropped just where `handle_accept` throws. -/
theorem acceptHandover_eq_drop_iff
    {a : Answer (ServerCall C) (ServerCall.Reply R)} :
    acceptHandover a = .drop ↔ AcceptThrew a = true := by
  obtain ⟨c, r⟩ := a
  cases c with
  | run =>
      cases r with
      | handler completion =>
          cases completion <;> exact ⟨nofun, nofun⟩
      | reacted => exact ⟨nofun, nofun⟩
      | stopped => exact ⟨nofun, nofun⟩
  | acceptedEndpoint session =>
      cases r with
      | true => exact ⟨nofun, nofun⟩
      | false => exact iff_of_true rfl rfl
  | _ => exact ⟨nofun, nofun⟩

section

variable [DecidableEq ι] {app : App C R π} {below : Service C R σ}
  {io io' : IoService} {t t' : σ} {point : ι → WorkerPoint π} {i : ι}
  {q : WorkerPoint π} {now next : Workers ι π σ} {e : WorkerEvent ι C R}

theorem accepting_update :
    accepting ⟨(io', t'), Function.update point i q⟩
      = ⟨io'.operations.filterMap Operation.accepts,
        Function.update (WorkerPoint.accepts ∘ point) i q.accepts⟩ := by
  unfold accepting
  rw [Function.comp_update]

/-- A step that is not about the accept. -/
theorem accepting_keep
    (hoperations : io'.operations.filterMap Operation.accepts
      = io.operations.filterMap Operation.accepts)
    (hq : q.accepts = (point i).accepts) :
    (accepting ⟨(io, t), point⟩).Step (i, .keep)
      (accepting ⟨(io', t'), Function.update point i q⟩) := by
  have hhold : Function.update (WorkerPoint.accepts ∘ point) i q.accepts
      = WorkerPoint.accepts ∘ point := by
    rw [hq]
    exact Function.update_eq_self ..
  rw [accepting_update, hhold, hoperations]
  exact .keep

/-- The operations of which one is seen through. -/
theorem filterMap_accepts_congr {before after : List Operation}
    {operation operation' : Operation}
    (h : operation'.accepts = operation.accepts) :
    (before ++ operation' :: after).filterMap Operation.accepts
      = (before ++ operation :: after).filterMap Operation.accepts := by
  rw [List.filterMap_append, List.filterMap_append, List.filterMap_cons,
    List.filterMap_cons, h]

/-- And of which one is taken. -/
theorem filterMap_accepts_middle {before after : List Operation}
    {operation : Operation} (h : operation.accepts = none) :
    (before ++ after).filterMap Operation.accepts
      = (before ++ operation :: after).filterMap Operation.accepts := by
  rw [List.filterMap_append, List.filterMap_append,
    List.filterMap_cons_none h]

/-- And to which one is added. -/
theorem filterMap_accepts_initiate {operations : List Operation}
    {operation : Operation} (h : operation.accepts = none) :
    (operations ++ [operation]).filterMap Operation.accepts
      = operations.filterMap Operation.accepts := by
  rw [List.filterMap_append, List.filterMap_cons_none h]
  exact List.append_nil _

/-- The app has nothing to do with it. -/
theorem App.accepts_proceed (app : App C R π) (session : Nat)
    (requestMsg : Str) (p : π) :
    (app.proceed session requestMsg p).accepts = none := by
  unfold App.proceed
  cases app.result requestMsg p with
  | none => rfl
  | some ended => cases ended <;> rfl

/-- A handler is taken, maybe that of the accept. -/
theorem accept_takes {before after : List Operation} {completion : Completion}
    (hi : (point i).accepts = none)
    (h : io.operations = before ++ .ready completion :: after) :
    (accepting ⟨(io, t), point⟩).Step
      (i, acceptHandover (⟨.run, .handler completion⟩ :
        Answer (ServerCall C) (ServerCall.Reply R)))
      (accepting ⟨({ io with operations := before ++ after }, t),
        Function.update point i completion.handler⟩) := by
  cases completion with
  | accepted session ok =>
      have hqueue : io.operations.filterMap Operation.accepts
          = () :: (before ++ after).filterMap Operation.accepts := by
        apply List.length_injective
        rw [h, List.filterMap_append, List.filterMap_append,
          List.filterMap_cons]
        simp [Operation.accepts]
        omega
      have hq : ((Completion.accepted session ok).handler
          (π := π)).accepts = some () := by
        cases ok <;> rfl
      rw [accepting_update, hq]
      unfold accepting
      rw [hqueue]
      exact .take hi
  | read session bytesTransferred =>
      refine accepting_keep ?_ ?_
      · rw [h]
        exact filterMap_accepts_middle rfl
      · rw [hi]
        cases bytesTransferred <;> rfl
  | written session ok =>
      refine accepting_keep ?_ ?_
      · rw [h]
        exact filterMap_accepts_middle rfl
      · rw [hi]
        cases ok <;> rfl

/-- A step is one of the ledger of the accept. -/
theorem accept_step (h : WorkerStep app below now e next) :
    (accepting now).Step (e.1, acceptHandover e.2) (accepting next) := by
  obtain ⟨⟨io, t⟩, point⟩ := now
  obtain ⟨i, a⟩ := e
  obtain ⟨x, q, hdoes, rfl⟩ := h.does
  change WorkerDoes app below io t (point i) a x q at hdoes
  generalize hp : point i = p at hdoes
  have hi : (point i).accepts = p.accepts := by rw [hp]
  cases hdoes with
  | reacts hreacts =>
      refine accepting_keep (q := .run) ?_ hi.symm
      cases hreacts with
      | accepted hoperations =>
          rw [hoperations]
          exact filterMap_accepts_congr rfl
      | read hoperations =>
          rw [hoperations]
          exact filterMap_accepts_congr rfl
      | readFailed hoperations =>
          rw [hoperations]
          exact filterMap_accepts_congr rfl
      | written hoperations =>
          rw [hoperations]
          exact filterMap_accepts_congr rfl
  | takes hoperations => exact accept_takes hi hoperations
  | returns => exact accepting_keep (q := .returned) rfl hi.symm
  | @endpoint session =>
      exact accepting_keep (q := .start session) rfl hi.symm
  | noEndpoint =>
      rw [accepting_update]
      exact @Ledger.Step.drop _ _ _ _ _ _ () hi
  | starts =>
      exact accepting_keep (q := .startAccept)
        (filterMap_accepts_initiate rfl) hi.symm
  | makes => exact accepting_keep (q := .asyncAccept io.made) rfl hi.symm
  | accepts =>
      rw [accepting_update]
      show Ledger.Step _ _ ⟨(io.operations ++ [_]).filterMap _, _⟩
      rw [List.filterMap_append]
      exact @Ledger.Step.give _ _ _ _ _ _ () hi
  | reads => exact accepting_keep rfl ((app.accepts_proceed ..).trans hi.symm)
  | app => exact accepting_keep rfl ((app.accepts_proceed ..).trans hi.symm)
  | @logs session responseMsg =>
      exact accepting_keep (q := .asyncWrite session responseMsg) rfl hi.symm
  | cannotLog => exact accepting_keep (q := .finished true) rfl hi.symm
  | writes =>
      exact accepting_keep (q := .finished false)
        (filterMap_accepts_initiate rfl) hi.symm
  | readsOn =>
      exact accepting_keep (q := .finished false)
        (filterMap_accepts_initiate rfl) hi.symm
  | throws => exact accepting_keep (q := .exited) rfl hi.symm
  | finishes => exact accepting_keep (q := .run) rfl hi.symm

/-- A run is one of a pool of one connection, the accept. -/
theorem accept_ledger {buffer : Nat → Buffer} {es : List (WorkerEvent ι C R)}
    (h : Run (WorkerStep app below) (serverStart buffer t) es now) :
    Run Ledger.Step (Ledger.full [()])
      (es.map fun e => (e.1, acceptHandover e.2)) (accepting now) := by
  have hsim : ∀ s e t, WorkerStep (ι := ι) app below s e t →
      Ledger.Step (accepting s) (e.1, acceptHandover e.2) (accepting t) :=
    fun _ _ _ hstep => accept_step hstep
  exact h.simulates hsim

/-- The accept is under way, or its handler waits or runs. -/
def Listening (now : Workers ι π σ) : Prop :=
  (∃ operation ∈ now.shared.1.operations, operation.accepts = some ())
    ∨ ∃ i, (now.point i).accepts = some ()

omit [DecidableEq ι] in
theorem listening_iff :
    Listening now ↔ Ledger.Accounted [()] (accepting now) := by
  have hplaces : Listening now
      ↔ () ∈ (accepting now).queue ∨ ∃ i, (accepting now).hold i = some () :=
    or_congr List.mem_filterMap.symm Iff.rfl
  rw [hplaces]
  constructor
  · exact fun h conn _ => h
  · exact fun h => h () (List.mem_singleton_self ())

/-- The server listens until `handle_accept` throws. -/
theorem listening_iff_not_threw {buffer : Nat → Buffer}
    {es : List (WorkerEvent ι C R)}
    (h : Run (WorkerStep app below) (serverStart buffer t) es now) :
    Listening now ↔ ∀ e ∈ es, AcceptThrew e.2 = false := by
  rw [listening_iff,
    Ledger.accounted_iff (List.nodup_singleton ()) (accept_ledger h),
    List.forall_mem_map]
  apply forall₂_congr
  intro e _
  rw [← Bool.not_eq_true, ← acceptHandover_eq_drop_iff]

-- =================================================================== the work

/-- The handlers that run at a point. -/
def WorkerPoint.busy : WorkerPoint π → Nat
  | .run => 0
  | .exited => 0
  | .returned => 0
  | _ => 1

theorem Completion.busy_handler (completion : Completion) :
    (completion.handler (π := π)).busy = 1 := by
  cases completion with
  | accepted session ok => cases ok <;> rfl
  | read session bytesTransferred => cases bytesTransferred <;> rfl
  | written session ok => cases ok <;> rfl

theorem App.busy_proceed (app : App C R π) (session : Nat) (requestMsg : Str)
    (p : π) : (app.proceed session requestMsg p).busy = 1 := by
  unfold App.proceed
  cases app.result requestMsg p with
  | none => rfl
  | some ended => cases ended <;> rfl

/-- As many operations are there after one has been seen through. -/
theorem IoService.Reacts.counts (h : io.Reacts io') :
    io'.operations.length = io.operations.length ∧ io'.work = io.work := by
  have hlength : ∀ (before after : List Operation)
      (operation operation' : Operation),
      (before ++ operation' :: after).length
        = (before ++ operation :: after).length := by
    intro before after operation operation'
    rw [List.length_append, List.length_append]
    rfl
  cases h with
  | accepted hoperations =>
      rw [hoperations]
      exact ⟨hlength .., rfl⟩
  | read hoperations =>
      rw [hoperations]
      exact ⟨hlength .., rfl⟩
  | readFailed hoperations =>
      rw [hoperations]
      exact ⟨hlength .., rfl⟩
  | written hoperations =>
      rw [hoperations]
      exact ⟨hlength .., rfl⟩

/-- `run()` returns when there is no work. -/
theorem WorkerDoes.idle_of_returned {p : WorkerPoint π}
    {a : Answer (ServerCall C) (ServerCall.Reply R)} {x : IoService × σ}
    (h : WorkerDoes app below io t p a x q) (hq : q = .returned) :
    io.work = 0 := by
  have hbusy : q.busy ≠ 1 := by
    rw [hq]
    exact Nat.zero_ne_one
  cases h with
  | returns hidle => exact hidle
  | @takes _ _ completion => exact absurd completion.busy_handler hbusy
  | reads => exact absurd (app.busy_proceed ..) hbusy
  | app => exact absurd (app.busy_proceed ..) hbusy
  | _ => cases hq

/-- What a thread does keeps the count of the work. -/
theorem WorkerDoes.counts {p : WorkerPoint π}
    {a : Answer (ServerCall C) (ServerCall.Reply R)} {x : IoService × σ}
    (h : WorkerDoes app below io t p a x q) {running running' : Nat}
    (hrunning : running' + p.busy = running + q.busy)
    (hle : p.busy ≤ running)
    (hwork : io.work = io.operations.length + running) :
    x.1.work = x.1.operations.length + running' := by
  have hinitiate : ∀ (io' : IoService) operation,
      (io'.initiate operation).work = io'.work + 1
        ∧ (io'.initiate operation).operations.length
          = io'.operations.length + 1 := by
    intro io' operation
    exact ⟨rfl, List.length_append⟩
  cases h with
  | reacts hreacts =>
      obtain ⟨hlength, hsame⟩ := hreacts.counts
      simp only [WorkerPoint.busy] at hrunning ⊢
      omega
  | @takes before after completion hoperations =>
      rw [completion.busy_handler] at hrunning
      rw [hoperations, List.length_append, List.length_cons] at hwork
      simp only [WorkerPoint.busy, List.length_append] at hrunning ⊢
      omega
  | @starts session =>
      obtain ⟨hasked, hlength⟩ := hinitiate io (.readSome session)
      simp only [WorkerPoint.busy] at hrunning ⊢
      omega
  | @accepts session =>
      obtain ⟨hasked, hlength⟩ := hinitiate io (.accept session)
      simp only [WorkerPoint.busy] at hrunning ⊢
      omega
  | reads =>
      rw [app.busy_proceed] at hrunning
      simp only [WorkerPoint.busy] at hrunning ⊢
      omega
  | app =>
      rw [app.busy_proceed] at hrunning
      simp only [WorkerPoint.busy] at hrunning ⊢
      omega
  | @writes session responseMsg =>
      obtain ⟨hasked, hlength⟩ := hinitiate (io.send session responseMsg)
        (.write session responseMsg)
      simp only [WorkerPoint.busy, IoService.send] at hrunning hasked hlength ⊢
      omega
  | @readsOn session =>
      obtain ⟨hasked, hlength⟩ := hinitiate io (.readSome session)
      simp only [WorkerPoint.busy] at hrunning ⊢
      omega
  | _ =>
      simp only [WorkerPoint.busy] at hrunning hle ⊢
      omega

section

variable [Fintype ι]

/-- The work is what has been asked for and the handlers that run. -/
def WorkCounted (now : Workers ι π σ) : Prop :=
  now.shared.1.work
    = now.shared.1.operations.length + now.total WorkerPoint.busy

theorem work_step (h : WorkerStep app below now e next)
    (hwork : WorkCounted now) : WorkCounted next := by
  have htotal := h.total WorkerPoint.busy
  have hle := now.le_total WorkerPoint.busy e.1
  obtain ⟨⟨io, t⟩, point⟩ := now
  obtain ⟨x, q, hdoes, rfl⟩ := h.does
  refine hdoes.counts ?_ hle hwork
  rw [htotal]
  show _ + (Function.update point e.1 q e.1).busy = _
  rw [Function.update_self]

theorem work_counted {buffer : Nat → Buffer} {es : List (WorkerEvent ι C R)}
    (h : Run (WorkerStep app below) (serverStart buffer t) es now) :
    WorkCounted now := by
  refine h.invariant (fun _ _ _ hwork hstep => work_step hstep hwork) ?_
  have hzero : (serverStart (ι := ι) (π := π) buffer t).total
      WorkerPoint.busy = 0 := Finset.sum_const_zero
  show 1 = [Operation.accept 0].length + _
  rw [hzero]
  rfl

omit [DecidableEq ι] in
/-- While the server listens there is work. -/
theorem Listening.work_pos (h : Listening now) (hwork : WorkCounted now) :
    0 < now.shared.1.work := by
  rw [hwork]
  rcases h with ⟨operation, hmem, -⟩ | ⟨i, hi⟩
  · have hpos := List.length_pos_of_mem hmem
    omega
  · have hle := now.le_total WorkerPoint.busy i
    have hbusy : (now.point i).busy = 1 := by
      generalize now.point i = p at hi
      cases p with
      | handleAccept session => rfl
      | start session => rfl
      | startAccept => rfl
      | asyncAccept session => rfl
      | _ => cases hi
    omega

/-- A thread leaves `run()` without an exception only once the server has
stopped listening. -/
theorem returned_threw {buffer : Nat → Buffer}
    {es : List (WorkerEvent ι C R)}
    (h : Run (WorkerStep app below) (serverStart buffer t) es now) {i : ι}
    (hi : now.point i = .returned) :
    ∃ e ∈ es, AcceptThrew e.2 = true := by
  revert hi
  refine h.snoc_induction (P := fun es now => now.point i = .returned →
    ∃ e ∈ es, AcceptThrew e.2 = true) (fun hi => by cases hi) ?_
  intro es e now next hrun ih hstep hi
  suffices hthrew : ∃ e ∈ es, AcceptThrew e.2 = true by
    obtain ⟨e', hmem, hthrew⟩ := hthrew
    exact ⟨e', List.mem_append_left _ hmem, hthrew⟩
  by_cases hreturned : now.point i = .returned
  · exact ih hreturned
  · have hidle : now.shared.1.work = 0 := by
      obtain ⟨⟨io, t⟩, point⟩ := now
      obtain ⟨x, q, hdoes, rfl⟩ := hstep.does
      replace hi : Function.update point e.1 q i = .returned := hi
      by_cases he : i = e.1
      · subst he
        rw [Function.update_self] at hi
        exact hdoes.idle_of_returned hi
      · rw [Function.update_of_ne he] at hi
        exact absurd hi hreturned
    by_contra hnone
    have hlistening : Listening now := by
      rw [listening_iff_not_threw hrun]
      intro e' hmem
      rw [← Bool.not_eq_true]
      exact fun hthrew => hnone ⟨e', hmem, hthrew⟩
    have hpos := hlistening.work_pos (work_counted hrun)
    omega

-- ============================================================= the exceptions

/-- An exception has ended the thread. -/
def WorkerPoint.thrown : WorkerPoint π → Nat
  | .exited => 1
  | _ => 0

/-- An exception has left a handler. -/
def HandlerThrew : Answer (ServerCall C) (ServerCall.Reply R) → Bool
  | ⟨.workFinished threw, _⟩ => threw
  | _ => false

theorem WorkerPoint.thrown_le_one (p : WorkerPoint π) : p.thrown ≤ 1 := by
  cases p with
  | exited => exact Nat.le_refl 1
  | _ => exact Nat.zero_le 1

/-- A call ends the thread if an exception has left the handler. -/
theorem thrown_step (app : App C R π) (p : WorkerPoint π) (c : ServerCall C)
    (k : c.Reply R → WorkerPoint π) (hcode : workerCode app p = some ⟨c, k⟩)
    (r : c.Reply R) :
    (k r).thrown = p.thrown + if HandlerThrew ⟨c, r⟩ then 1 else 0 := by
  have hproceed : ∀ session requestMsg p,
      (app.proceed session requestMsg p).thrown = 0 := by
    intro session requestMsg p
    unfold App.proceed
    cases app.result requestMsg p with
    | none => rfl
    | some ended => cases ended <;> rfl
  cases p with
  | run =>
      cases hcode
      cases r with
      | reacted => rfl
      | stopped => rfl
      | handler completion =>
          cases completion with
          | accepted session ok => cases ok <;> rfl
          | read session bytesTransferred => cases bytesTransferred <;> rfl
          | written session ok => cases ok <;> rfl
  | handleAccept session =>
      cases hcode
      cases r <;> rfl
  | handleRead session n =>
      cases hcode
      exact hproceed ..
  | handling session requestMsg p =>
      obtain ⟨⟨c', next⟩, hown, heq⟩ := Option.map_eq_some_iff.mp hcode
      cases heq
      exact hproceed ..
  | logging session responseMsg =>
      cases hcode
      cases r <;> rfl
  | finished threw =>
      cases hcode
      cases threw <;> rfl
  | start session =>
      cases hcode
      rfl
  | startAccept =>
      cases hcode
      rfl
  | asyncAccept session =>
      cases hcode
      rfl
  | asyncWrite session responseMsg =>
      cases hcode
      rfl
  | handleWrite session =>
      cases hcode
      rfl
  | exited => cases hcode
  | returned => cases hcode

/-- Each exception has ended a thread. -/
theorem exceptions_count {buffer : Nat → Buffer}
    {es : List (WorkerEvent ι C R)}
    (h : Run (WorkerStep app below) (serverStart buffer t) es now) :
    es.countP (fun e => HandlerThrew e.2) = now.total WorkerPoint.thrown := by
  have hzero : (serverStart (ι := ι) (π := π) buffer t).total
      WorkerPoint.thrown = 0 := Finset.sum_const_zero
  rw [h.total_moves (thrown_step app), hzero, Nat.zero_add]

omit [Fintype ι] in
/-- Where every thread has been ended, nothing happens. -/
theorem stuck_of_thrown (hall : ∀ i, (now.point i).thrown = 1)
    (e : WorkerEvent ι C R) (next : Workers ι π σ) :
    ¬ WorkerStep app below now e next := by
  intro hstep
  obtain ⟨i, c, k, r, -, hcode, -⟩ := hstep.inv
  have hi := hall i
  generalize now.point i = p at hcode hi
  cases p with
  | exited => cases hcode
  | _ => cases hi

-- ================================================================== the server

/-- The server listens until `remote_endpoint()` throws in
`handle_accept`, and no thread leaves `run()` before without an
exception. Each exception ends a thread, so there are no more of them
than threads, and with the last thread everything ends. -/
theorem server_life {buffer : Nat → Buffer} {es : List (WorkerEvent ι C R)}
    (h : Run (WorkerStep app below) (serverStart buffer t) es now) :
    (Listening now ↔ ∀ e ∈ es, AcceptThrew e.2 = false)
    ∧ (Listening now → ∀ i, now.point i ≠ .returned)
    ∧ es.countP (fun e => HandlerThrew e.2) ≤ Fintype.card ι
    ∧ (es.countP (fun e => HandlerThrew e.2) = Fintype.card ι →
      ∀ e next, ¬ WorkerStep app below now e next) := by
  have hlistening := listening_iff_not_threw h
  have hcount := exceptions_count h
  refine ⟨hlistening, ?_, ?_, ?_⟩
  · intro hlistens i hi
    obtain ⟨e, hmem, hthrew⟩ := returned_threw h hi
    rw [hlistening.mp hlistens e hmem] at hthrew
    cases hthrew
  · rw [hcount]
    exact now.total_le_card WorkerPoint.thrown_le_one
  · intro hall
    rw [hcount] at hall
    exact stuck_of_thrown (Running.eq_one_of_total
      WorkerPoint.thrown_le_one hall)

end

end

theorem server_life_health :
    ∃ es, ∃ now : Workers (Fin numThreads) Str Unit,
      Run (WorkerStep healthApp noService)
        (serverStart (fun _ => zeroBuffer) ()) es now
      ∧ .readSome 0 ∈ now.shared.1.operations
      ∧ (Listening now ↔ ∀ e ∈ es, AcceptThrew e.2 = false) := by
  have hthread : 0 < numThreads := by decide
  obtain ⟨es, now, hrun, -, hreading⟩ := accepted_run healthApp noService
    (Fin.mk 0 hthread) (fun _ => zeroBuffer) ()
  exact ⟨es, now, hrun, hreading, (server_life hrun).1⟩

end Creeper

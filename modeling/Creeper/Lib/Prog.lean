/-
Programs over an interface of calls, and the two ways a shared state
can serve them.

A `Prog` is what a piece of stateful code does between its calls: either
it returns, or it makes a call and goes on with the answer. The state
the calls act on is not in it, so one program has both readings a
server needs:

- `Prog.eval` runs it alone, every call served in turn;
- `Conf.Step` lets any number of programs run at once on one state, a
  step being one call of one of them: the calls are atomic, everything
  between two calls of a program is up to the schedule.

`Conf.Step.inv` is the frame condition of the second reading, a step
changes one program and the shared state; and a program that has
returned is never changed (`Conf.run_ret`). `Conf.play` computes the one
run a schedule has, if it has any, and `Conf.playGuarded` the same under
a guard that can be decided.

# Layers

`Prog.through` serves each call of a program by a program over the calls
of the layer below. An answer `none` of the lower program is an
exception: it ends the upper one as well.

# What a program keeps to

`Prog.Meets guarantee rely post` is a rely-guarantee triple: as long as
the answers are as `rely` says, each call is as `guarantee` says and the
result as `post` says. An answered call leaves a program that meets the
same triple, so where serving the guaranteed calls keeps an invariant of
the shared state and gives the answers relied on, the invariant and the
triples of all programs hold along any run (`Conf.run_meets`).
-/
import Mathlib.Logic.Function.Basic
import Creeper.Lib.Run

namespace Creeper.Lib

variable {C C' : Type} {R : C → Type} {R' : C' → Type} {α β : Type}
  {σ ι : Type}

-- ============================================================= programs

/-- Code over the calls `C`, the call `c` being answered in `R c`. -/
inductive Prog (C : Type) (R : C → Type) (α : Type) where
  | ret (a : α)
  | call (c : C) (k : R c → Prog C R α)

/-- The program has returned. -/
def Prog.returned : Prog C R α → Bool
  | .ret _ => true
  | .call _ _ => false

/-- What the program has returned. -/
def Prog.result : Prog C R α → Option α
  | .ret a => some a
  | .call _ _ => none

theorem Prog.result_eq_some_iff {p : Prog C R α} {a : α} :
    p.result = some a ↔ p = .ret a := by
  cases p <;> simp [Prog.result]

theorem Prog.returned_iff (p : Prog C R α) :
    p.returned ↔ ∃ a, p = .ret a := by
  cases p <;> simp [Prog.returned]

/-- Every call the program can come to make, whatever its calls are
answered, meets `P`. -/
def Prog.AllCalls (P : C → Prop) : Prog C R α → Prop
  | .ret _ => True
  | .call c k => P c ∧ ∀ r, (k r).AllCalls P

/-- While the answers meet `rely`, each call meets `guarantee`, and so
does the result `post`. -/
def Prog.Meets (guarantee : C → Prop) (rely : (c : C) → R c → Prop)
    (post : α → Prop) : Prog C R α → Prop
  | .ret a => post a
  | .call c k =>
      guarantee c ∧ ∀ r, rely c r → (k r).Meets guarantee rely post

/-- Go on with the result of a program. -/
def Prog.bind : Prog C R α → (α → Prog C R β) → Prog C R β
  | .ret a, f => f a
  | .call c k, f => .call c fun r => (k r).bind f

/-- Go on with an answer, or end with the exception it is. -/
def Prog.orThrow (f : α → Prog C R (Option β)) :
    Option α → Prog C R (Option β)
  | none => .ret none
  | some a => f a

/-- Serve each call by a program of the layer below, up to the first
that throws. -/
def Prog.through (impl : (c : C) → Prog C' R' (Option (R c))) :
    Prog C R α → Prog C' R' (Option α)
  | .ret a => .ret (some a)
  | .call c k => (impl c).bind (orThrow fun r => (k r).through impl)

/-- How a state serves each call: the state after it, and the answer. -/
abbrev Server (C : Type) (R : C → Type) (σ : Type) : Type :=
  (c : C) → σ → σ × R c

/-- Run a program alone, its `n`-th call (counted from the given number)
served by `srv n`. -/
def Prog.eval (srv : Nat → Server C R σ) :
    Nat → Prog C R α → σ → σ × α
  | _, .ret a, s => (s, a)
  | n, .call c k, s =>
      Prog.eval srv (n + 1) (k (srv n c s).2) (srv n c s).1

@[simp] theorem Prog.eval_ret (srv : Nat → Server C R σ) (n : Nat)
    (a : α) (s : σ) : Prog.eval srv n (.ret a) s = (s, a) := rfl

theorem Prog.eval_call (srv : Nat → Server C R σ) (n : Nat) (c : C)
    (k : R c → Prog C R α) (s : σ) :
    Prog.eval srv n (.call c k) s
      = Prog.eval srv (n + 1) (k (srv n c s).2) (srv n c s).1 := rfl

/-- A program and what goes on with its result, run one after the other
by a server that does not count its calls. -/
theorem Prog.eval_bind (srv : Server C R σ) (n m : Nat) (p : Prog C R α)
    (f : α → Prog C R β) (s : σ) :
    Prog.eval (fun _ => srv) n (p.bind f) s
      = Prog.eval (fun _ => srv) m
          (f (Prog.eval (fun _ => srv) n p s).2)
          (Prog.eval (fun _ => srv) n p s).1 := by
  induction p generalizing n m s with
  | ret a =>
      rw [bind, eval_ret]
      induction f a generalizing n m s with
      | ret b => rfl
      | call c k ih =>
          rw [eval_call, eval_call]
          exact ih _ _ _ _
  | call c k ih =>
      rw [bind, eval_call, eval_call]
      exact ih _ _ _ _

/-- A call that throws a layer below ends the program. -/
theorem Prog.eval_through_none {srv : Server C' R' σ} {n : Nat}
    {impl : (c : C) → Prog C' R' (Option (R c))} {c : C} {s s' : σ}
    (h : Prog.eval (fun _ => srv) n (impl c) s = (s', none))
    (k : R c → Prog C R α) :
    Prog.eval (fun _ => srv) n ((Prog.call c k).through impl) s
      = (s', none) := by
  rw [through, eval_bind srv n n, h]
  rfl

/-- A call that is answered a layer below. -/
theorem Prog.eval_through_some {srv : Server C' R' σ} {n : Nat}
    {impl : (c : C) → Prog C' R' (Option (R c))} {c : C} {s s' : σ}
    {r : R c} (h : Prog.eval (fun _ => srv) n (impl c) s = (s', some r))
    (k : R c → Prog C R α) :
    Prog.eval (fun _ => srv) n ((Prog.call c k).through impl) s
      = Prog.eval (fun _ => srv) n ((k r).through impl) s' := by
  rw [through, eval_bind srv n n, h]
  rfl

-- ============================================================= the rules

namespace Prog

variable {P : C → Prop} {Q : C' → Prop}
  {impl : (c : C) → Prog C' R' (Option (R c))}

/-- What goes on with the result keeps what the program keeps. -/
theorem AllCalls.bind {p : Prog C R α} {f : α → Prog C R β}
    (h : p.AllCalls P) (hf : ∀ a, (f a).AllCalls P) :
    (p.bind f).AllCalls P := by
  induction p with
  | ret a => exact hf a
  | call c k ih => exact ⟨h.1, fun r => ih r (h.2 r)⟩

/-- The calls of a program are calls of it and what goes on with it. -/
theorem AllCalls.of_bind {p : Prog C R α} {f : α → Prog C R β}
    (h : (p.bind f).AllCalls P) : p.AllCalls P := by
  induction p with
  | ret a => trivial
  | call c k ih => exact ⟨h.1, fun r => ih r (h.2 r)⟩

theorem through_call (c : C) (k : R c → Prog C R α) :
    (Prog.call c k).through impl
      = (impl c).bind (orThrow fun r => (k r).through impl) := rfl

/-- What holds of the programs behind all calls of a program holds of
the program a layer below. -/
theorem AllCalls.through {p : Prog C R α}
    (h : p.AllCalls fun c => (impl c).AllCalls Q) :
    (p.through impl).AllCalls Q := by
  induction p with
  | ret a => trivial
  | call c k ih =>
      rw [through_call]
      apply h.1.bind
      intro answer
      cases answer with
      | none => trivial
      | some r => exact ih r (h.2 r)

/-- The first call of a program is served first. -/
theorem AllCalls.of_through {c : C} {k : R c → Prog C R α}
    (h : ((Prog.call c k).through impl).AllCalls Q) :
    (impl c).AllCalls Q := by
  rw [through_call] at h
  exact h.of_bind

/-- Calls of a weaker kind. -/
theorem AllCalls.mono {P' : C → Prop} {p : Prog C R α}
    (h : p.AllCalls P) (hP : ∀ c, P c → P' c) : p.AllCalls P' := by
  induction p with
  | ret a => trivial
  | call c k ih => exact ⟨hP c h.1, fun r => ih r (h.2 r)⟩

/-- The triple of a program and what goes on with its result. -/
theorem Meets.bind {rely : (c : C) → R c → Prop} {mid : α → Prop}
    {post : β → Prop} {p : Prog C R α} {f : α → Prog C R β}
    (h : p.Meets P rely mid) (hf : ∀ a, mid a → (f a).Meets P rely post) :
    (p.bind f).Meets P rely post := by
  induction p with
  | ret a => exact hf a h
  | call c k ih => exact ⟨h.1, fun r hr => ih r (h.2 r hr)⟩

end Prog

-- ========================================================= interleaving

/-- Programs in progress over one shared state. -/
structure Conf (ι : Type) (C : Type) (R : C → Type) (α σ : Type) where
  shared : σ
  thread : ι → Prog C R α

namespace Conf

variable [DecidableEq ι] {srv : Server C R σ}

/-- One call of the program `i`, served on the shared state. -/
inductive Step (srv : Server C R σ) :
    Conf ι C R α σ → ι → Conf ι C R α σ → Prop
  | call {cf : Conf ι C R α σ} {i : ι} (c : C) (k : R c → Prog C R α)
      (h : cf.thread i = .call c k) :
      Step srv cf i
        { shared := (srv c cf.shared).1
          thread := Function.update cf.thread i
            (k (srv c cf.shared).2) }

/-- What a step did, read off the configurations: the program that moved
was at a call, and the rest is as before. -/
theorem Step.inv {cf cf' : Conf ι C R α σ} {i : ι}
    (h : Step srv cf i cf') :
    ∃ (c : C) (k : R c → Prog C R α), cf.thread i = .call c k
      ∧ cf'.shared = (srv c cf.shared).1
      ∧ cf'.thread i = k (srv c cf.shared).2
      ∧ ∀ j, j ≠ i → cf'.thread j = cf.thread j := by
  cases h with
  | call c k h =>
      refine ⟨c, k, h, rfl, Function.update_self .., fun j hj => ?_⟩
      exact Function.update_of_ne hj ..

/-- A program that has returned makes no step. -/
theorem Step.ne_of_ret {cf cf' : Conf ι C R α σ} {i j : ι} {a : α}
    (h : Step srv cf i cf') (hj : cf.thread j = .ret a) : j ≠ i := by
  intro heq
  subst heq
  obtain ⟨c, k, hc, -⟩ := h.inv
  rw [hj] at hc
  cases hc

/-- A program that has returned is left alone by a step. -/
theorem Step.ret {cf cf' : Conf ι C R α σ} {i j : ι} {a : α}
    (h : Step srv cf i cf') (hj : cf.thread j = .ret a) :
    cf'.thread j = .ret a := by
  obtain ⟨-, -, -, -, -, hframe⟩ := h.inv
  rw [hframe j (h.ne_of_ret hj), hj]

/-- A program that has returned is left alone by a run. -/
theorem run_ret {cf cf' : Conf ι C R α σ} {sched : List ι} {j : ι} {a : α}
    (h : Run (Step srv) cf sched cf') (hj : cf.thread j = .ret a) :
    cf'.thread j = .ret a :=
  h.invariant (I := fun cf => cf.thread j = .ret a)
    (fun _ _ _ hI hst => hst.ret hI) hj

/-- The rely-guarantee rule. If serving a guaranteed call, at a step the
guard allows, keeps the invariant and gives an answer that is relied on,
then a guarded run keeps the invariant and every program's triple. -/
theorem run_meets {Q : Conf ι C R α σ → ι → Prop} {I : σ → Prop}
    {guarantee : ι → C → Prop} {rely : ι → (c : C) → R c → Prop}
    {post : ι → α → Prop}
    (hserve : ∀ cf i c k, I cf.shared → Q cf i →
      cf.thread i = .call c k → guarantee i c →
      I (srv c cf.shared).1 ∧ rely i c (srv c cf.shared).2)
    {cf cf' : Conf ι C R α σ} {sched : List ι}
    (hrun : Run (Guarded Q (Step srv)) cf sched cf') (hI : I cf.shared)
    (hmeets : ∀ i, (cf.thread i).Meets (guarantee i) (rely i) (post i)) :
    I cf'.shared
      ∧ ∀ i, (cf'.thread i).Meets (guarantee i) (rely i) (post i) := by
  refine hrun.invariant (I := fun cf => I cf.shared
    ∧ ∀ i, (cf.thread i).Meets (guarantee i) (rely i) (post i))
    (fun cf i cf' hinv hstep => ?_) ⟨hI, hmeets⟩
  obtain ⟨hI, hmeets⟩ := hinv
  obtain ⟨hQ, hstep⟩ := hstep
  obtain ⟨c, k, hcall, hshared, hthread, hframe⟩ := hstep.inv
  have hi := hmeets i
  rw [hcall] at hi
  obtain ⟨hkept, hanswer⟩ := hserve cf i c k hI hQ hcall hi.1
  constructor
  · rw [hshared]
    exact hkept
  · intro j
    by_cases hji : j = i
    · subst hji
      rw [hthread]
      exact hi.2 _ hanswer
    · rw [hframe j hji]
      exact hmeets j

/-- Where a schedule leads, unless it gives a turn to a program that has
returned. -/
def play (srv : Server C R σ) :
    Conf ι C R α σ → List ι → Option (Conf ι C R α σ)
  | cf, [] => some cf
  | cf, i :: sched =>
      match cf.thread i with
      | .ret _ => none
      | .call c k => play srv
          { shared := (srv c cf.shared).1
            thread := Function.update cf.thread i
              (k (srv c cf.shared).2) } sched

/-- A schedule played is a run. -/
theorem run_of_play {cf cf' : Conf ι C R α σ} {sched : List ι}
    (h : play srv cf sched = some cf') : Run (Step srv) cf sched cf' := by
  induction sched generalizing cf with
  | nil =>
      obtain rfl := Option.some.inj h
      exact .nil cf
  | cons i sched ih =>
      rw [play] at h
      split at h
      · cases h
      · next c k hc => exact .cons (.call c k hc) (ih h)

/-- Where a schedule leads whose steps all meet a guard. -/
def playGuarded (Q : Conf ι C R α σ → ι → Prop)
    [∀ cf i, Decidable (Q cf i)] (srv : Server C R σ) :
    Conf ι C R α σ → List ι → Option (Conf ι C R α σ)
  | cf, [] => some cf
  | cf, i :: sched =>
      match cf.thread i with
      | .ret _ => none
      | .call c k =>
          if Q cf i then
            playGuarded Q srv
              { shared := (srv c cf.shared).1
                thread := Function.update cf.thread i
                  (k (srv c cf.shared).2) } sched
          else none

/-- A schedule played under a guard is a guarded run. -/
theorem run_of_playGuarded {Q : Conf ι C R α σ → ι → Prop}
    [∀ cf i, Decidable (Q cf i)] {cf cf' : Conf ι C R α σ}
    {sched : List ι} (h : playGuarded Q srv cf sched = some cf') :
    Run (Guarded Q (Step srv)) cf sched cf' := by
  induction sched generalizing cf with
  | nil =>
      obtain rfl := Option.some.inj h
      exact .nil cf
  | cons i sched ih =>
      rw [playGuarded] at h
      split at h
      · cases h
      · next c k hc =>
        split at h
        · next hQ => exact .cons ⟨hQ, .call c k hc⟩ (ih h)
        · cases h

end Conf

end Creeper.Lib

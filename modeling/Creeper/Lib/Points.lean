/-
Code by its points, any number of pieces at once, over a state that
chooses its answers.

A `Prog` is the tree of all a program can come to do, so it returns
whatever it is answered. Code with a loop that waits for an answer need
not. It is given by its points instead: what it calls at each, and where
each answer leads (`Code`).

A `Service` is how a state answers calls, as a relation. There may be
many answers to a call; while there is none, the call waits.

# The rules

- `Move.inv`: a move changes one point and the state.
- `Run.ended`: code that has ended has ended for good.
- `Run.count_moves`: what the code counts on its way, a run counts.
-/
import Mathlib.Logic.Function.Basic
import Creeper.Lib.Run

namespace Creeper.Lib

variable {C : Type} {R : C → Type} {ι π σ : Type}

-- ================================================================ the system

/-- The call made at each point, and the point after each answer; `none`
where the code has ended. -/
abbrev Code (C : Type) (R : C → Type) (π : Type) : Type :=
  π → Option ((c : C) × (R c → π))

/-- How a state may answer a call, and the state after it. -/
abbrev Service (C : Type) (R : C → Type) (σ : Type) : Type :=
  (c : C) → σ → R c → σ → Prop

/-- The points that pieces of code have come to, over one state. -/
structure Running (ι π σ : Type) where
  shared : σ
  point : ι → π

/-- A call with its answer. -/
abbrev Answer (C : Type) (R : C → Type) : Type := (c : C) × R c

/-- One piece of code makes its call. -/
inductive Move [DecidableEq ι] (code : Code C R π) (service : Service C R σ) :
    Running ι π σ → ι × Answer C R → Running ι π σ → Prop
  | call {now : Running ι π σ} {i : ι} {c : C} {k : R c → π} {r : R c}
      {shared : σ} (hcode : code (now.point i) = some ⟨c, k⟩)
      (hservice : service c now.shared r shared) :
      Move code service now (i, ⟨c, r⟩)
        { shared := shared, point := Function.update now.point i (k r) }

variable [DecidableEq ι] {code : Code C R π} {service : Service C R σ}
  {now next : Running ι π σ} {e : ι × Answer C R}

/-- Over a service that does more. -/
theorem Move.over {service' : Service C R σ}
    (h : Move code service now e next)
    (hserve : ∀ {c s r s'}, service c s r s' → service' c s r s') :
    Move code service' now e next := by
  cases h with
  | call hcode hservice => exact .call hcode (hserve hservice)

/-- All that a move does. -/
theorem Move.inv (h : Move code service now e next) :
    ∃ i c k r, e = (i, ⟨c, r⟩) ∧ code (now.point i) = some ⟨c, k⟩
      ∧ service c now.shared r next.shared ∧ next.point i = k r
      ∧ ∀ j, j ≠ i → next.point j = now.point j := by
  cases h with
  | @call i c k r shared hcode hservice =>
      refine ⟨i, c, k, r, rfl, hcode, hservice, ?_, ?_⟩
      · exact Function.update_self ..
      · intro j hj
        exact Function.update_of_ne hj ..

-- ================================================================= the rules

/-- Code that has ended stays where it is. -/
theorem Move.ended (h : Move code service now e next) {i : ι}
    (hend : code (now.point i) = none) : next.point i = now.point i := by
  obtain ⟨j, c, k, r, -, hcode, -, -, hother⟩ := h.inv
  apply hother
  intro heq
  subst heq
  rw [hend] at hcode
  cases hcode

/-- Code that has ended has ended for good. -/
theorem Run.ended {es : List (ι × Answer C R)}
    (h : Run (Move code service) now es next) {i : ι}
    (hend : code (now.point i) = none) : next.point i = now.point i := by
  induction h with
  | nil => rfl
  | cons hmove _ ih =>
      have hstay := hmove.ended hend
      rw [ih (by rw [hstay]; exact hend), hstay]

/-- What a piece of code counts at each of its calls is what a run of
all of them counts. -/
theorem Run.count_moves {counted : Answer C R → Bool} {count : π → Nat}
    (hcount : ∀ p c k, code p = some ⟨c, k⟩ → ∀ r,
      count (k r) = count p + if counted ⟨c, r⟩ then 1 else 0)
    {es : List (ι × Answer C R)} (h : Run (Move code service) now es next)
    (i : ι) :
    count (next.point i)
      = count (now.point i) + es.countP fun e => e.1 = i && counted e.2 := by
  induction h with
  | nil => rfl
  | @cons now mid next e es hmove _ ih =>
      obtain ⟨j, c, k, r, rfl, hcode, -, hpoint, hother⟩ := hmove.inv
      rw [ih, List.countP_cons]
      by_cases hj : j = i
      · subst hj
        rw [hpoint, hcount _ _ _ hcode]
        simp only [decide_true, Bool.true_and]
        omega
      · rw [hother i (Ne.symm hj)]
        simp [hj]

end Creeper.Lib

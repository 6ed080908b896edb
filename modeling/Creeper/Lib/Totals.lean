/-
What finitely many threads have, added up.

`Running.total` adds up a number that each point has. A move changes it
at one thread only (`Move.total`), so what a call adds to the number of
its thread it adds to the total, and a total that no call changes is the
same all along. `Run.total_moves` counts the calls of one kind by what
they leave behind.
-/
import Mathlib.Algebra.BigOperators.Group.Finset.Basic
import Mathlib.Algebra.Order.BigOperators.Group.Finset
import Mathlib.Data.Fintype.BigOperators
import Creeper.Lib.Points

namespace Creeper.Lib

variable {C : Type} {R : C → Type} {ι π σ : Type} [Fintype ι]

/-- What all threads have of something. -/
def Running.total (f : π → Nat) (now : Running ι π σ) : Nat :=
  ∑ i, f (now.point i)

/-- A thread has no more than all. -/
theorem Running.le_total (f : π → Nat) (now : Running ι π σ) (i : ι) :
    f (now.point i) ≤ now.total f :=
  Finset.single_le_sum (f := fun j => f (now.point j))
    (fun _ _ => Nat.zero_le _) (Finset.mem_univ i)

/-- Where each has at most one, all have at most as many as there are. -/
theorem Running.total_le_card {f : π → Nat} (hf : ∀ p, f p ≤ 1)
    (now : Running ι π σ) : now.total f ≤ Fintype.card ι := by
  rw [Fintype.card_eq_sum_ones]
  exact Finset.sum_le_sum fun i _ => hf (now.point i)

/-- And they have as many as there are only if each has one. -/
theorem Running.eq_one_of_total {f : π → Nat} (hf : ∀ p, f p ≤ 1)
    {now : Running ι π σ} (h : now.total f = Fintype.card ι) (i : ι) :
    f (now.point i) = 1 := by
  have hsum : ∑ i, f (now.point i) = ∑ _i : ι, 1 :=
    h.trans Fintype.card_eq_sum_ones
  exact (Finset.sum_eq_sum_iff_of_le fun i _ => hf (now.point i)).mp hsum i
    (Finset.mem_univ i)

variable [DecidableEq ι] {code : Code C R π} {service : Service C R σ}
  {now next : Running ι π σ}

/-- A move changes what one thread has. -/
theorem Move.total {e : ι × Answer C R} (h : Move code service now e next)
    (f : π → Nat) :
    next.total f + f (now.point e.1) = now.total f + f (next.point e.1) := by
  obtain ⟨i, c, k, r, rfl, -, -, -, hother⟩ := h.inv
  have hnow : ∑ j, f (now.point j)
      = f (now.point i) + ∑ j ∈ Finset.univ.erase i, f (now.point j) :=
    (Finset.add_sum_erase _ _ (Finset.mem_univ i)).symm
  have hnext : ∑ j, f (next.point j)
      = f (next.point i) + ∑ j ∈ Finset.univ.erase i, f (next.point j) :=
    (Finset.add_sum_erase _ _ (Finset.mem_univ i)).symm
  have hrest : ∑ j ∈ Finset.univ.erase i, f (next.point j)
      = ∑ j ∈ Finset.univ.erase i, f (now.point j) := by
    apply Finset.sum_congr rfl
    intro j hj
    rw [hother j (Finset.ne_of_mem_erase hj)]
  unfold Running.total
  rw [hnow, hnext, hrest]
  show _ + f (now.point i) = _ + f (next.point i)
  omega

/-- What the calls of one kind leave behind counts them. -/
theorem Run.total_moves {counted : Answer C R → Bool} {count : π → Nat}
    (hcount : ∀ p c k, code p = some ⟨c, k⟩ → ∀ r,
      count (k r) = count p + if counted ⟨c, r⟩ then 1 else 0)
    {es : List (ι × Answer C R)} (h : Run (Move code service) now es next) :
    next.total count = now.total count + es.countP fun e => counted e.2 := by
  induction h with
  | nil => rfl
  | @cons now mid next e es hmove _ ih =>
      have htotal := hmove.total count
      obtain ⟨i, c, k, r, rfl, hcode, -, hpoint, -⟩ := hmove.inv
      have hmid := hcount _ _ _ hcode r
      rw [← hpoint] at hmid
      rw [ih, List.countP_cons]
      show _ = _ + (_ + if counted ⟨c, r⟩ = true then 1 else 0)
      have htotal : mid.total count + count (now.point i)
          = now.total count + count (mid.point i) := htotal
      omega

end Creeper.Lib

/-
Loops that nothing bounds.

A turn of a loop goes on from another state or leaves the loop with a
result (`Turn`). It is an `Option`, since it may have loops of its own.
`loop` makes turns until one leaves, as many as there is fuel for, and
counts them: where it gives a result, that is what the loop does, and
where it gives none for any fuel, the loop goes on for ever.

# The rules

- `loop_meets`: what every turn keeps holds of the result.
- `loop_leaves`: a loop each turn of which makes a size smaller is left,
  after one turn more than the size at most. The fuel of the loops
  inside may depend on the size as well.
-/
import Mathlib.Tactic.TypeStar

namespace Creeper.Lib

variable {σ ρ : Type*}

-- ================================================================== turns

/-- What one turn of a loop does. -/
inductive Turn (σ ρ : Type*)
  | again (s : σ)
  | leave (r : ρ)

/-- The turn goes on from a state with `P` or leaves with a result with
`Q`. -/
def Turn.Meets (P : σ → Prop) (Q : ρ → Prop) : Turn σ ρ → Prop
  | .again s => P s
  | .leave r => Q r

/-- The loop from a state, if it is left within so many turns: how many
they are, and what it is left with. -/
def loop (turn : σ → Option (Turn σ ρ)) : Nat → σ → Option (Nat × ρ)
  | 0, _ => none
  | fuel + 1, s =>
      match turn s with
      | none => none
      | some (.leave r) => some (1, r)
      | some (.again s) =>
          (loop turn fuel s).map fun (turns, r) => (turns + 1, r)

section

variable {turn : σ → Option (Turn σ ρ)} {s s' : σ} {r : ρ} {fuel n : Nat}

theorem loop_of_leave (h : turn s = some (.leave r)) (fuel : Nat) :
    loop turn (fuel + 1) s = some (1, r) := by
  rw [loop, h]

theorem loop_of_again (h : turn s = some (.again s'))
    (hloop : loop turn fuel s' = some (n, r)) :
    loop turn (fuel + 1) s = some (n + 1, r) := by
  rw [loop, h]
  simp only
  rw [hloop]
  rfl

-- ================================================================== rules

/-- What every turn keeps. -/
theorem loop_meets {P : σ → Prop} {Q : ρ → Prop}
    (hturn : ∀ s t, P s → turn s = some t → t.Meets P Q) (hs : P s)
    (hloop : loop turn fuel s = some (n, r)) : Q r := by
  induction fuel generalizing s n with
  | zero => cases hloop
  | succ fuel ih =>
      rw [loop] at hloop
      cases ht : turn s with
      | none => rw [ht] at hloop; cases hloop
      | some t =>
          have hmeets := hturn s t hs ht
          rw [ht] at hloop
          cases t with
          | leave r' => cases hloop; exact hmeets
          | again s' =>
              obtain ⟨⟨n', r'⟩, hloop', heq⟩ :=
                Option.map_eq_some_iff.mp hloop
              cases heq
              exact ih hmeets hloop'

end

/-- A loop each turn of which makes a size smaller, and has its result
with any fuel beyond the size. -/
theorem loop_leaves {turn : Nat → σ → Option (Turn σ ρ)} (size : σ → Nat)
    (hturn : ∀ s, ∃ t : Turn σ ρ,
      t.Meets (fun s' => size s' < size s) (fun _ => True)
        ∧ ∀ fuel, size s < fuel → turn fuel s = some t) (s : σ) :
    ∃ n r, n ≤ size s + 1 ∧ ∀ inside fuel, size s < inside →
      size s < fuel → loop (turn inside) fuel s = some (n, r) := by
  induction hn : size s using Nat.strongRecOn generalizing s with
  | _ _ ih =>
      subst hn
      obtain ⟨t, hsmaller, ht⟩ := hturn s
      cases t with
      | leave r =>
          refine ⟨1, r, by omega, ?_⟩
          intro inside fuel hinside hfuel
          cases fuel with
          | zero => omega
          | succ fuel => exact loop_of_leave (ht inside hinside) fuel
      | again s' =>
          have hlt : size s' < size s := hsmaller
          obtain ⟨n, r, hle, hloop⟩ := ih (size s') hlt s' rfl
          refine ⟨n + 1, r, by omega, ?_⟩
          intro inside fuel hinside hfuel
          cases fuel with
          | zero => omega
          | succ fuel =>
              apply loop_of_again (ht inside hinside)
              apply hloop inside fuel
              · omega
              · omega

end Creeper.Lib

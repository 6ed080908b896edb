/-
One piece of code by itself.

What several threads can do is often shown by letting one of them go and
keeping the others where they are. `Solo` is a piece of code on its own
with a state, so that a run of it can be written down once: it is a run
of the threads in which only this one moves (`Run.of_solo`), of the code
of one side among two (`Run.solo_beside`), and of a program in which the
code serves a call (`Implementation.solo_layered`).
-/
import Creeper.Lib.Sides

namespace Creeper.Lib

variable {C C₁ C₂ : Type} {R : C → Type} {R₁ : C₁ → Type} {R₂ : C₂ → Type}
  {α ι π π₁ π₂ σ σ₁ σ₂ : Type}

/-- One piece of code makes its call. -/
inductive Solo (code : Code C R π) (service : Service C R σ) :
    σ × π → Answer C R → σ × π → Prop
  | call {s s' : σ} {p : π} {c : C} {k : R c → π} {r : R c}
      (hcode : code p = some ⟨c, k⟩) (hservice : service c s r s') :
      Solo code service (s, p) ⟨c, r⟩ (s', k r)

/-- It can go from one to the other, with answers that are `ok`. -/
def Goes (code : Code C R π) (service : Service C R σ)
    (ok : Answer C R → Prop) (x y : σ × π) : Prop :=
  ∃ as, Run (Solo code service) x as y ∧ ∀ a ∈ as, ok a

namespace Goes

variable {code : Code C R π} {service : Service C R σ}
  {ok : Answer C R → Prop} {x y z : σ × π}

theorem refl (x : σ × π) : Goes code service ok x x :=
  ⟨[], .nil x, nofun⟩

/-- By a call that is answered. -/
theorem call {s s' : σ} {p : π} {c : C} {k : R c → π} {r : R c}
    (hcode : code p = some ⟨c, k⟩) (hservice : service c s r s')
    (hok : ok ⟨c, r⟩) (h : Goes code service ok (s', k r) y) :
    Goes code service ok (s, p) y := by
  obtain ⟨as, hrun, has⟩ := h
  exact ⟨⟨c, r⟩ :: as, .cons (.call hcode hservice) hrun,
    List.forall_mem_cons.mpr ⟨hok, has⟩⟩

theorem trans (h : Goes code service ok x y) (h' : Goes code service ok y z) :
    Goes code service ok x z := by
  obtain ⟨as, hrun, has⟩ := h
  obtain ⟨bs, hrun', hbs⟩ := h'
  exact ⟨as ++ bs, hrun.append hrun', List.forall_mem_append.mpr ⟨has, hbs⟩⟩

/-- Over a service that does more. -/
theorem mono {service' : Service C R σ} (h : Goes code service ok x y)
    (hserve : ∀ c s r s', service c s r s' → service' c s r s') :
    Goes code service' ok x y := by
  obtain ⟨as, hrun, has⟩ := h
  refine ⟨as, hrun.mono fun _ _ _ hstep => ?_, has⟩
  cases hstep with
  | call hcode hservice => exact .call hcode (hserve _ _ _ _ hservice)

end Goes

-- ============================================================== among threads

/-- A run of one thread, the others staying where they are. -/
theorem Run.of_solo [DecidableEq ι] {code : Code C R π}
    {service : Service C R σ} {x y : σ × π} {as : List (Answer C R)}
    (h : Run (Solo code service) x as y) (point : ι → π) (i : ι) :
    Run (Move code service) ⟨x.1, Function.update point i x.2⟩
      (as.map fun a => (i, a)) ⟨y.1, Function.update point i y.2⟩ := by
  induction h with
  | nil => exact .nil _
  | @cons x mid y a as hstep _ ih =>
      cases hstep with
      | @call s s' p c k r hcode hservice =>
          have hmove : Move code service ⟨s, Function.update point i p⟩
              (i, ⟨c, r⟩) ⟨s', Function.update (Function.update point i p) i
                (k r)⟩ := by
            apply Move.call
            · show code (Function.update point i p i) = some ⟨c, k⟩
              rw [Function.update_self]
              exact hcode
            · exact hservice
          rw [Function.update_idem] at hmove
          exact .cons hmove ih

-- ================================================================= on one side

/-- An answer of the first of two interfaces. -/
def Answer.left (a : Answer C₁ R₁) : Answer (C₁ ⊕ C₂) (BothReply R₁ R₂) :=
  ⟨.inl a.1, a.2⟩

/-- An answer of the second. -/
def Answer.right (a : Answer C₂ R₂) : Answer (C₁ ⊕ C₂) (BothReply R₁ R₂) :=
  ⟨.inr a.1, a.2⟩

section

variable {left : Code C₁ R₁ π₁} {right : Code C₂ R₂ π₂}
  {lower : Service C₁ R₁ σ₁} {upper : Service C₂ R₂ σ₂}

/-- A run of the first of two sides. -/
theorem Run.solo_left {x y : σ₁ × π₁} {as : List (Answer C₁ R₁)}
    (h : Run (Solo left lower) x as y) (t : σ₂) :
    Run (Solo (Code.beside left right) (Service.Beside lower upper))
      ((x.1, t), .inl x.2) (as.map Answer.left) ((y.1, t), .inl y.2) := by
  induction h with
  | nil => exact .nil _
  | cons hstep _ ih =>
      cases hstep with
      | call hcode hservice =>
          exact .cons (.call (Code.beside_left hcode) (.left hservice)) ih

/-- A run of the second of two sides. -/
theorem Run.solo_right {x y : σ₂ × π₂} {as : List (Answer C₂ R₂)}
    (h : Run (Solo right upper) x as y) (s : σ₁) :
    Run (Solo (Code.beside left right) (Service.Beside lower upper))
      ((s, x.1), .inr x.2) (as.map Answer.right) ((s, y.1), .inr y.2) := by
  induction h with
  | nil => exact .nil _
  | cons hstep _ ih =>
      cases hstep with
      | call hcode hservice =>
          exact .cons (.call (Code.beside_right hcode) (.right hservice)) ih

/-- The first of two sides goes. -/
theorem Goes.onLeft {ok : Answer C₁ R₁ → Prop}
    {ok' : Answer (C₁ ⊕ C₂) (BothReply R₁ R₂) → Prop} {x y : σ₁ × π₁}
    (h : Goes left lower ok x y) (hok : ∀ a, ok a → ok' a.left) (t : σ₂) :
    Goes (Code.beside left right) (Service.Beside lower upper) ok'
      ((x.1, t), .inl x.2) ((y.1, t), .inl y.2) := by
  obtain ⟨as, hrun, has⟩ := h
  refine ⟨_, hrun.solo_left t, fun a ha => ?_⟩
  obtain ⟨b, hb, rfl⟩ := List.mem_map.mp ha
  exact hok b (has b hb)

/-- The second goes. -/
theorem Goes.onRight {ok : Answer C₂ R₂ → Prop}
    {ok' : Answer (C₁ ⊕ C₂) (BothReply R₁ R₂) → Prop} {x y : σ₂ × π₂}
    (h : Goes right upper ok x y) (hok : ∀ a, ok a → ok' a.right) (s : σ₁) :
    Goes (Code.beside left right) (Service.Beside lower upper) ok'
      ((s, x.1), .inr x.2) ((s, y.1), .inr y.2) := by
  obtain ⟨as, hrun, has⟩ := h
  refine ⟨_, hrun.solo_right s, fun a ha => ?_⟩
  obtain ⟨b, hb, rfl⟩ := List.mem_map.mp ha
  exact hok b (has b hb)

end

-- ================================================================== in a call

namespace Implementation

variable {D : Type} {S : D → Type} {impl : Implementation D S C R π}
  {service : Service C R σ} {c : D} {k : S c → Prog D S α}

/-- A run of the code of a call, in the program that makes it. -/
theorem solo_layered (hend : ∀ p r, impl.result c p = some r →
      impl.code p = none) {x y : σ × π} {as : List (Answer C R)}
    (h : Run (Solo impl.code service) x as y) (has : as ≠ [])
    {l : Layer D S α π} (hunder : impl.Under c k x.2 l) :
    Run (Solo impl.layered service) (x.1, l) as
      (y.1, impl.settle c k y.2) := by
  induction h generalizing l with
  | nil => exact absurd rfl has
  | @cons x mid y a as hstep hrun ih =>
      cases hstep with
      | @call s s' p c' next r hcode hservice =>
          have hlayered : impl.layered l
              = some ⟨c', fun r => impl.settle c k (next r)⟩ := by
            rw [hunder.layered, within, hcode]
            rfl
          refine .cons (.call hlayered hservice) ?_
          cases hrun with
          | nil => exact .nil _
          | cons hnext hrest =>
              -- there is code left, so the call has not returned
              have hopen : impl.result c (next r) = none := by
                cases hresult : impl.result c (next r) with
                | none => rfl
                | some a =>
                    cases hnext with
                    | call hcode' =>
                        rw [hend _ _ hresult] at hcode'
                        cases hcode'
              have hinside := ih (List.cons_ne_nil _ _) (.inside (next r))
              rw [settle_of_none hopen]
              exact hinside

end Implementation

end Creeper.Lib

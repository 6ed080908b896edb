/-
Runs of a labelled transition system: the list of labels a system went
through, from one state to another.

A system is only its step relation `σ → ε → σ → Prop`, so a restricted
system ("every step meets `Q` at the state it starts from") is again a
system, `Guarded Q step`, and needs no vocabulary of its own.

# The rules

- `Run.invariant`: what one step preserves, a run preserves.
- `Run.mono`: a run of one system is a run of another that allows each
  of its steps.
- `Run.simulates`: the same across two kinds of states and labels.
- `Run.follows`: and where a step is any number of steps of the other.
- `Run.split`: a run over `l ++ m` is a run over `l`, then one over `m`.
- `Run.guarded_or_breach`: a run either meets the guard at every step
  or has a first step that breaches it, with everything before it
  guarded.
-/
import Mathlib.Data.List.Induction

namespace Creeper.Lib

variable {σ ε : Type*} {step step' : σ → ε → σ → Prop}

-- ================================================================= runs

/-- The system goes from the first state to the last, one label of the
list a step. -/
inductive Run (step : σ → ε → σ → Prop) : σ → List ε → σ → Prop
  | nil (s : σ) : Run step s [] s
  | cons {s t u : σ} {e : ε} {es : List ε} :
      step s e t → Run step t es u → Run step s (e :: es) u

/-- The system that takes only the steps whose label meets `Q` at the
state before them. -/
def Guarded (Q : σ → ε → Prop) (step : σ → ε → σ → Prop) :
    σ → ε → σ → Prop :=
  fun s e t => Q s e ∧ step s e t

namespace Run

/-- An empty run goes nowhere. -/
@[simp] theorem nil_iff {s t : σ} : Run step s [] t ↔ s = t := by
  constructor
  · intro hex
    cases hex
    rfl
  · intro heq
    subst heq
    exact .nil s

/-- A nonempty run is its first step and the rest. -/
@[simp] theorem cons_iff {s u : σ} {e : ε} {es : List ε} :
    Run step s (e :: es) u ↔ ∃ t, step s e t ∧ Run step t es u := by
  constructor
  · intro hor
    rcases hor with _ | ⟨hst, hrun⟩
    exact ⟨_, hst, hrun⟩
  · intro hfirst
    obtain ⟨t, hst, hrun⟩ := hfirst
    exact .cons hst hrun

/-- Runs compose. -/
theorem append {s t u : σ} {es fs : List ε} (h : Run step s es t)
    (h' : Run step t fs u) : Run step s (es ++ fs) u := by
  induction h with
  | nil => exact h'
  | cons hst _ ih => exact .cons hst (ih h')

/-- Runs split where their labels do. -/
theorem split {s u : σ} {es fs : List ε} (h : Run step s (es ++ fs) u) :
    ∃ t, Run step s es t ∧ Run step t fs u := by
  induction es generalizing s with
  | nil => exact ⟨s, .nil s, h⟩
  | cons e es ih =>
      obtain ⟨t, hst, hrun⟩ := cons_iff.mp h
      obtain ⟨t', hes, hfs⟩ := ih hrun
      exact ⟨t', .cons hst hes, hfs⟩

/-- Induction on a run from its last step. -/
theorem snoc_induction {s : σ} {P : List ε → σ → Prop} (hnil : P [] s)
    (hsnoc : ∀ es e t u, Run step s es t → P es t → step t e u →
      P (es ++ [e]) u) {es : List ε} {u : σ} (h : Run step s es u) :
    P es u := by
  induction es using List.reverseRecOn generalizing u with
  | nil =>
      obtain rfl := nil_iff.mp h
      exact hnil
  | append_singleton es e ih =>
      obtain ⟨t, hes, hlast⟩ := h.split
      obtain ⟨u', hst, hend⟩ := cons_iff.mp hlast
      obtain rfl := nil_iff.mp hend
      exact hsnoc es e t u' hes (ih hes) hst

-- ====================================================== the invariant rule

/-- What every step preserves, every run preserves. -/
theorem invariant {I : σ → Prop}
    (hstep : ∀ s e t, I s → step s e t → I t) {s t : σ} {es : List ε}
    (h : Run step s es t) (hs : I s) : I t := by
  induction h with
  | nil => exact hs
  | cons hst _ ih => exact ih (hstep _ _ _ hs hst)

/-- A preorder that every step climbs, every run climbs. -/
theorem climbs {r : σ → σ → Prop} (hrefl : ∀ s, r s s)
    (htrans : ∀ s t u, r s t → r t u → r s u)
    (hstep : ∀ s e t, step s e t → r s t) {s t : σ} {es : List ε}
    (h : Run step s es t) : r s t := by
  induction h with
  | nil s => exact hrefl s
  | cons hst _ ih => exact htrans _ _ _ (hstep _ _ _ hst) ih

/-- A run of one system is a run of another that allows every step of
it. -/
theorem mono (hsim : ∀ s e t, step s e t → step' s e t) {s t : σ}
    {es : List ε} (h : Run step s es t) : Run step' s es t := by
  induction h with
  | nil => exact .nil _
  | cons hst _ ih => exact .cons (hsim _ _ _ hst) ih

/-- A system whose states and labels stand for those of another has its
runs. -/
theorem simulates {σ' ε' : Type*} {step' : σ' → ε' → σ' → Prop}
    {state : σ → σ'} {label : ε → ε'}
    (hsim : ∀ s e t, step s e t → step' (state s) (label e) (state t))
    {s t : σ} {es : List ε} (h : Run step s es t) :
    Run step' (state s) (es.map label) (state t) := by
  induction h with
  | nil => exact .nil _
  | cons hst _ ih => exact .cons (hsim _ _ _ hst) ih

/-- A system that is followed by another, each step by any number of
steps, has its runs followed. What both show of their labels is then the
same, one after the other. -/
theorem follows {σ' ε' γ : Type*} {step' : σ' → ε' → σ' → Prop}
    {R : σ → σ' → Prop} {shown : ε → Option γ} {shown' : ε' → Option γ}
    (hsim : ∀ s e t s', R s s' → step s e t → ∃ fs t', Run step' s' fs t'
      ∧ fs.filterMap shown' = (shown e).toList ∧ R t t')
    {s t : σ} {es : List ε} (h : Run step s es t) {s' : σ'} (hs : R s s') :
    ∃ fs t', Run step' s' fs t'
      ∧ fs.filterMap shown' = es.filterMap shown ∧ R t t' := by
  induction h generalizing s' with
  | nil => exact ⟨[], s', .nil s', rfl, hs⟩
  | @cons _ _ _ e es hst _ ih =>
      obtain ⟨fs, mid, hfirst, hshown, hmid⟩ := hsim _ _ _ _ hs hst
      obtain ⟨fs', t', hrest, hshown', ht⟩ := ih hmid
      refine ⟨fs ++ fs', t', hfirst.append hrest, ?_, ht⟩
      rw [List.filterMap_append, hshown, hshown']
      cases hlabel : shown e with
      | none =>
          rw [List.filterMap_cons_none hlabel]
          rfl
      | some c =>
          rw [List.filterMap_cons_some hlabel]
          rfl

-- =========================================================== guarded runs

/-- A guarded run is a run. -/
theorem of_guarded {Q : σ → ε → Prop} {s t : σ} {es : List ε}
    (h : Run (Guarded Q step) s es t) : Run step s es t :=
  h.mono fun _ _ _ hst => hst.2

/-- What every step preserves guards every step of a run. -/
theorem guarded_of_invariant {I : σ → Prop}
    (hstep : ∀ s e t, I s → step s e t → I t) {s t : σ} {es : List ε}
    (h : Run step s es t) (hs : I s) :
    Run (Guarded (fun s _ => I s) step) s es t := by
  induction h with
  | nil s => exact .nil s
  | cons hst _ ih => exact .cons ⟨hs, hst⟩ (ih (hstep _ _ _ hs hst))

/-- A guard on the labels alone is one on the list of them. -/
theorem guarded_of_forall {Q : ε → Prop} {s t : σ} {es : List ε}
    (h : Run step s es t) (hQ : ∀ e ∈ es, Q e) :
    Run (Guarded (fun _ e => Q e) step) s es t := by
  induction h with
  | nil s => exact .nil s
  | cons hst _ ih =>
      exact .cons ⟨hQ _ (List.mem_cons_self ..), hst⟩
        (ih fun e he => hQ e (List.mem_cons_of_mem _ he))

/-- The labels of a run guarded by labels meet the guard. -/
theorem forall_of_guarded {Q : ε → Prop} {s t : σ} {es : List ε}
    (h : Run (Guarded (fun _ e => Q e) step) s es t) : ∀ e ∈ es, Q e := by
  induction h with
  | nil => exact nofun
  | cons hst _ ih => exact List.forall_mem_cons.mpr ⟨hst.1, ih⟩

/-- Either every step of a run meets the guard, or the run has a first
step that does not. -/
theorem guarded_or_breach (Q : σ → ε → Prop) {s u : σ} {es : List ε}
    (h : Run step s es u) :
    Run (Guarded Q step) s es u ∨
      ∃ pre e post t t', es = pre ++ e :: post ∧
        Run (Guarded Q step) s pre t ∧ ¬ Q t e ∧ step t e t' ∧
        Run step t' post u := by
  induction h with
  | nil s => exact Or.inl (.nil s)
  | @cons s t u e es hst hrun ih =>
      by_cases hQ : Q s e
      · rcases ih with hg | ⟨pre, e', post, v, v', rfl, hpre, hbad, hv, hpost⟩
        · exact Or.inl (.cons ⟨hQ, hst⟩ hg)
        · exact Or.inr ⟨e :: pre, e', post, v, v', rfl,
            .cons ⟨hQ, hst⟩ hpre, hbad, hv, hpost⟩
      · exact Or.inr ⟨[], e, es, s, t, rfl, .nil s, hQ, hst, hrun⟩

end Run

end Creeper.Lib

/-
Scanners, and the two ways they go through a text.

# Tokens

A `Scanner` takes one token off the front of an input and leaves the
rest, which is shorter unless the token is one that ends the input.
`Scanner.scan` is all the tokens in turn. It is computed token by token
(`scan_of_ends`, `scan_of_not_ends`), and its last token, and no other,
is one that ends (`scan_eq`).

# Inside a token

`ReadsUntil` is a loop that collects elements up to one that stops it;
`ReadsUntil.reach` and `ReadsUntil.run_out` are its two outcomes, and
`first_split` says that there are no others.

# Element by element

`transduce` runs a machine that writes a few elements for each one it
reads.
-/
import Mathlib.Data.List.Basic

namespace Creeper.Lib

variable {α β τ σ : Type}

-- ============================================================= scanners

/-- A scanner. -/
structure Scanner (α τ : Type) where
  /-- One token, and what is left of the input. -/
  next : List α → τ × List α
  /-- The input ends with the token. -/
  ends : τ → Bool
  shorter : ∀ input, ends (next input).1 = false →
    (next input).2.length < input.length

namespace Scanner

variable (sc : Scanner α τ) {input rest : List α} {t : τ}

/-- All tokens of an input. -/
def scan (input : List α) : List τ :=
  if _ends : sc.ends (sc.next input).1 then [(sc.next input).1]
  else (sc.next input).1 :: scan (sc.next input).2
termination_by input.length
decreasing_by exact sc.shorter input ((Bool.not_eq_true _).mp _ends)

variable {sc}

theorem scan_of_ends (h : sc.next input = (t, rest))
    (hends : sc.ends t = true) : sc.scan input = [t] := by
  rw [scan, h, dif_pos hends]

theorem scan_of_not_ends (h : sc.next input = (t, rest))
    (hends : sc.ends t = false) : sc.scan input = t :: sc.scan rest := by
  rw [scan, h, dif_neg ((Bool.not_eq_true _).mpr hends)]

/-- Inputs that begin with the same token have the same tokens. -/
theorem scan_congr {input' : List α} (h : sc.next input = sc.next input') :
    sc.scan input = sc.scan input' := by
  rw [scan, h, ← scan]

/-- Induction on an input, token by token. -/
theorem scan_induction (sc : Scanner α τ) {P : List α → Prop}
    (hends : ∀ input t rest, sc.next input = (t, rest) →
      sc.ends t = true → P input)
    (hnext : ∀ input t rest, sc.next input = (t, rest) →
      sc.ends t = false → P rest → P input) (input : List α) :
    P input := by
  induction hn : input.length using Nat.strongRecOn
    generalizing input with
  | _ n ih =>
      subst hn
      cases he : sc.ends (sc.next input).1 with
      | true => exact hends input _ _ rfl he
      | false =>
          exact hnext input _ _ rfl he
            (ih _ (sc.shorter input he) _ rfl)

/-- The tokens end with one that ends, and have no other. -/
theorem scan_eq (sc : Scanner α τ) (input : List α) :
    ∃ pre t, sc.scan input = pre ++ [t] ∧ sc.ends t = true
      ∧ ∀ t' ∈ pre, sc.ends t' = false := by
  induction input using scan_induction sc with
  | hends input t rest h he =>
      refine ⟨[], t, scan_of_ends h he, he, ?_⟩
      intro t' ht'
      cases ht'
  | hnext input t rest h he ih =>
      obtain ⟨pre, last, hscan, hlast, hpre⟩ := ih
      refine ⟨t :: pre, last, ?_, hlast, ?_⟩
      · rw [scan_of_not_ends h he, hscan, List.cons_append]
      · intro t' ht'
        rcases List.mem_cons.mp ht' with rfl | ht'
        · exact he
        · exact hpre t' ht'

/-- Nothing follows a token that ends. -/
theorem scan_last {pre post : List τ} (h : sc.scan input = pre ++ t :: post)
    (hends : sc.ends t = true) : post = [] := by
  obtain ⟨body, last, hbody, -, hnot⟩ := sc.scan_eq input
  rcases List.eq_nil_or_concat post with rfl | ⟨post, last', rfl⟩
  · rfl
  · have hsplit : (pre ++ t :: post) ++ [last'] = body ++ [last] := by
      rw [← hbody, h, List.append_assoc, List.cons_append,
        List.concat_eq_append]
    have hmem : t ∈ body := by
      rw [← (List.append_singleton_inj.mp hsplit).1]
      exact List.mem_append_right _ (List.mem_cons_self ..)
    rw [hnot t hmem] at hends
    cases hends

end Scanner

-- ========================================================= inside a token

/-- A loop that collects elements up to one that stops it. -/
def ReadsUntil (loop : List α → List α → β) (stop : α → Prop)
    (found : List α → α → List α → β) : Prop :=
  ∀ value c input,
    (stop c → loop value (c :: input) = found value c input)
      ∧ (¬ stop c → loop value (c :: input) = loop (value ++ [c]) input)

namespace ReadsUntil

variable {loop : List α → List α → β} {stop : α → Prop}
  {found : List α → α → List α → β} {value inside input : List α} {c : α}

/-- Nothing inside stops the loop. -/
theorem pass (h : ReadsUntil loop stop found)
    (hinside : ∀ x ∈ inside, ¬ stop x) :
    loop value (inside ++ input) = loop (value ++ inside) input := by
  induction inside generalizing value with
  | nil => rw [List.nil_append, List.append_nil]
  | cons x inside ih =>
      rw [List.cons_append,
        (h value x (inside ++ input)).2 (hinside x (List.mem_cons_self ..)),
        ih fun y hy => hinside y (List.mem_cons_of_mem _ hy),
        List.append_assoc]
      rfl

/-- The loop gets to an element that stops it. -/
theorem reach (h : ReadsUntil loop stop found)
    (hinside : ∀ x ∈ inside, ¬ stop x) (hc : stop c) :
    loop value (inside ++ c :: input) = found (value ++ inside) c input := by
  rw [h.pass hinside, (h _ c input).1 hc]

/-- The loop gets to the end of the input. -/
theorem run_out (h : ReadsUntil loop stop found)
    (hinside : ∀ x ∈ inside, ¬ stop x) :
    loop value inside = loop (value ++ inside) [] := by
  have hpass : loop value (inside ++ []) = loop (value ++ inside) [] :=
    h.pass hinside
  rw [List.append_nil] at hpass
  exact hpass

end ReadsUntil

/-- Either nothing in an input stops, or something is the first to. -/
theorem first_split (stop : α → Prop) [DecidablePred stop]
    (input : List α) : (∀ x ∈ input, ¬ stop x)
      ∨ ∃ inside c rest, input = inside ++ c :: rest
        ∧ (∀ x ∈ inside, ¬ stop x) ∧ stop c := by
  induction input with
  | nil =>
      left
      intro x hx
      cases hx
  | cons x input ih =>
      by_cases hx : stop x
      · right
        refine ⟨[], x, input, rfl, ?_, hx⟩
        intro y hy
        cases hy
      · rcases ih with hnone | ⟨inside, c, rest, rfl, hinside, hc⟩
        · left
          intro y hy
          rcases List.mem_cons.mp hy with rfl | hy
          · exact hx
          · exact hnone y hy
        · right
          refine ⟨x :: inside, c, rest, rfl, ?_, hc⟩
          intro y hy
          rcases List.mem_cons.mp hy with rfl | hy
          · exact hx
          · exact hinside y hy

-- ===================================================== element by element

/-- The state after an input, and all that was written. -/
def transduce (step : σ → α → σ × List β) : σ → List α → σ × List β
  | s, [] => (s, [])
  | s, a :: input =>
      let after := transduce step (step s a).1 input
      (after.1, (step s a).2 ++ after.2)

theorem transduce_cons (step : σ → α → σ × List β) (s : σ) (a : α)
    (input : List α) : transduce step s (a :: input)
      = ((transduce step (step s a).1 input).1,
        (step s a).2 ++ (transduce step (step s a).1 input).2) := rfl

theorem transduce_append (step : σ → α → σ × List β) (s : σ)
    (input rest : List α) : transduce step s (input ++ rest)
      = ((transduce step (transduce step s input).1 rest).1,
        (transduce step s input).2
          ++ (transduce step (transduce step s input).1 rest).2) := by
  induction input generalizing s with
  | nil => rfl
  | cons a input ih =>
      rw [List.cons_append, transduce_cons, ih, transduce_cons,
        List.append_assoc]

/-- A state that stays the same, each element writing its own. -/
theorem transduce_stay {step : σ → α → σ × List β} {s : σ}
    {write : α → List β} {input : List α}
    (h : ∀ a ∈ input, step s a = (s, write a)) :
    transduce step s input = (s, input.flatMap write) := by
  induction input with
  | nil => rfl
  | cons a input ih =>
      rw [transduce_cons, h a (List.mem_cons_self ..),
        ih fun b hb => h b (List.mem_cons_of_mem _ hb), List.flatMap_cons]

end Creeper.Lib

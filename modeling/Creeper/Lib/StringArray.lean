/-
JSON arrays of plain strings, as text.

`writeStrings` writes an array of strings without white space;
`readStrings` reads such an array back, one character at a time. It
takes no escapes, so a text it accepts is a JSON array of exactly the
strings it returns.
-/
import Mathlib.Data.List.Basic

namespace Creeper.Lib

/-- A string in quotes. -/
def quote (s : List Char) : List Char := '"' :: s ++ ['"']

/-- An array of strings. -/
def writeStrings (ss : List (List Char)) : List Char :=
  '[' :: List.intercalate [','] (ss.map quote) ++ [']']

/-- The rest of an array, from inside the string that begins with
`cur`. -/
def readElement (cur : List Char) : List Char → Option (List (List Char))
  | [] => none
  | c :: rest =>
      if c = '"' then
        match rest with
        | [']'] => some [cur]
        | ',' :: '"' :: rest => (readElement [] rest).map (cur :: ·)
        | _ => none
      else if c = '\\' ∨ c.toNat < 32 then none
      else readElement (cur ++ [c]) rest

/-- An array of strings. -/
def readStrings : List Char → Option (List (List Char))
  | ['[', ']'] => some []
  | '[' :: '"' :: rest => readElement [] rest
  | _ => none

/-- A character a string has as it is. -/
def isPlainChar (c : Char) : Bool :=
  c ≠ '"' && c ≠ '\\' && 32 ≤ c.toNat

/-- Plain characters go to the string that was begun. -/
theorem readElement_append {s : List Char} (hs : s.all isPlainChar)
    (cur rest : List Char) :
    readElement cur (s ++ rest) = readElement (cur ++ s) rest := by
  induction s generalizing cur with
  | nil => rw [List.nil_append, List.append_nil]
  | cons c s ih =>
      obtain ⟨hc, hrest⟩ := (Bool.and_eq_true _ _).mp hs
      unfold isPlainChar at hc
      simp only [Bool.and_eq_true, decide_eq_true_eq, ne_eq] at hc
      obtain ⟨⟨hquote, hslash⟩, hcontrol⟩ := hc
      have hplain : ¬ (c = '\\' ∨ c.toNat < 32) := by
        intro hor
        rcases hor with hbad | hbad
        · exact hslash hbad
        · omega
      have hnext : readElement cur (c :: (s ++ rest))
          = readElement (cur ++ [c]) (s ++ rest) := by
        rw [readElement.eq_def]
        simp only
        rw [if_neg hquote, if_neg hplain]
      rw [List.cons_append, hnext, ih hrest, List.append_assoc, List.singleton_append]

/-- The elements of an array, from inside the first. -/
theorem readElement_intercalate {s : List Char} {ss : List (List Char)}
    (hs : ∀ t ∈ s :: ss, t.all isPlainChar) :
    readElement [] (s ++ '"' ::
        (ss.flatMap (fun t => ',' :: quote t) ++ [']']))
      = some (s :: ss) := by
  induction ss generalizing s with
  | nil =>
      rw [readElement_append (hs s (List.mem_cons_self ..)),
        List.nil_append, List.flatMap_nil, List.nil_append]
      rfl
  | cons t ss ih =>
      rw [readElement_append (hs s (List.mem_cons_self ..)),
        List.nil_append]
      have hsplit : '"' :: ((t :: ss).flatMap (fun t => ',' :: quote t)
            ++ [']'])
          = '"' :: ',' :: '"' :: (t ++ '"' ::
            (ss.flatMap (fun t => ',' :: quote t) ++ [']'])) := by
        unfold quote
        simp
      rw [hsplit]
      show (readElement [] _).map (s :: ·) = _
      rw [ih fun u hu => hs u (List.mem_cons_of_mem _ hu)]
      rfl

/-- An array, its first element apart. -/
theorem writeStrings_cons (s : List Char) (ss : List (List Char)) :
    writeStrings (s :: ss) = '[' :: '"' :: (s ++ '"' ::
      (ss.flatMap (fun t => ',' :: quote t) ++ [']'])) := by
  have hjoin : ∀ s : List Char, List.intercalate [','] ((s :: ss).map quote)
      = quote s ++ ss.flatMap fun t => ',' :: quote t := by
    induction ss with
    | nil => simp
    | cons t ss ih =>
        intro s
        rw [List.map_cons, List.map_cons, List.intercalate_cons_cons,
          ← List.map_cons, ih t]
        simp
  unfold writeStrings
  rw [hjoin]
  simp [quote]

/-- An array that was written is read back. -/
theorem readStrings_writeStrings {ss : List (List Char)}
    (hss : ∀ s ∈ ss, s.all isPlainChar) :
    readStrings (writeStrings ss) = some ss := by
  cases ss with
  | nil => rfl
  | cons s ss =>
      rw [writeStrings_cons]
      exact readElement_intercalate hss

end Creeper.Lib

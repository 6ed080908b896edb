/-
Readers of messages off a stream.

A `Reader` takes one message off the front of a stream, if there is a
whole one, and leaves the rest, which is shorter. `Reader.readAll` is
all messages of a stream that ends after a message.

`ReadsBack` relates a writer to a reader: what was written reads back
from in front of anything. Then a stream of written messages has one
reading (`ReadsBack.readAll`), and so streams that are equal are streams
of equal messages (`ReadsBack.injective`).
-/
import Mathlib.Data.List.Basic

namespace Creeper.Lib

variable {α β μ : Type}

/-- A reader. -/
structure Reader (α μ : Type) where
  /-- One message, and what is left of the stream. -/
  next : List α → Option (μ × List α)
  shorter : ∀ stream message rest, next stream = some (message, rest) →
    rest.length < stream.length

namespace Reader

variable (rd : Reader α μ) {stream rest : List α} {message : μ}

/-- All messages of a stream. -/
def readAll (stream : List α) : Option (List μ) :=
  if stream = [] then some []
  else
    match _h : rd.next stream with
    | none => none
    | some (message, rest) => (readAll rest).map (message :: ·)
termination_by stream.length
decreasing_by exact rd.shorter _ _ _ _h

@[simp] theorem readAll_nil : rd.readAll [] = some [] := by
  rw [readAll]
  simp

variable {rd}

/-- A message in front goes in front of the others. -/
theorem readAll_next (h : rd.next stream = some (message, rest)) :
    rd.readAll stream = (rd.readAll rest).map (message :: ·) := by
  have hstream : stream ≠ [] := by
    intro hnil
    have hshorter := rd.shorter _ _ _ h
    rw [hnil] at hshorter
    exact Nat.not_lt_zero _ hshorter
  rw [readAll, if_neg hstream]
  split
  · next hnone => rw [h] at hnone; cases hnone
  · next hsome => rw [h] at hsome; cases hsome; rfl

end Reader

/-- What is written of `b` reads back as `seen b`, whatever comes after
it. -/
def ReadsBack (rd : Reader α μ) (write : β → List α) (seen : β → μ)
    (b : β) : Prop :=
  ∀ rest, rd.next (write b ++ rest) = some (seen b, rest)

namespace ReadsBack

variable {rd : Reader α μ} {write : β → List α} {seen : β → μ}

/-- A stream of written messages reads back message by message. -/
theorem readAll {bs : List β}
    (h : ∀ b ∈ bs, ReadsBack rd write seen b) :
    rd.readAll (bs.flatMap write) = some (bs.map seen) := by
  induction bs with
  | nil => simp
  | cons b bs ih =>
      have hhead := h b (by simp) (bs.flatMap write)
      have htail := ih fun c hc => h c (by simp [hc])
      rw [List.flatMap_cons, Reader.readAll_next hhead, htail]
      simp

/-- Equal streams are streams of equal messages. -/
theorem injective {bs cs : List β}
    (hbs : ∀ b ∈ bs, ReadsBack rd write seen b)
    (hcs : ∀ c ∈ cs, ReadsBack rd write seen c)
    (h : bs.flatMap write = cs.flatMap write) :
    bs.map seen = cs.map seen := by
  apply Option.some.inj
  rw [← readAll hbs, ← readAll hcs, h]

end ReadsBack

end Creeper.Lib

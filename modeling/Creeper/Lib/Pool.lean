/-
A pool of connections, and code that borrows from it.

# The ledger

What matters of a pool is where each connection is: in the queue, or
with one of those who use it. A `Ledger` has the queue and who holds
what. A connection is taken from the front of the queue and given back
at its end; a holder may also drop it, and then it is nowhere.
`Ledger.Sound` says that no connection is in two places, and holds in
every run. Nothing brings a dropped connection back
(`Ledger.accounted_iff`), so once nobody holds a connection the queue is
whole if and only if none was dropped (`Ledger.perm_iff`).

# The code

`PoolCall` is the interface of code that uses a pool: it acquires a
connection, gives commands to it and releases it. Such code `Borrows` if
it gives commands only to the connection it has acquired and releases
only that; an answer it `drops` on leaves it without the connection. A
run of such code is a run of the ledger (`Run.ledger`).
-/
import Mathlib.Data.List.Perm.Basic
import Mathlib.Data.List.Nodup
import Mathlib.Data.Fintype.Card
import Creeper.Lib.Points

namespace Creeper.Lib

variable {ι κ : Type}

-- ================================================================ the ledger

/-- The connections in the queue, and those that are held. -/
structure Ledger (ι κ : Type) where
  queue : List κ
  hold : ι → Option κ

/-- What one of them does with a connection. -/
inductive Handover
  | take
  | keep
  | drop
  | give
  deriving DecidableEq

namespace Ledger

/-- A connection is taken, kept, dropped or given back. -/
inductive Step [DecidableEq ι] :
    Ledger ι κ → ι × Handover → Ledger ι κ → Prop
  | take {queue : List κ} {hold : ι → Option κ} {i : ι} {conn : κ}
      (h : hold i = none) :
      Step ⟨conn :: queue, hold⟩ (i, .take)
        ⟨queue, Function.update hold i (some conn)⟩
  | keep {l : Ledger ι κ} {i : ι} : Step l (i, .keep) l
  | drop {queue : List κ} {hold : ι → Option κ} {i : ι} {conn : κ}
      (h : hold i = some conn) :
      Step ⟨queue, hold⟩ (i, .drop) ⟨queue, Function.update hold i none⟩
  | give {queue : List κ} {hold : ι → Option κ} {i : ι} {conn : κ}
      (h : hold i = some conn) :
      Step ⟨queue, hold⟩ (i, .give)
        ⟨queue ++ [conn], Function.update hold i none⟩

/-- No connection is in two places, and all are of the pool. -/
structure Sound (conns : List κ) (l : Ledger ι κ) : Prop where
  nodup : l.queue.Nodup
  queued : ∀ conn ∈ l.queue, conn ∈ conns
  held : ∀ i conn, l.hold i = some conn → conn ∈ conns
  apart : ∀ i conn, l.hold i = some conn → conn ∉ l.queue
  one : ∀ i j conn, l.hold i = some conn → l.hold j = some conn → i = j

/-- Every connection of the pool is in some place. -/
def Accounted (conns : List κ) (l : Ledger ι κ) : Prop :=
  ∀ conn ∈ conns, conn ∈ l.queue ∨ ∃ i, l.hold i = some conn

/-- All connections in the queue. -/
def full (conns : List κ) : Ledger ι κ := ⟨conns, fun _ => none⟩

theorem sound_full {conns : List κ} (hconns : conns.Nodup) :
    Sound conns (full conns : Ledger ι κ) := by
  refine ⟨hconns, fun _ h => h, ?_, ?_, ?_⟩ <;> nofun

variable [DecidableEq ι] {conns queue : List κ} {hold : ι → Option κ}
  {l l' : Ledger ι κ} {e : ι × Handover} {i j : ι} {conn conn' : κ}

/-- Who holds a connection once one has been taken. -/
theorem update_some_iff :
    Function.update hold i (some conn) j = some conn'
      ↔ (j = i ∧ conn' = conn) ∨ (j ≠ i ∧ hold j = some conn') := by
  by_cases h : j = i
  · subst h
    simp [eq_comm]
  · simp [h]

/-- Who holds a connection once one has let go. -/
theorem update_none_iff :
    Function.update hold i none j = some conn'
      ↔ j ≠ i ∧ hold j = some conn' := by
  by_cases h : j = i
  · subst h
    simp
  · simp [h]

/-- What is held once one that held nothing has taken a connection. -/
theorem held_take_iff (hi : hold i = none) :
    (∃ j, Function.update hold i (some conn) j = some conn')
      ↔ conn' = conn ∨ ∃ j, hold j = some conn' := by
  constructor
  · intro hheld
    obtain ⟨j, hj⟩ := hheld
    rcases update_some_iff.mp hj with ⟨-, heq⟩ | ⟨-, hj⟩
    · exact Or.inl heq
    · exact Or.inr ⟨j, hj⟩
  · intro hor
    rcases hor with heq | ⟨j, hj⟩
    · exact ⟨i, update_some_iff.mpr (Or.inl ⟨rfl, heq⟩)⟩
    · refine ⟨j, update_some_iff.mpr (Or.inr ⟨?_, hj⟩)⟩
      intro heq
      subst heq
      rw [hi] at hj
      cases hj

/-- What was held before one let go of its connection. -/
theorem held_letGo_iff (hi : hold i = some conn) :
    (conn' = conn ∨ ∃ j, Function.update hold i none j = some conn')
      ↔ ∃ j, hold j = some conn' := by
  constructor
  · intro hor
    rcases hor with rfl | ⟨j, hj⟩
    · exact ⟨i, hi⟩
    · exact ⟨j, (update_none_iff.mp hj).2⟩
  · intro hheld
    obtain ⟨j, hj⟩ := hheld
    by_cases hji : j = i
    · subst hji
      rw [hi] at hj
      exact Or.inl (Option.some.inj hj).symm
    · exact Or.inr ⟨j, update_none_iff.mpr ⟨hji, hj⟩⟩

/-- Letting go of a connection leaves the others in their places. -/
theorem Sound.letGo (hs : Sound conns ⟨queue, hold⟩) :
    Sound conns ⟨queue, Function.update hold i none⟩ := by
  refine ⟨hs.nodup, hs.queued, ?_, ?_, ?_⟩
  · intro j conn' hj
    exact hs.held j conn' (update_none_iff.mp hj).2
  · intro j conn' hj
    exact hs.apart j conn' (update_none_iff.mp hj).2
  · intro j j' conn' hj hj'
    exact hs.one j j' conn' (update_none_iff.mp hj).2
      (update_none_iff.mp hj').2

theorem Sound.take (hs : Sound conns ⟨conn :: queue, hold⟩) :
    Sound conns ⟨queue, Function.update hold i (some conn)⟩ := by
  obtain ⟨hfresh, hnodup⟩ := List.nodup_cons.mp hs.nodup
  have hunheld : ∀ j, hold j ≠ some conn :=
    fun j hj => hs.apart j conn hj (List.mem_cons_self ..)
  refine ⟨hnodup, ?_, ?_, ?_, ?_⟩
  · intro conn' hmem
    exact hs.queued conn' (List.mem_cons_of_mem _ hmem)
  · intro j conn' hj
    rcases update_some_iff.mp hj with ⟨-, rfl⟩ | ⟨-, hj⟩
    · exact hs.queued _ (List.mem_cons_self ..)
    · exact hs.held j conn' hj
  · intro j conn' hj
    rcases update_some_iff.mp hj with ⟨-, rfl⟩ | ⟨-, hj⟩
    · exact hfresh
    · intro hmem
      exact hs.apart j conn' hj (List.mem_cons_of_mem _ hmem)
  · intro j j' conn' hj hj'
    rcases update_some_iff.mp hj with ⟨rfl, rfl⟩ | ⟨-, hold⟩
    · rcases update_some_iff.mp hj' with ⟨rfl, -⟩ | ⟨-, hold'⟩
      · rfl
      · exact absurd hold' (hunheld j')
    · rcases update_some_iff.mp hj' with ⟨-, rfl⟩ | ⟨-, hold'⟩
      · exact absurd hold (hunheld j)
      · exact hs.one j j' conn' hold hold'

theorem Sound.give (hs : Sound conns ⟨queue, hold⟩)
    (hi : hold i = some conn) :
    Sound conns ⟨queue ++ [conn], Function.update hold i none⟩ := by
  have hgone := hs.letGo (i := i)
  have hmem : ∀ conn', conn' ∈ queue ++ [conn] ↔ conn' ∈ queue ∨ conn' = conn := by
    intro conn'
    rw [List.mem_append, List.mem_singleton]
  refine ⟨?_, ?_, hgone.held, ?_, hgone.one⟩
  · exact (List.nodup_append_comm.mp
      (List.nodup_cons.mpr ⟨hs.apart i conn hi, hs.nodup⟩))
  · intro conn' hconn'
    rcases (hmem conn').mp hconn' with hqueued | rfl
    · exact hs.queued conn' hqueued
    · exact hs.held i _ hi
  · intro j conn' hj hconn'
    rcases (hmem conn').mp hconn' with hqueued | rfl
    · exact hgone.apart j conn' hj hqueued
    · obtain ⟨hne, hj⟩ := update_none_iff.mp hj
      exact hne (hs.one j i _ hj hi)

/-- One that holds a connection holds it still, or nothing. -/
theorem Sound.settle {o : Option κ} (hs : Sound conns ⟨queue, hold⟩)
    (hi : hold i = some conn) (ho : ∀ conn', o = some conn' → conn' = conn) :
    Sound conns ⟨queue, Function.update hold i o⟩ := by
  cases o with
  | none => exact hs.letGo
  | some conn' =>
      obtain rfl := ho conn' rfl
      rw [← hi, Function.update_eq_self]
      exact hs

omit [DecidableEq ι] in
/-- The order of the queue does not matter. -/
theorem Sound.perm {queue' : List κ} (hs : Sound conns ⟨queue, hold⟩)
    (hperm : queue.Perm queue') : Sound conns ⟨queue', hold⟩ := by
  refine ⟨hperm.nodup_iff.mp hs.nodup, ?_, hs.held, ?_, hs.one⟩
  · intro conn' hmem
    exact hs.queued conn' (hperm.mem_iff.mpr hmem)
  · intro j conn' hj hmem
    exact hs.apart j conn' hj (hperm.mem_iff.mpr hmem)

/-- A connection is taken out of the queue, to be held or not. -/
theorem Sound.pick {queue' : List κ} {o : Option κ}
    (hs : Sound conns ⟨queue, hold⟩) (conn : κ) (hperm : queue.Perm (conn :: queue'))
    (ho : ∀ conn', o = some conn' → conn' = conn) :
    Sound conns ⟨queue', Function.update hold i o⟩ := by
  have htaken := (hs.perm hperm).take (i := i)
  have hpicked := htaken.settle (Function.update_self ..) ho
  rw [Function.update_idem] at hpicked
  exact hpicked

/-- One that holds nothing is given a connection that is new. -/
theorem Sound.mint {conns' : List κ} (hs : Sound conns ⟨queue, hold⟩)
    (hsub : conns ⊆ conns') (hconn : conn ∈ conns') (hnew : conn ∉ conns) :
    Sound conns' ⟨queue, Function.update hold i (some conn)⟩ := by
  have hfresh : conn ∉ queue := fun hmem => hnew (hs.queued conn hmem)
  have hunheld : ∀ j, hold j ≠ some conn := fun j hj =>
    hnew (hs.held j conn hj)
  have hwider : Sound conns' ⟨conn :: queue, hold⟩ := by
    refine ⟨List.nodup_cons.mpr ⟨hfresh, hs.nodup⟩, ?_, ?_, ?_, hs.one⟩
    · exact List.forall_mem_cons.mpr
        ⟨hconn, fun conn' hmem => hsub (hs.queued conn' hmem)⟩
    · exact fun j conn' hj => hsub (hs.held j conn' hj)
    · intro j conn' hj hmem
      rcases List.mem_cons.mp hmem with rfl | hqueued
      · exact hunheld j hj
      · exact hs.apart j conn' hj hqueued
  exact hwider.take

/-- A step keeps every connection in one place. -/
theorem Step.sound (h : Step l e l') (hs : Sound conns l) :
    Sound conns l' := by
  cases h with
  | take => exact hs.take
  | keep => exact hs
  | drop => exact hs.letGo
  | give hi => exact hs.give hi

/-- All connections are accounted for after a step if they were before
and none was dropped. -/
theorem Step.accounted_iff (h : Step l e l') (hs : Sound conns l) :
    Accounted conns l' ↔ Accounted conns l ∧ e.2 ≠ .drop := by
  cases h with
  | @take queue hold i conn hi =>
      rw [and_iff_left (by nofun)]
      apply forall₂_congr
      intro conn' _
      show (conn' ∈ queue ∨ ∃ j, Function.update hold i (some conn) j
          = some conn')
        ↔ conn' ∈ conn :: queue ∨ ∃ j, hold j = some conn'
      rw [List.mem_cons, held_take_iff hi, or_assoc, or_left_comm]
  | keep => exact (and_iff_left (by nofun)).symm
  | @drop queue hold i conn hi =>
      apply iff_of_false
      · intro haccounted
        rcases haccounted conn (hs.held i conn hi) with hqueued | ⟨j, hj⟩
        · exact hs.apart i conn hi hqueued
        · obtain ⟨hne, hj⟩ := update_none_iff.mp hj
          exact hne (hs.one j i conn hj hi)
      · intro hex
        obtain ⟨-, hdrop⟩ := hex
        exact hdrop rfl
  | @give queue hold i conn hi =>
      rw [and_iff_left (by nofun)]
      apply forall₂_congr
      intro conn' _
      show (conn' ∈ queue ++ [conn] ∨ ∃ j, Function.update hold i none j
          = some conn')
        ↔ conn' ∈ queue ∨ ∃ j, hold j = some conn'
      rw [List.mem_append, List.mem_singleton, or_assoc,
        held_letGo_iff hi]

section Runs

variable {es : List (ι × Handover)}

/-- No connection is ever in two places. -/
theorem sound_of_run (hconns : conns.Nodup)
    (h : Run Step (full conns) es l) : Sound conns l :=
  h.invariant (fun _ _ _ hs hstep => hstep.sound hs) (sound_full hconns)

/-- The connections are all accounted for as long as none is dropped. -/
theorem accounted_iff (hconns : conns.Nodup)
    (h : Run Step (full conns) es l) :
    Accounted conns l ↔ ∀ e ∈ es, e.2 ≠ .drop := by
  refine h.snoc_induction (P := fun es l =>
    Accounted conns l ↔ ∀ e ∈ es, e.2 ≠ .drop) ?_ ?_
  · exact iff_of_true (fun conn hconn => Or.inl hconn) nofun
  · intro es e now next hrun ih hstep
    rw [hstep.accounted_iff (sound_of_run hconns hrun), ih]
    simp [or_imp, forall_and]

/-- The connections that were dropped, one for each time. -/
theorem exists_dropped (hconns : conns.Nodup)
    (h : Run Step (full conns) es l) :
    ∃ dropped : List κ, dropped.Nodup
      ∧ dropped.length = es.countP (fun e => e.2 = .drop)
      ∧ ∀ conn, conn ∈ dropped ↔ conn ∈ conns ∧ conn ∉ l.queue
        ∧ ∀ i, l.hold i ≠ some conn := by
  refine h.snoc_induction (P := fun es l => ∃ dropped : List κ,
    dropped.Nodup ∧ dropped.length = es.countP (fun e => e.2 = .drop)
      ∧ ∀ conn, conn ∈ dropped ↔ conn ∈ conns ∧ conn ∉ l.queue
        ∧ ∀ i, l.hold i ≠ some conn) ?_ ?_
  · refine ⟨[], List.nodup_nil, rfl, fun conn => ?_⟩
    simp only [List.not_mem_nil, false_iff, not_and]
    intro hconn hqueue
    exact absurd hconn hqueue
  · intro es e now next hrun ih hstep
    have hs := sound_of_run hconns hrun
    obtain ⟨dropped, hnodup, hlength, hmem⟩ := ih
    rw [List.countP_append, List.countP_singleton, ← hlength]
    cases hstep with
    | @take queue hold i conn hi =>
        refine ⟨dropped, hnodup, by simp, fun other => ?_⟩
        rw [hmem other]
        have hheld : (∃ j, Function.update hold i (some conn) j = some other)
            ↔ other = conn ∨ ∃ j, hold j = some other := held_take_iff hi
        simp only [List.mem_cons, not_or, ← not_exists, hheld]
        tauto
    | keep => exact ⟨dropped, hnodup, by simp, hmem⟩
    | @drop queue hold i conn hi =>
        have hnew : conn ∉ dropped := by
          rw [hmem conn]
          intro hex
          exact hex.2.2 i hi
        have hgone : ¬ ∃ j, Function.update hold i none j = some conn := by
          intro hex
          obtain ⟨j, hj⟩ := hex
          obtain ⟨hne, hj⟩ := update_none_iff.mp hj
          exact hne (hs.one j i conn hj hi)
        have hconn := hs.held i conn hi
        have hqueue := hs.apart i conn hi
        refine ⟨conn :: dropped, List.nodup_cons.mpr ⟨hnew, hnodup⟩, by simp,
          fun other => ?_⟩
        have hheld : (other = conn ∨ ∃ j, Function.update hold i none j
            = some other) ↔ ∃ j, hold j = some other := held_letGo_iff hi
        rw [List.mem_cons, hmem other]
        simp only [← not_exists, ← hheld]
        by_cases hother : other = conn
        · subst hother
          tauto
        · tauto
    | @give queue hold i conn hi =>
        refine ⟨dropped, hnodup, by simp, fun other => ?_⟩
        rw [hmem other]
        have hheld : (other = conn ∨ ∃ j, Function.update hold i none j
            = some other) ↔ ∃ j, hold j = some other := held_letGo_iff hi
        simp only [List.mem_append, List.mem_singleton, not_or,
          ← not_exists, ← hheld]
        tauto

/-- Where the queue is empty, all that were not dropped are held. -/
theorem exists_held (hconns : conns.Nodup) (h : Run Step (full conns) es l)
    (hempty : l.queue = []) :
    ∃ held : List κ, held.Nodup
      ∧ conns.length = held.length + es.countP (fun e => e.2 = .drop)
      ∧ ∀ conn ∈ held, ∃ i, l.hold i = some conn := by
  classical
  obtain ⟨dropped, hnodup, hlength, hmem⟩ := exists_dropped hconns h
  refine ⟨conns.filter (· ∉ dropped), hconns.filter _, ?_, ?_⟩
  · have hsame : (conns.filter (· ∈ dropped)).Perm dropped := by
      rw [List.perm_ext_iff_of_nodup (hconns.filter _) hnodup]
      intro conn
      rw [List.mem_filter, decide_eq_true_eq]
      exact ⟨fun hboth => hboth.2,
        fun hconn => ⟨((hmem conn).mp hconn).1, hconn⟩⟩
    rw [← hlength, ← hsame.length_eq, Nat.add_comm]
    simpa only [decide_not] using
      List.length_eq_length_filter_add fun conn => decide (conn ∈ dropped)
  · intro conn hconn
    rw [List.mem_filter, decide_eq_true_eq, hmem conn] at hconn
    obtain ⟨hin, hnot⟩ := hconn
    by_contra hnone
    refine hnot ⟨hin, ?_, not_exists.mp hnone⟩
    rw [hempty]
    exact List.not_mem_nil

/-- Where those who hold a connection do so at places, and one place has
none, the queue has one, if there are enough for all places. -/
theorem exists_queued {ω : Type} [Fintype ω] (hconns : conns.Nodup)
    (h : Run Step (full conns) es l) (held : ω → Option κ)
    (hplaced : ∀ i conn, l.hold i = some conn → ∃ w, held w = some conn)
    {free : ω} (hfree : held free = none)
    (hsize : Fintype.card ω + es.countP (fun e => e.2 = .drop)
      ≤ conns.length) :
    l.queue ≠ [] := by
  classical
  intro hempty
  obtain ⟨out, hnodup, hlength, hout⟩ := exists_held hconns h hempty
  have hsub : out.toFinset.image some
      ⊆ (Finset.univ.erase free).image held := by
    intro o ho
    obtain ⟨conn, hconn, rfl⟩ := Finset.mem_image.mp ho
    obtain ⟨i, hi⟩ := hout conn (List.mem_toFinset.mp hconn)
    obtain ⟨w, hw⟩ := hplaced i conn hi
    have hne : w ≠ free := by
      intro heq
      rw [heq, hfree] at hw
      cases hw
    exact Finset.mem_image.mpr
      ⟨w, Finset.mem_erase.mpr ⟨hne, Finset.mem_univ w⟩, hw⟩
  have hle := (Finset.card_le_card hsub).trans Finset.card_image_le
  rw [Finset.card_image_of_injective _ (Option.some_injective κ),
    List.toFinset_card_of_nodup hnodup] at hle
  have hlt := Finset.card_erase_lt_of_mem (Finset.mem_univ free)
  rw [Finset.card_univ] at hlt
  omega

/-- There is a connection left just if fewer were dropped than there
are. -/
theorem left_iff (hconns : conns.Nodup) (h : Run Step (full conns) es l) :
    (∃ conn, conn ∈ l.queue ∨ ∃ i, l.hold i = some conn)
      ↔ es.countP (fun e => e.2 = .drop) < conns.length := by
  have hs := sound_of_run hconns h
  obtain ⟨dropped, hnodup, hlength, hmem⟩ := exists_dropped hconns h
  have hsub : dropped ⊆ conns := fun conn hconn => ((hmem conn).mp hconn).1
  rw [← hlength]
  constructor
  · intro hex
    obtain ⟨conn, hleft⟩ := hex
    have hconn : conn ∈ conns := by
      rcases hleft with hqueued | ⟨i, hi⟩
      · exact hs.queued conn hqueued
      · exact hs.held i conn hi
    have hnot : conn ∉ dropped := by
      rw [hmem conn]
      intro hboth
      obtain ⟨-, hqueue, hhold⟩ := hboth
      rcases hleft with hqueued | ⟨i, hi⟩
      · exact hqueue hqueued
      · exact hhold i hi
    have hcons : (conn :: dropped).Subperm conns :=
      List.subperm_of_subset (List.nodup_cons.mpr ⟨hnot, hnodup⟩)
        (List.cons_subset.mpr ⟨hconn, hsub⟩)
    have hle := hcons.length_le
    rw [List.length_cons] at hle
    omega
  · intro hlt
    by_contra hnone
    have hall : conns ⊆ dropped := by
      intro conn hconn
      rw [hmem conn]
      refine ⟨hconn, fun hqueued => hnone ⟨conn, Or.inl hqueued⟩, ?_⟩
      intro i hi
      exact hnone ⟨conn, Or.inr ⟨i, hi⟩⟩
    have hle := (List.subperm_of_subset hconns hall).length_le
    omega

/-- Once no connection is held, the queue is whole just if none was
dropped. -/
theorem perm_iff (hconns : conns.Nodup) (h : Run Step (full conns) es l)
    (hquiet : ∀ i, l.hold i = none) :
    l.queue.Perm conns ↔ ∀ e ∈ es, e.2 ≠ .drop := by
  have hs := sound_of_run hconns h
  rw [← accounted_iff hconns h, List.perm_ext_iff_of_nodup hs.nodup hconns]
  constructor
  · intro hmem conn hconn
    exact Or.inl ((hmem conn).mpr hconn)
  · intro haccounted conn
    refine ⟨hs.queued conn, fun hconn => ?_⟩
    rcases haccounted conn hconn with hqueued | ⟨i, hi⟩
    · exact hqueued
    · rw [hquiet i] at hi
      cases hi

end Runs

end Ledger

-- ================================================================== the code

/-- The calls of code that uses a pool, `C` being the commands. -/
inductive PoolCall (κ C : Type)
  | acquire
  | command (conn : κ) (c : C)
  | release (conn : κ)

/-- What each is answered. -/
abbrev PoolCall.Reply {C : Type} (R : C → Type) : PoolCall κ C → Type
  | .acquire => κ
  | .command _ c => R c
  | .release _ => Unit

/-- A queue of connections, and what is behind them. -/
structure Pool (κ σ : Type) where
  queue : List κ
  behind : σ

variable {C σ π : Type} {R : C → Type}

/-- The calls as a pool serves them. An `acquire` waits while the queue
is empty. -/
inductive Pool.Serves (commands : κ → Service C R σ) :
    Service (PoolCall κ C) (PoolCall.Reply R) (Pool κ σ)
  | acquire {conn : κ} {queue : List κ} {s : σ} :
      Serves commands .acquire ⟨conn :: queue, s⟩ conn ⟨queue, s⟩
  | command {conn : κ} {c : C} {r : R c} {queue : List κ} {s s' : σ}
      (h : commands conn c s r s') :
      Serves commands (.command conn c) ⟨queue, s⟩ r ⟨queue, s'⟩
  | release {conn : κ} {queue : List κ} {s : σ} :
      Serves commands (.release conn) ⟨queue, s⟩ () ⟨queue ++ [conn], s⟩

/-- An `acquire` waits just while the queue is empty. -/
theorem Pool.acquire_iff {commands : κ → Service C R σ} {pool : Pool κ σ} :
    (∃ conn after, Pool.Serves commands .acquire pool conn after)
      ↔ pool.queue ≠ [] := by
  obtain ⟨queue, s⟩ := pool
  constructor
  · intro hex
    obtain ⟨conn, after, hserves⟩ := hex
    cases hserves
    exact List.cons_ne_nil _ _
  · intro hne
    obtain ⟨conn, rest, rfl⟩ := List.exists_cons_of_ne_nil hne
    exact ⟨conn, ⟨rest, s⟩, .acquire⟩

/-- Code that uses only the connection it has acquired. `held` is the
connection it has at a point, and `drops` the answers that leave it
without. -/
structure Borrows (code : Code (PoolCall κ C) (PoolCall.Reply R) π)
    (held : π → Option κ) (drops : (c : C) → R c → Bool) : Prop where
  acquire : ∀ p k, code p = some ⟨.acquire, k⟩ →
    held p = none ∧ ∀ conn, held (k conn) = some conn
  command : ∀ p conn c k, code p = some ⟨.command conn c, k⟩ →
    held p = some conn
      ∧ ∀ r, held (k r) = if drops c r then none else some conn
  release : ∀ p conn k, code p = some ⟨.release conn, k⟩ →
    held p = some conn ∧ held (k ()) = none

/-- What an answered call is in the ledger. -/
def handoverOf (drops : (c : C) → R c → Bool) :
    Answer (PoolCall κ C) (PoolCall.Reply R) → Handover
  | ⟨.acquire, _⟩ => .take
  | ⟨.command _ c, r⟩ => if drops c r then .drop else .keep
  | ⟨.release _, _⟩ => .give

/-- The ledger of a pool and the code that uses it. -/
def ledger (held : π → Option κ) (now : Running ι π (Pool κ σ)) :
    Ledger ι κ :=
  ⟨now.shared.queue, held ∘ now.point⟩

section

variable [DecidableEq ι] {code : Code (PoolCall κ C) (PoolCall.Reply R) π}
  {held : π → Option κ} {drops : (c : C) → R c → Bool}
  {commands : κ → Service C R σ} {now next : Running ι π (Pool κ σ)}

/-- A move of code that borrows is a step of the ledger. -/
theorem Move.ledger (hb : Borrows code held drops)
    {e : ι × Answer (PoolCall κ C) (PoolCall.Reply R)}
    (h : Move code (Pool.Serves commands) now e next) :
    (Lib.ledger held now).Step (e.1, handoverOf drops e.2)
      (Lib.ledger held next) := by
  obtain ⟨⟨queue, s⟩, point⟩ := now
  cases h with
  | @call i c k r shared hcode hservice =>
      unfold Lib.ledger
      simp only [Function.comp_update] at hcode ⊢
      cases hservice with
      | acquire =>
          obtain ⟨hbefore, hafter⟩ := hb.acquire _ _ hcode
          rw [hafter]
          exact .take hbefore
      | @command conn c r queue s s' hcommand =>
          obtain ⟨hbefore, hafter⟩ := hb.command _ _ _ _ hcode
          have hhold : (held ∘ point) i = some conn := hbefore
          simp only [hafter, handoverOf]
          by_cases hdrop : drops c r = true
          · rw [if_pos hdrop, if_pos hdrop]
            exact .drop hbefore
          · rw [if_neg hdrop, if_neg hdrop, ← hhold, Function.update_eq_self]
            exact .keep
      | release =>
          obtain ⟨hbefore, hafter⟩ := hb.release _ _ _ hcode
          rw [hafter]
          exact .give hbefore

/-- A run of code that borrows is a run of the ledger. -/
theorem Run.ledger (hb : Borrows code held drops)
    {es : List (ι × Answer (PoolCall κ C) (PoolCall.Reply R))}
    (h : Run (Move code (Pool.Serves commands)) now es next) :
    Run Ledger.Step (Lib.ledger held now)
      (es.map fun e => (e.1, handoverOf drops e.2)) (Lib.ledger held next) :=
  h.simulates fun _ _ _ hmove => hmove.ledger hb

end

end Creeper.Lib

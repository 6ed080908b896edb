/-
Two interfaces side by side, and a pool behind one of them.

Code that uses two services makes the calls of either. `Code.beside` and
`Service.Beside` put two of each next to one another, and `Code.right`
is any such code seen from its second service: the calls of the first
are then no calls at all, they only take the code from one point to
another (`Move.sides`).

Where the second service is a pool, what is known of a pool holds on
this side as it does alone: the ledger (`Sides.ledger_run`) and the
custody (`Sides.custody_move`), and both for programs over code that
borrows, since between its calls a program holds nothing
(`Implementation.borrows`).
-/
import Creeper.Lib.Custody
import Creeper.Lib.Layers

namespace Creeper.Lib

variable {C C₁ C₂ : Type} {R : C → Type} {R₁ : C₁ → Type} {R₂ : C₂ → Type}
  {α ι κ π π₁ π₂ σ σ₁ σ₂ : Type}

-- ================================================================ side by side

/-- The answers of two interfaces. -/
abbrev BothReply (R₁ : C₁ → Type) (R₂ : C₂ → Type) : C₁ ⊕ C₂ → Type
  | .inl c => R₁ c
  | .inr c => R₂ c

/-- Code of either kind. -/
def Code.beside (left : Code C₁ R₁ π₁) (right : Code C₂ R₂ π₂) :
    Code (C₁ ⊕ C₂) (BothReply R₁ R₂) (π₁ ⊕ π₂)
  | .inl p => (left p).map fun next => ⟨.inl next.1, fun r => .inl (next.2 r)⟩
  | .inr p => (right p).map fun next => ⟨.inr next.1, fun r => .inr (next.2 r)⟩

/-- Two services, each on its own state. -/
inductive Service.Beside (left : Service C₁ R₁ σ₁) (right : Service C₂ R₂ σ₂) :
    Service (C₁ ⊕ C₂) (BothReply R₁ R₂) (σ₁ × σ₂)
  | left {c : C₁} {s s' : σ₁} {t : σ₂} {r : R₁ c} (h : left c s r s') :
      Beside left right (.inl c) (s, t) r (s', t)
  | right {c : C₂} {s : σ₁} {t t' : σ₂} {r : R₂ c} (h : right c t r t') :
      Beside left right (.inr c) (s, t) r (s, t')

/-- What the first calls. -/
theorem Code.beside_left {left : Code C₁ R₁ π₁} {right : Code C₂ R₂ π₂}
    {p : π₁} {c : C₁} {k : R₁ c → π₁} (h : left p = some ⟨c, k⟩) :
    Code.beside left right (.inl p)
      = some ⟨.inl c, fun r => .inl (k r)⟩ := by
  rw [beside, h]
  rfl

/-- What the second calls. -/
theorem Code.beside_right {left : Code C₁ R₁ π₁} {right : Code C₂ R₂ π₂}
    {p : π₂} {c : C₂} {k : R₂ c → π₂} (h : right p = some ⟨c, k⟩) :
    Code.beside left right (.inr p)
      = some ⟨.inr c, fun r => .inr (k r)⟩ := by
  rw [beside, h]
  rfl

/-- A call of code of either kind is one of its kind. -/
theorem Code.beside_inv {left : Code C₁ R₁ π₁} {right : Code C₂ R₂ π₂}
    {p : π₁ ⊕ π₂} {c : C₁ ⊕ C₂} {next : BothReply R₁ R₂ c → π₁ ⊕ π₂}
    (h : Code.beside left right p = some ⟨c, next⟩) :
    (∃ p₁ c₁ k, p = .inl p₁ ∧ left p₁ = some ⟨c₁, k⟩
        ∧ (⟨c, next⟩ : (c : C₁ ⊕ C₂) × (BothReply R₁ R₂ c → π₁ ⊕ π₂))
          = ⟨.inl c₁, fun r => .inl (k r)⟩)
      ∨ ∃ p₂ c₂ k, p = .inr p₂ ∧ right p₂ = some ⟨c₂, k⟩
        ∧ (⟨c, next⟩ : (c : C₁ ⊕ C₂) × (BothReply R₁ R₂ c → π₁ ⊕ π₂))
          = ⟨.inr c₂, fun r => .inr (k r)⟩ := by
  cases p with
  | inl p =>
      obtain ⟨⟨c₁, k⟩, hcode, heq⟩ := Option.map_eq_some_iff.mp h
      exact Or.inl ⟨p, c₁, k, rfl, hcode, heq.symm⟩
  | inr p =>
      obtain ⟨⟨c₂, k⟩, hcode, heq⟩ := Option.map_eq_some_iff.mp h
      exact Or.inr ⟨p, c₂, k, rfl, hcode, heq.symm⟩

-- =================================================================== one side

/-- The calls of the second interface. -/
def Code.right (code : Code (C₁ ⊕ C₂) (BothReply R₁ R₂) π) : Code C₂ R₂ π :=
  fun p => match code p with
    | some ⟨.inr c, k⟩ => some ⟨c, k⟩
    | _ => none

/-- The second state, and all threads. -/
def Running.right (now : Running ι π (σ₁ × σ₂)) : Running ι π σ₂ :=
  ⟨now.shared.2, now.point⟩

theorem Code.right_eq_some_iff {code : Code (C₁ ⊕ C₂) (BothReply R₁ R₂) π}
    {p : π} {c : C₂} {k : R₂ c → π} :
    code.right p = some ⟨c, k⟩ ↔ code p = some ⟨.inr c, k⟩ := by
  unfold Code.right
  split
  · next c' k' h =>
    rw [h]
    constructor
    · intro heq
      cases heq
      rfl
    · intro heq
      cases heq
      rfl
  · next h =>
    constructor
    · intro heq
      cases heq
    · intro heq
      exact absurd heq (h c k)

/-- Of two pieces of code, the second makes the calls of its side. -/
theorem Code.right_beside_inv {left : Code C₁ R₁ π₁} {right : Code C₂ R₂ π₂}
    {p : π₁ ⊕ π₂} {c : C₂} {k : R₂ c → π₁ ⊕ π₂}
    (h : (Code.beside left right).right p = some ⟨c, k⟩) :
    ∃ p₂ k₂, p = .inr p₂ ∧ right p₂ = some ⟨c, k₂⟩
      ∧ k = fun r => .inr (k₂ r) := by
  rcases Code.beside_inv (Code.right_eq_some_iff.mp h) with
    ⟨p₁, c₁, k₁, -, -, heq⟩ | ⟨p₂, c₂, k₂, rfl, hcode, heq⟩
  · cases heq
  · cases heq
    exact ⟨p₂, k₂, rfl, hcode, rfl⟩

section

variable [DecidableEq ι] {code : Code (C₁ ⊕ C₂) (BothReply R₁ R₂) π}
  {left : Service C₁ R₁ σ₁} {right : Service C₂ R₂ σ₂}
  {now next : Running ι π (σ₁ × σ₂)}
  {e : ι × Answer (C₁ ⊕ C₂) (BothReply R₁ R₂)}

/-- A move is one of the second side, or leaves the second state. -/
theorem Move.sides (h : Move code (Service.Beside left right) now e next) :
    (∃ c r, e.2 = ⟨.inr c, r⟩ ∧ next.shared.1 = now.shared.1
        ∧ Move code.right right now.right (e.1, ⟨c, r⟩) next.right)
      ∨ ∃ c k r, e.2 = ⟨.inl c, r⟩ ∧ code (now.point e.1) = some ⟨.inl c, k⟩
        ∧ left c now.shared.1 r next.shared.1
        ∧ next.right = ⟨now.shared.2, Function.update now.point e.1 (k r)⟩ := by
  obtain ⟨⟨s, t⟩, point⟩ := now
  cases h with
  | @call i c k r shared hcode hservice =>
      cases hservice with
      | left hleft => exact Or.inr ⟨_, k, _, rfl, hcode, hleft, rfl⟩
      | @right c s t t' r hright =>
          exact Or.inl ⟨c, r, rfl, rfl,
            .call (Code.right_eq_some_iff.mpr hcode) hright⟩

end

-- =============================================================== the other side

/-- The same with the sides exchanged. -/
def Code.swap (code : Code (C₁ ⊕ C₂) (BothReply R₁ R₂) π) :
    Code (C₂ ⊕ C₁) (BothReply R₂ R₁) π :=
  fun p => match code p with
    | some ⟨.inl c, k⟩ => some ⟨.inr c, k⟩
    | some ⟨.inr c, k⟩ => some ⟨.inl c, k⟩
    | none => none

/-- The states exchanged. -/
def Running.swap (now : Running ι π (σ₁ × σ₂)) : Running ι π (σ₂ × σ₁) :=
  ⟨now.shared.swap, now.point⟩

/-- An answer with the sides exchanged. -/
def Answer.swap : Answer (C₁ ⊕ C₂) (BothReply R₁ R₂) →
    Answer (C₂ ⊕ C₁) (BothReply R₂ R₁)
  | ⟨.inl c, r⟩ => ⟨.inr c, r⟩
  | ⟨.inr c, r⟩ => ⟨.inl c, r⟩

/-- A move is one with the sides exchanged. -/
theorem Move.swap [DecidableEq ι] {code : Code (C₁ ⊕ C₂) (BothReply R₁ R₂) π}
    {left : Service C₁ R₁ σ₁} {right : Service C₂ R₂ σ₂}
    {now next : Running ι π (σ₁ × σ₂)}
    {e : ι × Answer (C₁ ⊕ C₂) (BothReply R₁ R₂)}
    (h : Move code (Service.Beside left right) now e next) :
    Move code.swap (Service.Beside right left) now.swap (e.1, e.2.swap)
      next.swap := by
  obtain ⟨⟨s, t⟩, point⟩ := now
  cases h with
  | call hcode hservice =>
      cases hservice with
      | left hleft =>
          refine .call ?_ (.right hleft)
          show Code.swap code (point _) = _
          rw [Code.swap, show code (point _) = _ from hcode]
      | right hright =>
          refine .call ?_ (.left hright)
          show Code.swap code (point _) = _
          rw [Code.swap, show code (point _) = _ from hcode]

/-- The calls of the first interface. -/
theorem Code.swap_right_eq_some_iff
    {code : Code (C₁ ⊕ C₂) (BothReply R₁ R₂) π} {p : π} {c : C₁}
    {k : R₁ c → π} :
    code.swap.right p = some ⟨c, k⟩ ↔ code p = some ⟨.inl c, k⟩ := by
  rw [Code.right_eq_some_iff, Code.swap]
  split
  · next c' k' h =>
    rw [h]
    constructor
    · intro heq
      cases heq
      rfl
    · intro heq
      cases heq
      rfl
  · next c' k' h =>
    rw [h]
    constructor
    · intro heq
      cases heq
    · intro heq
      cases heq
  · next h =>
    rw [h]
    constructor
    · intro heq
      cases heq
    · intro heq
      cases heq

/-- And of the second. -/
theorem Code.swap_eq_some_inl_iff
    {code : Code (C₁ ⊕ C₂) (BothReply R₁ R₂) π} {p : π} {c : C₂}
    {k : R₂ c → π} :
    code.swap p = some ⟨.inl c, k⟩ ↔ code p = some ⟨.inr c, k⟩ := by
  rw [Code.swap]
  split
  · next c' k' h =>
    rw [h]
    constructor
    · intro heq
      cases heq
    · intro heq
      cases heq
  · next c' k' h =>
    rw [h]
    constructor
    · intro heq
      cases heq
      rfl
    · intro heq
      cases heq
      rfl
  · next h =>
    rw [h]
    constructor
    · intro heq
      cases heq
    · intro heq
      cases heq

/-- Code for each call, with the sides exchanged. -/
def Implementation.swap {D : Type} {S : D → Type}
    (impl : Implementation D S (C₁ ⊕ C₂) (BothReply R₁ R₂) π) :
    Implementation D S (C₂ ⊕ C₁) (BothReply R₂ R₁) π where
  code := impl.code.swap
  enter := impl.enter
  result := impl.result

/-- A call stands there as it does here. -/
theorem Implementation.Under.swap {D : Type} {S : D → Type}
    {impl : Implementation D S (C₁ ⊕ C₂) (BothReply R₁ R₂) π} {c : D}
    {k : S c → Prog D S α} {p : π} {l : Layer D S α π}
    (h : impl.Under c k p l) : impl.swap.Under c k p l := by
  cases h with
  | enter => exact .enter
  | inside p => exact .inside p

/-- A program over it is the program over the code, exchanged. -/
theorem Implementation.layered_swap {D : Type} {S : D → Type}
    (impl : Implementation D S (C₁ ⊕ C₂) (BothReply R₁ R₂) π) :
    impl.swap.layered (α := α) = impl.layered.swap := by
  have hwithin : ∀ (c : D) (k : S c → Prog D S α) (p : π)
      (l : Layer D S α π), impl.layered l = impl.within c k p →
      impl.swap.within c k p = impl.layered.swap l := by
    intro c k p l hl
    unfold Code.swap
    rw [hl]
    unfold within
    show (Code.swap impl.code p).map _ = _
    unfold Code.swap
    rcases hp : impl.code p with _ | ⟨c' | c', next⟩ <;> rfl
  funext l
  cases l with
  | outside prog =>
      cases prog with
      | ret a => rfl
      | call c k => exact hwithin c k _ _ rfl
  | inside c k p => exact hwithin c k p _ rfl

-- ============================================================== the first alone

/-- An answer of the first interface, if it is one. -/
def Answer.onLeft : Answer (C₁ ⊕ C₂) (BothReply R₁ R₂) → Option (Answer C₁ R₁)
  | ⟨.inl c, r⟩ => some ⟨c, r⟩
  | ⟨.inr _, _⟩ => none

/-- A step of the first kind of code, if it is one. -/
def Answer.eventOnLeft (e : ι × Answer (C₁ ⊕ C₂) (BothReply R₁ R₂)) :
    Option (ι × Answer C₁ R₁) :=
  e.2.onLeft.map fun a => (e.1, a)

/-- The first state and the first kind of code, the pieces of the second
kind staying where they are said to be. -/
def Running.onLeft (idle : ι → π₁) (now : Running ι (π₁ ⊕ π₂) (σ₁ × σ₂)) :
    Running ι π₁ σ₁ :=
  ⟨now.shared.1, fun i => (now.point i).elim id fun _ => idle i⟩

section

variable [DecidableEq ι] (idle : ι → π₁) {point : ι → π₁ ⊕ π₂} {i : ι}

/-- A piece of the first kind that has come to a point. -/
theorem Running.onLeft_inl (p : π₁) (s : σ₁) (t : σ₂) :
    Running.onLeft idle ⟨(s, t), Function.update point i (.inl p)⟩
      = ⟨s, Function.update (fun j => (point j).elim id fun _ => idle j) i
        p⟩ := by
  unfold Running.onLeft
  congr 1
  funext j
  by_cases hj : j = i
  · subst hj
    simp only [Function.update_self]
    rfl
  · simp only [Function.update_of_ne hj]

/-- A piece of the second kind is not seen. -/
theorem Running.onLeft_inr {p : π₂} (hp : point i = .inr p) (q : π₂) (s : σ₁)
    (t t' : σ₂) :
    Running.onLeft idle ⟨(s, t'), Function.update point i (.inr q)⟩
      = Running.onLeft idle ⟨(s, t), point⟩ := by
  unfold Running.onLeft
  congr 1
  funext j
  by_cases hj : j = i
  · subst hj
    simp only [Function.update_self, hp]
    rfl
  · simp only [Function.update_of_ne hj]

/-- One that stays of its kind leaves all of their kinds. -/
theorem isLeft_update {p : π₁ ⊕ π₂} (hp : p.isLeft = (point i).isLeft)
    (j : ι) : (Function.update point i p j).isLeft = (point j).isLeft := by
  by_cases hj : j = i
  · subst hj
    rw [Function.update_self, hp]
  · rw [Function.update_of_ne hj]

variable {first : Code C₁ R₁ π₁} {second : Code C₂ R₂ π₂}
  {left : Service C₁ R₁ σ₁} {right : Service C₂ R₂ σ₂}
  {now next : Running ι (π₁ ⊕ π₂) (σ₁ × σ₂)}
  {e : ι × Answer (C₁ ⊕ C₂) (BothReply R₁ R₂)}

/-- A move is one of the first kind of code, or none; and a piece of code
stays of its kind. -/
theorem Move.onLeft
    (h : Move (Code.beside first second) (Service.Beside left right) now e
      next) :
    Run (Move first left) (now.onLeft idle) (Answer.eventOnLeft e).toList
        (next.onLeft idle)
      ∧ ∀ i, (next.point i).isLeft = (now.point i).isLeft := by
  obtain ⟨⟨s, t⟩, point⟩ := now
  cases h with
  | @call i c k r shared hcode hservice =>
      change Code.beside first second (point i) = _ at hcode
      rcases Code.beside_inv hcode with
        ⟨p, c, k, hp, hfirst, heq⟩ | ⟨p, c, k, hp, hsecond, heq⟩
      · cases heq
        cases hservice with
        | left hleft =>
            refine ⟨?_, isLeft_update (congrArg Sum.isLeft hp).symm⟩
            have hcall : first ((Running.onLeft idle ⟨(s, t), point⟩).point i)
                = some ⟨c, k⟩ := by
              show first ((point i).elim id _) = _
              rw [hp]
              exact hfirst
            rw [Running.onLeft_inl]
            exact .cons (.call hcall hleft) (.nil _)
      · cases heq
        cases hservice with
        | right hright =>
            refine ⟨?_, isLeft_update (congrArg Sum.isLeft hp).symm⟩
            rw [Running.onLeft_inr idle hp _ s t]
            exact .nil _

/-- A run is one of the first kind of code by itself. -/
theorem Run.onLeft
    {es : List (ι × Answer (C₁ ⊕ C₂) (BothReply R₁ R₂))}
    (h : Run (Move (Code.beside first second) (Service.Beside left right)) now
      es next) :
    Run (Move first left) (now.onLeft idle)
        (es.filterMap Answer.eventOnLeft) (next.onLeft idle)
      ∧ ∀ i, (next.point i).isLeft = (now.point i).isLeft := by
  induction h with
  | nil => exact ⟨.nil _, fun _ => rfl⟩
  | @cons now mid next e es hmove _ ih =>
      obtain ⟨hfirst, hkind⟩ := hmove.onLeft idle
      refine ⟨?_, fun i => (ih.2 i).trans (hkind i)⟩
      have hrun := hfirst.append ih.1
      cases he : Answer.eventOnLeft e with
      | none =>
          rw [List.filterMap_cons_none he]
          rw [he] at hrun
          exact hrun
      | some f =>
          rw [List.filterMap_cons_some he]
          rw [he] at hrun
          exact hrun

end

-- ============================================================= a pool on a side

namespace Sides

variable [DecidableEq ι] {code : Code (C₁ ⊕ PoolCall κ C)
    (BothReply R₁ (PoolCall.Reply R)) π}
  {held : π → Option κ} {drops : (c : C) → R c → Bool}
  {left : Service C₁ R₁ σ₁} {commands : κ → Service C R σ}
  {s τ : Type} {status : σ → κ → s} {common : σ → τ}
  {ok : ι × Answer (PoolCall κ C) (PoolCall.Reply R) → Prop}
  {Q : κ → s → τ → Prop} {J : ι → π → Option s → τ → Prop}
  {conns : List κ} {now next : Running ι π (σ₁ × Pool κ σ)}
  {e : ι × Answer (C₁ ⊕ PoolCall κ C) (BothReply R₁ (PoolCall.Reply R))}

/-- No connection is held across a call of the other side. -/
def FreeLeft (code : Code (C₁ ⊕ C₂) (BothReply R₁ R₂) π)
    (held : π → Option κ) : Prop :=
  ∀ p c k, code p = some ⟨.inl c, k⟩ →
    held p = none ∧ ∀ r, held (k r) = none

/-- What an answer of either side is in the ledger. -/
def handover (drops : (c : C) → R c → Bool) :
    Answer (C₁ ⊕ PoolCall κ C) (BothReply R₁ (PoolCall.Reply R)) → Handover
  | ⟨.inl _, _⟩ => .keep
  | ⟨.inr c, r⟩ => handoverOf drops ⟨c, r⟩

/-- A move is a step of the ledger. -/
theorem ledger_move (hb : Borrows code.right held drops)
    (hfree : FreeLeft code held)
    (h : Move code (Service.Beside left (Pool.Serves commands)) now e next) :
    (ledger held now.right).Step (e.1, handover drops e.2)
      (ledger held next.right) := by
  obtain ⟨i, a⟩ := e
  rcases h.sides with ⟨c, r, he, -, hmove⟩ | ⟨c, k, r, he, hcode, -, hnext⟩
  · cases he
    exact hmove.ledger hb
  · cases he
    obtain ⟨hbefore, hafter⟩ := hfree _ _ _ hcode
    rw [hnext]
    have hsame : held ∘ Function.update now.point i (k r)
        = held ∘ now.point := by
      rw [Function.comp_update, hafter r, ← hbefore]
      exact Function.update_eq_self ..
    show Ledger.Step _ _ ⟨now.shared.2.queue, held ∘ _⟩
    rw [hsame]
    exact .keep

/-- A run is a run of the ledger. -/
theorem ledger_run (hb : Borrows code.right held drops)
    (hfree : FreeLeft code held)
    {es : List (ι × Answer (C₁ ⊕ PoolCall κ C)
      (BothReply R₁ (PoolCall.Reply R)))}
    (h : Run (Move code (Service.Beside left (Pool.Serves commands))) now es
      next) :
    Run Ledger.Step (ledger held now.right)
      (es.map fun e => (e.1, handover drops e.2)) (ledger held next.right) := by
  induction h with
  | nil => exact .nil _
  | cons hmove _ ih => exact .cons (ledger_move hb hfree hmove) ih

/-- The move keeps the custody, if the calls of the other side keep what
is known of a thread that holds nothing. -/
theorem custody_move (hb : Borrows code.right held drops)
    (hfree : FreeLeft code held)
    (hrule : Custody.Rule code.right held commands status common ok Q J)
    (hleft : ∀ i p c k r t, code p = some ⟨.inl c, k⟩ → J i p none t →
      J i (k r) none t)
    (hs : Ledger.Sound conns (ledger held now.right))
    (hc : Custody held status common Q J now.right)
    (hok : ∀ c r, e.2 = ⟨.inr c, r⟩ → ok (e.1, ⟨c, r⟩))
    (h : Move code (Service.Beside left (Pool.Serves commands)) now e next) :
    Custody held status common Q J next.right := by
  rcases h.sides with ⟨c, r, he, -, hmove⟩ | ⟨c, k, r, -, hcode, -, hnext⟩
  · exact Custody.move hb hrule hs hc (hok c r he) hmove
  · obtain ⟨hbefore, hafter⟩ := hfree _ _ _ hcode
    rw [hnext]
    refine ⟨hc.queued, fun i => ?_⟩
    by_cases hi : i = e.1
    · subst hi
      have hkept := hc.kept e.1
      show J e.1 (Function.update now.point e.1 (k r) e.1)
        ((held (Function.update now.point e.1 (k r) e.1)).map _) _
      rw [Function.update_self, hafter r]
      apply hleft e.1 _ c k r _ hcode
      show J e.1 (now.point e.1) none _
      have hnone : (held (now.point e.1)).map
          (status now.shared.2.behind) = none := by rw [hbefore]; rfl
      rw [← hnone]
      exact hkept
    · have hsame : Function.update now.point e.1 (k r) i = now.point i :=
        Function.update_of_ne hi ..
      show J i (Function.update now.point e.1 (k r) i)
        ((held (Function.update now.point e.1 (k r) i)).map _) _
      rw [hsame]
      exact hc.kept i

/-- Code beside other code borrows as it does alone. -/
theorem borrows_beside {left : Code C₁ R₁ π₁}
    {right : Code (PoolCall κ C) (PoolCall.Reply R) π₂} {held : π₂ → Option κ}
    {drops : (c : C) → R c → Bool} (hb : Borrows right held drops) :
    Borrows (Code.beside left right).right (Sum.elim (fun _ => none) held)
      drops := by
  refine ⟨?_, ?_, ?_⟩
  · intro p k hcode
    obtain ⟨p₂, k₂, rfl, hown, rfl⟩ := Code.right_beside_inv hcode
    exact hb.acquire p₂ k₂ hown
  · intro p conn c k hcode
    obtain ⟨p₂, k₂, rfl, hown, rfl⟩ := Code.right_beside_inv hcode
    exact hb.command p₂ conn c k₂ hown
  · intro p conn k hcode
    obtain ⟨p₂, k₂, rfl, hown, rfl⟩ := Code.right_beside_inv hcode
    exact hb.release p₂ conn k₂ hown

/-- And the other code holds nothing. -/
theorem freeLeft_beside {left : Code C₁ R₁ π₁}
    {right : Code (PoolCall κ C) (PoolCall.Reply R) π₂}
    {held : π₂ → Option κ} :
    FreeLeft (Code.beside left right) (Sum.elim (fun _ => none) held) := by
  intro p c k hcode
  rcases Code.beside_inv hcode with
    ⟨p₁, c₁, k₁, rfl, -, heq⟩ | ⟨p₂, c₂, k₂, rfl, -, heq⟩
  · cases heq
    exact ⟨rfl, fun _ => rfl⟩
  · cases heq

/-- The first of two pieces of code borrows as it does alone. -/
theorem borrows_beside_left {left : Code (PoolCall κ C) (PoolCall.Reply R) π₁}
    {right : Code C₂ R₂ π₂} {held : π₁ → Option κ}
    {drops : (c : C) → R c → Bool} (hb : Borrows left held drops) :
    Borrows (Code.beside left right).swap.right
      (Sum.elim held fun _ => none) drops := by
  have hinv : ∀ {p c k}, (Code.beside left right).swap.right p
      = some ⟨c, k⟩ → ∃ p₁ k₁, p = .inl p₁ ∧ left p₁ = some ⟨c, k₁⟩
        ∧ k = fun r => .inl (k₁ r) := by
    intro p c k hcode
    rcases Code.beside_inv (Code.swap_right_eq_some_iff.mp hcode) with
      ⟨p₁, c₁, k₁, rfl, hown, heq⟩ | ⟨p₂, c₂, k₂, -, -, heq⟩
    · cases heq
      exact ⟨p₁, k₁, rfl, hown, rfl⟩
    · cases heq
  refine ⟨?_, ?_, ?_⟩
  · intro p k hcode
    obtain ⟨p₁, k₁, rfl, hown, rfl⟩ := hinv hcode
    exact hb.acquire p₁ k₁ hown
  · intro p conn c k hcode
    obtain ⟨p₁, k₁, rfl, hown, rfl⟩ := hinv hcode
    exact hb.command p₁ conn c k₁ hown
  · intro p conn k hcode
    obtain ⟨p₁, k₁, rfl, hown, rfl⟩ := hinv hcode
    exact hb.release p₁ conn k₁ hown

/-- And the second holds nothing of its pool. -/
theorem freeLeft_beside_left
    {left : Code (PoolCall κ C) (PoolCall.Reply R) π₁}
    {right : Code C₂ R₂ π₂} {held : π₁ → Option κ} :
    FreeLeft (Code.beside left right).swap
      (Sum.elim held fun _ => none) := by
  intro p c k hcode
  rcases Code.beside_inv (Code.swap_eq_some_inl_iff.mp hcode) with
    ⟨p₁, c₁, k₁, -, -, heq⟩ | ⟨p₂, c₂, k₂, rfl, -, heq⟩
  · cases heq
  · cases heq
    exact ⟨rfl, fun _ => rfl⟩

end Sides

-- ==================================================== programs that borrow

/-- What is held in the call under way. -/
def Layer.holding (held : π → Option κ) : Layer C R α π → Option κ
  | .outside _ => none
  | .inside _ _ p => held p

namespace Implementation

variable {D : Type} {S : D → Type}
  {impl : Implementation D S (C₁ ⊕ PoolCall κ C)
    (BothReply R₁ (PoolCall.Reply R)) π}
  {held : π → Option κ} {drops : (c : C) → R c → Bool}

/-- Calls begin and return without a connection. -/
structure Clean (impl : Implementation D S C₂ R₂ π) (held : π → Option κ) :
    Prop where
  enter : ∀ c, held (impl.enter c) = none
  result : ∀ c p r, impl.result c p = some r → held p = none

section

variable {impl : Implementation D S C₂ R₂ π} {c : D}
  {k : S c → Prog D S α} {p : π}

theorem Clean.settle (hclean : impl.Clean held) :
    Layer.holding held (impl.settle c k p) = held p := by
  cases hresult : impl.result c p with
  | some r =>
      rw [settle_of_some hresult]
      exact (hclean.result c p r hresult).symm
  | none =>
      rw [settle_of_none hresult]
      rfl

theorem Clean.under (hclean : impl.Clean held) {l : Layer D S α π}
    (h : impl.Under c k p l) : Layer.holding held l = held p := by
  cases h with
  | enter => exact (hclean.enter c).symm
  | inside p => rfl

end

/-- A program over code that borrows is code that borrows. -/
theorem borrows (hclean : impl.Clean held)
    (hb : Borrows impl.code.right held drops) :
    Borrows (impl.layered (α := α)).right (Layer.holding held) drops := by
  refine ⟨?_, ?_, ?_⟩
  · intro l k hcode
    obtain ⟨c, m, p, next, hunder, hown, rfl⟩ :=
      layered_inv (Code.right_eq_some_iff.mp hcode)
    obtain ⟨hbefore, hafter⟩ :=
      hb.acquire p next (Code.right_eq_some_iff.mpr hown)
    rw [hclean.under hunder]
    refine ⟨hbefore, fun conn => ?_⟩
    rw [hclean.settle]
    exact hafter conn
  · intro l conn cmd k hcode
    obtain ⟨c, m, p, next, hunder, hown, rfl⟩ :=
      layered_inv (Code.right_eq_some_iff.mp hcode)
    obtain ⟨hbefore, hafter⟩ :=
      hb.command p conn cmd next (Code.right_eq_some_iff.mpr hown)
    rw [hclean.under hunder]
    refine ⟨hbefore, fun r => ?_⟩
    rw [hclean.settle]
    exact hafter r
  · intro l conn k hcode
    obtain ⟨c, m, p, next, hunder, hown, rfl⟩ :=
      layered_inv (Code.right_eq_some_iff.mp hcode)
    obtain ⟨hbefore, hafter⟩ :=
      hb.release p conn next (Code.right_eq_some_iff.mpr hown)
    rw [hclean.under hunder, hclean.settle]
    exact ⟨hbefore, hafter⟩

/-- Nothing is held across a call of the other side. -/
theorem freeLeft (hclean : impl.Clean held)
    (hfree : Sides.FreeLeft impl.code held) :
    Sides.FreeLeft (impl.layered (α := α)) (Layer.holding held) := by
  intro l c k hcode
  obtain ⟨d, m, p, next, hunder, hown, rfl⟩ := layered_inv hcode
  obtain ⟨hbefore, hafter⟩ := hfree p c next hown
  rw [hclean.under hunder]
  refine ⟨hbefore, fun r => ?_⟩
  rw [hclean.settle]
  exact hafter r

end Implementation

end Creeper.Lib

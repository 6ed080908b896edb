/-
Programs over calls, each call served by code of its own.

A program makes its calls as if each were one step. Where a call is
code, with calls to a layer below, the programs of several threads mix
in the middle of their calls. `Implementation` is such code, one piece
for every call, and `Implementation.layered` is a program on top of it,
as code again: it makes the calls of the layer below.

# One step for each call

`Atomic` is what it takes for the calls to look like single steps of a
service after all. Every point of the code says how the call `Stands`:
still to be served, or served with an answer that it is going to give.
What the answer is may come out later than when the call is served, so
the steps are matched from the last to the first (`Atomic.step`), and
with them the runs (`Atomic.run`): whatever the threads do, there is a
run of the programs over the service that ends where they end.
-/
import Creeper.Lib.Points
import Creeper.Lib.Prog

namespace Creeper.Lib

variable {C C' : Type} {R : C → Type} {R' : C' → Type} {α ι π σ τ : Type}

-- =================================================================== programs

/-- A program is code whose points are what is left of it. -/
def Prog.code : Code C R (Prog C R α)
  | .ret _ => none
  | .call c k => some ⟨c, k⟩

/-- The threads with their programs. -/
abbrev Programs (ι : Type) (C : Type) (R : C → Type) (α τ : Type) : Type :=
  Running ι (Prog C R α) τ

/-- A step of a program is one call of it. -/
theorem Move.program [DecidableEq ι] {service : Service C R τ}
    {now next : Programs ι C R α τ} {e : ι × Answer C R}
    (h : Move Prog.code service now e next) :
    ∃ i c k r, e = (i, ⟨c, r⟩) ∧ now.point i = .call c k
      ∧ service c now.shared r next.shared ∧ next.point i = k r
      ∧ ∀ j, j ≠ i → next.point j = now.point j := by
  obtain ⟨i, c, k, r, he, hcode, hserves, hpoint, hother⟩ := h.inv
  refine ⟨i, c, k, r, he, ?_, hserves, hpoint, hother⟩
  cases hprog : now.point i with
  | ret a =>
      rw [hprog] at hcode
      cases hcode
  | call c' k' =>
      rw [hprog] at hcode
      cases hcode
      rfl

/-- The rely-guarantee rule over a service: if it serves guaranteed calls
with answers that are relied on, and keeps an invariant then, the
programs keep their triples and it its invariant. -/
theorem Run.programs_meet [DecidableEq ι] {service : Service C R τ}
    {I : τ → Prop} {guarantee : ι → C → Prop}
    {rely : ι → (c : C) → R c → Prop} {post : ι → α → Prop}
    (hserve : ∀ i c t r t', I t → guarantee i c → service c t r t' →
      I t' ∧ rely i c r)
    {now next : Programs ι C R α τ} {es : List (ι × Answer C R)}
    (h : Run (Move Prog.code service) now es next) (hI : I now.shared)
    (hmeets : ∀ i, (now.point i).Meets (guarantee i) (rely i) (post i)) :
    I next.shared
      ∧ ∀ i, (next.point i).Meets (guarantee i) (rely i) (post i) := by
  refine h.invariant (I := fun now : Programs ι C R α τ => I now.shared
    ∧ ∀ i, (now.point i).Meets (guarantee i) (rely i) (post i))
    (fun now e next hboth hmove => ?_) ⟨hI, hmeets⟩
  obtain ⟨hI, hmeets⟩ := hboth
  obtain ⟨i, c, k, r, -, hcall, hserves, hpoint, hother⟩ := hmove.program
  have hi := hmeets i
  rw [hcall] at hi
  obtain ⟨hkept, hanswer⟩ := hserve i c _ r _ hI hi.1 hserves
  refine ⟨hkept, fun j => ?_⟩
  by_cases hj : j = i
  · subst hj
    rw [hpoint]
    exact hi.2 r hanswer
  · rw [hother j hj]
    exact hmeets j

/-- What a program keeps over what it works on, where the others keep
it. -/
theorem Run.program_keeps [DecidableEq ι] {service : Service C R τ}
    {J : τ → Prog C R α → Prop} {i : ι}
    (hown : ∀ c k r t t', J t (.call c k) → service c t r t' → J t' (k r))
    (hothers : ∀ c r t t' p, J t p → service c t r t' → J t' p)
    {now next : Programs ι C R α τ} {es : List (ι × Answer C R)}
    (h : Run (Move Prog.code service) now es next)
    (hJ : J now.shared (now.point i)) : J next.shared (next.point i) := by
  refine h.invariant (I := fun now : Programs ι C R α τ =>
    J now.shared (now.point i)) (fun now e next hJ hmove => ?_) hJ
  obtain ⟨j, c, k, r, -, hcall, hserves, hpoint, hother⟩ := hmove.program
  by_cases hj : i = j
  · subst hj
    rw [hcall] at hJ
    rw [hpoint]
    exact hown c k r _ _ hJ hserves
  · rw [hother i hj]
    exact hothers c r _ _ _ hJ hserves

-- =================================================================== services

/-- A service that gives only some of its answers. -/
def Service.Only (ok : Answer C R → Prop) (service : Service C R σ) :
    Service C R σ :=
  fun c s r s' => ok ⟨c, r⟩ ∧ service c s r s'

/-- A move with such an answer. -/
theorem Move.only [DecidableEq ι] {code : Code C R π} {service : Service C R σ}
    {ok : Answer C R → Prop} {now next : Running ι π σ} {e : ι × Answer C R}
    (h : Move code service now e next) (hok : ok e.2) :
    Move code (Service.Only ok service) now e next := by
  cases h with
  | call hcode hservice => exact .call hcode ⟨hok, hservice⟩

-- ===================================================================== layers

/-- Code for each call: where it begins, and what it returns where it has
returned. -/
structure Implementation (C : Type) (R : C → Type) (C' : Type)
    (R' : C' → Type) (π : Type) where
  code : Code C' R' π
  enter : C → π
  result : (c : C) → π → Option (R c)

/-- A program between its calls, or in one of them. -/
inductive Layer (C : Type) (R : C → Type) (α π : Type) where
  | outside (prog : Prog C R α)
  | inside (c : C) (k : R c → Prog C R α) (p : π)

namespace Implementation

variable (impl : Implementation C R C' R' π)

/-- In a call, or after it once its code has returned. -/
def settle (c : C) (k : R c → Prog C R α) (p : π) : Layer C R α π :=
  match impl.result c p with
  | some r => .outside (k r)
  | none => .inside c k p

/-- The code of a call, on the way back to the program. -/
def within (c : C) (k : R c → Prog C R α) (p : π) :
    Option ((c' : C') × (R' c' → Layer C R α π)) :=
  (impl.code p).map fun next => ⟨next.1, fun r => impl.settle c k (next.2 r)⟩

/-- A program over the code of its calls. A call is made by the first
call of its code. -/
def layered : Code C' R' (Layer C R α π)
  | .outside (.ret _) => none
  | .outside (.call c k) => impl.within c k (impl.enter c)
  | .inside c k p => impl.within c k p

/-- The call that is being made, and the point of its code. -/
inductive Under (c : C) (k : R c → Prog C R α) : π → Layer C R α π → Prop
  | enter : Under c k (impl.enter c) (.outside (.call c k))
  | inside (p : π) : Under c k p (.inside c k p)

variable {impl} {c : C} {k : R c → Prog C R α} {p : π} {l : Layer C R α π}

/-- What a layered program calls is what the code of its call does. -/
theorem layered_inv {c' : C'} {next : R' c' → Layer C R α π}
    (h : impl.layered l = some ⟨c', next⟩) :
    ∃ c k p next', impl.Under c k p l ∧ impl.code p = some ⟨c', next'⟩
      ∧ next = fun r => impl.settle c k (next' r) := by
  have hwithin : ∀ {c k p}, impl.within (α := α) c k p = some ⟨c', next⟩ →
      ∃ next', impl.code p = some ⟨c', next'⟩
        ∧ next = fun r => impl.settle c k (next' r) := by
    intro c k p hp
    obtain ⟨⟨c₀, next'⟩, hcode, heq⟩ := Option.map_eq_some_iff.mp hp
    cases heq
    exact ⟨next', hcode, rfl⟩
  cases l with
  | outside prog =>
      cases prog with
      | ret a => cases h
      | call c k =>
          obtain ⟨next', hcode, hnext⟩ := hwithin h
          exact ⟨c, k, _, next', .enter, hcode, hnext⟩
  | inside c k p =>
      obtain ⟨next', hcode, hnext⟩ := hwithin h
      exact ⟨c, k, p, next', .inside p, hcode, hnext⟩

/-- The call of a point is made by its code. -/
theorem Under.layered (h : impl.Under c k p l) :
    impl.layered l = impl.within c k p := by
  cases h with
  | enter => rfl
  | inside p => rfl

theorem settle_of_some {r : R c} (h : impl.result c p = some r) :
    impl.settle (α := α) c k p = .outside (k r) := by
  simp only [settle, h]

theorem settle_of_none (h : impl.result c p = none) :
    impl.settle (α := α) c k p = .inside c k p := by
  simp only [settle, h]

/-- A call that goes on is at the point it has come to. -/
theorem point_of_settle {d : C} {m : R d → Prog C R α} {q : π}
    (h : impl.settle c k p = .inside d m q) : p = q := by
  cases hresult : impl.result c p with
  | some r =>
      rw [settle_of_some hresult] at h
      cases h
  | none =>
      rw [settle_of_none hresult] at h
      cases h
      rfl

end Implementation

-- ============================================================ one step a call

/-- The program where its call stands: still to be served, or served with
an answer. -/
def Prog.resume (c : C) (k : R c → Prog C R α) : Option (R c) → Prog C R α
  | none => .call c k
  | some r => k r

/-- How a call stands across a step: as before, or the service has served
it. -/
inductive Serving (service : Service C R τ) (c : C) (t t' : τ) :
    Option (R c) → Option (R c) → Prop
  | idle {o : Option (R c)} (h : t' = t) : Serving service c t t' o o
  | served {r : R c} (h : service c t r t') :
      Serving service c t t' none (some r)

/-- What it takes for the calls to be steps of a service. `Stands` says
how a call may stand at a point of its code, and `I` what is known of the
threads. -/
structure Implementation.Atomic [DecidableEq ι]
    (impl : Implementation C R C' R' π) (below : Service C' R' σ)
    (service : Service C R τ) (common : σ → τ)
    (I : Running ι (Layer C R α π) σ → Prop)
    (Stands : (c : C) → π → σ → Option (R c) → Prop) : Prop where
  /-- A call that begins is still to be served. -/
  enter : ∀ c s o, Stands c (impl.enter c) s o → o = none
  /-- A call under way stands in some way. -/
  stands : ∀ now, I now → ∀ i c k p, now.point i = .inside c k p →
    ∃ o, Stands c p now.shared o
  /-- The code of a call serves it. -/
  own : ∀ now, I now → ∀ i c k p, impl.Under (α := α) c k p (now.point i) →
    ∀ c' next r s', impl.code p = some ⟨c', next⟩ →
    below c' now.shared r s' → ∀ o', Stands c (next r) s' o' →
    ∃ o, Stands c p now.shared o
      ∧ Serving service c (common now.shared) (common s') o o'
  /-- And returns what it has been served with. -/
  result : ∀ now, I now → ∀ i c k p, impl.Under (α := α) c k p (now.point i) →
    ∀ c' next r s', impl.code p = some ⟨c', next⟩ →
    below c' now.shared r s' → ∀ a, impl.result c (next r) = some a →
    Stands c (next r) s' (some a)
  /-- And leaves the calls of the others. -/
  others : ∀ now, I now → ∀ i c k p, impl.Under (α := α) c k p (now.point i) →
    ∀ c' next r s', impl.code p = some ⟨c', next⟩ →
    below c' now.shared r s' → ∀ j, j ≠ i → ∀ d m q,
    now.point j = .inside d m q → ∀ o, Stands d q s' o →
    Stands d q now.shared o

namespace Implementation.Atomic

variable [DecidableEq ι] {impl : Implementation C R C' R' π}
  {below : Service C' R' σ} {service : Service C R τ} {common : σ → τ}
  {I : Running ι (Layer C R α π) σ → Prop}
  {Stands : (c : C) → π → σ → Option (R c) → Prop}

/-- A layered program and what is left of it in single steps. -/
inductive Matches (Stands : (c : C) → π → σ → Option (R c) → Prop) (s : σ) :
    Layer C R α π → Prog C R α → Prop
  | outside (prog : Prog C R α) : Matches Stands s (.outside prog) prog
  | inside {c : C} {k : R c → Prog C R α} {p : π} (o : Option (R c))
      (h : Stands c p s o) :
      Matches Stands s (.inside c k p) (.resume c k o)

/-- The threads, and the threads in single steps. -/
structure Related (common : σ → τ)
    (Stands : (c : C) → π → σ → Option (R c) → Prop)
    (now : Running ι (Layer C R α π) σ) (abs : Programs ι C R α τ) :
    Prop where
  shared : abs.shared = common now.shared
  point : ∀ i, Matches Stands now.shared (now.point i) (abs.point i)

/-- A program that settles stands where its code stands. -/
theorem Matches.of_settle {s : σ} {c : C} {k : R c → Prog C R α} {p : π}
    {q : Prog C R α}
    (hstands : ∀ r, impl.result c p = some r → Stands c p s (some r))
    (h : Matches Stands s (impl.settle c k p) q) :
    ∃ o, Stands c p s o ∧ q = .resume c k o := by
  cases hresult : impl.result c p with
  | some r =>
      rw [settle_of_some hresult] at h
      cases h
      exact ⟨some r, hstands r hresult, rfl⟩
  | none =>
      rw [settle_of_none hresult] at h
      cases h with
      | inside o hstands => exact ⟨o, hstands, rfl⟩

/-- How a call stands is how its program does. -/
theorem Matches.of_under
    (ha : impl.Atomic below service common I Stands) {s : σ} {c : C}
    {k : R c → Prog C R α} {p : π} {l : Layer C R α π} {o : Option (R c)}
    (h : impl.Under c k p l) (hstands : Stands c p s o) :
    Matches Stands s l (.resume c k o) := by
  cases h with
  | enter =>
      obtain rfl := ha.enter c s o hstands
      exact .outside _
  | inside p => exact .inside o hstands

/-- There is a state in single steps for every state. -/
theorem exists_related (ha : impl.Atomic below service common I Stands)
    {now : Running ι (Layer C R α π) σ} (hI : I now) :
    ∃ abs, Related common Stands now abs := by
  have hmatch : ∀ i, ∃ q, Matches Stands now.shared (now.point i) q := by
    intro i
    cases hpoint : now.point i with
    | outside prog => exact ⟨prog, .outside prog⟩
    | inside c k p =>
        obtain ⟨o, hstands⟩ := ha.stands now hI i c k p hpoint
        exact ⟨_, .inside o hstands⟩
  obtain ⟨point, hpoint⟩ := Classical.axiomOfChoice hmatch
  exact ⟨⟨common now.shared, point⟩, rfl, hpoint⟩

/-- A step is one of the service, or none, seen from where it ends. -/
theorem step (ha : impl.Atomic below service common I Stands)
    {now next : Running ι (Layer C R α π) σ} {e : ι × Answer C' R'}
    (hI : I now) (h : Move impl.layered below now e next)
    {abs' : Programs ι C R α τ} (hrel : Related common Stands next abs') :
    ∃ abs, Related common Stands now abs
      ∧ (abs = abs' ∨ ∃ e', Move Prog.code service abs e' abs') := by
  obtain ⟨i, c', next', r, -, hcode, hserves, hpoint, hother⟩ := h.inv
  obtain ⟨c, k, p, go, hunder, hown, rfl⟩ := Implementation.layered_inv hcode
  obtain ⟨hshared, hpoints⟩ := hrel
  -- how the call of the thread that moves stands after the move, and before
  have hi := hpoints i
  rw [hpoint] at hi
  obtain ⟨o', hstands', hq⟩ := hi.of_settle (ha.result now hI i c k p hunder
    c' go r next.shared hown hserves)
  obtain ⟨o, hstands, hserving⟩ := ha.own now hI i c k p hunder c' go r
    next.shared hown hserves o' hstands'
  have hnow : ∀ j, Matches Stands now.shared (now.point j)
      (Function.update abs'.point i (.resume c k o) j) := by
    intro j
    by_cases hj : j = i
    · subst hj
      rw [Function.update_self]
      exact Matches.of_under ha hunder hstands
    · rw [Function.update_of_ne hj]
      have hmatch := hpoints j
      rw [hother j hj] at hmatch
      cases hpointj : now.point j with
      | outside prog =>
          rw [hpointj] at hmatch
          cases hmatch
          exact .outside _
      | inside d m q =>
          rw [hpointj] at hmatch
          generalize hqj : abs'.point j = qj at hmatch
          cases hmatch with
          | inside oj hoj =>
              exact .inside oj (ha.others now hI i c k p hunder c' go r
                next.shared hown hserves j hj d m q hpointj oj hoj)
  refine ⟨⟨common now.shared, Function.update abs'.point i (.resume c k o)⟩,
    ⟨rfl, hnow⟩, ?_⟩
  obtain ⟨shared', point'⟩ := abs'
  cases hserving with
  | idle heq =>
      left
      have hsame : Function.update point' i (.resume c k o') = point' := by
        rw [← hq]
        exact Function.update_eq_self ..
      rw [← heq, hsame]
      exact congrArg (Running.mk · point') hshared.symm
  | @served a hservice =>
      right
      refine ⟨(i, ⟨c, a⟩), ?_⟩
      have hback : Function.update
          (Function.update point' i (.call c k)) i (k a) = point' := by
        rw [Function.update_idem]
        show Function.update point' i (.resume c k (some a)) = point'
        rw [← hq]
        exact Function.update_eq_self ..
      have hmove : Move Prog.code service
          ⟨common now.shared, Function.update point' i (.call c k)⟩ (i, ⟨c, a⟩)
          ⟨common next.shared, Function.update
            (Function.update point' i (.call c k)) i (k a)⟩ :=
        .call (by simp only [Function.update_self, Prog.code]) hservice
      rw [hback] at hmove
      rw [show shared' = common next.shared from hshared]
      exact hmove

/-- And so is a run: it ends where the programs end over the service. -/
theorem run {step : Running ι (Layer C R α π) σ → ι × Answer C' R' →
      Running ι (Layer C R α π) σ → Prop}
    (ha : impl.Atomic below service common I Stands)
    (hstep : ∀ s e t, step s e t → I s ∧ Move impl.layered below s e t)
    {now next : Running ι (Layer C R α π) σ} {es : List (ι × Answer C' R')}
    (h : Run step now es next) {abs' : Programs ι C R α τ}
    (hrel : Related common Stands next abs') :
    ∃ abs es', Related common Stands now abs
      ∧ Run (Move Prog.code service) abs es' abs' := by
  induction h with
  | nil => exact ⟨abs', [], hrel, .nil abs'⟩
  | cons hmove _ ih =>
      obtain ⟨mid, es', hmid, hrun⟩ := ih hrel
      obtain ⟨hI, hmove⟩ := hstep _ _ _ hmove
      obtain ⟨abs, habs, hcases⟩ := ha.step hI hmove hmid
      rcases hcases with rfl | ⟨e', hfirst⟩
      · exact ⟨abs, es', habs, hrun⟩
      · exact ⟨abs, e' :: es', habs, .cons hfirst hrun⟩

end Implementation.Atomic

end Creeper.Lib

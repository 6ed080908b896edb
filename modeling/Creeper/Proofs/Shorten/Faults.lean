/-
Sequential runs of the shortener in which database lookups fail too.

A lookup that fails and a lookup that finds nothing return the same
`nullopt` (`RealDatabaseClient::lookup`), POST reads both as a free
code, and the store after it is an upsert. `BlindOverwrite` is the
branch where that goes wrong: the attempts before it collide, the
lookup of the candidate fails although another URL holds it, and the
store works. `acked_stays_iff` is then exact: a run that never takes
that branch keeps every acknowledged mapping, from any database, and a
run from an empty database that keeps them never takes it.

The second half rests on `run_acked`: in a run from an empty database
every entry was acknowledged by some earlier POST, so a blind overwrite
always destroys an acknowledged mapping.
-/
import Creeper.Proofs.Shorten.Sequential

namespace Creeper

open Lib

namespace ShortenRequestHandler

variable {h : ShortenRequestHandler} {w w' : World}

variable (h) in
/-- A POST of this request, on these stores and under these faults,
stores its URL over another one. -/
def BlindOverwrite (w : World) : ShortenEvent → Prop
  | .evict _ => False
  | .request request φ =>
      request.method = "POST".toList ∧ ∃ k < kMaxAttempts,
        (∀ j < k, h.Collides φ request.body w j)
        ∧ φ k (.dbLookup (h.candidateShort request.body k)) = true
        ∧ φ (k + 1)
            (.dbStore (h.candidateShort request.body k) request.body)
          = false
        ∧ ∃ v, w.db (h.candidateShort request.body k) = some v
          ∧ v ≠ request.body

variable (h) in
/-- Every mapping a POST of the run acknowledged is in the database in
every later state of the run. -/
def AckedStays (w₀ : World) (es : List ShortenEvent) : Prop :=
  ∀ (pre suf rest : List ShortenEvent) (request : Request) (φ : Faults)
    (w₁ w₂ : World),
    es = pre ++ .request request φ :: (suf ++ rest) →
    Run h.Step w₀ pre w₁ →
    request.method = "POST".toList →
    (h.serve φ request w₁).2.statusCode = 200 →
    Run h.Step (h.serve φ request w₁).1 suf w₂ →
    w₂.db (h.serve φ request w₁).2.body = some request.body

-- ============================================================== one step

/-- A step that is no blind overwrite changes no entry. -/
theorem advance_submap {e : ShortenEvent} (hsafe : ¬ h.BlindOverwrite w e) :
    Submap w.db (h.advance w e).db := by
  cases e with
  | evict code => exact Submap.refl _
  | request request φ =>
      show Submap w.db (h.serve φ request w).1.db
      rcases h.serve_db_cases φ request w with
        hsame | ⟨k, hk, hpost, hbefore, hlookup, hstore, hout⟩
      · rw [hsame]
        exact Submap.refl _
      · rw [hout]
        apply Submap.upsert_right
        rcases hlookup with hfail | hfree
        · -- a failed lookup: the code is free or already this URL's
          cases hdb : w.db (h.candidateShort request.body k) with
          | none => exact Or.inl rfl
          | some v =>
              by_cases hv : v = request.body
              · exact Or.inr (by rw [hv])
              · exact absurd ⟨hpost, k, hk, hbefore, hfail, hstore,
                  v, hdb, hv⟩ hsafe
        · exact Or.inl hfree

/-- A blind overwrite replaces the URL of a code. -/
theorem advance_blind {e : ShortenEvent} (hblind : h.BlindOverwrite w e) :
    ∃ c u v, w.db c = some v ∧ u ≠ v ∧ (h.advance w e).db c = some u := by
  cases e with
  | evict code => exact hblind.elim
  | request request φ =>
      obtain ⟨hpost, k, hk, hbefore, hfail, hstore, v, hv, hne⟩ := hblind
      refine ⟨h.candidateShort request.body k, request.body, v, hv,
        hne.symm, ?_⟩
      show (h.serve φ request w).1.db _ = _
      have hout := h.post_outcome φ hpost w
      -- the outcome is the store of attempt `k`: the attempts before it
      -- collide and its own lookup fails
      have hstop : ∀ k', (∀ j < k', h.Collides φ request.body w j) →
          k' ≤ k := by
        intro k' hbefore'
        by_contra hlt
        obtain ⟨hworks, -⟩ := hbefore' k (by omega)
        rw [hfail] at hworks
        cases hworks
      generalize h.serve φ request w = end_ at hout ⊢
      cases hout with
      | reused k' hk' hbefore' hlookup' hdb' =>
          rcases Nat.lt_or_eq_of_le (hstop k' hbefore') with hlt | rfl
          · obtain ⟨-, v', hv', hne'⟩ := hbefore k' hlt
            rw [hdb'] at hv'
            exact absurd (Option.some.inj hv').symm hne'
          · rw [hfail] at hlookup'
            cases hlookup'
      | stored k' hk' hbefore' hlookup' hstore' =>
          rcases Nat.lt_or_eq_of_le (hstop k' hbefore') with hlt | rfl
          · obtain ⟨hworks, v', hv', hne'⟩ := hbefore k' hlt
            rw [hworks, hv'] at hlookup'
            simp at hlookup'
          · exact upsert_same ..
      | storeFailed k' hk' hbefore' hlookup' hstore' =>
          rcases Nat.lt_or_eq_of_le (hstop k' hbefore') with hlt | rfl
          · obtain ⟨hworks, v', hv', hne'⟩ := hbefore k' hlt
            rw [hworks, hv'] at hlookup'
            simp at hlookup'
          · rw [hstore] at hstore'
            cases hstore'
      | exhausted hbefore' =>
          exact absurd (hstop kMaxAttempts hbefore') (by omega)

-- ================================================================== runs

/-- Steps are a function of the event. -/
theorem run_unique {es : List ShortenEvent} {w'' : World}
    (hrun : Run h.Step w es w') (hrun' : Run h.Step w es w'') :
    w' = w'' := by
  induction hrun with
  | nil => exact Run.nil_iff.mp hrun'
  | cons hst _ ih =>
      obtain ⟨t, hst', hrest⟩ := Run.cons_iff.mp hrun'
      apply ih
      rw [show _ = _ from hst, ← show _ = _ from hst']
      exact hrest

/-- A run without blind overwrites changes no entry. -/
theorem run_submap {es : List ShortenEvent}
    (hrun : Run (Guarded (fun w e => ¬ h.BlindOverwrite w e) h.Step)
      w es w') : Submap w.db w'.db :=
  hrun.climbs (r := fun w w' => Submap w.db w'.db)
    (fun w => Submap.refl w.db) (fun _ _ _ => Submap.trans)
    fun w e w' ⟨hsafe, hst⟩ => by
      rw [show w' = _ from hst]
      exact advance_submap hsafe

variable (h) in
/-- Some POST of the run answered 200 with the code `c`, for the URL
`u`; the run goes on from there to `w`. -/
def AckedIn (w₀ : World) (es : List ShortenEvent) (w : World)
    (c u : Str) : Prop :=
  ∃ pre request φ suf w₁, es = pre ++ .request request φ :: suf
    ∧ Run h.Step w₀ pre w₁
    ∧ request.method = "POST".toList ∧ request.body = u
    ∧ (h.serve φ request w₁).2.statusCode = 200
    ∧ (h.serve φ request w₁).2.body = c
    ∧ Run h.Step (h.serve φ request w₁).1 suf w

/-- An acknowledgement stays in the longer run. -/
theorem AckedIn.snoc {w₀ : World} {es : List ShortenEvent}
    {e : ShortenEvent} {c u : Str} (hacked : h.AckedIn w₀ es w c u)
    (hst : h.Step w e w') : h.AckedIn w₀ (es ++ [e]) w' c u := by
  obtain ⟨pre, request, φ, suf, w₁, rfl, hpre, hpost, hu, hok, hcode,
    hsuf⟩ := hacked
  exact ⟨pre, request, φ, suf ++ [e], w₁, by simp, hpre, hpost, hu, hok,
    hcode, hsuf.append (.cons hst (.nil _))⟩

/-- An entry that a step brings is acknowledged by the step. -/
theorem acked_of_new {w₀ : World} {es : List ShortenEvent}
    {e : ShortenEvent} {c u : Str} (hes : Run h.Step w₀ es w)
    (hst : h.Step w e w') (hold : w.db c ≠ some u)
    (hnew : w'.db c = some u) : h.AckedIn w₀ (es ++ [e]) w' c u := by
  obtain rfl : w' = h.advance w e := hst
  cases e with
  | evict code => exact absurd hnew hold
  | request request φ =>
      change (h.serve φ request w).1.db c = some u at hnew
      rcases h.serve_db_cases φ request w with
        hsame | ⟨k, -, hpost, -, -, -, hout⟩
      · rw [hsame] at hnew
        exact absurd hnew hold
      · rw [hout] at hnew
        rcases upsert_eq_some hnew with ⟨rfl, rfl⟩ | ⟨-, hdb⟩
        · refine ⟨es, request, φ, [], w, rfl, hes, hpost, rfl, ?_⟩
          show (h.serve φ request w).2.statusCode = 200
            ∧ (h.serve φ request w).2.body = _
            ∧ Run h.Step (h.serve φ request w).1 []
                (h.serve φ request w).1
          rw [hout]
          exact ⟨rfl, rfl, .nil _⟩
        · exact absurd hdb hold

/-- Every entry of a run from an empty database was acknowledged on the
way. -/
theorem run_acked {w₀ : World} {es : List ShortenEvent}
    (hw₀ : w₀.db = fun _ => none) (hrun : Run h.Step w₀ es w) :
    ∀ c u, w.db c = some u → h.AckedIn w₀ es w c u := by
  refine hrun.snoc_induction (P := fun es w =>
    ∀ c u, w.db c = some u → h.AckedIn w₀ es w c u) ?_ ?_
  · intro c u hc
    rw [hw₀] at hc
    cases hc
  · intro es e w w' hes ih hst c u hc
    by_cases hold : w.db c = some u
    · exact (ih c u hold).snoc hst
    · exact acked_of_new hes hst hold hc

/-- Acknowledged mappings under faults. A run without blind overwrites
keeps every acknowledged mapping, from any database; and a run from an
empty database that keeps them has no blind overwrite. -/
theorem acked_stays_iff (h : ShortenRequestHandler) {w₀ w : World}
    {es : List ShortenEvent} (hrun : Run h.Step w₀ es w) :
    (Run (Guarded (fun w e => ¬ h.BlindOverwrite w e) h.Step) w₀ es w →
      h.AckedStays w₀ es)
    ∧ ((w₀.db = fun _ => none) → h.AckedStays w₀ es →
      Run (Guarded (fun w e => ¬ h.BlindOverwrite w e) h.Step) w₀ es w) := by
  constructor
  · intro hsafe pre suf rest request φ w₁ w₂ heq hpre hpost hok hsuf
    subst heq
    obtain ⟨v₁, hpre', hrest⟩ := hsafe.split
    obtain ⟨v₂, ⟨-, hst⟩, hrest⟩ := Run.cons_iff.mp hrest
    obtain ⟨v₃, hsuf', -⟩ := hrest.split
    -- the guarded run passes through the states of the unguarded one
    obtain rfl := run_unique hpre hpre'.of_guarded
    obtain rfl : v₂ = (h.serve φ request w₁).1 := hst
    obtain rfl := run_unique hsuf hsuf'.of_guarded
    exact run_submap hsuf' _ _ (serve_post_ok hpost hok)
  · intro hw₀ hstays
    refine (hrun.guarded_or_breach
      (fun w e => ¬ h.BlindOverwrite w e)).resolve_right ?_
    intro hbreach
    obtain ⟨pre, e, post, t, t', rfl, hpre, hbad, hst, -⟩ := hbreach
    obtain ⟨c, u, v, hv, hne, hu⟩ := advance_blind (not_not.mp hbad)
    obtain ⟨pre₁, request, φ, suf, w₁, rfl, hpre₁, hpost, rfl, hok, rfl,
      hsuf⟩ := run_acked hw₀ hpre.of_guarded c v hv
    have hkept := hstays pre₁ (suf ++ [e]) post request φ w₁ t' (by simp)
      hpre₁ hpost hok (hsuf.append (.cons hst (.nil _)))
    rw [show t' = _ from hst, hu] at hkept
    exact hne (Option.some.inj hkept)

/-- The first call of a request fails, and no other. -/
def firstLookupFails : Faults := fun n _ => n == 0

/-- Two POSTs of URLs with the same code, the lookup of the second one
failing. -/
def blindRun : List ShortenEvent :=
  [.request (postOf "a".toList) noFaults,
    .request (postOf "b".toList) firstLookupFails]

theorem acked_lost_blindly : ¬ colliding.AckedStays emptyWorld blindRun := by
  intro hstays
  have hkept := hstays [] [.request (postOf "b".toList) firstLookupFails] []
    (postOf "a".toList) noFaults emptyWorld _ rfl (.nil _) rfl rfl
    (.cons rfl (.nil _))
  have hlost : (colliding.advance
      (colliding.serve noFaults (postOf "a".toList) emptyWorld).1
      (.request (postOf "b".toList) firstLookupFails)).db
        (colliding.serve noFaults (postOf "a".toList) emptyWorld).2.body
      = some "b".toList := by
    decide +kernel
  rw [hlost] at hkept
  exact absurd hkept (by decide)

theorem acked_stays_single :
    colliding.AckedStays emptyWorld
      [.request (postOf "a".toList) firstLookupFails] := by
  refine (acked_stays_iff colliding (.cons rfl (.nil _))).1
    (.cons ⟨?_, rfl⟩ (.nil _))
  intro hblind
  obtain ⟨-, k, -, -, -, -, v, hv, -⟩ := hblind
  cases hv

end ShortenRequestHandler

end Creeper

/-
Concurrent requests and the cache.

A GET fills Redis with what it read from the database two calls before,
so a store that overwrites an entry between the two leaves Redis with a
URL the database no longer has. `StaleStore` is that step: a store of a
URL over another one, while Redis has the code or a GET is on its way to
put it there. A run without such a step keeps Redis below the database
in every state (`coherent_of_no_stale_store`), from an empty Redis and
any database.

The invariant is `Fresh` beside coherence: what a GET is about to put
into Redis is what the database has.
-/
import Creeper.Proofs.Shorten.Interleave

namespace Creeper

open Lib

variable {ι : Type} [DecidableEq ι]

namespace ShortenRequestHandler

variable {h : ShortenRequestHandler} {reqs : ι → Request}
  {cf cf' : Traffic ι} {w w' : World} {p p' : Prog Call Call.Reply Response}
  {request : Request} {i : ι}

variable (h) in
/-- No request is in progress: each has yet to make its first call or
has been answered. -/
def AtRest (reqs : ι → Request) (cf : Traffic ι) : Prop :=
  ∀ i, cf.thread i = h.handleRequest (reqs i) ∨ ∃ r, cf.thread i = .ret r

variable (h) in
/-- Whenever no request is in progress, Redis agrees with the
database. -/
def CoherentAtRest (w₀ : World) (reqs : ι → Request) (sched : List ι) :
    Prop :=
  ∀ cf, Run (Conf.Step (perform false)) (h.arrive w₀ reqs) sched cf →
    h.AtRest reqs cf → cf.shared.Coherent

/-- Some request is about to put the code into Redis. -/
def Filling (cf : Traffic ι) (code : Str) : Prop :=
  ∃ i url k, cf.thread i = .call (.redisSet code url) k

/-- The next call of request `i` stores a URL over another one that is
cached or about to be. -/
def StaleStore (cf : Traffic ι) (i : ι) : Prop :=
  ∃ code url k, cf.thread i = .call (.dbStore code url) k
    ∧ (∃ v, cf.shared.db code = some v ∧ v ≠ url)
    ∧ (cf.shared.redis code ≠ none ∨ Filling cf code)

/-- What a request is about to put into Redis, the database has. -/
def Fresh (cf : Traffic ι) : Prop :=
  ∀ i code url k, cf.thread i = .call (.redisSet code url) k →
    cf.shared.db code = some url

-- ============================================================== one step

/-- A step that stores nothing stale changes no database entry that is
cached or about to be. -/
theorem step_db_of_not_stale (hall : h.AllAt reqs cf)
    (hst : CallStep cf i cf') (hsafe : ¬ StaleStore cf i) {code url : Str}
    (hheld : cf.shared.redis code ≠ none ∨ Filling cf code)
    (hdb : cf.shared.db code = some url) :
    cf'.shared.db code = some url := by
  rcases (step_move hall hst).1.db_cases with
    hsame | ⟨code', k, -, hcall, hstored, -⟩
  · rw [hsame]
    exact hdb
  · rw [hstored]
    by_cases hcode : code = code'
    · subst hcode
      by_cases hurl : url = (reqs i).body
      · rw [hurl, upsert_same]
      · exact absurd ⟨code, _, k, hcall, ⟨url, hdb, hurl⟩, hheld⟩ hsafe
    · rw [upsert_ne _ hcode]
      exact hdb

/-- Coherence and freshness are kept by every step that stores nothing
stale. -/
theorem step_fresh (hall : h.AllAt reqs cf) (hst : CallStep cf i cf')
    (hsafe : ¬ StaleStore cf i)
    (hI : cf.shared.Coherent ∧ Fresh cf) :
    cf'.shared.Coherent ∧ Fresh cf' := by
  obtain ⟨hcoh, hfresh⟩ := hI
  obtain ⟨hmove, hframe⟩ := step_move hall hst
  have hfresh' : Fresh cf' := by
    intro j code url k hj
    by_cases hji : j = i
    · subst hji
      exact hmove.to_fill hj
    · rw [hframe j hji] at hj
      exact step_db_of_not_stale hall hst hsafe
        (Or.inr ⟨j, url, k, hj⟩) (hfresh j code url k hj)
  -- the old entries of Redis stay right; the only new one is a fill
  have hold : Submap cf.shared.redis cf'.shared.db := fun code url hc =>
    step_db_of_not_stale hall hst hsafe (Or.inl (by rw [hc]; simp))
      (hcoh code url hc)
  refine ⟨?_, hfresh'⟩
  show Submap cf'.shared.redis cf'.shared.db
  generalize hthread : cf.thread i = p at hmove
  generalize cf'.thread i = p' at hmove
  generalize cf'.shared = w' at hmove hold ⊢
  cases hmove with
  | fill hnot code url =>
      exact hold.upsert_left (hfresh i code url _ hthread)
  | _ => exact hold

-- ================================================================== runs

/-- The cache under concurrency. In every run from an empty Redis, of
any requests over any database under any schedule, in which no step
stores a URL over another one that is cached or about to be, every
entry of Redis is the database's entry for its code, in every state the
run reaches. -/
theorem coherent_of_no_stale_store (h : ShortenRequestHandler)
    {w₀ : World} {reqs : ι → Request} {sched : List ι} {cf : Traffic ι}
    (hw₀ : w₀.redis = fun _ => none)
    (hrun : Run (Guarded (fun cf i => ¬ StaleStore cf i)
      (Conf.Step (perform false))) (h.arrive w₀ reqs) sched cf) :
    cf.shared.Coherent := by
  have hcoh : (h.arrive w₀ reqs).shared.Coherent := by
    show Submap w₀.redis w₀.db
    rw [hw₀]
    exact Submap.empty _
  have hfresh : Fresh (h.arrive w₀ reqs) := by
    intro j code url k hj
    rcases start_reads (h := h) hj with ⟨c, hc⟩ | ⟨c, hc⟩ <;> cases hc
  exact (hrun.invariant
    (I := fun cf => h.AllAt reqs cf ∧ cf.shared.Coherent ∧ Fresh cf)
    (fun _ _ _ hI hst => ⟨step_allAt hI.1 hst.2,
      step_fresh hI.1 hst.2 hst.1 hI.2⟩)
    ⟨allAt_arrive w₀ reqs, hcoh, hfresh⟩).2.1

/-- A database that holds one URL under every code, and nothing
cached. -/
def filledWorld : World := ⟨fun _ => none, fun _ => some "a".toList⟩

/-- Two POSTs that collide and a GET of their code. -/
def racingReads : Fin 3 → Request
  | 0 => postOf "a".toList
  | 1 => postOf "b".toList
  | 2 => getOf "000000".toList

theorem coherent_alone :
    ∃ cf, Run (Conf.Step (perform false))
        (colliding.arrive filledWorld racingReads) [2, 2, 2] cf
      ∧ cf.shared.redis "000000".toList = some "a".toList
      ∧ cf.shared.Coherent := by
  obtain ⟨cf, hsafe, hredis⟩ : ∃ cf,
      Run (Guarded (fun cf i => ¬ StaleStore cf i)
          (Conf.Step (perform false)))
        (colliding.arrive filledWorld racingReads) [2, 2, 2] cf
      ∧ cf.shared.redis "000000".toList = some "a".toList := by
    refine ⟨_, .cons ⟨?_, .call _ _ rfl⟩ (.cons ⟨?_, .call _ _ rfl⟩
      (.cons ⟨?_, .call _ _ rfl⟩ (.nil _))), rfl⟩
    all_goals
      intro hstale
      obtain ⟨code, url, k, hcall, -⟩ := hstale
      cases hcall
  exact ⟨cf, hsafe.of_guarded, hredis,
    coherent_of_no_stale_store colliding rfl hsafe⟩

/-- The GET reads the first URL, the second POST overwrites it, and the
GET caches what it read. -/
def staleSchedule : List (Fin 3) := [0, 1, 0, 2, 2, 1, 2]

theorem cache_left_stale :
    ¬ colliding.CoherentAtRest emptyWorld racingReads staleSchedule := by
  intro hrest
  have hplay : ((Conf.play (perform false)
      (colliding.arrive emptyWorld racingReads) staleSchedule).map
        fun cf => ((cf.shared.redis "000000".toList,
          cf.shared.db "000000".toList),
          decide (∀ i, (cf.thread i).returned)))
      = some ((some "a".toList, some "b".toList), true) := by
    decide +kernel
  obtain ⟨cf, hcf, hend⟩ := Option.map_eq_some_iff.mp hplay
  simp only [Prod.mk.injEq, decide_eq_true_eq] at hend
  obtain ⟨⟨hredis, hdb⟩, hanswered⟩ := hend
  have hcoh := hrest cf (Conf.run_of_play hcf)
    (fun i => Or.inr ((cf.thread i).returned_iff.mp (hanswered i)))
    "000000".toList "a".toList hredis
  rw [hdb] at hcoh
  exact absurd hcoh (by decide)

end ShortenRequestHandler

end Creeper

/-
Concurrent requests to the shortener: each client call is atomic, and
what lies between two calls of a request is up to the schedule.

# The control points

`At` lists the programs a request can be at, and `Move` the moves
between them, one for each call and answer; `step_move` says that a step
of the interleaved system is such a move of one request. The invariants
below are case analyses of `Move`.

# Lost mappings

A POST looks its candidate up and stores it in two calls, so another
POST can store the same code between them, and the upsert then replaces
a mapping that has been acknowledged. `Overwrites` is that step: the
next call of a request stores a URL over another one.
`no_lost_mapping_iff` is exact over every schedule: the mappings
acknowledged in a run are all in the database at its end if and only if
no step of the run overwrites. One direction is the write-once argument;
the other needs `StoresRaced`: a code that is taken when a POST is about
to store it was acknowledged to somebody, because the POST found it free
and only an acknowledged store can have taken it since.
-/
import Creeper.Proofs.Shorten.Sequential

namespace Creeper

open Lib

variable {ι : Type} [DecidableEq ι]

/-- Requests in progress on the two stores. -/
abbrev Traffic (ι : Type) := Conf ι Call Call.Reply Response World

namespace ShortenRequestHandler

variable {h : ShortenRequestHandler} {reqs : ι → Request}
  {cf cf' : Traffic ι} {w w' : World} {p p' : Prog Call Call.Reply Response}
  {request : Request} {i : ι}

variable (h) in
/-- All requests at their beginning. -/
def arrive (w : World) (reqs : ι → Request) : Traffic ι :=
  { shared := w, thread := fun i => h.handleRequest (reqs i) }

/-- One call of one request; no call fails. -/
abbrev CallStep (cf : Traffic ι) (i : ι) (cf' : Traffic ι) : Prop :=
  Conf.Step (perform false) cf i cf'

-- ======================================================== control points

variable (h) in
/-- Where a request can be. -/
inductive At (request : Request) : Prog Call Call.Reply Response → Prop
  | attempt (hpost : request.method = "POST".toList) (left : Nat) :
      At request (h.postAttempt request left)
  | store (hpost : request.method = "POST".toList) (k : Nat) :
      At request (postStore request (h.candidateShort request.body k))
  | posted (hpost : request.method = "POST".toList) (k : Nat) :
      At request (.ret (postOk request (h.candidateShort request.body k)))
  | get (hnot : request.method ≠ "POST".toList) (code : Str) :
      At request (getRedirect request code)
  | lookup (hnot : request.method ≠ "POST".toList) (code : Str) :
      At request (getLookup request code)
  | fill (hnot : request.method ≠ "POST".toList) (code url : Str) :
      At request (getFill request code url)
  | answered (hnot : request.method ≠ "POST".toList) (r : Response) :
      At request (.ret r)

variable (h) in
/-- What one call of a request does: the stores and the request before
it, and after it. -/
inductive Move (request : Request) (w : World) :
    Prog Call Call.Reply Response → World →
    Prog Call Call.Reply Response → Prop
  | collide (hpost : request.method = "POST".toList) (left : Nat) :
      Move request w (h.postAttempt request (left + 1)) w
        (h.postAttempt request left)
  | reuse (hpost : request.method = "POST".toList) (left k : Nat)
      (hdb : w.db (h.candidateShort request.body k) = some request.body) :
      Move request w (h.postAttempt request (left + 1)) w
        (.ret (postOk request (h.candidateShort request.body k)))
  | free (hpost : request.method = "POST".toList) (left k : Nat)
      (hdb : w.db (h.candidateShort request.body k) = none) :
      Move request w (h.postAttempt request (left + 1)) w
        (postStore request (h.candidateShort request.body k))
  | store (hpost : request.method = "POST".toList) (k : Nat) :
      Move request w
        (postStore request (h.candidateShort request.body k))
        { w with
          db := upsert w.db (h.candidateShort request.body k) request.body }
        (.ret (postOk request (h.candidateShort request.body k)))
  | hit (hnot : request.method ≠ "POST".toList) (code url : Str) :
      Move request w (getRedirect request code) w
        (.ret (redirect request url))
  | miss (hnot : request.method ≠ "POST".toList) (code : Str) :
      Move request w (getRedirect request code) w (getLookup request code)
  | absent (hnot : request.method ≠ "POST".toList) (code : Str) :
      Move request w (getLookup request code) w
        (.ret (stockResponse .c404))
  | found (hnot : request.method ≠ "POST".toList) (code url : Str)
      (hdb : w.db code = some url) :
      Move request w (getLookup request code) w (getFill request code url)
  | fill (hnot : request.method ≠ "POST".toList) (code url : Str) :
      Move request w (getFill request code url)
        { w with redis := upsert w.redis code url }
        (.ret (redirect request url))

/-- Where a request begins: a POST at its first attempt, any other at an
answer or at the resolution of a code. -/
theorem start_cases (request : Request) :
    (request.method = "POST".toList
        ∧ h.handleRequest request = h.postAttempt request kMaxAttempts)
      ∨ (request.method ≠ "POST".toList
        ∧ ((∃ r, h.handleRequest request = .ret r)
          ∨ ∃ code, h.handleRequest request = getRedirect request code)) := by
  rw [handleRequest]
  split
  · next hpost => exact Or.inl ⟨hpost, rfl⟩
  · next hnot =>
    refine Or.inr ⟨hnot, ?_⟩
    split
    · rw [handleGetRequest]
      split
      · exact Or.inl ⟨_, rfl⟩
      · split
        · exact Or.inl ⟨_, rfl⟩
        · exact Or.inr ⟨_, rfl⟩
    · exact Or.inl ⟨_, rfl⟩

/-- A request that has made no call is at a control point. -/
theorem at_start (request : Request) :
    h.At request (h.handleRequest request) := by
  rcases h.start_cases request with
    ⟨hpost, heq⟩ | ⟨hnot, ⟨r, heq⟩ | ⟨code, heq⟩⟩
  · rw [heq]; exact .attempt hpost kMaxAttempts
  · rw [heq]; exact .answered hnot r
  · rw [heq]; exact .get hnot code

/-- A request does not begin with a write. -/
theorem start_reads {request : Request} {c : Call}
    {k : c.Reply → Prog Call Call.Reply Response}
    (hstart : h.handleRequest request = .call c k) :
    (∃ code, c = .dbLookup code) ∨ ∃ code, c = .redisGet code := by
  rcases h.start_cases request with
    ⟨hpost, heq⟩ | ⟨hnot, ⟨r, heq⟩ | ⟨code, heq⟩⟩
  · rw [heq] at hstart
    cases hstart
    exact Or.inl ⟨_, rfl⟩
  · rw [heq] at hstart
    cases hstart
  · rw [heq] at hstart
    cases hstart
    exact Or.inr ⟨_, rfl⟩

/-- A call made at a control point is a move. -/
theorem At.move (hat : h.At request p) {c : Call}
    {k : c.Reply → Prog Call Call.Reply Response} (hp : p = .call c k) :
    h.Move request w p (perform false c w).1
      (k (perform false c w).2) := by
  cases hat with
  | attempt hpost left =>
      cases left with
      | zero => cases hp
      | succ left =>
          rw [postAttempt] at hp
          cases hp
          generalize hcand : h.candidateShort request.body
            (kMaxAttempts - (left + 1)) = candidate
          cases hdb : w.db candidate with
          | none =>
              simp only [perform, hdb, Bool.false_eq_true, if_false]
              subst hcand
              exact .free hpost left _ hdb
          | some url =>
              simp only [perform, hdb, Bool.false_eq_true, if_false]
              by_cases hurl : url = request.body
              · subst hcand hurl
                rw [if_pos rfl]
                exact .reuse hpost left _ hdb
              · rw [if_neg hurl]
                exact .collide hpost left
  | store hpost k =>
      cases hp
      exact .store hpost k
  | posted => cases hp
  | get hnot code =>
      cases hp
      cases hredis : w.redis code with
      | none =>
          simp only [perform, hredis, Bool.false_eq_true, if_false]
          exact .miss hnot code
      | some url =>
          simp only [perform, hredis, Bool.false_eq_true, if_false]
          exact .hit hnot code url
  | lookup hnot code =>
      cases hp
      cases hdb : w.db code with
      | none =>
          simp only [perform, hdb, Bool.false_eq_true, if_false]
          exact .absent hnot code
      | some url =>
          simp only [perform, hdb, Bool.false_eq_true, if_false]
          exact .found hnot code url hdb
  | fill hnot code url =>
      cases hp
      exact .fill hnot code url
  | answered => cases hp

/-- A move ends at a control point. -/
theorem Move.at_end (hmove : h.Move request w p w' p') :
    h.At request p' := by
  cases hmove with
  | collide hpost left => exact .attempt hpost left
  | reuse hpost left k => exact .posted hpost k
  | free hpost left k => exact .store hpost k
  | store hpost k => exact .posted hpost k
  | hit hnot => exact .answered hnot _
  | miss hnot code => exact .lookup hnot code
  | absent hnot => exact .answered hnot _
  | found hnot code url => exact .fill hnot code url
  | fill hnot => exact .answered hnot _

/-- Every request is at a control point. -/
def AllAt (h : ShortenRequestHandler) (reqs : ι → Request)
    (cf : Traffic ι) : Prop :=
  ∀ i, h.At (reqs i) (cf.thread i)

omit [DecidableEq ι] in
theorem allAt_arrive (w : World) (reqs : ι → Request) :
    h.AllAt reqs (h.arrive w reqs) :=
  fun i => at_start (reqs i)

/-- A step is a move of one request, and the others stay where they
are. -/
theorem step_move (hall : h.AllAt reqs cf) (hst : CallStep cf i cf') :
    h.Move (reqs i) cf.shared (cf.thread i) cf'.shared (cf'.thread i)
      ∧ ∀ j, j ≠ i → cf'.thread j = cf.thread j := by
  obtain ⟨c, k, hcall, hshared, hthread, hframe⟩ := hst.inv
  refine ⟨?_, hframe⟩
  rw [hshared, hthread]
  exact (hall i).move hcall

/-- Requests stay on their control points. -/
theorem step_allAt (hall : h.AllAt reqs cf) (hst : CallStep cf i cf') :
    h.AllAt reqs cf' := by
  obtain ⟨hmove, hframe⟩ := step_move hall hst
  intro j
  by_cases hj : j = i
  · subst hj
    exact hmove.at_end
  · rw [hframe j hj]
    exact hall j

-- ==================================================== acknowledgements

/-- The request `i` is a POST and has been answered 200 with the code
`c`. -/
def Acked (reqs : ι → Request) (cf : Traffic ι) (i : ι) (c : Str) : Prop :=
  (reqs i).method = "POST".toList ∧ ∃ r, cf.thread i = .ret r
    ∧ r.statusCode = 200 ∧ r.body = c

/-- An answer stays given. -/
theorem Acked.step {j : ι} {c : Str} (hack : Acked reqs cf j c)
    (hst : CallStep cf i cf') : Acked reqs cf' j c := by
  obtain ⟨hpost, r, hret, hok⟩ := hack
  exact ⟨hpost, r, hst.ret hret, hok⟩

/-- An answer stays given to the end of a run. -/
theorem Acked.run {j : ι} {c : Str} {sched : List ι}
    (hack : Acked reqs cf j c)
    (hrun : Run (Conf.Step (perform false)) cf sched cf') :
    Acked reqs cf' j c := by
  obtain ⟨hpost, r, hret, hok⟩ := hack
  exact ⟨hpost, r, Conf.run_ret hrun hret, hok⟩

/-- Every acknowledged mapping is in the database, and no code is
acknowledged for two URLs. -/
def NoLostMapping (reqs : ι → Request) (cf : Traffic ι) : Prop :=
  (∀ i c, Acked reqs cf i c → cf.shared.db c = some (reqs i).body)
  ∧ ∀ i j c, Acked reqs cf i c → Acked reqs cf j c →
    (reqs i).body = (reqs j).body

/-- The next call of request `i` stores a URL over another one. -/
def Overwrites (cf : Traffic ι) (i : ι) : Prop :=
  ∃ code url k, cf.thread i = .call (.dbStore code url) k
    ∧ ∃ v, cf.shared.db code = some v ∧ v ≠ url

/-- An acknowledgement of a move is one of its own code: it was found in
the database, or has just been stored there. -/
theorem Move.acked_db (hmove : h.Move request w p w' (.ret r))
    (hpost : request.method = "POST".toList) (hok : r.statusCode = 200) :
    w'.db r.body = some request.body := by
  generalize hp' : (Prog.ret r : Prog Call Call.Reply Response) = p' at hmove
  cases hmove with
  | collide _ left =>
      cases left with
      | zero =>
          cases hp'
          simp at hok
      | succ left => cases hp'
  | reuse _ left k hdb => cases hp'; exact hdb
  | free => cases hp'
  | store => cases hp'; exact upsert_same ..
  | hit hnot => exact absurd hpost hnot
  | miss hnot => exact absurd hpost hnot
  | absent hnot => exact absurd hpost hnot
  | found hnot => exact absurd hpost hnot
  | fill hnot => exact absurd hpost hnot

/-- A move leaves the database alone, or is the store of a POST and its
acknowledgement. -/
theorem Move.db_cases (hmove : h.Move request w p w' p') :
    w'.db = w.db
      ∨ ∃ code k, request.method = "POST".toList
        ∧ p = .call (.dbStore code request.body) k
        ∧ w'.db = upsert w.db code request.body
        ∧ p' = .ret (postOk request code) := by
  cases hmove with
  | store hpost j => exact Or.inr ⟨_, _, hpost, rfl, rfl, rfl⟩
  | _ => exact Or.inl rfl

/-- Away from overwriting stores the database is a write-once map. -/
theorem step_db_submap (hall : h.AllAt reqs cf) (hst : CallStep cf i cf')
    (hsafe : ¬ Overwrites cf i) : Submap cf.shared.db cf'.shared.db := by
  rcases (step_move hall hst).1.db_cases with
    hsame | ⟨code, k, -, hcall, hstored, -⟩
  · rw [hsame]
    exact Submap.refl _
  · rw [hstored]
    apply Submap.upsert_right
    cases hdb : cf.shared.db code with
    | none => exact Or.inl rfl
    | some v =>
        by_cases hv : v = (reqs i).body
        · exact Or.inr (by rw [hv])
        · exact absurd ⟨code, _, k, hcall, v, hdb, hv⟩ hsafe

/-- A guarded step keeps every acknowledged mapping in the database. -/
theorem step_acked_db (hall : h.AllAt reqs cf) (hst : CallStep cf i cf')
    (hsafe : ¬ Overwrites cf i)
    (hdb : ∀ j c, Acked reqs cf j c → cf.shared.db c = some (reqs j).body) :
    ∀ j c, Acked reqs cf' j c →
      cf'.shared.db c = some (reqs j).body := by
  intro j c hack
  obtain ⟨hmove, hframe⟩ := step_move hall hst
  by_cases hj : j = i
  · subst hj
    obtain ⟨hpost, r, hret, hok, rfl⟩ := hack
    rw [hret] at hmove
    exact hmove.acked_db hpost hok
  · obtain ⟨hpost, r, hret, hok⟩ := hack
    rw [hframe j hj] at hret
    exact step_db_submap hall hst hsafe _ _
      (hdb j c ⟨hpost, r, hret, hok⟩)

-- ============================================================ lost races

/-- A store acknowledges its code for the URL of its request. -/
theorem Move.of_store (hmove : h.Move request w p w' p') {code url : Str}
    {k : Bool → Prog Call Call.Reply Response}
    (hp : p = .call (.dbStore code url) k) :
    request.method = "POST".toList ∧ url = request.body
      ∧ p' = .ret (postOk request code) := by
  cases hmove with
  | store hpost j => cases hp; exact ⟨hpost, rfl, rfl⟩
  | collide => cases hp
  | reuse => cases hp
  | free => cases hp
  | hit => cases hp
  | miss => cases hp
  | absent => cases hp
  | found => cases hp
  | fill => cases hp

/-- The calls a move can lead up to, and what the stores say before
them: a store follows the lookup that found its code free, and Redis is
given what the lookup found. -/
theorem Move.to_call (hmove : h.Move request w p w' p') {c : Call}
    {k : c.Reply → Prog Call Call.Reply Response} (hp' : p' = .call c k) :
    (∃ code, c = .dbLookup code)
      ∨ (∃ code url, c = .dbStore code url ∧ w'.db code = none)
      ∨ ∃ code url, c = .redisSet code url ∧ w'.db code = some url := by
  cases hmove with
  | collide _ left =>
      cases left with
      | zero => cases hp'
      | succ left => cases hp'; exact Or.inl ⟨_, rfl⟩
  | free hpost left j hdb =>
      cases hp'
      exact Or.inr (Or.inl ⟨_, _, rfl, hdb⟩)
  | miss => cases hp'; exact Or.inl ⟨_, rfl⟩
  | found hnot code url hdb =>
      cases hp'
      exact Or.inr (Or.inr ⟨_, _, rfl, hdb⟩)
  | reuse => cases hp'
  | store => cases hp'
  | hit => cases hp'
  | absent => cases hp'
  | fill => cases hp'

/-- A request comes to a store by finding its code free. -/
theorem Move.to_store (hmove : h.Move request w p w' p') {code url : Str}
    {k : Bool → Prog Call Call.Reply Response}
    (hp' : p' = .call (.dbStore code url) k) : w'.db code = none := by
  rcases hmove.to_call hp' with
    ⟨_, hc⟩ | ⟨_, _, hc, hfree⟩ | ⟨_, _, hc, -⟩
  · cases hc
  · cases hc; exact hfree
  · cases hc

/-- A request comes to a fill by reading the database. -/
theorem Move.to_fill (hmove : h.Move request w p w' p') {code url : Str}
    {k : Unit → Prog Call Call.Reply Response}
    (hp' : p' = .call (.redisSet code url) k) : w'.db code = some url := by
  rcases hmove.to_call hp' with
    ⟨_, hc⟩ | ⟨_, _, hc, -⟩ | ⟨_, _, hc, hfound⟩
  · cases hc
  · cases hc
  · cases hc; exact hfound

/-- A new entry of the database is acknowledged by the call that brings
it. -/
theorem Move.db_new (hmove : h.Move request w p w' p') {c v : Str}
    (hold : w.db c ≠ some v) (hnew : w'.db c = some v) :
    request.method = "POST".toList ∧ v = request.body
      ∧ p' = .ret (postOk request c) := by
  rcases hmove.db_cases with hsame | ⟨code, k, hpost, -, hstored, hret⟩
  · rw [hsame] at hnew
    exact absurd hnew hold
  · rw [hstored] at hnew
    rcases upsert_eq_some hnew with ⟨rfl, rfl⟩ | ⟨-, hdb⟩
    · exact ⟨hpost, rfl, hret⟩
    · exact absurd hdb hold

/-- A code that is taken when a request is about to store it has been
acknowledged for the URL that took it. -/
def StoresRaced (reqs : ι → Request) (cf : Traffic ι) : Prop :=
  ∀ i code url k, cf.thread i = .call (.dbStore code url) k →
    ∀ v, cf.shared.db code = some v →
      ∃ j, Acked reqs cf j code ∧ (reqs j).body = v

theorem step_storesRaced (hall : h.AllAt reqs cf) (hst : CallStep cf i cf')
    (hraced : StoresRaced reqs cf) : StoresRaced reqs cf' := by
  intro j code url k hj v hv
  obtain ⟨hmove, hframe⟩ := step_move hall hst
  by_cases hji : j = i
  · subst hji
    rw [hmove.to_store hj] at hv
    cases hv
  · rw [hframe j hji] at hj
    by_cases hold : cf.shared.db code = some v
    · obtain ⟨j', hack, hbody⟩ := hraced j code url k hj v hold
      exact ⟨j', hack.step hst, hbody⟩
    · obtain ⟨hpost, hbody, hret⟩ := hmove.db_new hold hv
      exact ⟨i, ⟨hpost, _, hret, rfl, rfl⟩, hbody.symm⟩

omit [DecidableEq ι] in
theorem storesRaced_arrive (w : World) (reqs : ι → Request) :
    StoresRaced reqs (h.arrive w reqs) := by
  intro i code url k hi
  rcases start_reads (h := h) hi with ⟨code', hc⟩ | ⟨code', hc⟩ <;> cases hc

omit [DecidableEq ι] in
/-- Nothing is acknowledged before the first call. -/
theorem not_acked_arrive (w : World) (reqs : ι → Request) (i : ι)
    (c : Str) : ¬ Acked reqs (h.arrive w reqs) i c := by
  intro hack
  obtain ⟨hpost, r, hret, -⟩ := hack
  rcases h.start_cases (reqs i) with ⟨-, heq⟩ | ⟨hnot, -⟩
  · change h.handleRequest (reqs i) = .ret r at hret
    rw [heq] at hret
    cases hret
  · exact hnot hpost

/-- Lost mappings, exactly. In every run of any requests, from any
database, under any schedule of their calls: the mappings acknowledged
so far are all in the database, each code for one URL, if and only if no
step of the run stored a URL over another one. -/
theorem no_lost_mapping_iff (h : ShortenRequestHandler) {w₀ : World}
    {reqs : ι → Request} {sched : List ι} {cf : Traffic ι}
    (hrun : Run (Conf.Step (perform false)) (h.arrive w₀ reqs) sched cf) :
    NoLostMapping reqs cf
      ↔ Run (Guarded (fun cf i => ¬ Overwrites cf i)
          (Conf.Step (perform false))) (h.arrive w₀ reqs) sched cf := by
  constructor
  · intro hkept
    refine (hrun.guarded_or_breach
      (fun cf i => ¬ Overwrites cf i)).resolve_right ?_
    intro hbreach
    obtain ⟨pre, i, post, t, t', rfl, hpre, hbad, hst, hpost⟩ := hbreach
    obtain ⟨hall, hraced⟩ := hpre.of_guarded.invariant
      (I := fun cf => h.AllAt reqs cf ∧ StoresRaced reqs cf)
      (fun _ _ _ hI hst =>
        ⟨step_allAt hI.1 hst, step_storesRaced hI.1 hst hI.2⟩)
      ⟨allAt_arrive w₀ reqs, storesRaced_arrive w₀ reqs⟩
    obtain ⟨code, url, k, hi, v, hv, hne⟩ := not_not.mp hbad
    -- the URL that is overwritten was acknowledged, and so is the new one
    obtain ⟨j, hackj, rfl⟩ := hraced i code url k hi v hv
    obtain ⟨hpost_i, rfl, hret⟩ := (step_move hall hst).1.of_store hi
    have hacki : Acked reqs t' i code := ⟨hpost_i, _, hret, rfl, rfl⟩
    exact hne (hkept.2 j i code ((hackj.step hst).run hpost)
      (hacki.run hpost))
  · intro hguarded
    have hstart : ∀ j c, Acked reqs (h.arrive w₀ reqs) j c →
        (h.arrive w₀ reqs).shared.db c = some (reqs j).body :=
      fun j c hack => absurd hack (not_acked_arrive w₀ reqs j c)
    obtain ⟨-, hdb⟩ := hguarded.invariant
      (I := fun cf => h.AllAt reqs cf ∧ ∀ j c, Acked reqs cf j c →
        cf.shared.db c = some (reqs j).body)
      (fun _ _ _ hI hst => ⟨step_allAt hI.1 hst.2,
        step_acked_db hI.1 hst.2 hst.1 hI.2⟩)
      ⟨allAt_arrive w₀ reqs, hstart⟩
    refine ⟨hdb, fun i j c hi hj => ?_⟩
    have heq := hdb i c hi
    rw [hdb j c hj] at heq
    exact (Option.some.inj heq).symm

/-- Two POSTs, one for each of two URLs. -/
def twoPosts : Bool → Request
  | false => postOf "a".toList
  | true => postOf "b".toList

theorem no_lost_mapping_alone :
    ∃ cf, Run (Conf.Step (perform false))
        (colliding.arrive emptyWorld twoPosts) [false, false] cf
      ∧ NoLostMapping twoPosts cf := by
  have hrun : Run (Conf.Step (perform false))
      (colliding.arrive emptyWorld twoPosts) [false, false] _ :=
    .cons (.call _ _ rfl) (.cons (.call _ _ rfl) (.nil _))
  refine ⟨_, hrun, (no_lost_mapping_iff colliding hrun).mpr ?_⟩
  refine .cons ⟨?_, .call _ _ rfl⟩ (.cons ⟨?_, .call _ _ rfl⟩ (.nil _))
  · intro hover
    obtain ⟨code, url, k, hcall, -⟩ := hover
    cases hcall
  · intro hover
    obtain ⟨code, url, k, -, v, hv, -⟩ := hover
    cases hv

/-- Both look their candidate up before either stores it. -/
theorem mapping_lost :
    ∃ cf, Run (Conf.Step (perform false))
        (colliding.arrive emptyWorld twoPosts) [false, true, false, true] cf
      ∧ ¬ NoLostMapping twoPosts cf := by
  refine ⟨_, .cons (.call _ _ rfl) (.cons (.call _ _ rfl)
    (.cons (.call _ _ rfl) (.cons (.call _ _ rfl) (.nil _)))), ?_⟩
  intro hkept
  refine absurd (hkept.2 false true "000000".toList
    ⟨rfl, _, rfl, rfl, ?_⟩ ⟨rfl, _, rfl, rfl, ?_⟩) (by decide)
  · exact colliding_candidateShort _ 0
  · exact colliding_candidateShort _ 0

end ShortenRequestHandler

end Creeper

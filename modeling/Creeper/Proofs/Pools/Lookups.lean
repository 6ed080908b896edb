/-
What the calls of the database client return.

In the loop, what a call knows and what its connection is about go
together (`Progress`), and its result comes from the one result libpq
has for it (`Concludes`); `G` is what is known of that result and the
table, `I` what is known of the table. `known_rule` says what it takes
for these to be kept, whatever the other calls do.

`lookup_after_store` is what the client does with a URL: a lookup that
begins after a store has returned true, and that meets no failure,
returns the URL up to its first NUL, as long as no other store writes
the row.
-/
import Creeper.Proofs.Pools.Postgres

namespace Creeper

open Lib

-- ================================================================== queries

/-- The query of a call on the table. -/
def DatabaseCall.execute (c : DatabaseCall) (table : UrlTable) :
    UrlTable × PGresult :=
  c.query.execute table (c.params.map Param.read)

@[simp] theorem DatabaseCall.execute_lookup (shortCode : Str)
    (table : UrlTable) :
    (DatabaseCall.lookup shortCode).execute table
      = (table, .tuplesOk (table (cString shortCode)).toList) :=
  rfl

-- ================================================================= the loop

/-- libpq fails on a call. -/
def Failure : Answer (PoolCall Nat PqCall) (PoolCall.Reply PqCall.Reply) → Prop
  | ⟨.command _ (.sendQueryParams _ _), sent⟩ => sent = false
  | ⟨.command _ .consumeInput, ok⟩ => ok = false
  | ⟨.command _ .getResult, fetched⟩ => fetched = some .error
  | _ => False

/-- How a call stands in the loop: its result so far, and its
connection. `F` says that it meets no failure, and `G` is what is known
of the result that libpq has. -/
inductive Progress (F : Prop) (G : PGresult → Prop) (c : DatabaseCall) :
    c.Result → ConnStatus → Prop
  | sent : Progress F G c c.failure (.sent c.query (c.params.map Param.read))
  | answered {res : PGresult} (h : G res) :
      Progress F G c c.failure (.answered res)
  | drained {res : PGresult} (h : G res) (hfine : F → res ≠ .error) :
      Progress F G c (c.onResult res c.failure).2 .drained

/-- What a call returns. -/
inductive Concludes (F : Prop) (G : PGresult → Prop) (c : DatabaseCall) :
    c.Result → Prop
  | failed (h : ¬ F) : Concludes F G c c.failure
  | result {res : PGresult} (h : G res) (hfine : F → res ≠ .error) :
      Concludes F G c (c.onResult res c.failure).2

/-- How a call stands anywhere. -/
def Standing (F : Prop) (G : PGresult → Prop) :
    DatabasePoint → Option ConnStatus → Prop
  | .call _, _ => True
  | .send _ _, _ => True
  | .consume _ c result, status => ∃ st ∈ status, Progress F G c result st
  | .busy _ c result, status => ∃ st ∈ status, Progress F G c result st
  | .fetch _ c result, status => ∃ st ∈ status, Progress F G c result st
  | .release _ c result, _ => Concludes F G c result
  | .returned c result, _ => Concludes F G c result

/-- What is known of a call and of the table. -/
structure Known {ι : Type} (calls : ι → DatabaseCall) (F : ι → Prop)
    (G : ι → PGresult → UrlTable → Prop) (I : UrlTable → Prop) (i : ι)
    (p : DatabasePoint) (status : Option ConnStatus) (table : UrlTable) :
    Prop where
  called : p.called = calls i
  standing : Standing (F i) (fun res => G i res table) p status
  table : I table

section

variable {ι : Type} {calls : ι → DatabaseCall} {F : ι → Prop}
  {G : ι → PGresult → UrlTable → Prop} {I : UrlTable → Prop}

theorem Progress.mono {F F' : Prop} {G G' : PGresult → Prop}
    {c : DatabaseCall} {result : c.Result} {status : ConnStatus}
    (h : Progress F G c result status) (hF : F' → F)
    (hG : ∀ res, G res → G' res) : Progress F' G' c result status := by
  cases h with
  | sent => exact .sent
  | answered h => exact .answered (hG _ h)
  | drained h hfine => exact .drained (hG _ h) fun hF' => hfine (hF hF')

theorem Concludes.mono {F F' : Prop} {G G' : PGresult → Prop}
    {c : DatabaseCall} {result : c.Result} (h : Concludes F G c result)
    (hF : F' → F) (hG : ∀ res, G res → G' res) :
    Concludes F' G' c result := by
  cases h with
  | failed h => exact .failed fun hF' => h (hF hF')
  | result h hfine => exact .result (hG _ h) fun hF' => hfine (hF hF')

/-- Less known of the calls. -/
theorem Standing.mono {F F' : Prop} {G G' : PGresult → Prop}
    {p : DatabasePoint} {status : Option ConnStatus}
    (h : Standing F G p status) (hF : F' → F)
    (hG : ∀ res, G res → G' res) : Standing F' G' p status := by
  cases p with
  | call c => trivial
  | send conn c => trivial
  | release conn c result => exact Concludes.mono h hF hG
  | returned c result => exact Concludes.mono h hF hG
  | consume conn c result =>
      obtain ⟨st, hst, h⟩ := h
      exact ⟨st, hst, h.mono hF hG⟩
  | busy conn c result =>
      obtain ⟨st, hst, h⟩ := h
      exact ⟨st, hst, h.mono hF hG⟩
  | fetch conn c result =>
      obtain ⟨st, hst, h⟩ := h
      exact ⟨st, hst, h.mono hF hG⟩

/-- Where a result comes from. -/
theorem Concludes.inv {F : Prop} {G : PGresult → Prop} {c : DatabaseCall}
    {result : c.Result} (h : Concludes F G c result) :
    (¬ F ∧ result = c.failure) ∨ ∃ res, G res ∧ (F → res ≠ .error)
      ∧ result = (c.onResult res c.failure).2 := by
  cases h with
  | failed h => exact Or.inl ⟨h, rfl⟩
  | result h hfine => exact Or.inr ⟨_, h, hfine, rfl⟩

/-- A store returns true for a command that is done. -/
theorem Concludes.stored {F : Prop} {G : PGresult → Prop}
    {shortCode longUrl : Str}
    (h : Concludes F G (.store shortCode longUrl) true) : G .commandOk := by
  rcases h.inv with ⟨-, hfailure⟩ | ⟨res, hres, -, hresult⟩
  · cases hfailure
  · cases res with
    | commandOk => exact hres
    | tuplesOk rows => cases hresult
    | error => cases hresult

/-- A call that leaves the loop without a result has failed, unless it
has fetched one before. -/
theorem Progress.concludes {F : Prop} {G : PGresult → Prop} {c : DatabaseCall}
    {result : c.Result} {status : ConnStatus}
    (h : Progress F G c result status) (hfail : ¬ F) :
    Concludes F G c result := by
  cases h with
  | sent => exact .failed hfail
  | answered => exact .failed hfail
  | drained h hfine => exact .result h hfine

/-- What it takes to know `G` of the results and `I` of the table: a
query and an error make them true, and the queries of the others leave
them so. -/
structure Knowing (calls : ι → DatabaseCall)
    (G : ι → PGresult → UrlTable → Prop) (I : UrlTable → Prop) : Prop where
  executed : ∀ i table, I table →
    G i ((calls i).execute table).2 ((calls i).execute table).1
      ∧ I ((calls i).execute table).1
  error : ∀ i table, I table → G i .error table
  stable : ∀ i j, j ≠ i → ∀ res table, I table → G j res table →
    G j res ((calls i).execute table).1

theorem Standing.progress {F : Prop} {G : PGresult → Prop}
    {p : DatabasePoint} {status : Option ConnStatus}
    (h : Standing F G p status) (hloop : p.InLoop) :
    ∃ result : p.called.Result, ∃ st ∈ status,
      Progress F G p.called result st := by
  cases p with
  | consume conn c result => exact ⟨result, h⟩
  | busy conn c result => exact ⟨result, h⟩
  | fetch conn c result => exact ⟨result, h⟩
  | _ => exact hloop.elim

/-- In the loop, the query that is sent is the call's own. -/
theorem Known.sent {i : ι} {p : DatabasePoint} {query : Query}
    {values : List Str} {table : UrlTable}
    (h : Known calls F G I i p (some (.sent query values)) table)
    (hloop : p.InLoop) :
    query = (calls i).query
      ∧ values = (calls i).params.map Param.read := by
  obtain ⟨result, st, hst, hprogress⟩ := h.standing.progress hloop
  rw [← h.called]
  cases hst
  cases hprogress
  exact ⟨rfl, rfl⟩

/-- A command leaves the table, or executes the query of its call. -/
theorem Known.table_cases {i : ι} {p : DatabasePoint} {conn : Nat}
    {c : PqCall} {pq pq' : Libpq} {r : c.Reply}
    {k : c.Reply → DatabasePoint}
    (h : Known calls F G I i p (some (pq.status conn)) pq.table)
    (hcode : RealDatabaseClient.code p = some ⟨.command conn c, k⟩)
    (hserves : Libpq.Serves conn c pq r pq') :
    pq'.table = pq.table ∨ pq'.table = ((calls i).execute pq.table).1 := by
  cases hserves with
  | @executed _ query values hsent =>
      right
      have hloop : p.InLoop := by
        cases p with
        | consume conn c result => trivial
        | _ => cases hcode
      rw [hsent] at h
      obtain ⟨rfl, rfl⟩ := h.sent hloop
      rfl
  | _ => exact Or.inl rfl

/-- A call whose result is fetched goes on with it, or leaves the loop. -/
theorem Progress.fetched {F : Prop} {G : PGresult → Prop} {c : DatabaseCall}
    {result : c.Result} {res : PGresult} {conn : Nat} {pq : Libpq}
    {p : DatabasePoint} (h : Progress F G c result (.answered res))
    (hfine : F → res ≠ .error)
    (hp : p = if (c.onResult res result).1 then
        .consume conn c (c.onResult res result).2
      else .release conn c (c.onResult res result).2) :
    p.called = c
      ∧ Standing F G p (p.conn.map (pq.setStatus conn .drained).status) := by
  subst hp
  cases h with
  | answered hG =>
      by_cases hgo : (c.onResult res c.failure).1 = true
      · rw [if_pos hgo]
        refine ⟨rfl, _, rfl, ?_⟩
        rw [Libpq.status_setStatus]
        exact .drained hG hfine
      · rw [if_neg hgo]
        exact ⟨rfl, .result hG hfine⟩

/-- A call that fetches null has fetched its result before. -/
theorem Progress.done {F : Prop} {G : PGresult → Prop} {c : DatabaseCall}
    {result : c.Result} {status : ConnStatus}
    (h : Progress F G c result status)
    (hdone : status = .drained ∨ status = .idle) : Concludes F G c result := by
  rcases hdone with rfl | rfl
  · cases h with
    | drained hG hfine => exact .result hG hfine
  · cases h

/-- Reading the input keeps what is known. -/
theorem Known.consume (hk : Knowing calls G I) {i : ι} {conn held : Nat}
    {call : DatabaseCall} {result : call.Result} {c : PqCall}
    {k : c.Reply → DatabasePoint} {pq pq' : Libpq} {r : c.Reply}
    (hi : Known calls F G I i (.consume held call result)
      (some (pq.status conn)) pq.table)
    (hcode : RealDatabaseClient.code (.consume held call result)
      = some ⟨.command conn c, k⟩)
    (hok : F i → ¬ Failure ⟨.command conn c, r⟩)
    (hserves : Libpq.Serves conn c pq r pq') :
    Known calls F G I i (k r) ((k r).conn.map pq'.status) pq'.table := by
  cases hcode
  obtain ⟨st, hst, hprogress⟩ := hi.standing
  cases hst
  cases hserves with
  | consumed => exact ⟨hi.called, ⟨_, rfl, hprogress⟩, hi.table⟩
  | executed hsent =>
      obtain rfl : call = calls i := hi.called
      rw [hsent] at hprogress
      cases hprogress with
      | sent =>
          obtain ⟨hG, hI⟩ := hk.executed i pq.table hi.table
          refine ⟨hi.called, ⟨_, rfl, ?_⟩, hI⟩
          show Progress _ _ _ _ (Function.update pq.status conn _ conn)
          rw [Function.update_self]
          exact .answered hG
  | failed hsent =>
      rw [hsent] at hprogress
      cases hprogress with
      | sent =>
          refine ⟨hi.called, ⟨_, rfl, ?_⟩, hi.table⟩
          rw [Libpq.status_setStatus]
          exact .answered (hk.error i pq.table hi.table)
  | consumeFailed =>
      exact ⟨hi.called, hprogress.concludes fun hF => hok hF rfl,
        hi.table⟩

/-- Taking the result keeps what is known. -/
theorem Known.fetch {i : ι} {conn held : Nat}
    {call : DatabaseCall} {result : call.Result} {c : PqCall}
    {k : c.Reply → DatabasePoint} {pq pq' : Libpq} {r : c.Reply}
    (hi : Known calls F G I i (.fetch held call result)
      (some (pq.status conn)) pq.table)
    (hcode : RealDatabaseClient.code (.fetch held call result)
      = some ⟨.command conn c, k⟩)
    (hok : F i → ¬ Failure ⟨.command conn c, r⟩)
    (hserves : Libpq.Serves conn c pq r pq') :
    Known calls F G I i (k r) ((k r).conn.map pq'.status) pq'.table := by
  cases hcode
  obtain ⟨st, hst, hprogress⟩ := hi.standing
  cases hst
  cases hserves with
  | @gotResult _ res hanswered =>
      have hfine : F i → res ≠ .error := by
        intro hF heq
        subst heq
        exact hok hF rfl
      rw [hanswered] at hprogress
      obtain ⟨hcalled, hstanding⟩ := hprogress.fetched hfine rfl
      exact ⟨hcalled.trans hi.called, hstanding, hi.table⟩
  | gotNull hdone =>
      exact ⟨hi.called, hprogress.done hdone, hi.table⟩

/-- A command keeps what is known of the call that gives it. -/
theorem Known.command (hk : Knowing calls G I) {i : ι} {p : DatabasePoint}
    {conn : Nat} {c : PqCall} {k : c.Reply → DatabasePoint} {pq pq' : Libpq}
    {r : c.Reply}
    (hi : Known calls F G I i p (some (pq.status conn)) pq.table)
    (hcode : RealDatabaseClient.code p = some ⟨.command conn c, k⟩)
    (hok : F i → ¬ Failure ⟨.command conn c, r⟩)
    (hserves : Libpq.Serves conn c pq r pq') :
    Known calls F G I i (k r) ((k r).conn.map pq'.status) pq'.table := by
  cases p with
  | send conn c =>
      cases hcode
      cases hserves with
      | sent =>
          refine ⟨hi.called, ⟨_, rfl, ?_⟩, hi.table⟩
          rw [Libpq.status_setStatus]
          exact .sent
      | sendRefused =>
          exact ⟨hi.called, .failed fun hF => hok hF rfl, hi.table⟩
  | consume => exact hi.consume hk hcode hok hserves
  | busy conn c result =>
      cases hcode
      cases hserves with
      | busy => exact ⟨hi.called, hi.standing, hi.table⟩
      | notBusy => exact ⟨hi.called, hi.standing, hi.table⟩
  | fetch => exact hi.fetch hcode hok hserves
  | _ => cases hcode

/-- What is known of the calls is kept, whatever order their steps come
in, as long as no call of `F` meets a failure. -/
theorem known_rule (hk : Knowing calls G I) :
    Custody.Rule RealDatabaseClient.code DatabasePoint.conn Libpq.Serves
      Libpq.status Libpq.table (fun e => F e.1 → ¬ Failure e.2)
      (fun _ _ _ => True) (Known calls F G I) := by
  refine ⟨libpq_frame, ?_, ?_, ?_, ?_⟩
  · intro i p k conn st table hcode hi _
    cases p with
    | call c =>
        cases hcode
        exact ⟨hi.called, trivial, hi.table⟩
    | _ => cases hcode
  · intro i p conn c k pq r pq' hcode hok hserves hi
    exact hi.command hk hcode hok hserves
  · intro i p conn c k pq r pq' hcode _ hserves hi
    refine ⟨fun _ _ h => h, fun j hj q status hq => ?_⟩
    rcases hi.table_cases hcode hserves with hsame | hexecuted
    · rw [hsame]
      exact hq
    · rw [hexecuted]
      refine ⟨hq.called, ?_, (hk.executed i pq.table hq.table).2⟩
      exact hq.standing.mono id fun res =>
        hk.stable i j hj res pq.table hq.table
  · intro i p conn k st table hcode hi
    cases p with
    | release conn c result =>
        cases hcode
        exact ⟨⟨hi.called, hi.standing, hi.table⟩, trivial⟩
    | _ => cases hcode

-- =================================================================== lookups

/-- The rows that a call does not store stay. -/
theorem execute_of_ne {c : DatabaseCall} {row : Str}
    (h : ∀ shortCode longUrl, c = .store shortCode longUrl →
      cString shortCode ≠ row) (table : UrlTable) :
    (c.execute table).1 row = table row := by
  cases c with
  | store shortCode longUrl => exact upsert_ne _ (h _ _ rfl).symm _
  | lookup shortCode => rfl

variable [DecidableEq ι] {poolSize : UInt64} {table : UrlTable} {i j : ι}
  {shortCode longUrl : Str} {es fs : List (DatabaseEvent ι)}
  {mid now : Running ι DatabasePoint (Pool Nat Libpq)}

/-- What is known from the start on. -/
theorem known_of_run (hk : Knowing calls G I) (hI : I table)
    (h : Run RealDatabaseClient.Step
      (RealDatabaseClient.start poolSize table calls) es now)
    (hfine : ∀ e ∈ es, F e.1 → ¬ Failure e.2) (i : ι) :
    Known calls F G I i (now.point i)
      ((now.point i).conn.map now.shared.behind.status)
      now.shared.behind.table := by
  have hcustody := h.custody postgres_borrows (known_rule hk) hfine
    (Ledger.sound_full List.nodup_range)
    ⟨fun _ _ => trivial, fun i => ⟨rfl, trivial, hI⟩⟩
  exact hcustody.kept i

/-- The table has the URL for the code. -/
def HasRow (shortCode longUrl : Str) (table : UrlTable) : Prop :=
  table (cString shortCode) = some (cString longUrl)

/-- No other call stores the row of the code. -/
def OnlyStore (calls : ι → DatabaseCall) (i : ι) (shortCode : Str) : Prop :=
  ∀ k, k ≠ i → ∀ shortCode' longUrl',
    calls k = .store shortCode' longUrl' →
      cString shortCode' ≠ cString shortCode

/-- A query of any call leaves the row of the only store. -/
theorem OnlyStore.hasRow (hi : calls i = .store shortCode longUrl)
    (honly : OnlyStore calls i shortCode) (k : ι)
    (h : HasRow shortCode longUrl table) :
    HasRow shortCode longUrl ((calls k).execute table).1 := by
  by_cases hk : k = i
  · subst hk
    rw [hi]
    exact upsert_same ..
  · unfold HasRow
    rw [execute_of_ne (honly k hk)]
    exact h

/-- A store that has returned true has written its row, and the row
stays. -/
theorem hasRow_of_stored (hi : calls i = .store shortCode longUrl)
    (honly : OnlyStore calls i shortCode)
    (h : Run RealDatabaseClient.Step
      (RealDatabaseClient.start poolSize table calls) es now)
    (hstored : now.point i = .returned (.store shortCode longUrl) true) :
    HasRow shortCode longUrl now.shared.behind.table := by
  have hk : Knowing calls
      (fun k res table => k = i → res = .commandOk →
        HasRow shortCode longUrl table) (fun _ => True) := by
    refine ⟨fun k table _ => ⟨?_, trivial⟩, fun k table _ => nofun, ?_⟩
    · intro heq _
      subst heq
      rw [hi]
      exact upsert_same ..
    · intro k j _ res table _ hrow hj hres
      exact honly.hasRow hi k (hrow hj hres)
  have hknown := (known_of_run (F := fun _ => False) hk trivial h
    (fun _ _ => nofun) i).standing
  rw [hstored] at hknown
  exact Concludes.stored hknown rfl rfl

/-- What libpq has for a lookup: the URL, or an error. -/
def Finds (j : ι) (longUrl : Str) (k : ι) (res : PGresult)
    (_table : UrlTable) : Prop :=
  k = j → res = .tuplesOk [cString longUrl] ∨ res = .error

theorem knowing_finds (hi : calls i = .store shortCode longUrl)
    (hj : calls j = .lookup shortCode) (honly : OnlyStore calls i shortCode) :
    Knowing calls (Finds j longUrl) (HasRow shortCode longUrl) := by
  refine ⟨fun k table hrow => ⟨?_, honly.hasRow hi k hrow⟩,
    fun _ _ _ _ => Or.inr rfl, fun _ _ _ _ _ _ h => h⟩
  intro heq
  subst heq
  unfold HasRow at hrow
  rw [hj, DatabaseCall.execute_lookup, hrow]
  exact Or.inl rfl

/-- A lookup that begins after a store has returned true, and meets no
failure, returns the URL up to its first NUL, if no other store writes
the row. -/
theorem lookup_after_store (hi : calls i = .store shortCode longUrl)
    (hj : calls j = .lookup shortCode) (honly : OnlyStore calls i shortCode)
    (h : Run RealDatabaseClient.Step
      (RealDatabaseClient.start poolSize table calls) es mid)
    (hstored : mid.point i = .returned (.store shortCode longUrl) true)
    (hcall : mid.point j = .call (.lookup shortCode))
    (h' : Run RealDatabaseClient.Step mid fs now) {result : Option Str}
    (hreturned : now.point j = .returned (.lookup shortCode) result)
    (hfine : ∀ e ∈ fs, e.1 = j → ¬ Failure e.2) :
    result = some (cString longUrl) := by
  have hrow := hasRow_of_stored hi honly h hstored
  -- whatever the other calls are doing then
  have hbefore := fun k => known_of_run (F := fun _ => False)
    (G := fun _ _ _ => True) (I := fun _ => True)
    ⟨fun _ _ _ => ⟨trivial, trivial⟩, fun _ _ _ => trivial,
      fun _ _ _ _ _ _ _ => trivial⟩ trivial h (fun _ _ => nofun) k
  have hmid : Custody DatabasePoint.conn Libpq.status Libpq.table
      (fun _ _ _ => True)
      (Known calls (· = j) (Finds j longUrl) (HasRow shortCode longUrl))
      mid := by
    refine ⟨fun _ _ => trivial, fun k => ⟨(hbefore k).called, ?_, hrow⟩⟩
    by_cases hkj : k = j
    · subst hkj
      rw [hcall]
      trivial
    · exact (hbefore k).standing.mono hkj fun _ _ heq => absurd heq hkj
  have hend := (h'.custody postgres_borrows
    (known_rule (knowing_finds hi hj honly)) hfine (postgres_sound h)
    hmid).kept j
  have hstanding := hend.standing
  rw [hreturned] at hstanding
  rcases Concludes.inv hstanding with ⟨hne, -⟩ | ⟨res, hres, hok, hresult⟩
  · exact absurd rfl hne
  · rcases hres rfl with rfl | rfl
    · simpa [DatabaseCall.onResult] using hresult
    · exact absurd rfl (hok rfl)

end

end Creeper

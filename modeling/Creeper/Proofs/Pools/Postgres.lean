/-
The connections of the database client.

Both calls borrow and neither drops: each puts its connection back, and
once (`release_count`). But `lookup` leaves its loop at an error result
before it has fetched null, and both leave theirs where `PQconsumeInput`
fails; the connection then goes back as it is, and no query is taken on
it ever again. `postgresPool_hygiene` says that nothing else does this,
for any number of calls and any order of their steps: as long as neither
happens every connection in the queue is idle, and where one of them has
happened there is one that is not, once no call is under way.
-/
import Creeper.Lib.Custody
import Creeper.Postgres

namespace Creeper

open Lib

-- ================================================================== the code

/-- The client uses only what it has acquired, and drops nothing. -/
theorem postgres_borrows :
    Borrows RealDatabaseClient.code DatabasePoint.conn fun _ _ => false := by
  refine ⟨?_, ?_, ?_⟩
  · intro p k hcode
    cases p with
    | call c =>
        cases hcode
        exact ⟨rfl, fun _ => rfl⟩
    | _ => cases hcode
  · intro p conn c k hcode
    cases p with
    | send conn c =>
        cases hcode
        refine ⟨rfl, fun sent => ?_⟩
        cases sent <;> rfl
    | consume conn c result =>
        cases hcode
        refine ⟨rfl, fun ok => ?_⟩
        cases ok <;> rfl
    | busy conn c result =>
        cases hcode
        refine ⟨rfl, fun busy => ?_⟩
        cases busy <;> rfl
    | fetch conn c result =>
        cases hcode
        refine ⟨rfl, fun fetched => ?_⟩
        cases fetched with
        | none => rfl
        | some res =>
            show DatabasePoint.conn (if _ then _ else _) = _
            split <;> rfl
    | _ => cases hcode
  · intro p conn k hcode
    cases p with
    | release conn c result =>
        cases hcode
        exact ⟨rfl, rfl⟩
    | _ => cases hcode

/-- A command acts on its own connection. -/
theorem libpq_frame {conn : Nat} {c : PqCall} {pq pq' : Libpq} {r : c.Reply}
    (h : Libpq.Serves conn c pq r pq') (other : Nat) (hne : other ≠ conn) :
    pq'.status other = pq.status other := by
  have hupdate : ∀ status : ConnStatus,
      Function.update pq.status conn status other = pq.status other :=
    fun status => Function.update_of_ne hne ..
  cases h with
  | sent => exact hupdate _
  | executed => exact hupdate _
  | failed => exact hupdate _
  | gotResult => exact hupdate _
  | gotNull => exact hupdate _
  | _ => rfl

@[simp] theorem Libpq.status_setStatus (pq : Libpq) (conn : Nat)
    (status : ConnStatus) : (pq.setStatus conn status).status conn = status :=
  Function.update_self ..

-- =============================================================== idle or not

/-- An answer that leaves a connection with something to fetch: an error
result for a lookup, or a `PQconsumeInput` that fails. -/
def Poisons {ι : Type} (calls : ι → DatabaseCall) : DatabaseEvent ι → Prop
  | (_, ⟨.command _ .consumeInput, ok⟩) => ok = false
  | (i, ⟨.command _ .getResult, some res⟩) =>
      (∃ shortCode, calls i = .lookup shortCode)
        ∧ ∀ rows, res ≠ .tuplesOk rows
  | _ => False

/-- A call has its query under way in the loop, and its connection is
idle before and after it. -/
structure Tidy {ι : Type} (calls : ι → DatabaseCall) (i : ι)
    (p : DatabasePoint) (status : Option ConnStatus) (_table : UrlTable) :
    Prop where
  called : p.called = calls i
  busy : p.InLoop → status ≠ some .idle
  idle : ¬ p.InLoop → ∀ st, status = some st → st = .idle

theorem Tidy.inLoop {ι : Type} {calls : ι → DatabaseCall} {i : ι}
    {p : DatabasePoint} {status : Option ConnStatus} {table : UrlTable}
    (hcalled : p.called = calls i) (hloop : p.InLoop)
    (hbusy : status ≠ some .idle) : Tidy calls i p status table :=
  ⟨hcalled, fun _ => hbusy, fun h => absurd hloop h⟩

/-- Without poison, a command leaves its connection as the next point
has it. -/
theorem Tidy.command {ι : Type} {calls : ι → DatabaseCall} {i : ι}
    {p : DatabasePoint} {conn : Nat} {c : PqCall}
    {k : c.Reply → DatabasePoint} {pq pq' : Libpq} {r : c.Reply}
    (hi : Tidy calls i p (some (pq.status conn)) pq.table)
    (hcode : RealDatabaseClient.code p = some ⟨.command conn c, k⟩)
    (hok : ¬ Poisons calls (i, ⟨.command conn c, r⟩))
    (hserves : Libpq.Serves conn c pq r pq') :
    Tidy calls i (k r) ((k r).conn.map pq'.status) pq'.table := by
  cases p with
  | send conn c =>
      cases hcode
      cases hserves with
      | sent => exact .inLoop hi.called trivial (by simp [DatabasePoint.conn])
      | sendRefused => exact ⟨hi.called, nofun, fun _ => hi.idle nofun⟩
  | consume conn c result =>
      cases hcode
      cases hserves with
      | consumed => exact .inLoop hi.called trivial (hi.busy trivial)
      | executed =>
          exact .inLoop hi.called trivial (by simp [DatabasePoint.conn])
      | failed => exact .inLoop hi.called trivial (by simp [DatabasePoint.conn])
      | consumeFailed => exact absurd rfl hok
  | busy conn c result =>
      cases hcode
      cases hserves with
      | busy => exact .inLoop hi.called trivial (hi.busy trivial)
      | notBusy => exact .inLoop hi.called trivial (hi.busy trivial)
  | fetch conn c result =>
      cases hcode
      cases hserves with
      | @gotResult _ res hanswered =>
          have hgo : (c.onResult res result).1 = true := by
            cases c with
            | store shortCode longUrl => cases res <;> rfl
            | lookup shortCode =>
                cases res with
                | tuplesOk rows => cases rows <;> rfl
                | commandOk =>
                    exact absurd ⟨⟨shortCode, hi.called.symm⟩, nofun⟩ hok
                | error =>
                    exact absurd ⟨⟨shortCode, hi.called.symm⟩, nofun⟩ hok
          simp only [hgo, if_true]
          exact .inLoop hi.called trivial (by simp [DatabasePoint.conn])
      | gotNull =>
          refine ⟨hi.called, nofun, fun _ st hst => ?_⟩
          simpa [DatabasePoint.conn] using hst.symm
  | _ => cases hcode

/-- Without poison, the connections are idle but in the loop. -/
theorem tidy_rule {ι : Type} (calls : ι → DatabaseCall) :
    Custody.Rule RealDatabaseClient.code DatabasePoint.conn Libpq.Serves
      Libpq.status Libpq.table (fun e => ¬ Poisons calls e)
      (fun _ status _ => status = .idle) (Tidy calls) := by
  refine ⟨libpq_frame, ?_, ?_, ?_, ?_⟩
  · intro i p k conn st table hcode hi hq
    cases p with
    | call c =>
        cases hcode
        exact ⟨hi.called, nofun, fun _ st' hst => by cases hst; exact hq⟩
    | _ => cases hcode
  · intro i p conn c k pq r pq' hcode hok hserves hi
    exact hi.command hcode hok hserves
  · intro i p conn c k pq r pq' _ _ _ _
    exact ⟨fun _ _ h => h, fun _ _ _ _ h => ⟨h.called, h.busy, h.idle⟩⟩
  · intro i p conn k st table hcode hi
    cases p with
    | release conn c result =>
        cases hcode
        exact ⟨⟨hi.called, nofun, nofun⟩, hi.idle nofun st rfl⟩
    | _ => cases hcode

/-- A connection that is not idle, and that nobody will fetch from. -/
structure Spoilt (spoilt : Nat) (p : DatabasePoint)
    (status : Option ConnStatus) : Prop where
  left : p.conn = some spoilt → ¬ p.InLoop
  busy : p.conn = some spoilt → status ≠ some .idle

/-- What is spoilt stays so: no query is taken on it. -/
theorem spoilt_rule {ι : Type} (spoilt : Nat) :
    Custody.Rule (ι := ι) RealDatabaseClient.code DatabasePoint.conn
      Libpq.Serves Libpq.status Libpq.table (fun _ => True)
      (fun conn status _ => conn = spoilt → status ≠ .idle)
      (fun _ p status _ => Spoilt spoilt p status) := by
  refine ⟨libpq_frame, ?_, ?_, ?_, ?_⟩
  · intro i p k conn st table hcode _ hq
    cases p with
    | call c =>
        cases hcode
        refine ⟨fun _ => nofun, fun hconn => ?_⟩
        intro hst
        exact hq (Option.some.inj hconn) (Option.some.inj hst)
    | _ => cases hcode
  · intro i p conn c k pq r pq' hcode _ hserves hi
    by_cases hspoilt : p.conn = some spoilt
    · have hleft := hi.left hspoilt
      have hbusy := hi.busy hspoilt
      cases p with
      | send conn c =>
          cases hcode
          cases hserves with
          | sent hidle => exact absurd (congrArg some hidle) hbusy
          | sendRefused => exact ⟨fun _ => nofun, fun _ => hbusy⟩
      | consume conn c result => exact absurd trivial hleft
      | busy conn c result => exact absurd trivial hleft
      | fetch conn c result => exact absurd trivial hleft
      | _ => cases hcode
    · obtain ⟨hbefore, hafter⟩ := postgres_borrows.command _ _ _ _ hcode
      have hother : ¬ (k r).conn = some spoilt := by
        rw [hafter r, ← hbefore]
        exact hspoilt
      exact ⟨fun h => absurd h hother, fun h => absurd h hother⟩
  · intro i p conn c k pq r pq' _ _ _ _
    exact ⟨fun _ _ h => h, fun _ _ _ _ h => h⟩
  · intro i p conn k st table hcode hi
    cases p with
    | release conn c result =>
        cases hcode
        refine ⟨⟨nofun, nofun⟩, fun hconn hst => ?_⟩
        subst hconn hst
        exact hi.busy rfl rfl
    | _ => cases hcode

-- ================================================================= the runs

section

variable {ι : Type} [DecidableEq ι] {poolSize : UInt64} {table : UrlTable}
  {calls : ι → DatabaseCall} {es : List (DatabaseEvent ι)}
  {now next : Running ι DatabasePoint (Pool Nat Libpq)} {e : DatabaseEvent ι}

/-- A run as the ledger has it. -/
theorem postgres_ledger
    (h : Run RealDatabaseClient.Step
      (RealDatabaseClient.start poolSize table calls) es now) :
    Run Ledger.Step (Ledger.full (List.range poolSize.toNat))
      (es.map fun e => (e.1, handoverOf (fun _ _ => false) e.2))
      (ledger DatabasePoint.conn now) :=
  h.ledger postgres_borrows

theorem postgres_sound
    (h : Run RealDatabaseClient.Step
      (RealDatabaseClient.start poolSize table calls) es now) :
    Ledger.Sound (List.range poolSize.toNat)
      (ledger DatabasePoint.conn now) :=
  Ledger.sound_of_run List.nodup_range (postgres_ledger h)

/-- Once no call has a connection, they are all in the queue. -/
theorem postgres_perm
    (h : Run RealDatabaseClient.Step
      (RealDatabaseClient.start poolSize table calls) es now)
    (hrest : ∀ i, (now.point i).conn = none) :
    now.shared.queue.Perm (List.range poolSize.toNat) := by
  apply (Ledger.perm_iff List.nodup_range (postgres_ledger h) hrest).mpr
  intro entry hmem
  obtain ⟨⟨i, c, r⟩, -, rfl⟩ := List.mem_map.mp hmem
  cases c <;> nofun

/-- The answered call is a release. -/
def isRelease :
    Answer (PoolCall Nat PqCall) (PoolCall.Reply PqCall.Reply) → Bool
  | ⟨.release _, _⟩ => true
  | _ => false

/-- The returns of a call. -/
def DatabasePoint.returns (p : DatabasePoint) : Nat :=
  if p.hasReturned then 1 else 0

/-- A call returns with its release. -/
theorem returns_step (p : DatabasePoint)
    (c : PoolCall Nat PqCall) (k : PoolCall.Reply PqCall.Reply c → DatabasePoint)
    (hcode : RealDatabaseClient.code p = some ⟨c, k⟩)
    (r : PoolCall.Reply PqCall.Reply c) :
    (k r).returns = p.returns + if isRelease ⟨c, r⟩ then 1 else 0 := by
  cases p with
  | call c =>
      cases hcode
      rfl
  | send conn c =>
      cases hcode
      cases r <;> rfl
  | consume conn c result =>
      cases hcode
      cases r <;> rfl
  | busy conn c result =>
      cases hcode
      cases r <;> rfl
  | fetch conn c result =>
      cases hcode
      cases r with
      | none => rfl
      | some res =>
          show DatabasePoint.returns (if _ then _ else _) = 0
          split <;> rfl
  | release conn c result =>
      cases hcode
      rfl
  | returned c result => cases hcode

/-- A call has released its connection once when it has returned, and
not before. -/
theorem release_count
    (h : Run RealDatabaseClient.Step
      (RealDatabaseClient.start poolSize table calls) es now) (i : ι) :
    es.countP (fun e => e.1 = i && isRelease e.2)
      = if (now.point i).hasReturned then 1 else 0 := by
  have hcount := Run.count_moves returns_step h i
  exact ((Nat.zero_add _).symm.trans hcount.symm)

/-- The connections in the queue are idle, and so is the one a call is
about to send its query on. -/
structure PostgresPoolHygiene
    (now : Running ι DatabasePoint (Pool Nat Libpq)) : Prop where
  queued : ∀ conn ∈ now.shared.queue, now.shared.behind.status conn = .idle
  sends : ∀ i conn c, now.point i = .send conn c →
    now.shared.behind.status conn = .idle

/-- Without poison the custody is tidy. -/
theorem tidy_custody
    (h : Run RealDatabaseClient.Step
      (RealDatabaseClient.start poolSize table calls) es now)
    (hclean : ∀ e ∈ es, ¬ Poisons calls e) :
    Custody DatabasePoint.conn Libpq.status Libpq.table
      (fun _ status _ => status = .idle) (Tidy calls) now := by
  refine h.custody postgres_borrows (tidy_rule calls) hclean
    (Ledger.sound_full List.nodup_range) ⟨fun _ _ => rfl, fun i => ?_⟩
  exact ⟨rfl, nofun, nofun⟩

omit [DecidableEq ι] in
/-- A connection that is held outside the loop and not idle is spoilt. -/
theorem spoilt_custody {conns : List Nat} {i : ι} {conn : Nat}
    (hs : Ledger.Sound conns (ledger DatabasePoint.conn now))
    (hconn : (now.point i).conn = some conn)
    (hleft : ¬ (now.point i).InLoop)
    (hbusy : now.shared.behind.status conn ≠ .idle) :
    Custody DatabasePoint.conn Libpq.status Libpq.table
      (fun other status _ => other = conn → status ≠ .idle)
      (fun _ p status _ => Spoilt conn p status) now := by
  refine ⟨fun other hother heq => ?_, fun j => ⟨fun hj => ?_, fun hj => ?_⟩⟩
  · subst heq
    exact absurd hother (hs.apart i other hconn)
  · obtain rfl := hs.one j i conn hj hconn
    exact hleft
  · rw [hj]
    intro hidle
    exact hbusy (Option.some.inj hidle)

omit [DecidableEq ι] in
/-- Poison has a call leave the loop with a connection that is not
idle. -/
theorem Tidy.poisoned {i : ι} {p : DatabasePoint} {conn : Nat} {c : PqCall}
    {k : c.Reply → DatabasePoint} {pq pq' : Libpq} {r : c.Reply}
    (hi : Tidy calls i p (p.conn.map pq.status) pq.table)
    (hcode : RealDatabaseClient.code p = some ⟨.command conn c, k⟩)
    (hserves : Libpq.Serves conn c pq r pq')
    (hpoison : Poisons calls (i, ⟨.command conn c, r⟩)) :
    (k r).conn = some conn ∧ ¬ (k r).InLoop ∧ pq'.status conn ≠ .idle := by
  cases p with
  | send conn c =>
      cases hcode
      exact hpoison.elim
  | consume conn c result =>
      cases hcode
      cases hserves with
      | consumeFailed =>
          refine ⟨rfl, id, fun hidle => ?_⟩
          exact hi.busy trivial (congrArg some hidle)
      | _ => cases hpoison
  | busy conn c result =>
      cases hcode
      exact hpoison.elim
  | fetch conn c result =>
      cases hcode
      cases hserves with
      | gotNull => exact hpoison.elim
      | @gotResult _ res =>
          obtain ⟨⟨shortCode, hlookup⟩, hrows⟩ := hpoison
          obtain rfl : c = .lookup shortCode := hi.called.trans hlookup
          have hstop : (DatabaseCall.onResult (.lookup shortCode) res
              result).1 = false := by
            cases res with
            | tuplesOk rows => exact absurd rfl (hrows rows)
            | _ => rfl
          simp [hstop, DatabasePoint.conn, DatabasePoint.InLoop]
  | _ => cases hcode

theorem left_of_poison
    (hc : Custody DatabasePoint.conn Libpq.status Libpq.table
      (fun _ status _ => status = .idle) (Tidy calls) now)
    (hmove : RealDatabaseClient.Step now e next)
    (hpoison : Poisons calls e) :
    ∃ i conn, (next.point i).conn = some conn ∧ ¬ (next.point i).InLoop
      ∧ next.shared.behind.status conn ≠ .idle := by
  obtain ⟨i, c, k, r, rfl, hcode, hserves, hpoint, -⟩ := hmove.inv
  have hi := hc.kept i
  obtain ⟨⟨queue, pq⟩, point⟩ := now
  obtain ⟨⟨queue', pq'⟩, point'⟩ := next
  cases c with
  | acquire => exact hpoison.elim
  | release conn => exact hpoison.elim
  | command conn c =>
      cases hserves with
      | command hserves =>
          refine ⟨i, conn, ?_⟩
          rw [hpoint]
          exact hi.poisoned hcode hserves hpoison

/-- Each call puts its connection back once. The connections in the
queue are idle as long as no connection is poisoned, and once no call is
under way only then. -/
theorem postgresPool_hygiene
    (h : Run RealDatabaseClient.Step
      (RealDatabaseClient.start poolSize table calls) es now) :
    (∀ i, es.countP (fun e => e.1 = i && isRelease e.2)
        = if (now.point i).hasReturned then 1 else 0)
      ∧ ((∀ e ∈ es, ¬ Poisons calls e) → PostgresPoolHygiene now)
      ∧ ((∀ i, (now.point i).conn = none) →
        (PostgresPoolHygiene now ↔ ∀ e ∈ es, ¬ Poisons calls e)) := by
  have hclean : (∀ e ∈ es, ¬ Poisons calls e) → PostgresPoolHygiene now := by
    intro hclean
    have hc := tidy_custody h hclean
    refine ⟨hc.queued, fun i conn c hpoint => ?_⟩
    have hi := hc.kept i
    rw [hpoint] at hi
    exact hi.idle nofun _ rfl
  refine ⟨release_count h, hclean, fun hrest => ⟨fun hhygiene => ?_, hclean⟩⟩
  rcases h.guarded_or_breach (fun _ e => ¬ Poisons calls e) with
    hguarded | ⟨pre, e, post, mid, after, rfl, hpre, hbreach, hmove, hpost⟩
  · exact hguarded.forall_of_guarded
  · have hsound := postgres_sound hpre.of_guarded
    have hc := tidy_custody hpre.of_guarded hpre.forall_of_guarded
    obtain ⟨i, conn, hconn, hleft, hbusy⟩ :=
      left_of_poison hc hmove (not_not.mp hbreach)
    have hafter := (hmove.ledger postgres_borrows).sound hsound
    have hend := hpost.custody postgres_borrows (spoilt_rule conn)
      (fun _ _ => trivial) hafter (spoilt_custody hafter hconn hleft hbusy)
    have hqueued : conn ∈ now.shared.queue :=
      (postgres_perm h hrest).mem_iff.mpr (hafter.held i conn hconn)
    exact absurd (hhygiene.queued conn hqueued) (hend.queued conn hqueued rfl)

end

-- ============================================================== two clients

/-- A store that gets an error result fetches it and null, and leaves
its connection idle. -/
theorem postgresPool_hygiene_store :
    ∃ es now, Run RealDatabaseClient.Step
        (RealDatabaseClient.start 1 (fun _ => none) fun _ : Unit =>
          .store "0000aZ".toList "http://a".toList) es now
      ∧ now.point () = .returned (.store "0000aZ".toList "http://a".toList)
          false
      ∧ PostgresPoolHygiene now := by
  have hrun : Run RealDatabaseClient.Step
      (RealDatabaseClient.start 1 (fun _ => none) fun _ : Unit =>
        .store "0000aZ".toList "http://a".toList) _ _ :=
    .cons (.call (i := ()) rfl .acquire)
      (.cons (.call (i := ()) rfl (.command (.sent rfl)))
      (.cons (.call (i := ()) rfl (.command (.failed rfl)))
      (.cons (.call (i := ()) rfl (.command (.notBusy nofun)))
      (.cons (.call (i := ()) rfl (.command (.gotResult rfl)))
      (.cons (.call (i := ()) rfl (.command .consumed))
      (.cons (.call (i := ()) rfl (.command (.notBusy nofun)))
      (.cons (.call (i := ()) rfl (.command (.gotNull (Or.inl rfl))))
      (.cons (.call (i := ()) rfl .release) (.nil _)))))))))
  refine ⟨_, _, hrun, rfl, (postgresPool_hygiene hrun).2.1 ?_⟩
  simp [Poisons]

/-- A lookup that gets an error result leaves its connection with null
to fetch. The next query on it can only be refused, and the next lookup
does not find what is there. -/
theorem postgresPool_poisoned :
    ∃ es now, Run RealDatabaseClient.Step
        (RealDatabaseClient.start 1
          (upsert (fun _ => none) "0000aZ".toList "http://a".toList)
          fun _ : Bool => .lookup "0000aZ".toList) es now
      ∧ now.point false = .returned (.lookup "0000aZ".toList) none
      ∧ now.point true = .send 0 (.lookup "0000aZ".toList)
      ∧ now.shared.behind.table "0000aZ".toList = some "http://a".toList
      ∧ (∀ e next, RealDatabaseClient.Step now e next →
        next.point true = .release 0 (.lookup "0000aZ".toList) none)
      ∧ ¬ PostgresPoolHygiene now := by
  have hrun : Run RealDatabaseClient.Step
      (RealDatabaseClient.start 1
        (upsert (fun _ => none) "0000aZ".toList "http://a".toList)
        fun _ : Bool => .lookup "0000aZ".toList) _ _ :=
    .cons (.call (i := false) rfl .acquire)
      (.cons (.call (i := false) rfl (.command (.sent rfl)))
      (.cons (.call (i := false) rfl (.command (.failed rfl)))
      (.cons (.call (i := false) rfl (.command (.notBusy nofun)))
      (.cons (.call (i := false) rfl (.command (.gotResult rfl)))
      (.cons (.call (i := false) rfl .release)
      (.cons (.call (i := true) rfl .acquire) (.nil _)))))))
  refine ⟨_, _, hrun, rfl, rfl, rfl, ?_, ?_⟩
  · intro e hex hmove
    obtain ⟨⟨queue, pq⟩, point⟩ := hex
    obtain ⟨i, c, k, r, -, hcode, hserves, hpoint, -⟩ := hmove.inv
    cases i with
    | false => cases hcode
    | true =>
        cases hcode
        rw [hpoint]
        cases hserves with
        | command hserves =>
            cases hserves with
            | sent hidle => cases hidle
            | sendRefused => rfl
  · intro hhygiene
    exact absurd (hhygiene.sends true 0 _ rfl) nofun

end Creeper

/-
The database client (src/real_database_client.cc) over its pool
(src/database_connection_pool.cc) and libpq.

`store` and `lookup` are one loop over libpq with different queries and
different handling of a result: `store` notes an error and goes on to
the next result, `lookup` leaves the loop. `DatabaseCall` has what is
theirs, and `RealDatabaseClient.code` what they share.

# libpq

A connection takes a query only when it is idle, and it is idle again
once `PQgetResult` has returned null. In between the query is sent, its
one result comes in and is fetched (`ConnStatus`). A parameter in text
format is read up to the first NUL, whatever its length is said to be,
and `PQgetvalue` returns a string that ends in a NUL. A query takes
effect on the table when its result comes in; a query that fails has
none.
-/
import Mathlib.Data.List.TakeWhile
import Creeper.Http
import Creeper.Lib.Pool
import Creeper.Lib.Submap

namespace Creeper

open Lib

-- ================================================================ C strings

/-- What a function that takes a C string reads of `s.c_str()`. -/
def cString (s : Str) : Str := s.takeWhile (· ≠ '\x00')

/-- All of it, where there is no NUL. -/
theorem cString_eq_iff {s : Str} : cString s = s ↔ '\x00' ∉ s := by
  unfold cString
  rw [List.takeWhile_eq_self_iff]
  constructor
  · intro h hmem
    simpa using h _ hmem
  · intro h c hc
    simp only [decide_eq_true_eq]
    intro heq
    subst heq
    exact h hc

@[simp] theorem cString_cString (s : Str) : cString (cString s) = cString s :=
  List.takeWhile_idem

-- ===================================================================== libpq

/-- The queries of the client. -/
inductive Query
  /-- `INSERT INTO short_to_long_url (short_url, long_url)
  VALUES ($1, $2) ON CONFLICT (short_url)
  DO UPDATE SET long_url = EXCLUDED.long_url` -/
  | insert
  /-- `SELECT long_url FROM short_to_long_url WHERE short_url = $1` -/
  | select
  deriving DecidableEq

/-- The entries of `paramValues`, `paramLengths` and `paramFormats` for
one parameter. -/
structure Param where
  value : Str
  length : Int32
  format : Int32
  deriving DecidableEq

/-- A parameter as libpq reads it: text has format 0 and ends at a NUL,
and only binary data has a length. -/
def Param.read (p : Param) : Str :=
  if p.format = 0 then cString p.value else p.value.take p.length.toInt.toNat

/-- A `PGresult`, with its one column for `PGRES_TUPLES_OK`. -/
inductive PGresult
  | commandOk
  | tuplesOk (rows : List Str)
  | error
  deriving DecidableEq

/-- The table `short_to_long_url`. -/
abbrev UrlTable := Str → Option Str

/-- A query on the table. -/
def Query.execute (table : UrlTable) : Query → List Str → UrlTable × PGresult
  | .insert, [code, url] => (upsert table code url, .commandOk)
  | .select, [code] => (table, .tuplesOk (table code).toList)
  | _, _ => (table, .error)

/-- The functions of libpq that the client calls on a connection. -/
inductive PqCall
  | sendQueryParams (query : Query) (params : List Param)
  | consumeInput
  | isBusy
  | getResult
  deriving DecidableEq

/-- What each returns. -/
abbrev PqCall.Reply : PqCall → Type
  | .sendQueryParams _ _ => Bool
  | .consumeInput => Bool
  | .isBusy => Bool
  | .getResult => Option PGresult

/-- What a connection is about. -/
inductive ConnStatus
  /-- It takes a query. -/
  | idle
  /-- A query is sent, and has no result yet. -/
  | sent (query : Query) (values : List Str)
  /-- The result is there. -/
  | answered (result : PGresult)
  /-- The result has been fetched, and null has not. -/
  | drained
  deriving DecidableEq

/-- The connections, and the table behind them. -/
structure Libpq where
  status : Nat → ConnStatus
  table : UrlTable

/-- The status of one connection changes. -/
def Libpq.setStatus (pq : Libpq) (conn : Nat) (status : ConnStatus) : Libpq :=
  { pq with status := Function.update pq.status conn status }

/-- How libpq may answer on a connection. -/
inductive Libpq.Serves (conn : Nat) : Service PqCall PqCall.Reply Libpq
  | sent {pq : Libpq} {query : Query} {params : List Param}
      (hidle : pq.status conn = .idle) :
      Serves conn (.sendQueryParams query params) pq true
        (pq.setStatus conn (.sent query (params.map Param.read)))
  /-- As `PQsendQueryParams` does if the connection is not idle. -/
  | sendRefused {pq : Libpq} {query : Query} {params : List Param} :
      Serves conn (.sendQueryParams query params) pq false pq
  | consumed {pq : Libpq} : Serves conn .consumeInput pq true pq
  /-- The result comes in. -/
  | executed {pq : Libpq} {query : Query} {values : List Str}
      (hsent : pq.status conn = .sent query values) :
      Serves conn .consumeInput pq true
        { status := Function.update pq.status conn
            (.answered (query.execute pq.table values).2)
          table := (query.execute pq.table values).1 }
  /-- An error comes in. -/
  | failed {pq : Libpq} {query : Query} {values : List Str}
      (hsent : pq.status conn = .sent query values) :
      Serves conn .consumeInput pq true (pq.setStatus conn (.answered .error))
  | consumeFailed {pq : Libpq} : Serves conn .consumeInput pq false pq
  | busy {pq : Libpq} : Serves conn .isBusy pq true pq
  /-- `PQgetResult` would not wait. -/
  | notBusy {pq : Libpq}
      (hready : ∀ query values, pq.status conn ≠ .sent query values) :
      Serves conn .isBusy pq false pq
  | gotResult {pq : Libpq} {result : PGresult}
      (hanswered : pq.status conn = .answered result) :
      Serves conn .getResult pq (some result) (pq.setStatus conn .drained)
  | gotNull {pq : Libpq}
      (hdone : pq.status conn = .drained ∨ pq.status conn = .idle) :
      Serves conn .getResult pq none (pq.setStatus conn .idle)

-- ================================================================ the calls

/-- The calls of the client. -/
inductive DatabaseCall
  | store (shortCode longUrl : Str)
  | lookup (shortCode : Str)
  deriving DecidableEq

namespace DatabaseCall

/-- What they return. -/
abbrev Result : DatabaseCall → Type
  | .store _ _ => Bool
  | .lookup _ => Option Str

/-- `query` -/
def query : DatabaseCall → Query
  | .store _ _ => .insert
  | .lookup _ => .select

/-- A parameter as the client passes it: `c_str()`, `size()` and text
format. -/
def textParam (s : Str) : Param := ⟨s, Int32.ofNat s.length, 0⟩

/-- `paramValues`, `paramLengths` and `paramFormats` -/
def params : DatabaseCall → List Param
  | .store shortCode longUrl => [textParam shortCode, textParam longUrl]
  | .lookup shortCode => [textParam shortCode]

/-- `success` and `result` before the loop, and what is returned where
the query is not sent. -/
def failure : (c : DatabaseCall) → c.Result
  | .store _ _ => false
  | .lookup _ => none

/-- What the loop makes of a result: whether it goes on, and `success`
or `result` after it. -/
def onResult : (c : DatabaseCall) → PGresult → c.Result → Bool × c.Result
  | .store _ _, .commandOk, _ => (true, true)
  | .store _ _, _, success => (true, success)
  | .lookup _, .tuplesOk (row :: _), _ => (true, some (cString row))
  | .lookup _, .tuplesOk [], result => (true, result)
  | .lookup _, _, result => (false, result)

end DatabaseCall

-- =============================================================== the client

/-- The points of `store` and `lookup`, with the variables in scope. -/
inductive DatabasePoint
  /-- A call of the client, which acquires a connection first. -/
  | call (c : DatabaseCall)
  /-- `PQsendQueryParams` -/
  | send (conn : Nat) (c : DatabaseCall)
  /-- `PQconsumeInput`, at the top of the loop. -/
  | consume (conn : Nat) (c : DatabaseCall) (result : c.Result)
  /-- `PQisBusy` -/
  | busy (conn : Nat) (c : DatabaseCall) (result : c.Result)
  /-- `PQgetResult` -/
  | fetch (conn : Nat) (c : DatabaseCall) (result : c.Result)
  /-- `pool_->release(conn)` -/
  | release (conn : Nat) (c : DatabaseCall) (result : c.Result)
  /-- The call has returned. -/
  | returned (c : DatabaseCall) (result : c.Result)

namespace DatabasePoint

/-- The call that is made. -/
def called : DatabasePoint → DatabaseCall
  | .call c => c
  | .send _ c => c
  | .consume _ c _ => c
  | .busy _ c _ => c
  | .fetch _ c _ => c
  | .release _ c _ => c
  | .returned c _ => c

/-- The connection in scope. -/
def conn : DatabasePoint → Option Nat
  | .call _ => none
  | .send conn _ => some conn
  | .consume conn _ _ => some conn
  | .busy conn _ _ => some conn
  | .fetch conn _ _ => some conn
  | .release conn _ _ => some conn
  | .returned _ _ => none

/-- The points of the loop. -/
def InLoop : DatabasePoint → Prop
  | .consume _ _ _ => True
  | .busy _ _ _ => True
  | .fetch _ _ _ => True
  | _ => False

/-- The call has returned. -/
def hasReturned : DatabasePoint → Bool
  | .returned _ _ => true
  | _ => false

end DatabasePoint

/-- `RealDatabaseClient::store` and `RealDatabaseClient::lookup` -/
def RealDatabaseClient.code :
    Code (PoolCall Nat PqCall) (PoolCall.Reply PqCall.Reply) DatabasePoint
  | .call c => some ⟨.acquire, fun conn => .send conn c⟩
  | .send conn c =>
      some ⟨.command conn (.sendQueryParams c.query c.params), fun
        | true => .consume conn c c.failure
        | false => .release conn c c.failure⟩
  | .consume conn c result =>
      some ⟨.command conn .consumeInput, fun
        | true => .busy conn c result
        | false => .release conn c result⟩
  | .busy conn c result =>
      some ⟨.command conn .isBusy, fun
        | true => .consume conn c result
        | false => .fetch conn c result⟩
  | .fetch conn c result =>
      some ⟨.command conn .getResult, fun
        | none => .release conn c result
        | some res =>
            if (c.onResult res result).1 then
              .consume conn c (c.onResult res result).2
            else .release conn c (c.onResult res result).2⟩
  | .release conn c result =>
      some ⟨.release conn, fun _ => .returned c result⟩
  | .returned _ _ => none

/-- A step of one of the calls. -/
abbrev DatabaseEvent (ι : Type) : Type :=
  ι × Answer (PoolCall Nat PqCall) (PoolCall.Reply PqCall.Reply)

/-- Calls of the client take their steps in any order. -/
abbrev RealDatabaseClient.Step {ι : Type} [DecidableEq ι] :
    Running ι DatabasePoint (Pool Nat Libpq) → DatabaseEvent ι →
      Running ι DatabasePoint (Pool Nat Libpq) → Prop :=
  Move RealDatabaseClient.code (Pool.Serves Libpq.Serves)

/-- A client that has been constructed, over a table, and the calls that
will be made. -/
def RealDatabaseClient.start {ι : Type} (poolSize : UInt64) (table : UrlTable)
    (calls : ι → DatabaseCall) : Running ι DatabasePoint (Pool Nat Libpq) :=
  ⟨⟨List.range poolSize.toNat, ⟨fun _ => .idle, table⟩⟩,
    fun i => .call (calls i)⟩

end Creeper

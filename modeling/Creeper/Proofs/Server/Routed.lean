/-
The shortener among other handlers.

What the shortener does is over the pools, and the other handlers make no
call of those. So what the server does comes to what the requests of the
shortener do over the pools by themselves (`server_routed`), whatever the
other handlers do meanwhile, and whatever leaves them.

`server_genuine` is what `Creeper.Proofs.Shorten.Pooled` says of those,
said of the bytes given to the connections: a redirect goes to a URL that
was in the stores before, or has come in on some connection.
-/
import Creeper.Framing
import Creeper.Proofs.Server.Requests
import Creeper.Proofs.Server.Serving
import Creeper.Proofs.Shorten.Pooled
import Creeper.RoutedServer
import Creeper.Static

namespace Creeper

open Lib

variable {D : Type} {S : D → Type} {ι π ρ τ : Type} {beast : Beast}
  {h : ShortenRequestHandler} {shortens : Request → Bool}
  {others : Handlers D S π} {connection : Nat → Connection}
  {redis : Service RedisCommand RedisCommand.Reply ρ}
  {service : Service D S τ}

-- =============================================================== the requests

/-- The message has come in, and is a request for the shortener. -/
def Shortened (beast : Beast) (shortens : Request → Bool)
    (connection : Nat → Connection) (request : Nat × Nat) : Prop :=
  request.2 < (connection request.1).received.length
    ∧ (RequestParser.parse beast {} (requestOf connection request)).valid
      = true
    ∧ shortens (RequestParser.parse beast {} (requestOf connection request))
      = true

instance (beast : Beast) (shortens : Request → Bool)
    (connection : Nat → Connection) (request : Nat × Nat) :
    Decidable (Shortened beast shortens connection request) :=
  inferInstanceAs (Decidable (_ ∧ _ ∧ _))

/-- The message is a request for one of the other handlers. -/
def Elsewhere (beast : Beast) (shortens : Request → Bool)
    (requestMsg : Str) : Prop :=
  (RequestParser.parse beast {} requestMsg).valid = true
    ∧ shortens (RequestParser.parse beast {} requestMsg) = false

/-- The requests for the shortener. -/
def receivedRequest (beast : Beast) (shortens : Request → Bool)
    (connection : Nat → Connection) (request : Nat × Nat) : Request :=
  if Shortened beast shortens connection request then
    RequestParser.parse beast {} (requestOf connection request)
  else {}

/-- Their programs, and of all else a response that makes no call. -/
def routedProg (beast : Beast) (h : ShortenRequestHandler)
    (shortens : Request → Bool) (connection : Nat → Connection)
    (request : Nat × Nat) : Prog Call Call.Reply Response :=
  if Shortened beast shortens connection request then
    h.handleRequest (receivedRequest beast shortens connection request)
  else .ret (stockResponse .c400)

/-- Where the handler of a message begins, if it has come in. -/
def routedPoint (beast : Beast) (h : ShortenRequestHandler)
    (shortens : Request → Bool) (others : Handlers D S π)
    (connection : Nat → Connection) (request : Nat × Nat) :
    HandlerPoint Response ⊕ π :=
  if request.2 < (connection request.1).received.length then
    (routedApp beast h shortens others).enter (requestOf connection request)
  else .inl (.outside (.ret (stockResponse .c400)))

/-- These are the messages of the connections. -/
theorem asked_routed (beast : Beast) (h : ShortenRequestHandler)
    (shortens : Request → Bool) (others : Handlers D S π)
    (connection : Nat → Connection) :
    Asked (routedApp beast h shortens others) (requestOf connection)
      (routedPoint beast h shortens others connection) connection := by
  intro session j requestMsg hj
  have hin := (List.getElem?_eq_some_iff.mp hj).1
  obtain ⟨hmsg, -⟩ := asked_requestOf
    (routedApp beast h shortens others) connection session j _ hj
  refine ⟨hmsg, ?_⟩
  rw [← hmsg]
  exact if_pos hin

/-- What is not for another handler, the shortener answers as it does
alone. -/
theorem routedApp_enter {requestMsg : Str}
    (hhere : ¬ Elsewhere beast shortens requestMsg) :
    (routedApp beast h shortens others).enter requestMsg
      = .inl (.outside (answering beast h.handleRequest requestMsg)) := by
  show (if _ then _ else if _ then _ else _) = _
  unfold answering
  unfold Elsewhere at hhere
  generalize RequestParser.parse beast {} requestMsg = req at hhere ⊢
  simp only
  by_cases hvalid : req.valid = true
  · have hshortens : shortens req = true := by
      by_contra hnot
      exact hhere ⟨hvalid, eq_false_of_ne_true hnot⟩
    rw [if_neg (by rw [hvalid]; nofun), if_pos hshortens, if_pos hvalid]
  · rw [if_pos (eq_false_of_ne_true hvalid), if_neg hvalid]

/-- A request that is not for another handler begins at its program. -/
theorem routedPoint_eq {request : Nat × Nat}
    (hhere : ¬ Elsewhere beast shortens (requestOf connection request)) :
    routedPoint beast h shortens others connection request
      = .inl (.outside (routedProg beast h shortens connection request)) := by
  unfold routedPoint routedProg receivedRequest
  by_cases hshortened : Shortened beast shortens connection request
  · rw [if_pos hshortened.1, routedApp_enter hhere, if_pos hshortened,
      if_pos hshortened, answering, if_pos hshortened.2.1]
  · rw [if_neg hshortened]
    by_cases hin : request.2 < (connection request.1).received.length
    · have hinvalid : ¬ (RequestParser.parse beast {}
          (requestOf connection request)).valid = true := by
        intro hvalid
        refine hhere ⟨hvalid, eq_false_of_ne_true fun hshortens => ?_⟩
        exact hshortened ⟨hin, hvalid, hshortens⟩
      rw [if_pos hin, routedApp_enter hhere, answering, if_neg hinvalid]
    · rw [if_neg hin]

/-- One for the shortener is not for another handler. -/
theorem Shortened.here {request : Nat × Nat}
    (hshortened : Shortened beast shortens connection request) :
    ¬ Elsewhere beast shortens (requestOf connection request) :=
  fun hother => absurd hshortened.2.2 (Bool.eq_false_iff.mp hother.2)

/-- One for another handler has no program here. -/
theorem routedProg_of_elsewhere {request : Nat × Nat}
    (hother : Elsewhere beast shortens (requestOf connection request)) :
    routedProg beast h shortens connection request
      = .ret (stockResponse .c400) :=
  if_neg fun hshortened => hshortened.here hother

/-- A message with a method is a request. -/
theorem shortened_of_method {request : Nat × Nat}
    (hmethod : (receivedRequest beast shortens connection request).method
      ≠ []) : Shortened beast shortens connection request := by
  by_contra hnot
  rw [receivedRequest, if_neg hnot] at hmethod
  exact hmethod rfl

/-- So it has its program. -/
theorem routedProg_of_method {request : Nat × Nat}
    (hmethod : (receivedRequest beast shortens connection request).method
      ≠ []) :
    routedProg beast h shortens connection request = h.handleRequest
      (receivedRequest beast shortens connection request) :=
  if_pos (shortened_of_method hmethod)

-- =============================================================== the shortener

/-- The pools, and the requests for the shortener; one for another handler
stays where it is. -/
def shortenersOf (beast : Beast) (h : ShortenRequestHandler)
    (shortens : Request → Bool) (connection : Nat → Connection) :
    Requests (HandlerPoint Response ⊕ π) (ClientPools ρ × τ) →
      PooledTraffic (Nat × Nat) Response ρ :=
  Running.onLeft fun request =>
    .outside (routedProg beast h shortens connection request)

/-- Every request begins at its program there. -/
theorem routedPoint_elim (beast : Beast) (h : ShortenRequestHandler)
    (shortens : Request → Bool) (others : Handlers D S π)
    (connection : Nat → Connection) (request : Nat × Nat) :
    (routedPoint beast h shortens others connection request).elim id
        (fun _ => .outside (routedProg beast h shortens connection request))
      = .outside (routedProg beast h shortens connection request) := by
  by_cases hother : Elsewhere beast shortens (requestOf connection request)
  · have henter : (routedApp beast h shortens others).enter
          (requestOf connection request)
        = .inr (others.enter (RequestParser.parse beast {}
          (requestOf connection request))) := by
      show (if _ then _ else if _ then _ else _) = _
      rw [if_neg (by rw [hother.1]; nofun), if_neg (by rw [hother.2]; nofun)]
    unfold routedPoint
    split
    · rw [henter]
      rfl
    · rw [routedProg_of_elsewhere hother]
      rfl
  · rw [routedPoint_eq hother]
    rfl

/-- At the start these are the pools and the programs. -/
theorem shortenersOf_start (beast : Beast) (h : ShortenRequestHandler)
    (shortens : Request → Bool) (others : Handlers D S π)
    (connection : Nat → Connection) (redisPoolSize dbPoolSize : UInt64)
    (s : ρ) (table : UrlTable) (t : τ) :
    shortenersOf beast h shortens connection
        ⟨((redisConnectionPool redisPoolSize s,
            ⟨List.range dbPoolSize.toNat, ⟨fun _ => .idle, table⟩⟩), t),
          routedPoint beast h shortens others connection⟩
      = pooledStart redisPoolSize dbPoolSize s table
        (routedProg beast h shortens connection) := by
  unfold shortenersOf Running.onLeft pooledStart
  congr 1
  funext request
  exact routedPoint_elim beast h shortens others connection request

/-- They are where the threads of the server are. -/
structure Routed (beast : Beast) (h : ShortenRequestHandler)
    (shortens : Request → Bool) (connection : Nat → Connection)
    (now : RoutedWorkers ι π ρ τ)
    (reqs : PooledTraffic (Nat × Nat) Response ρ) : Prop where
  pools : reqs.shared = now.shared.2.1
  /-- Each response is that to the message. -/
  answered : ∀ session j responseMsg,
    (now.shared.1.connection session).sent[j]? = some responseMsg →
    ¬ Elsewhere beast shortens (requestOf connection (session, j)) →
    ∃ response, reqs.point (session, j) = .outside (.ret response)
      ∧ responseMsg = response.toString
  /-- The message has not come in. -/
  fresh : ∀ session j,
    (now.shared.1.connection session).received.length ≤ j →
    reqs.point (session, j)
      = .outside (routedProg beast h shortens connection (session, j))

section

variable {now : RoutedWorkers ι π ρ τ}
  {reqs : Requests (HandlerPoint Response ⊕ π) (ClientPools ρ × τ)}

/-- A response of the shortener is what its program has returned. -/
theorem routedApp_result {requestMsg responseMsg : Str}
    {p : HandlerPoint Response}
    (hresult : (routedApp beast h shortens others).result requestMsg (.inl p)
      = some (some responseMsg)) :
    ∃ response, p = .outside (.ret response)
      ∧ responseMsg = response.toString := by
  cases p with
  | inside c k p => cases hresult
  | outside prog =>
      cases prog with
      | call c k => cases hresult
      | ret response =>
          cases hresult
          exact ⟨response, rfl, rfl⟩

/-- Handlers keep to their kind, so the requests are where they are. -/
theorem Handled.routed
    (hreqs : Handled (routedApp beast h shortens others)
      (requestOf connection)
      (routedPoint beast h shortens others connection) now reqs)
    (hkind : ∀ request, (reqs.point request).isLeft
      = (routedPoint beast h shortens others connection request).isLeft) :
    Routed beast h shortens connection now
      (shortenersOf beast h shortens connection reqs) := by
  refine ⟨?_, ?_, ?_⟩
  · exact congrArg Prod.fst hreqs.shared
  · intro session j responseMsg hj hhere
    obtain ⟨v, hstage⟩ := hreqs.stages session
    have hresult := hstage.answered j responseMsg hj
    have hleft := hkind (session, j)
    rw [routedPoint_eq hhere] at hleft
    show ∃ response, (reqs.point (session, j)).elim id _ = _ ∧ _
    cases hpoint : reqs.point (session, j) with
    | inl p =>
        rw [hpoint] at hresult
        exact routedApp_result hresult
    | inr p =>
        rw [hpoint] at hleft
        cases hleft
  · intro session j hj
    obtain ⟨v, hstage⟩ := hreqs.stages session
    show (reqs.point (session, j)).elim id _ = _
    rw [hstage.fresh j hj]
    exact routedPoint_elim beast h shortens others connection (session, j)

/-- Where no thread has ended the process, no request has. -/
theorem Handled.shortenersAlive
    (hreqs : Handled (routedApp beast h shortens others)
      (requestOf connection)
      (routedPoint beast h shortens others connection) now reqs)
    (hasked : Asked (routedApp beast h shortens others)
      (requestOf connection)
      (routedPoint beast h shortens others connection)
      now.shared.1.connection)
    (halive : RoutedAlive now) :
    ProcessAlive (shortenersOf beast h shortens connection reqs) := by
  intro request hexited
  obtain ⟨c, k, hexit⟩ := hexited
  change (reqs.point (request.1, request.2)).elim id _ = _ at hexit
  cases hpoint : reqs.point (request.1, request.2) with
  | inr p =>
      rw [hpoint] at hexit
      cases hexit
  | inl p =>
      rw [hpoint] at hexit
      obtain rfl : p = .inside c k (.inl .exited) := hexit
      have hbegun : reqs.point (request.1, request.2)
          ≠ routedPoint beast h shortens others connection
            (request.1, request.2) := by
        intro hstart
        have helim := routedPoint_elim beast h shortens others connection
          (request.1, request.2)
        rw [← hstart, hpoint] at helim
        cases helim
      have hopen : (routedApp beast h shortens others).result
          (requestOf connection (request.1, request.2))
          (reqs.point (request.1, request.2)) = none := by
        rw [hpoint]
        rfl
      obtain ⟨i, hi⟩ := hreqs.located hasked hbegun hopen
      rw [hpoint] at hi
      exact halive i _ _ _ hi ⟨c, k, rfl⟩

/-- Where all threads are in `run()`, none has ended the process. -/
theorem RoutedAlive.of_run
    (h : ∀ j, now.point j = .run) : RoutedAlive now := by
  intro j s requestMsg p hpoint
  rw [h j] at hpoint
  cases hpoint

end

-- ==================================================================== the runs

/-- The calls of the shortener among those of all requests. -/
theorem map_eventOnLeft (gs : List ((Nat × Nat)
      × Answer (ClientCall ⊕ D) (BothReply ClientCall.Reply S))) :
    (gs.filterMap Answer.eventOnLeft).map Prod.snd
      = (gs.map Prod.snd).filterMap Answer.onLeft := by
  rw [List.map_filterMap, List.filterMap_map]
  congr 1
  funext e
  show (Option.map _ _).map _ = _
  rw [Option.map_map]
  exact Option.map_id' ..

/-- The calls of two parts of a run. -/
theorem clientCalls_append (es es' : List (RoutedEvent ι D S)) :
    clientCalls (es ++ es') = clientCalls es ++ clientCalls es' := by
  unfold clientCalls
  rw [List.filterMap_append, List.filterMap_append]

variable [DecidableEq ι] {buffer : Nat → Buffer}
  {redisPoolSize dbPoolSize : UInt64} {s : ρ} {table : UrlTable} {t : τ}
  {mid now : RoutedWorkers ι π ρ τ} {es es' : List (RoutedEvent ι D S)}

/-- What the server does, the requests for the shortener do over its
pools, also between two points of its run, whatever the other handlers
do. -/
theorem server_routed
    (hbefore : Run (RoutedStep beast h shortens others redis service)
      (routedServerStart buffer redisPoolSize dbPoolSize s table t) es mid)
    (hafter : Run (RoutedStep beast h shortens others redis service) mid es'
      now)
    (halive : RoutedAlive now) :
    ∃ gs gs' reqsMid reqs,
      Run (PooledStep redis) (pooledStart redisPoolSize dbPoolSize s table
        (routedProg beast h shortens now.shared.1.connection)) gs reqsMid
      ∧ Run (PooledStep redis) reqsMid gs' reqs
      ∧ gs.map Prod.snd = clientCalls es
      ∧ gs'.map Prod.snd = clientCalls es'
      ∧ ProcessAlive reqs
      ∧ Routed beast h shortens now.shared.1.connection mid reqsMid
      ∧ Routed beast h shortens now.shared.1.connection now reqs := by
  have hasked :=
    asked_routed beast h shortens others now.shared.1.connection
  obtain ⟨gs, gs', reqsMid, reqs, hrun, hrun', hcalls, hcalls', hmid, hnow⟩ :=
    server_requests hbefore hafter hasked
  obtain ⟨hpools, hkind⟩ := hrun.onLeft fun request =>
    .outside (routedProg beast h shortens now.shared.1.connection request)
  obtain ⟨hpools', hkind'⟩ := hrun'.onLeft fun request =>
    .outside (routedProg beast h shortens now.shared.1.connection request)
  have hend := hnow.shortenersAlive hasked halive
  obtain ⟨haliveMid, hsteps'⟩ := pooled_of_run hpools' hend
  obtain ⟨-, hsteps⟩ := pooled_of_run hpools haliveMid
  rw [← shortenersOf_start beast h shortens others now.shared.1.connection
    redisPoolSize dbPoolSize s table t]
  refine ⟨_, _, _, _, hsteps, hsteps', ?_, ?_, hend, hmid.routed hkind,
    hnow.routed fun request => (hkind' request).trans (hkind request)⟩
  · rw [map_eventOnLeft, hcalls]
    rfl
  · rw [map_eventOnLeft, hcalls']
    rfl

-- ================================================================= redirects

/-- The status code of a response that a client has been sent. -/
def sentStatus (responseMsg : Str) : Option Int :=
  readDecimalInt ((responseMsg.drop 9).takeWhile (· ≠ ' '))

/-- It is the one that the response has. -/
theorem sentStatus_toString (response : Response) :
    sentStatus response.toString = some response.statusCode := by
  have hspace : ∀ c ∈ decimalInt response.statusCode,
      decide (c ≠ ' ') = true := by
    intro c hc
    refine decide_eq_true fun he => ?_
    rw [he] at hc
    exact not_mem_decimalInt (by decide) (by decide) _ hc
  have hversion : "HTTP/1.1 ".toList.length = 9 := rfl
  unfold sentStatus Response.toString
  simp only [List.append_assoc]
  rw [List.drop_left' hversion, List.takeWhile_append_of_pos hspace]
  have hend : " ".toList = [' '] := rfl
  simp only [hend, List.cons_append, List.nil_append,
    List.takeWhile_cons_of_neg, ne_eq, not_true_eq_false, decide_false,
    Bool.false_eq_true, not_false_eq_true, List.append_nil,
    readDecimalInt_decimalInt]

namespace ShortenRequestHandler

variable {h : ShortenRequestHandler} {redis₀ : Str → Option Str}
  {table₀ : UrlTable}

/-- What is for the shortener puts what is genuine. -/
theorem routedProg_genuine (connection : Nat → Connection)
    (request : Nat × Nat) :
    KeepsGenuine h (receivedRequest beast shortens connection) redis₀ table₀
      (receivedRequest beast shortens connection request)
      (routedProg beast h shortens connection request) := by
  unfold routedProg
  split
  · exact handleRequest_genuine request
  · exact answersGenuine_of_ne (stockResponse_ne_redirect _)

/-- Whatever the threads of the server and its other handlers do and
whatever fails behind it, a redirect that the shortener has given to
`async_write` goes to a URL that Redis or the table had at the start, or
that has come in as the body of a POST under the code that the client has
asked for; and nothing else is in the stores. -/
theorem server_genuine (h : ShortenRequestHandler) (beast : Beast)
    (shortens : Request → Bool) (others : Handlers D S π)
    (service : Service D S τ) (buffer : Nat → Buffer)
    (redisPoolSize dbPoolSize : UInt64) (redis₀ : Str → Option Str)
    (table₀ : UrlTable) (t : τ)
    {now : RoutedWorkers ι π (Str → Option Str) τ}
    (hrun : Run (RoutedStep beast h shortens others RedisMap service)
      (routedServerStart buffer redisPoolSize dbPoolSize redis₀ table₀ t)
      es now)
    (halive : RoutedAlive now) :
    GenuineStores h (receivedRequest beast shortens now.shared.1.connection)
        redis₀ table₀ now.shared.2.1.stores
      ∧ ∀ session j responseMsg,
        (now.shared.1.connection session).sent[j]? = some responseMsg →
        ¬ Elsewhere beast shortens
          (requestOf now.shared.1.connection (session, j)) →
        sentStatus responseMsg = some 302 →
        ∃ url, responseMsg = (redirect (receivedRequest beast shortens
            now.shared.1.connection (session, j)) url).toString
          ∧ Resolves h (receivedRequest beast shortens
              now.shared.1.connection) redis₀ table₀
            (h.codeOf (receivedRequest beast shortens
              now.shared.1.connection (session, j))) url := by
  obtain ⟨gs, gs', reqsMid, reqs, hbefore, hafter, -, -, hend, -, hnow⟩ :=
    server_routed hrun (.nil now) halive
  obtain ⟨hstores, hanswers⟩ := genuine_of_run
    (routedProg_genuine now.shared.1.connection) (hbefore.append hafter) hend
  rw [hnow.pools] at hstores
  refine ⟨hstores, fun session j responseMsg hsent hhere hstatus => ?_⟩
  obtain ⟨response, hpoint, rfl⟩ :=
    hnow.answered session j responseMsg hsent hhere
  rw [sentStatus_toString] at hstatus
  obtain ⟨url, rfl, hresolves⟩ :=
    hanswers (session, j) response hpoint (Option.some.inj hstatus)
  exact ⟨url, rfl, hresolves⟩

end ShortenRequestHandler

-- =================================================================== a server

/-- What the shortener answers over its pools by itself, it answers among
other handlers. -/
theorem App.Exchange.routed {x x' : ClientPools ρ} {e : Str × Str}
    (hexchange : (pooledApp beast h.handleRequest).Exchange
      (poolsServe redis) x e x')
    (hhere : ¬ Elsewhere beast shortens e.1) (service : Service D S τ)
    (t : τ) :
    (routedApp beast h shortens others).Exchange
      (Service.Beside (poolsServe redis) service) (x, t) e (x', t) := by
  obtain ⟨hpos, hfits, p, hgoes, hresult⟩ := hexchange
  refine ⟨hpos, hfits, .inl p, ?_, ?_⟩
  · rw [routedApp_enter hhere]
    exact hgoes.onLeft (fun _ h => h) t
  · cases p with
    | inside c k p => cases hresult
    | outside prog =>
        cases prog with
        | call c k => cases hresult
        | ret response => exact hresult

/-- What has returned has no code left, if that is so of the other
handlers. -/
theorem routedApp_ends (beast : Beast) (h : ShortenRequestHandler)
    (shortens : Request → Bool)
    (hothers : ∀ req p ended, others.result req p = some ended →
      others.code p = none) :
    (routedApp beast h shortens others).Ends := by
  intro requestMsg p ended hended
  cases p with
  | inl p =>
      obtain ⟨msg, rfl⟩ : ∃ msg, ended = some msg := by
        cases p with
        | inside c k p => cases hended
        | outside prog =>
            cases prog with
            | call c k => cases hended
            | ret response =>
                cases hended
                exact ⟨_, rfl⟩
      obtain ⟨response, rfl, -⟩ := routedApp_result hended
      rfl
  | inr p =>
      obtain ⟨response, hresult, -⟩ := Option.map_eq_some_iff.mp hended
      show Option.map _ (others.code p) = none
      rw [hothers _ p response hresult]
      rfl

/-- Files beside the shortener. -/
def linkFiles :
    Handlers FileCall FileCall.Reply
      (Prog FileCall FileCall.Reply (Option Response)) :=
  .ofProg (StaticRequestHandler.mk "/static".toList
    "./data".toList).handleRequest

/-- They may change at any time. -/
def anyFiles : Service FileCall FileCall.Reply Unit :=
  fun _ _ _ _ => True

/-- The location of the shortener. -/
def linkShortens (req : Request) : Bool :=
  "/shorten".toList.isPrefixOf req.uri

namespace ShortenRequestHandler

/-- A short link is posted and followed, on the only connection. -/
theorem link_run :
    ∃ es es', ∃ mid now : RoutedWorkers (Fin numThreads)
        (Prog FileCall FileCall.Reply (Option Response))
        (Str → Option Str) Unit,
      Run (RoutedStep reference colliding linkShortens linkFiles RedisMap
          anyFiles)
        (routedServerStart (fun _ => zeroBuffer) 1 1 (fun _ => none)
          (fun _ => none) ()) es mid
      ∧ Run (RoutedStep reference colliding linkShortens linkFiles RedisMap
          anyFiles) mid es' now
      ∧ mid.shared.1.connection 0
        = ⟨[linkPost], [(postOk linkPosted "000000".toList).toString]⟩
      ∧ now.shared.1.connection 0 = ⟨[linkPost, linkGet],
        [(postOk linkPosted "000000".toList).toString,
          (redirect (getOf "000000".toList) "a".toList).toString]⟩
      ∧ (∀ s, s ≠ 0 → now.shared.1.connection s = {})
      ∧ RoutedAlive now := by
  have hone : (0 : UInt64) < 1 := by decide
  have hthread : 0 < numThreads := by decide
  have hready := ready_start hone hone (fun _ : Str => (none : Option Str))
    (fun _ => none)
  obtain ⟨x, hposts, hstores, hready'⟩ := link_posted.exchange hready
  have hfollowed := link_followed
  rw [← hstores] at hfollowed
  obtain ⟨x', hgets, -, -⟩ := hfollowed.exchange hready'
  have hpostHere : ¬ Elsewhere reference linkShortens linkPost := by
    unfold Elsewhere
    rw [parse_linkPost]
    decide
  have hgetHere : ¬ Elsewhere reference linkShortens linkGet := by
    unfold Elsewhere
    rw [parse_linkGet]
    decide
  have hends : (routedApp reference colliding linkShortens linkFiles).Ends := by
    refine routedApp_ends reference colliding linkShortens ?_
    intro req p ended hended
    cases p with
    | ret response => rfl
    | call c k => cases hended
  obtain ⟨es, es', mid, now, hbefore, hafter, hmid, hnow, hkept, -, hthreads⟩ :=
    server_talks hends (Fin.mk 0 hthread) (fun _ => zeroBuffer)
      (.cons (hposts.routed hpostHere anyFiles ()) (.nil _))
      (.cons (hgets.routed hgetHere anyFiles ()) (.nil _))
  exact ⟨es, es', mid, now, hbefore, hafter, hmid, hnow, hkept,
    .of_run hthreads⟩

theorem server_genuine_link :
    ∃ es, ∃ now : RoutedWorkers (Fin numThreads)
        (Prog FileCall FileCall.Reply (Option Response))
        (Str → Option Str) Unit,
      Run (RoutedStep reference colliding linkShortens linkFiles RedisMap
          anyFiles)
        (routedServerStart (fun _ => zeroBuffer) 1 1 (fun _ => none)
          (fun _ => none) ()) es now
      ∧ (now.shared.1.connection 0).received = [linkPost, linkGet]
      ∧ GenuineStores colliding
        (receivedRequest reference linkShortens now.shared.1.connection)
        (fun _ => none) (fun _ => none) now.shared.2.1.stores := by
  obtain ⟨es, es', mid, now, hbefore, hafter, -, hnow, -, halive⟩ := link_run
  exact ⟨es ++ es', now, hbefore.append hafter,
    congrArg Connection.received hnow,
    (server_genuine colliding reference linkShortens linkFiles anyFiles _ 1 1
      _ _ () (hbefore.append hafter) halive).1⟩

end ShortenRequestHandler

end Creeper

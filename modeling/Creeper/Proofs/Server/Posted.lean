/-
A short link, from one client of the server to another.

A client posts a URL and is answered with a code. Any client that asks
for the code after that is answered with a redirect to the URL, on
whatever connection and by whichever thread, and whatever else the server
and its other handlers are doing (`server_posted`). There are two ways for
it to be otherwise: another URL may be posted under the code, and the
database may fail when the GET looks.
-/
import Creeper.Proofs.Server.Routed
import Creeper.Proofs.Session.Stream
import Creeper.Proofs.Shorten.Outcome
import Creeper.Proofs.Shorten.Posted

namespace Creeper

open Lib

namespace ShortenRequestHandler

variable {ι : Type} {h : ShortenRequestHandler} {beast : Beast}
  {shortens : Request → Bool} {code : Str} {request : Request}

-- ================================================================== the answer

/-- The 200 of a POST can be read off the connection. -/
theorem postOk_lineSafe (request : Request) (candidate : Str) :
    (postOk request candidate).LineSafe := by
  have hmessage : ∀ c ∈ "OK".toList, c ≠ '\r' ∧ c ≠ '\n' :=
    List.all_iff_forall_prop.mp (by decide)
  refine ⟨hmessage, ?_, ?_⟩
  · exact List.forall_mem_singleton.mpr
      (List.all_iff_forall_prop.mp (by decide))
  · exact List.forall_mem_singleton.mpr
      (List.all_iff_forall_prop.mp (by decide))

/-- So the code can. -/
theorem postOk_toString_injective {candidate : Str}
    (heq : (postOk request candidate).toString
      = (postOk request code).toString) : candidate = code := by
  have hbytes : [postOk request candidate].flatMap Response.toString
      = [postOk request code].flatMap Response.toString := by
    simpa using heq
  have hmessages := asMessage_injective
    (List.forall_mem_singleton.mpr (postOk_lineSafe request candidate))
    (List.forall_mem_singleton.mpr (postOk_lineSafe request code)) hbytes
  have hsingle : (postOk request candidate).asMessage
      = (postOk request code).asMessage := by simpa using hmessages
  exact congrArg ResponseMessage.body hsingle

/-- What a POST answers: one of its codes, or a 500. -/
def PostAnswers (h : ShortenRequestHandler) (request : Request)
    (response : Response) : Prop :=
  (∃ k, response = postOk request (h.candidateShort request.body k))
    ∨ response.statusCode = 500

/-- A POST answers so. -/
theorem postAttempt_answers (left : Nat) :
    (h.postAttempt request left).Meets (fun _ => True) (fun _ _ => True)
      (PostAnswers h request) := by
  induction left with
  | zero => exact Or.inr rfl
  | succ left ih =>
      rw [postAttempt]
      refine ⟨trivial, fun existing _ => ?_⟩
      cases existing with
      | none =>
          refine ⟨trivial, fun stored _ => ?_⟩
          cases stored with
          | true => exact Or.inl ⟨_, rfl⟩
          | false => exact Or.inr rfl
      | some url =>
          show Prog.Meets _ _ _ (if _ then _ else _)
          split
          · exact Or.inl ⟨_, rfl⟩
          · exact ih

/-- Over the pools too. -/
theorem pooled_answers {ρ : Type} {redis : Service RedisCommand _ ρ}
    [DecidableEq ι] {redisPoolSize dbPoolSize : UInt64} {s : ρ}
    {table : UrlTable} {handlers : ι → Prog Call Call.Reply Response}
    {es : List (ClientEvent ι)} {now : PooledTraffic ι Response ρ} {i : ι}
    {left : Nat} {response : Response}
    (hrun : Run (PooledStep redis)
      (pooledStart redisPoolSize dbPoolSize s table handlers) es now)
    (halive : ProcessAlive now)
    (hpost : handlers i = h.postAttempt request left)
    (hanswer : now.point i = .outside (.ret response)) :
    PostAnswers h request response := by
  have hfails : ∀ e ∈ es, ClientFailure e.2 → True := fun _ _ _ => trivial
  obtain ⟨fs, abs, hruns, hagrees⟩ := clients_run hrun hfails halive
  have hmeets := hruns.program_keeps (i := i)
    (J := fun _ prog => prog.Meets (fun _ => True) (fun _ _ => True)
      (PostAnswers h request))
    (fun _ _ r _ _ hJ _ => hJ.2 r trivial) (fun _ _ _ _ _ hJ _ => hJ)
    (by rw [show (Running.mk _ handlers).point i = _ from hpost]
        exact postAttempt_answers left)
  rw [hagrees.point i _ hanswer] at hmeets
  exact hmeets

/-- So the code a client has been sent is one of the codes of its URL. -/
theorem PostAnswers.sent {response : Response}
    (h₀ : PostAnswers h request response)
    (heq : response.toString = (postOk request code).toString) :
    response = postOk request code ∧ '\x00' ∉ code
      ∧ code.length = shortUrlLength := by
  rcases h₀ with ⟨k, rfl⟩ | hstatus
  · obtain rfl := postOk_toString_injective heq
    exact ⟨rfl, candidateShort_plain _ _, h.candidateShort_length _ _⟩
  · have hread := sentStatus_toString response
    rw [heq, sentStatus_toString, hstatus] at hread
    cases hread

-- ==================================================================== the runs

/-- Once the shortener has given `async_write` a code for the URL of a
POST, and as long as nothing else is posted under it, a GET of the code
that comes in later, on any connection, is answered with the redirect to
the URL, up to its first NUL, whatever the threads of the server and its
other handlers do; or with 404, but only if a call of libpq has failed. -/
theorem server_posted [DecidableEq ι] {D : Type} {S : D → Type} {π τ : Type}
    (h : ShortenRequestHandler) (beast : Beast) (shortens : Request → Bool)
    (others : Handlers D S π) (service : Service D S τ)
    (buffer : Nat → Buffer) (redisPoolSize dbPoolSize : UInt64)
    (redis₀ : Str → Option Str) (table₀ : UrlTable) (t : τ)
    {mid now : RoutedWorkers ι π (Str → Option Str) τ}
    {es es' : List (RoutedEvent ι D S)}
    (hbefore : Run (RoutedStep beast h shortens others RedisMap service)
      (routedServerStart buffer redisPoolSize dbPoolSize redis₀ table₀ t)
      es mid)
    (hafter : Run (RoutedStep beast h shortens others RedisMap service) mid
      es' now)
    (halive : RoutedAlive now) (reqs : Nat × Nat → Request)
    (hreqs : reqs
      = receivedRequest beast shortens now.shared.1.connection)
    {s j s' j' : Nat} (code : Str)
    (hunrivalled : Unrivalled h reqs redis₀ table₀ code (reqs (s, j)).body)
    (hpost : (reqs (s, j)).method = "POST".toList)
    (hposted : (mid.shared.1.connection s).sent[j]?
      = some (postOk (reqs (s, j)) code).toString)
    (hget : (reqs (s', j')).method = "GET".toList)
    (huri : (reqs (s', j')).uri = h.baseUri ++ '/' :: code)
    (hlater : (mid.shared.1.connection s').received.length ≤ j')
    (responseMsg : Str)
    (hsent : (now.shared.1.connection s').sent[j']? = some responseMsg) :
    responseMsg = (redirect (reqs (s', j'))
        (cString (reqs (s, j)).body)).toString
      ∨ ((∃ a ∈ clientCalls (es ++ es'), ClientFailure a)
        ∧ responseMsg = (stockResponse .c404).toString) := by
  subst hreqs
  obtain ⟨gs, gs', reqsMid, reqs, hruns, hruns', hcalls, hcalls', hend, hmid,
    hnow⟩ := server_routed hbefore hafter halive
  have hfails : ∀ g ∈ gs ++ gs', ClientFailure g.2 →
      ∃ a ∈ clientCalls (es ++ es'), ClientFailure a := by
    intro g hg hfailure
    refine ⟨g.2, ?_, hfailure⟩
    rw [clientCalls_append, ← hcalls, ← hcalls', ← List.map_append]
    exact List.mem_map_of_mem hg
  have hmethod : (receivedRequest beast shortens now.shared.1.connection
      (s, j)).method ≠ [] := by
    rw [hpost]
    decide
  have hmethod' : (receivedRequest beast shortens now.shared.1.connection
      (s', j')).method ≠ [] := by
    rw [hget]
    decide
  -- the POST, at the point in between
  have hpostStart : routedProg beast h shortens now.shared.1.connection (s, j)
      = h.postAttempt (receivedRequest beast shortens
        now.shared.1.connection (s, j)) kMaxAttempts := by
    rw [routedProg_of_method hmethod, handleRequest, if_pos hpost,
      handlePostRequest]
  obtain ⟨posted, hpostPoint, hpostMsg⟩ := hmid.answered s j _ hposted
    (shortened_of_method hmethod).here
  have haliveMid := alive_of_run hruns' hend
  obtain ⟨rfl, hcode, hlength⟩ := PostAnswers.sent
    (pooled_answers hruns haliveMid hpostStart hpostPoint) hpostMsg.symm
  -- the GET, which has not begun there
  obtain ⟨hgetProg, hcodeOf⟩ := handleRequest_get hget huri hlength
  have hgetPoint := hmid.fresh s' j' hlater
  rw [routedProg_of_method hmethod', hgetProg] at hgetPoint
  -- and what it has been answered
  obtain ⟨response, hanswer, rfl⟩ := hnow.answered s' j' _ hsent
    (shortened_of_method hmethod').here
  rcases pooled_found hruns hruns' hfails hend hcode hpostStart hpostPoint
    hgetPoint hanswer with hstatus | ⟨hfail, rfl⟩
  · left
    obtain ⟨-, hanswers⟩ := genuine_of_run
      (routedProg_genuine now.shared.1.connection) (hruns.append hruns') hend
    obtain ⟨url, rfl, hresolves⟩ := hanswers (s', j') response hanswer hstatus
    rw [hcodeOf] at hresolves
    rw [hunrivalled.resolves hcode hresolves]
  · exact Or.inr ⟨hfail, rfl⟩

/-- What a connection has received makes its requests. -/
theorem receivedRequest_eq {connection : Nat → Connection} {s j : Nat}
    {c : Connection} (hconnection : connection s = c) :
    receivedRequest beast shortens connection (s, j)
      = receivedRequest beast shortens (fun _ => c) (s, j) := by
  subst hconnection
  rfl

/-- The requests of the conversation. -/
theorem link_requests {connection : Nat → Connection} {sent : List Str}
    (hfirst : connection 0 = ⟨[linkPost, linkGet], sent⟩) :
    receivedRequest reference linkShortens connection (0, 0) = linkPosted
      ∧ receivedRequest reference linkShortens connection (0, 1)
        = getOf "000000".toList := by
  have hshortens : linkShortens linkPosted ∧ linkShortens
      (getOf "000000".toList) := by decide
  rw [receivedRequest_eq hfirst, receivedRequest_eq hfirst]
  unfold receivedRequest Shortened requestOf
  simp only [List.getD_cons_zero, List.getD_cons_succ, parse_linkPost,
    parse_linkGet]
  decide

/-- Nothing else is posted. -/
theorem link_body {connection : Nat → Connection} {sent : List Str}
    (hfirst : connection 0 = ⟨[linkPost, linkGet], sent⟩)
    (hothers : ∀ s, s ≠ 0 → connection s = {}) (i : Nat × Nat)
    (hpost : (receivedRequest reference linkShortens connection i).method
      = "POST".toList) :
    (receivedRequest reference linkShortens connection i).body
      = "a".toList := by
  obtain ⟨s, j⟩ := i
  obtain ⟨hpostIs, hgetIs⟩ := link_requests hfirst
  have hin : j < (connection s).received.length :=
    (shortened_of_method (by rw [hpost]; decide)).1
  by_cases hs : s = 0
  · subst hs
    rw [hfirst] at hin
    obtain rfl | rfl : j = 0 ∨ j = 1 := by
      have hlength : [linkPost, linkGet].length = 2 := rfl
      change j < [linkPost, linkGet].length at hin
      omega
    · rw [hpostIs]
      rfl
    · rw [hgetIs] at hpost
      exact absurd hpost (by decide)
  · rw [hothers s hs] at hin
    cases hin

theorem server_posted_link :
    ∃ es es', ∃ now : RoutedWorkers (Fin numThreads)
        (Prog FileCall FileCall.Reply (Option Response))
        (Str → Option Str) Unit,
      Run (RoutedStep reference colliding linkShortens linkFiles RedisMap
          anyFiles)
        (routedServerStart (fun _ => zeroBuffer) 1 1 (fun _ => none)
          (fun _ => none) ()) (es ++ es') now
      ∧ ∃ responseMsg,
        (now.shared.1.connection 0).sent[1]? = some responseMsg
        ∧ (responseMsg = (redirect (getOf "000000".toList)
            "a".toList).toString
          ∨ ((∃ a ∈ clientCalls (es ++ es'), ClientFailure a)
            ∧ responseMsg = (stockResponse .c404).toString)) := by
  obtain ⟨es, es', mid, now, hbefore, hafter, hmid, hnow, hothers, halive⟩ :=
    link_run
  obtain ⟨hpost, hget⟩ := link_requests hnow
  have hbody := link_body hnow hothers
  have hposted := server_posted colliding reference linkShortens linkFiles
    anyFiles (fun _ => zeroBuffer) 1 1 (fun _ => none) (fun _ => none) ()
    hbefore hafter halive _ rfl (s := 0) (j := 0) "000000".toList
    ⟨nofun, nofun, fun i k hi _ _ => by rw [hbody i hi, hpost]; rfl⟩
    (by rw [hpost]; rfl) (by rw [hpost, hmid]; rfl)
    (by rw [hget]; rfl) (by rw [hget]; rfl) (by rw [hmid]; decide)
  rw [hpost, hget] at hposted
  have hsent : (now.shared.1.connection 0).sent[1]?
      = some (redirect (getOf "000000".toList) "a".toList).toString := by
    rw [hnow]
    rfl
  exact ⟨es, es', now, hbefore.append hafter, _, hsent, hposted _ hsent⟩

end ShortenRequestHandler

end Creeper

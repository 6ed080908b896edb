/-
The redirect on the wire: the POSTed body becomes a header value, and no
step on the way from the POST to the response looks at it.

`redirect_reads_iff` is the response alone: it reads back as one 302
with its location if and only if the location has no CRLF in it. What
runs add is where the location comes from. In a run with accurate
lookups it is the acknowledged body (`serve_get_acked`); under any
faults it is what one of the stores holds, and everything the stores
hold was POSTed (`run_stored_posted`).
-/
import Creeper.Framing
import Creeper.Proofs.Shorten.Sequential

namespace Creeper

open Lib Lib.Http1

/-- A redirect as a client should see it. -/
def redirectMessage (url : Str) : ResponseMessage :=
  { statusCode := 302, statusMessage := "Found".toList
    headers := [⟨"Location".toList, url⟩,
      ⟨"Content-Length".toList, "0".toList⟩]
    body := [] }

/-- The bytes are one redirect to the URL, and nothing after it. -/
def ReadsAsRedirect (bytes url : Str) : Prop :=
  readMessage bytes = some (redirectMessage url, [])

/-- One of the stores holds the URL under the code. -/
def World.Stored (w : World) (code url : Str) : Prop :=
  w.redis code = some url ∨ w.db code = some url

/-- The URL is the body of a POST of the run. -/
def PostedIn (es : List ShortenEvent) (url : Str) : Prop :=
  ∃ request φ, .request request φ ∈ es ∧ request.method = "POST".toList
    ∧ request.body = url

namespace ShortenRequestHandler

variable {h : ShortenRequestHandler} {w w' : World} {e : ShortenEvent}
  {es : List ShortenEvent} {φ : Faults}

-- ========================================================== one response

/-- The location's line has a break exactly where the location does. -/
theorem location_break_iff (url : Str) :
    crlf <:+: fieldLine ("Location".toList, url) ↔ crlf <:+: url := by
  have hname : '\r' ∉ "Location".toList := by decide
  have hsep : '\r' ∉ [':', ' '] := by decide
  calc crlf <:+: "Location".toList ++ ([':', ' '] ++ url)
      ↔ crlf <:+: [':', ' '] ++ url := crlf_infix_append_iff hname
    _ ↔ crlf <:+: url := crlf_infix_append_iff hsep

/-- A redirect to a URL without a CRLF is framed. -/
theorem redirect_framed (request : Request) {url : Str}
    (hurl : ¬ crlf <:+: url) : (redirect request url).Framed := by
  have hheader : ∀ f ∈ (redirect request url).headers,
      f = ⟨"Location".toList, url⟩ := fun f hf => List.mem_singleton.mp hf
  have hmessage : '\r' ∉ "Found".toList := by decide
  have hname : ':' ∉ "Location".toList := by decide
  refine ⟨no_crlf_of_not_mem hmessage, ?_, ?_⟩
  · intro f hf
    rw [hheader f hf]
    exact (location_break_iff url).not.mpr hurl
  · intro f hf
    rw [hheader f hf]
    exact hname

/-- A redirect reads back as itself if and only if its location has no
CRLF in it. -/
theorem redirect_reads_iff (request : Request) (url : Str) :
    ReadsAsRedirect (redirect request url).toString url
      ↔ ¬ crlf <:+: url := by
  constructor
  · intro hread
    have hbreak := readMessage_header_break hread ⟨"Location".toList, url⟩
      (List.mem_cons_self ..)
    exact (location_break_iff url).not.mp hbreak
  · intro hurl
    have hread := readMessage_toString (redirect_framed request hurl) []
    have hlength : decimal 0 = "0".toList := by decide
    rw [List.append_nil] at hread
    unfold Response.asMessage redirect at hread
    rw [List.length_nil, hlength] at hread
    exact hread

-- ================================================ where locations come from

/-- A step puts into the stores what they held or what it was POSTed. -/
theorem step_stored (hst : h.Step w e w') {code url : Str}
    (hstored : w'.Stored code url) :
    w.Stored code url ∨ PostedIn [e] url := by
  obtain rfl : w' = h.advance w e := hst
  cases e with
  | evict code' =>
      rcases hstored with hredis | hdb
      · exact Or.inl (Or.inl (erase_eq_some hredis))
      · exact Or.inl (Or.inr hdb)
  | request request φ =>
      rcases hstored with hredis | hdb
      · change (h.serve φ request w).1.redis code = some url at hredis
        rcases h.serve_redis_cases φ request w with
          hsame | ⟨code', url', hfound, hout⟩
        · rw [hsame] at hredis
          exact Or.inl (Or.inl hredis)
        · rw [hout] at hredis
          rcases upsert_eq_some hredis with ⟨rfl, rfl⟩ | ⟨-, hredis⟩
          · exact Or.inl (Or.inr hfound)
          · exact Or.inl (Or.inl hredis)
      · change (h.serve φ request w).1.db code = some url at hdb
        rcases h.serve_db_cases φ request w with
          hsame | ⟨k, -, hpost, -, -, -, hout⟩
        · rw [hsame] at hdb
          exact Or.inl (Or.inr hdb)
        · rw [hout] at hdb
          rcases upsert_eq_some hdb with ⟨-, rfl⟩ | ⟨-, hdb⟩
          · exact Or.inr ⟨request, φ, List.mem_singleton_self _, hpost,
              rfl⟩
          · exact Or.inl (Or.inr hdb)

/-- Everything the stores hold in a run from empty ones was POSTed in
the run. -/
theorem run_stored_posted {w₀ : World} (hw₀ : ∀ c u, ¬ w₀.Stored c u)
    (hrun : Run h.Step w₀ es w) {code url : Str}
    (hstored : w.Stored code url) : PostedIn es url := by
  refine hrun.snoc_induction
    (P := fun es w => ∀ code url, w.Stored code url → PostedIn es url)
    ?_ ?_ code url hstored
  · exact fun code url hs => absurd hs (hw₀ code url)
  · intro es e w w' _ ih hst code url hs
    rcases step_stored hst hs with hold | hnew
    · obtain ⟨request, φ, hmem, hposted⟩ := ih code url hold
      exact ⟨request, φ, List.mem_append_left _ hmem, hposted⟩
    · obtain ⟨request, φ, hmem, hposted⟩ := hnew
      exact ⟨request, φ, List.mem_append_right _ hmem, hposted⟩

/-- A GET of a code that is answered 302 redirects to what a store
holds. -/
theorem serve_get_stored {get : Request} {code : Str}
    (hget : get.method = "GET".toList)
    (huri : get.uri = h.baseUri ++ '/' :: code)
    (hcode : code.length = shortUrlLength)
    (hfound : (h.serve φ get w).2.statusCode = 302) :
    ∃ url, w.Stored code url ∧ (h.serve φ get w).2 = redirect get url := by
  have hout := getRedirect_outcome φ get code w
  rw [← h.serve_get hget huri hcode φ w] at hout
  generalize h.serve φ get w = end_ at hout hfound
  cases hout with
  | hit url hredis => exact ⟨url, Or.inl hredis, rfl⟩
  | filled url hdb => exact ⟨url, Or.inr hdb, rfl⟩
  | missing => simp [stockResponse, plainText] at hfound

-- ================================================================== runs

/-- Header injection, exactly. In a run with accurate lookups, the
redirect of an acknowledged code is on the wire one 302 to the body that
was POSTed if and only if that body has no CRLF in it. Under any faults,
a redirect goes to a URL a store holds, which was POSTed in the run, and
reads so if and only if that URL has no CRLF in it. -/
theorem redirect_unforged_iff (h : ShortenRequestHandler) {w₀ : World}
    (hw₀ : ∀ c u, ¬ w₀.Stored c u) :
    (∀ (pre : List ShortenEvent) (w₁ : World) (post : Request) (φ : Faults)
        (suf : List ShortenEvent) (w₂ : World) (get : Request) (ψ : Faults),
      Run h.AccurateStep w₀ pre w₁ →
      post.method = "POST".toList → φ.AccurateLookups →
      (h.serve φ post w₁).2.statusCode = 200 →
      Run h.AccurateStep (h.serve φ post w₁).1 suf w₂ →
      get.method = "GET".toList →
      get.uri = h.baseUri ++ '/' :: (h.serve φ post w₁).2.body →
      ψ.AccurateLookups →
      (ReadsAsRedirect (h.serve ψ get w₂).2.toString post.body
        ↔ ¬ crlf <:+: post.body))
    ∧ (∀ (es : List ShortenEvent) (w : World) (get : Request) (code : Str)
        (ψ : Faults),
      Run h.Step w₀ es w →
      get.method = "GET".toList → get.uri = h.baseUri ++ '/' :: code →
      code.length = shortUrlLength →
      (h.serve ψ get w).2.statusCode = 302 →
      ∃ url, w.Stored code url ∧ PostedIn es url
        ∧ (ReadsAsRedirect (h.serve ψ get w).2.toString url
          ↔ ¬ crlf <:+: url)) := by
  constructor
  · intro pre w₁ post φ suf w₂ get ψ hpre hpost hφ hok hsuf hget huri hψ
    have hcoh : w₀.Coherent :=
      fun code url hredis => absurd (Or.inl hredis) (hw₀ code url)
    rw [serve_get_acked hcoh hpre hpost hφ hok hsuf hget huri hψ]
    exact redirect_reads_iff get post.body
  · intro es w get code ψ hrun hget huri hcode hfound
    obtain ⟨url, hstored, hresponse⟩ :=
      serve_get_stored hget huri hcode hfound
    refine ⟨url, hstored, run_stored_posted hw₀ hrun hstored, ?_⟩
    rw [hresponse]
    exact redirect_reads_iff get url

theorem redirect_unforged_colliding :
    ReadsAsRedirect (colliding.serve noFaults (getOf "000000".toList)
      (colliding.serve noFaults (postOf "a".toList) emptyWorld).1).2.toString
        "a".toList := by
  have hempty : ∀ c u, ¬ emptyWorld.Stored c u := by
    intro c u hstored
    rcases hstored with hredis | hdb
    · cases hredis
    · cases hdb
  refine ((redirect_unforged_iff colliding hempty).1 [] emptyWorld
    (postOf "a".toList) noFaults [] _ (getOf "000000".toList) noFaults
    (.nil _) rfl (fun _ _ => rfl) rfl (.nil _) rfl ?_
    (fun _ _ => rfl)).mpr (no_crlf_of_not_mem (by decide))
  show _ = "/shorten".toList ++ '/' :: colliding.candidateShort "a".toList 0
  rw [colliding_candidateShort]
  decide

/-- A URL with a header line of the client's own in it. -/
def forgingUrl : Str := "x\r\nSet-Cookie: a".toList

theorem redirect_forged :
    ¬ ReadsAsRedirect (colliding.serve noFaults (getOf "000000".toList)
      (colliding.serve noFaults (postOf forgingUrl) emptyWorld).1).2.toString
        forgingUrl := by
  unfold ReadsAsRedirect
  decide +kernel

end ShortenRequestHandler

end Creeper

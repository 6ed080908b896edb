/-
Which URIs redirect.

`handle_get_request` compares the length of the URI and cuts at a fixed
place; that the character it skips is the slash of the documented form
`/base_uri/6UQVxS` is never looked at, and the dispatcher has only
compared the location as a string. So a URI that runs on past the
location (`SkipsOther`) is resolved like one of the documented form, and
`redirects_only_documented_iff` says that this is the one way to a
redirect the documentation does not have.
-/
import Creeper.Proofs.Shorten.Sequential

namespace Creeper

open Lib

namespace ShortenRequestHandler

variable {h : ShortenRequestHandler} {φ : Faults} {w : World}
  {request : Request}

/-- Redis answers for the code, or the database does when it is asked:
the stores have it, and the call that gets at it works. -/
def Answered (φ : Faults) (w : World) (code : Str) : Prop :=
  (φ 0 (.redisGet code) = false ∧ (w.redis code).isSome)
    ∨ (φ 1 (.dbLookup code) = false ∧ (w.db code).isSome)

/-- Redis or the database maps the code to the URL. -/
def Maps (w : World) (code url : Str) : Prop :=
  w.redis code = some url ∨ w.db code = some url

variable (h) in
/-- The URI is the location, a character other than a slash, and six
more that the stores answer for as a code. -/
def SkipsOther (φ : Faults) (w : World) (uri : Str) : Prop :=
  ∃ x code, uri = h.baseUri ++ x :: code ∧ x ≠ '/'
    ∧ code.length = shortUrlLength ∧ Answered φ w code

variable (h) in
/-- `handle_get_request`, handled alone. -/
def get (φ : Faults) (request : Request) (w : World) : World × Response :=
  Prog.eval (faulty φ) 0 (h.handleGetRequest request) w

variable (h) in
/-- If the answer is a 302, the URI has the documented form and the
location is one that its code is mapped to. -/
def OnlyDocumented (w : World) (uri : Str) (answer : Response) : Prop :=
  answer.statusCode = 302 →
    ∃ code url, uri = h.baseUri ++ '/' :: code
      ∧ code.length = shortUrlLength
      ∧ answer.RedirectsTo url ∧ Maps w code url

-- ============================================================ the resolution

/-- A code is resolved to a redirect exactly when it is answered for. -/
theorem getRedirect_status (φ : Faults) (w : World) (request : Request)
    (code : Str) :
    (Prog.eval (faulty φ) 0 (getRedirect request code) w).2.statusCode = 302
      ↔ Answered φ w code := by
  unfold Answered
  rw [getRedirect, Prog.eval_call]
  cases hget : (faulty φ 0 (.redisGet code) w).2 with
  | some url =>
      have hhit : φ 0 (.redisGet code) = false ∧ w.redis code = some url := by
        simpa [faulty, perform] using hget
      simp [redirect, hhit.1, hhit.2]
  | none =>
      have hmiss : ¬ (φ 0 (.redisGet code) = false
          ∧ (w.redis code).isSome) := by
        intro hex
        obtain ⟨hfine, hsome⟩ := hex
        have hnone : w.redis code = none := by
          simpa [faulty, perform, hfine] using hget
        rw [hnone] at hsome
        cases hsome
      show (Prog.eval (faulty φ) 1 (getLookup request code) w).2.statusCode
        = 302 ↔ _
      rw [or_iff_right hmiss, getLookup, Prog.eval_call]
      cases hlookup : (faulty φ 1 (.dbLookup code) w).2 with
      | some url =>
          obtain ⟨hfine, hdb⟩ := faulty_found hlookup
          refine iff_of_true rfl ⟨hfine, ?_⟩
          rw [hdb]
          rfl
      | none =>
          rcases faulty_missed hlookup with hfail | hdb
          · simp [stockResponse, plainText, hfail]
          · simp [stockResponse, plainText, hdb]

/-- A redirect of a code goes where the stores map the code to. -/
theorem getRedirect_redirectsTo {code : Str}
    (hstatus : (Prog.eval (faulty φ) 0
      (getRedirect request code) w).2.statusCode = 302) :
    ∃ url, (Prog.eval (faulty φ) 0
        (getRedirect request code) w).2.RedirectsTo url
      ∧ Maps w code url := by
  have hout := getRedirect_outcome φ request code w
  generalize Prog.eval (faulty φ) 0 (getRedirect request code) w = end_
    at hout hstatus ⊢
  cases hout with
  | hit url hredis =>
      exact ⟨url, (redirect_redirectsTo request url url).mpr rfl,
        Or.inl hredis⟩
  | filled url hdb =>
      exact ⟨url, (redirect_redirectsTo request url url).mpr rfl,
        Or.inr hdb⟩
  | missing => exact absurd hstatus (show ¬ (404 : Int) = 302 by decide)

-- =================================================================== the cut

/-- The page, or the 404 in its place, is no redirect. -/
theorem servePage_status (h : ShortenRequestHandler) (request : Request) :
    (h.servePage request).statusCode ≠ 302 := by
  unfold servePage
  split
  · show (200 : Int) ≠ 302
    decide
  · show (404 : Int) ≠ 302
    decide

/-- A routed URI is the location itself, which gets the page; the
location, one character and six more, which are resolved as a code; or
of another length, which is not found. -/
theorem handleGetRequest_cases (hroute : h.baseUri <+: request.uri) :
    (∃ page, h.handleGetRequest request = .ret page
        ∧ page.statusCode ≠ 302
        ∧ ∀ x code, request.uri = h.baseUri ++ x :: code →
          code.length ≠ shortUrlLength)
      ∨ ∃ x code, request.uri = h.baseUri ++ x :: code
        ∧ code.length = shortUrlLength
        ∧ h.handleGetRequest request = getRedirect request code := by
  obtain ⟨rest, huri⟩ := hroute
  unfold handleGetRequest
  rw [← huri]
  cases rest with
  | nil =>
      refine Or.inl ⟨h.servePage request, ?_, h.servePage_status request, ?_⟩
      · rw [if_pos (by rw [List.append_nil])]
      · intro x code heq
        simp at heq
  | cons x code =>
      rw [if_neg (by simp)]
      by_cases hlen : code.length = shortUrlLength
      · refine Or.inr ⟨x, code, rfl, hlen, ?_⟩
        rw [if_neg (by simp [hlen, Nat.add_assoc]), ← List.drop_drop,
          List.drop_left]
        rfl
      · refine Or.inl ⟨stockResponse .c404, ?_, by decide, ?_⟩
        · rw [if_pos]
          rw [List.length_append, List.length_cons]
          omega
        · intro x' code' heq
          obtain ⟨rfl, rfl⟩ := List.cons.inj (List.append_cancel_left heq)
          exact hlen

/-- Only the documented form redirects, exactly. For every location and
routed URI, every state of the two stores and every call of them that
fails: a redirect is of a URI of the documented form, to what the stores
map its code to, if and only if the URI is not the location, another
character than a slash and six more that the stores answer for. -/
theorem redirects_only_documented_iff (h : ShortenRequestHandler)
    (φ : Faults) (w : World) (request : Request)
    (hroute : h.baseUri <+: request.uri) :
    h.OnlyDocumented w request.uri (h.get φ request w).2
      ↔ ¬ h.SkipsOther φ w request.uri := by
  unfold OnlyDocumented get
  rcases handleGetRequest_cases hroute with
    ⟨page, hpage, hstatus, hlength⟩ | ⟨x, code, huri, hlen, hresolve⟩
  · -- no redirect, and not of the length of a code either
    rw [hpage]
    refine iff_of_true (fun h302 => absurd h302 hstatus) ?_
    intro hex
    obtain ⟨x, code, huri, -, hlen, -⟩ := hex
    exact hlength x code huri hlen
  · rw [hresolve]
    constructor
    · intro honly hex
      obtain ⟨x', code', huri', hx, -, hans⟩ := hex
      obtain ⟨rfl, rfl⟩ :=
        List.cons.inj (List.append_cancel_left (huri.symm.trans huri'))
      obtain ⟨code', url, huri', -⟩ :=
        honly ((getRedirect_status φ w request code).mpr hans)
      have hcut := List.append_cancel_left (huri.symm.trans huri')
      exact hx (List.cons.inj hcut).1
    · intro hskip h302
      have hans := (getRedirect_status φ w request code).mp h302
      obtain ⟨url, hto, hmaps⟩ := getRedirect_redirectsTo h302
      by_cases hx : x = '/'
      · rw [hx] at huri
        exact ⟨code, url, huri, hlen, hto, hmaps⟩
      · exact absurd ⟨x, code, huri, hx, hlen, hans⟩ hskip

/-- A database with one code. -/
def oneCode : World :=
  ⟨fun _ => none, upsert (fun _ => none) "abcdef".toList "b".toList⟩

theorem redirects_undocumented :
    ¬ colliding.OnlyDocumented oneCode "/shortenXabcdef".toList
      (colliding.get noFaults
        { getOf [] with uri := "/shortenXabcdef".toList } oneCode).2 := by
  intro honly
  obtain ⟨code, url, huri, -⟩ := honly (by decide)
  have hcut : "/shorten".toList ++ "Xabcdef".toList
      = "/shorten".toList ++ '/' :: code := huri
  exact absurd (List.cons.inj (List.append_cancel_left hcut)).1 (by decide)

theorem redirects_only_documented_of_slash :
    colliding.OnlyDocumented oneCode (getOf "abcdef".toList).uri
      (colliding.get noFaults (getOf "abcdef".toList) oneCode).2 := by
  refine (redirects_only_documented_iff colliding noFaults oneCode
    (getOf "abcdef".toList) ⟨"/abcdef".toList, by decide⟩).mpr ?_
  intro hex
  obtain ⟨x, code, huri, hx, -⟩ := hex
  have hcut : "/shorten".toList ++ "/abcdef".toList
      = "/shorten".toList ++ x :: code := huri
  exact hx (List.cons.inj (List.append_cancel_left hcut)).1.symm

end ShortenRequestHandler

end Creeper

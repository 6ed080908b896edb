/-
What a session answers: one response for each read.

`run_sent` is exact and holds of every run: the responses handed to the
connection are those of the reads whose handling returned, each parsed on
its own, in order; a read whose handling does not return is the last
thing that happens to the session. What a read is answered is then up to
the parser. One that begins with a whole request is answered as that
request alone (`respond_whole`), because the parser consumes one message;
one that ends inside the header it begins with is answered 400
(`respond_cut`), because the parser needs more.

So the responses are those of the requests when each read begins with
one and carries no other. They are not when a read carries two:
`pipelined_unanswered`.
-/
import Creeper.ReferenceParser
import Creeper.Session

namespace Creeper

open Lib

/-- A whole well-formed request with an allowed method, as it is
sent. -/
structure WireRequest (beast : Beast) where
  header : Str
  body : Str
  message : BeastMessage
  whole : beast.Whole header body message
  allowed : message.Allowed

/-- Its bytes. -/
def WireRequest.bytes {beast : Beast} (r : WireRequest beast) : Str :=
  r.header ++ r.body

section

variable {σ : Type} {beast : Beast} {handle : Handling σ}
  {s s' : Session σ} {es : List SessionEvent}

variable (beast handle) in
/-- The responses to raw messages, each alone in one buffer, the
handlers seeing them in this order; `none` if the handling of one does
not return. -/
def respondAll : σ → List Str → Option (List Str)
  | _, [] => some []
  | world, msg :: msgs =>
      match respond beast handle world msg with
      | (_, none) => none
      | (world, some response) =>
          (respondAll world msgs).map (response :: ·)

-- ============================================================== one read

/-- Only the bytes of the read are looked at, whatever the array held
before. -/
theorem handleResponse_fill (world : σ) (buffer : Buffer) {chunk : Str}
    (hfits : chunk.length ≤ maxLength) :
    handleResponse beast handle world (buffer.fill chunk hfits)
      chunk.length = respond beast handle world chunk := by
  unfold handleResponse Buffer.fill
  rw [List.take_left]

/-- A read that begins with a whole request is answered as the request
alone. -/
theorem respond_whole (hdoc : beast.Documented) (world : σ)
    (r : WireRequest beast) {chunk : Str} (hwhole : r.bytes <+: chunk) :
    respond beast handle world chunk
      = respond beast handle world r.bytes := by
  obtain ⟨rest, rfl⟩ := hwhole
  have hchunk : beast.put (r.bytes ++ rest) = some r.message :=
    hdoc.oneMessage rest r.whole
  have halone : beast.put r.bytes = some r.message := by
    rw [← List.append_nil r.bytes]
    exact hdoc.oneMessage [] r.whole
  unfold respond RequestParser.parse
  rw [hchunk, halone]

/-- A read that ends inside the header it begins with is answered 400,
and no handler sees it. -/
theorem respond_cut (hdoc : beast.Documented) (world : σ)
    (r : WireRequest beast) {part : Str} (hpart : part <+: r.header)
    (hne : part ≠ r.header) :
    respond beast handle world part
      = (world, some (stockResponse .c400).toString) := by
  unfold respond RequestParser.parse
  rw [hdoc.needMore r.whole hpart hne]
  rfl

/-- Whole requests at the front of the reads decide the responses. -/
theorem respondAll_whole (hdoc : beast.Documented) {chunks : List Str}
    {rs : List (WireRequest beast)}
    (hwhole : List.Forall₂ (fun chunk r => r.bytes <+: chunk) chunks rs)
    (world : σ) :
    respondAll beast handle world chunks
      = respondAll beast handle world (rs.map WireRequest.bytes) := by
  induction hwhole generalizing world with
  | nil => rfl
  | cons hfirst _ ih =>
      rw [List.map_cons, respondAll, respondAll,
        respond_whole hdoc world _ hfirst]
      split
      · rfl
      · rw [ih]

-- ================================================================== runs

/-- Nothing happens to a session that is closed. -/
theorem run_closed (hrun : Run (Session.Step beast handle) s es s')
    (hphase : s.phase = .closed) : es = [] := by
  cases hrun with
  | nil => rfl
  | cons hst =>
      cases hst with
      | read hreading => exact absurd (hphase.symm.trans hreading) nofun
      | threw hreading => exact absurd (hphase.symm.trans hreading) nofun
      | readError hreading =>
          exact absurd (hphase.symm.trans hreading) nofun
      | written hwriting => exact absurd (hphase.symm.trans hwriting) nofun
      | writeError hwriting =>
          exact absurd (hphase.symm.trans hwriting) nofun

/-- One response for each read that was answered, in their order, from
any point of a run. -/
theorem run_sent (hrun : Run (Session.Step beast handle) s es s') :
    (respondAll beast handle s.world (readsOf es)).map (s.sent ++ ·)
      = some s'.sent := by
  induction hrun with
  | nil s => exact congrArg some (List.append_nil s.sent)
  | cons hst hrest ih =>
      cases hst with
      | read hphase hpos hfits hresponse =>
          rw [handleResponse_fill] at hresponse
          rw [readsOf, respondAll, hresponse]
          simp only [Option.map_map, ← ih]
          congr 1
          funext responses
          exact List.append_cons ..
      | threw =>
          cases run_closed hrest rfl
          cases hrest
          exact congrArg some (List.append_nil _)
      | readError => exact ih
      | written => exact ih
      | writeError => exact ih

/-- A read whose handling does not return is the last event. -/
theorem run_threw {before after : List SessionEvent} {chunk : Str}
    (hrun : Run (Session.Step beast handle) s
      (before ++ .threw chunk :: after) s') : after = [] := by
  obtain ⟨mid, -, hrest⟩ := hrun.split
  cases hrest with
  | cons hst hafter =>
      cases hst with
      | threw => exact run_closed hafter rfl

/-- What a session answers. In every run, over any handlers, which may
throw, and whatever the connection delivers in reads of up to 1024 bytes:
exactly one response for each read whose handling returns, in order, each
that of the read's bytes alone; and a read whose handling does not return
gets none, and is the last. When every read that is answered begins with
a whole request, the responses are those of the requests, whatever else
the reads carry; and a read that ends inside the header it begins with is
answered 400. -/
theorem session_answers_reads (hdoc : beast.Documented)
    {buffer : Buffer} {world : σ}
    (hrun : Run (Session.Step beast handle) (.start buffer world) es s) :
    respondAll beast handle world (readsOf es) = some s.sent
    ∧ (∀ before chunk after, es = before ++ .threw chunk :: after →
      after = [])
    ∧ (∀ rs : List (WireRequest beast),
      List.Forall₂ (fun chunk r => r.bytes <+: chunk) (readsOf es) rs →
      respondAll beast handle world (rs.map WireRequest.bytes)
        = some s.sent)
    ∧ (∀ (r : WireRequest beast) (part : Str) (w : σ),
      part <+: r.header → part ≠ r.header →
      respond beast handle w part
        = (w, some (stockResponse .c400).toString)) := by
  have hsent : respondAll beast handle world (readsOf es) = some s.sent := by
    rw [← run_sent hrun]
    exact (Option.map_id' ..).symm
  refine ⟨hsent, fun before chunk after heq => ?_, fun rs hwhole => ?_,
    fun r part w hpart hne => ?_⟩
  · subst heq
    exact run_threw hrun
  · rw [← respondAll_whole hdoc hwhole, hsent]
  · exact respond_cut hdoc w r hpart hne

variable (beast handle) in
/-- However the bytes of some requests are cut into reads, the responses
are those of the requests. -/
def AnswersEachRequest : Prop :=
  ∀ (buffer : Buffer) (world : σ) (rs : List (WireRequest beast))
    (es : List SessionEvent) (s : Session σ),
    Run (Session.Step beast handle) (.start buffer world) es s →
    (readsOf es).flatten = (rs.map WireRequest.bytes).flatten →
    respondAll beast handle world (rs.map WireRequest.bytes)
      = some s.sent

end

-- ============================================================ a connection

/-- Handlers that find nothing. -/
def findsNothing : Handling Unit :=
  fun _ _ => ((), some (stockResponse .c404))

/-- `GET / HTTP/1.1` with no header fields. -/
def plainGet : WireRequest reference where
  header := "GET / HTTP/1.1\r\n\r\n".toList
  body := []
  message :=
    { version := 11, methodString := "GET".toList, target := "/".toList
      fields := [], body := [] }
  whole := by
    apply Beast.Whole.wire
    refine ⟨⟨"GET / HTTP/1.1".toList, []⟩, ⟨?_, ?_, ?_, ?_⟩, ?_, ?_, ?_⟩
      <;> decide
  allowed := by decide

/-- An array of zeros. -/
def zeroBuffer : Buffer :=
  ⟨List.replicate maxLength '\x00', List.length_replicate ..⟩

theorem session_answers_plainGet :
    ∃ s, Run (Session.Step reference findsNothing) (.start zeroBuffer ())
        [.read plainGet.bytes, .written] s
      ∧ some [(stockResponse .c404).toString] = some s.sent := by
  have hfits : plainGet.bytes.length ≤ maxLength := by decide
  have hresponse : respond reference findsNothing () plainGet.bytes
      = ((), some (stockResponse .c404).toString) := by decide +kernel
  have hrun : Run (Session.Step reference findsNothing)
      (.start zeroBuffer ()) [.read plainGet.bytes, .written] _ :=
    .cons (.read rfl (by decide) hfits
      ((handleResponse_fill ..).trans hresponse))
      (.cons (.written rfl) (.nil _))
  refine ⟨_, hrun, ?_⟩
  rw [← (session_answers_reads reference_documented hrun).2.2.1 [plainGet]
    (.cons (List.prefix_refl _) .nil)]
  simp only [List.map_cons, List.map_nil, respondAll, hresponse,
    Option.map_some]

/-- Two requests in one read get one response. -/
theorem pipelined_unanswered :
    ¬ AnswersEachRequest reference findsNothing := by
  intro hall
  have hfits : (plainGet.bytes ++ plainGet.bytes).length ≤ maxLength := by
    decide
  have htwo : respond reference findsNothing ()
      (plainGet.bytes ++ plainGet.bytes)
        = ((), some (stockResponse .c404).toString) := by decide +kernel
  have hone : respond reference findsNothing () plainGet.bytes
      = ((), some (stockResponse .c404).toString) := by decide +kernel
  have hsent := hall zeroBuffer () [plainGet, plainGet]
    [.read (plainGet.bytes ++ plainGet.bytes)] _
    (.cons (.read rfl (by decide) hfits
      ((handleResponse_fill ..).trans htwo)) (.nil _)) (by decide)
  simp only [List.map_cons, List.map_nil, respondAll, hone,
    Option.map_some] at hsent
  have hcount := congrArg List.length (Option.some.inj hsent)
  exact absurd hcount (by decide)

end Creeper

/-
Concurrent GET, PUT and POST requests on one entity and id: what a GET
can see of a document that is being written.

# The file

A PUT or POST empties the file, and writes its document in a later call.
`Whole` is what stays true of the file meanwhile: it is empty, or has a
complete document. Each request meets a triple (`onDisk_meets`): it
writes complete documents only, and a GET that reads a complete document
answers with it, or with 404.

# Torn reads

Two steps break this (`Tears`): a GET that reads the file while it is
empty, and a write over a longer document, which leaves the end of the
other one behind it. In a run without such steps every GET answers as it
should (`no_torn_reads`).
-/
import Creeper.Proofs.Crud.Directory

namespace Creeper

open Lib

variable {ι : Type} [DecidableEq ι] {J : Type}

/-- Requests in progress on one disk. -/
abbrev DiskTraffic (ι : Type) :=
  Conf ι DiskCall DiskCall.Reply (Option Response) Disk

namespace CrudRequestHandler

variable {h : CrudRequestHandler J} {s : RealEntityStorage}
  {fs : FileSystem} {e : Str} {id : CInt} {req : Request}
  {reqs : ι → Request} {started : Set Request} {d : Disk}
  {cf cf' : DiskTraffic ι} {i : ι}

/-- All requests at their beginning. -/
def arrive (h : CrudRequestHandler J) (s : RealEntityStorage)
    (reqs : ι → Request) (d : Disk) : DiskTraffic ι :=
  { shared := d, thread := fun i => h.onDisk s (reqs i) }

/-- A GET or PUT of the entity and id, or a POST to the entity. -/
def OnDocument (h : CrudRequestHandler J) (e : Str) (id : CInt)
    (req : Request) : Prop :=
  e ≠ [] ∧ h.extractEntity req.uri = e ∧
    match getMethod req.method with
    | .get => isValidInteger (h.extractId req.uri) = some id
    | .put => isValidInteger (h.extractId req.uri) = some id
    | .post => True
    | .delete => False
    | .invalidMethod => False

/-- The text is the complete document of one of the PUT and POST
requests. -/
def Document (h : CrudRequestHandler J) (reqs : Set Request) (text : Str) :
    Prop :=
  ∃ req ∈ reqs, ∃ v,
    (getMethod req.method = .put ∨ getMethod req.method = .post)
      ∧ h.Carries req v ∧ text = h.json.serialize v

/-- The file, if it is there, is empty or has a complete document. -/
def Whole (h : CrudRequestHandler J) (reqs : Set Request) (loc : Loc)
    (d : Disk) : Prop :=
  ∀ text, d.entry loc = some (.file text) → text = [] ∨ h.Document reqs text

/-- What a GET should answer: 404, or 200 with the complete document of
one of the PUT and POST requests. -/
def Answered (h : CrudRequestHandler J) (reqs : Set Request)
    (answer : Option Response) : Prop :=
  ∃ res, answer = some res ∧ (res.statusCode = 404
    ∨ (res.statusCode = 200 ∧ h.Document reqs res.body))

/-- The next call of the request tears a document: a GET reads an empty
file, or a document is written over a longer one. -/
def tears (fs : FileSystem) (req : Request) (d : Disk) :
    DiskProg Response → Bool
  | .call (.read path) _ =>
      getMethod req.method = .get && fs.contents path d = []
  | .call (.write path data) _ =>
      data.length < (d.content (fs.resolve path)).length
  | _ => false

/-- A request is about to tear a document. -/
def Tears (fs : FileSystem) (reqs : ι → Request) (cf : DiskTraffic ι)
    (i : ι) : Prop :=
  tears fs (reqs i) cf.shared (cf.thread i)

instance (fs : FileSystem) (reqs : ι → Request) (cf : DiskTraffic ι)
    (i : ι) : Decidable (Tears fs reqs cf i) :=
  inferInstanceAs (Decidable (_ = true))

-- ============================================================== one request

variable (h) in
/-- What a request on the document writes: complete documents, and
nothing is removed. -/
def Writes (req : Request) : DiskCall → Prop
  | .write _ data => h.Document {req} data
  | .remove _ => False
  | _ => True

variable (h) in
/-- What a request relies on: a GET reads a complete document. -/
def Reads (reqs : Set Request) (path : Str) (req : Request) :
    (c : DiskCall) → c.Reply → Prop
  | .read path', text =>
      getMethod req.method = .get → path' = path → h.Document reqs text
  | _, _ => True

variable (h) in
/-- What a request returns: a GET what it should. -/
def Returns (reqs : Set Request) (req : Request)
    (answer : Option Response) : Prop :=
  getMethod req.method = .get → h.Answered reqs answer

/-- Opening and writing a file. -/
theorem writeFile_meets {α : Type} {guarantee : DiskCall → Prop}
    {rely : (c : DiskCall) → c.Reply → Prop} {path data : Str}
    {written failed : α} (hopen : guarantee (.openTruncate path))
    (hwrite : guarantee (.write path data)) :
    (Prog.call (.openTruncate path) fun opened =>
        if opened then .call (.write path data) fun _ => .ret written
        else .ret failed : Prog DiskCall DiskCall.Reply α).Meets guarantee
      rely fun _ => True := by
  refine ⟨hopen, fun opened _ => ?_⟩
  cases opened with
  | false => trivial
  | true => exact ⟨hwrite, fun _ _ => trivial⟩

/-- A create that writes complete documents. -/
theorem create_meets {rely : (c : DiskCall) → c.Reply → Prop} {data : Str}
    (hdata : h.Document {req} data) :
    (s.create e data).Meets (h.Writes req) rely fun _ => True := by
  refine ⟨trivial, fun made _ => ?_⟩
  cases made with
  | none => trivial
  | some _ =>
      refine ⟨trivial, fun entries _ => ?_⟩
      cases entries with
      | none => trivial
      | some entries =>
          simp only
          split
          · trivial
          · exact writeFile_meets trivial hdata

/-- An update that writes complete documents. -/
theorem update_meets {rely : (c : DiskCall) → c.Reply → Prop} {data : Str}
    (hdata : h.Document {req} data) :
    (s.update e id data).Meets (h.Writes req) rely fun _ => True := by
  refine ⟨trivial, fun made _ => ?_⟩
  cases made with
  | none => trivial
  | some _ => exact writeFile_meets trivial hdata

/-- A retrieve finds nothing, or what it relies on. -/
theorem retrieve_meets {P : Str → Prop}
    {rely : (c : DiskCall) → c.Reply → Prop}
    (hread : ∀ text, rely (.read (s.makeEntityPath e id)) text → P text) :
    (s.retrieve e id).Meets (h.Writes req) rely fun result =>
      ∃ found, result = some found ∧ ∀ text, found = some text → P text := by
  refine ⟨trivial, fun opened _ => ?_⟩
  cases opened with
  | false => exact ⟨none, rfl, fun _ hnone => by cases hnone⟩
  | true =>
      refine ⟨trivial, fun text htext => ⟨some text, rfl, ?_⟩⟩
      intro text' heq
      cases heq
      exact hread text htext

/-- The store of a PUT writes complete documents. -/
theorem putStore_meets {rely : (c : DiskCall) → c.Reply → Prop} {v : J}
    {P : Option Response → Prop}
    (hdata : h.Document {req} (h.json.serialize v))
    (hanswer : ∀ answer, P answer) :
    ((h.putStore req id v).through s.perform).Meets (h.Writes req) rely
      P := by
  unfold putStore
  rw [Prog.through_call]
  apply (retrieve_meets (P := fun _ => True) fun _ _ => trivial).bind
  intro previous _
  cases previous with
  | none => exact hanswer none
  | some previous =>
      unfold Prog.orThrow
      simp only
      rw [Prog.through_call]
      apply (update_meets hdata).bind
      intro updated _
      cases updated <;> exact hanswer _

/-- A complete document is answered with itself. -/
theorem getAnswer_document {reqs : Set Request}
    (hback : ∀ req ∈ reqs, h.ReadsBack req) {text : Str} (htext : h.Document reqs text) :
    h.Answered reqs (some (h.getAnswer req (some text))) := by
  have htext' := htext
  obtain ⟨writer, hwriter, v, hmethod, hv, rfl⟩ := htext'
  refine ⟨_, rfl, Or.inr ?_⟩
  unfold getAnswer
  simp only
  rw [hback writer hwriter v hmethod hv]
  exact ⟨rfl, htext⟩

/-- What a request on the document writes, relies on and returns. -/
theorem onDisk_meets (hreq : h.OnDocument e id req) {reqs : Set Request}
    (hback : ∀ req ∈ reqs, h.ReadsBack req) :
    (h.onDisk s req).Meets (h.Writes req)
      (h.Reads reqs (s.makeEntityPath e id) req) (h.Returns reqs req) := by
  obtain ⟨hne, hentity, hkind⟩ := hreq
  have hhandled := h.handled req
  unfold onDisk
  generalize h.handleRequest req = p at hhandled ⊢
  cases hhandled with
  | refused hno hcode hmissing =>
      intro hget
      rw [hget] at hkind
      refine ⟨_, rfl, Or.inl (hmissing (Or.inl hget) ?_ ?_)⟩
      · rw [hentity]
        exact hne
      · intro hnil
        rw [hnil] at hkind
        cases hkind
  | @post v _ hmethod hv =>
      have hdata : h.Document {req} (h.json.serialize v) :=
        ⟨req, rfl, v, Or.inr hmethod, hv, rfl⟩
      have hanswer : ∀ answer, h.Returns reqs req answer :=
        fun _ => of_other_method hmethod (by decide)
      rw [Prog.through_call, hentity]
      apply (create_meets hdata).bind
      intro created _
      cases created <;> exact hanswer _
  | @get id' _ hmethod hid =>
      rw [hmethod] at hkind
      obtain rfl : id' = id := Option.some.inj (hid.symm.trans hkind)
      rw [Prog.through_call, hentity]
      apply (retrieve_meets fun text htext => htext hmethod rfl).bind
      intro _ hex
      obtain ⟨found, rfl, hfound⟩ := hex
      intro _
      cases found with
      | none => exact ⟨_, rfl, Or.inl rfl⟩
      | some text => exact getAnswer_document hback (hfound text rfl)
  | list _ hmethod hid =>
      rw [hmethod, hid] at hkind
      cases hkind
  | @put id' v _ hmethod hid hv =>
      rw [hmethod] at hkind
      have hdata : h.Document {req} (h.json.serialize v) :=
        ⟨req, rfl, v, Or.inl hmethod, hv, rfl⟩
      have hanswer : ∀ answer, h.Returns reqs req answer :=
        fun _ => of_other_method hmethod (by decide)
      exact putStore_meets hdata hanswer
  | delete _ hmethod =>
      rw [hmethod] at hkind
      exact hkind.elim

-- ================================================================= the file

/-- A truncation leaves the file whole, or empty. -/
theorem whole_openTruncate {reqs : Set Request} {loc : Loc}
    (hwhole : h.Whole reqs loc d) (path : Str) :
    h.Whole reqs loc (fs.serve (.openTruncate path) d).1 := by
  rcases fs.serve_openTruncate_cases path d with
    hopen | ⟨-, -, hentry, hopen⟩
  · rw [hopen]
    exact hwhole
  · rw [hopen]
    intro text htext
    rw [Disk.entry_put (Disk.ne_nil_of_not_dir hentry)] at htext
    split at htext
    · cases htext
      exact Or.inl rfl
    · exact hwhole text htext

/-- A complete document over no longer content leaves the file whole. -/
theorem whole_write {reqs : Set Request} {loc : Loc} {path data : Str}
    (hwhole : h.Whole reqs loc d) (hdata : h.Document reqs data)
    (hlength : (d.content (fs.resolve path)).length ≤ data.length) :
    h.Whole reqs loc (fs.serve (.write path data) d).1 := by
  unfold FileSystem.serve
  simp only
  intro text htext
  by_cases hloc : loc = fs.resolve path
  · subst hloc
    cases hfile : d.isFile (fs.resolve path) with
    | false =>
        rw [FileSystem.write_of_not_file hfile] at htext
        exact hwhole text htext
    | true =>
        obtain ⟨content, hentry⟩ := Disk.isFile_iff.mp hfile
        rw [FileSystem.content_of_file hentry] at hlength
        rw [FileSystem.entry_write_longer hentry hlength] at htext
        cases htext
        exact Or.inr hdata
  · rw [FileSystem.entry_write_ne hloc] at htext
    exact hwhole text htext

/-- A call that writes a complete document, and over no longer one,
leaves the file whole. -/
theorem whole_serve {reqs : Set Request} {loc : Loc} {c : DiskCall}
    (hwhole : h.Whole reqs loc d) (hwrites : ∀ path data,
      c = .write path data → h.Document reqs data
        ∧ (d.content (fs.resolve path)).length ≤ data.length)
    (hremove : ∀ path, c ≠ .remove path) :
    h.Whole reqs loc (fs.serve c d).1 := by
  cases c with
  | createDirectories path =>
      have hmkdirs : ∀ ways, h.Whole reqs loc (d.mkdirs ways) :=
        fun ways text htext =>
          hwhole text ((Disk.entry_mkdirs_file _ _ _).mp htext)
      rcases fs.serve_createDirectories path d with
        ⟨-, hmade⟩ | ⟨-, made, -, hmade⟩
      · rw [hmade]
        exact hmkdirs _
      · rw [hmade]
        exact hmkdirs made
  | directoryIterator path => exact hwhole
  | pathExists path => exact hwhole
  | isDirectory path => exact hwhole
  | openTruncate path => exact whole_openTruncate hwhole path
  | write path data =>
      obtain ⟨hdata, hlength⟩ := hwrites path data rfl
      exact whole_write hwhole hdata hlength
  | openRead path => exact hwhole
  | read path => exact hwhole
  | remove path => exact absurd rfl (hremove path)

/-- Whoever reads a whole file that is not empty reads a complete
document. -/
theorem whole_read {reqs : Set Request} {path : Str}
    (hwhole : h.Whole reqs (fs.resolve path) d)
    (hsome : fs.contents path d ≠ []) :
    h.Document reqs (fs.contents path d) := by
  rcases fs.contents_cases path d with hnone | hcontent
  · exact absurd hnone hsome
  rw [hcontent] at hsome ⊢
  unfold Disk.content at hsome ⊢
  split
  · next text hentry =>
    rw [hentry] at hsome
    exact (hwhole text hentry).resolve_left hsome
  · next hnot =>
    exfalso
    split at hsome
    · next text hentry => exact hnot text hentry
    · exact hsome rfl

-- ================================================================= any run

omit [DecidableEq ι] in
/-- Serving a call that tears nothing. -/
theorem serve_started (hmem : reqs i ∈ started)
    (hwhole : h.Whole started (fs.resolve (s.makeEntityPath e id)) cf.shared)
    (hsafe : ¬ Tears fs reqs cf i) {c : DiskCall}
    {k : c.Reply → DiskProg Response} (hcall : cf.thread i = .call c k)
    (hwrites : h.Writes (reqs i) c) :
    h.Whole started (fs.resolve (s.makeEntityPath e id))
        (fs.serve c cf.shared).1
      ∧ h.Reads started (s.makeEntityPath e id) (reqs i) c
          (fs.serve c cf.shared).2 := by
  unfold Tears at hsafe
  rw [hcall] at hsafe
  constructor
  · apply whole_serve hwhole
    · intro path data heq
      subst heq
      obtain ⟨req, rfl, hdata⟩ := hwrites
      refine ⟨⟨_, hmem, hdata⟩, ?_⟩
      unfold tears at hsafe
      simpa using hsafe
    · intro path heq
      subst heq
      exact hwrites
  · cases c with
    | read path =>
        intro hget hpath
        subst hpath
        apply whole_read hwhole
        unfold tears at hsafe
        simpa [hget] using hsafe
    | _ => trivial

/-- No torn reads, but for the two kinds of step that tear. For every
number of GET, PUT and POST requests on an entity and id, every disk
where the file is empty, missing or a document of an earlier request,
and every schedule of the calls: if no step reads an empty file for a
GET or writes over a longer document, and what has been written is read
back as it was, every GET that has returned has answered 404, or 200 with
the complete document of a PUT or POST that has started. -/
theorem no_torn_reads (h : CrudRequestHandler J)
    (s : RealEntityStorage) (fs : FileSystem) (e : Str) (id : CInt) (reqs : ι → Request)
    (hreqs : ∀ i, h.OnDocument e id (reqs i)) (earlier : Set Request)
    (d : Disk)
    (hd : h.Whole earlier (fs.resolve (s.makeEntityPath e id)) d)
    (sched : List ι)
    (hback : ∀ req ∈ earlier ∪ {req | ∃ j ∈ sched, req = reqs j},
      h.ReadsBack req)
    (cf : DiskTraffic ι)
    (hrun : Run (Guarded (fun cf i => ¬ Tears fs reqs cf i)
      (Conf.Step fs.serve)) (h.arrive s reqs d) sched cf)
    (i : ι) (hget : getMethod (reqs i).method = .get)
    (answer : Option Response) (hanswer : cf.thread i = .ret answer) :
    h.Answered (earlier ∪ {req | ∃ j ∈ sched, req = reqs j}) answer := by
  have hearlier : h.Whole (earlier ∪ {req | ∃ j ∈ sched, req = reqs j})
      (fs.resolve (s.makeEntityPath e id)) d := by
    intro text htext
    rcases hd text htext with hnil | ⟨req, hreq, hdata⟩
    · exact Or.inl hnil
    · exact Or.inr ⟨req, Or.inl hreq, hdata⟩
  have hmem : ∀ j ∈ sched,
      reqs j ∈ earlier ∪ {req | ∃ j ∈ sched, req = reqs j} :=
    fun j hj => Or.inr ⟨j, hj, rfl⟩
  generalize earlier ∪ {req | ∃ j ∈ sched, req = reqs j} = started
    at hback hearlier hmem ⊢
  have hlabels : Run (Guarded (fun cf i => i ∈ sched ∧ ¬ Tears fs reqs cf i)
      (Conf.Step fs.serve)) (h.arrive s reqs d) sched cf :=
    (hrun.guarded_of_forall fun _ hj => hj).mono
      fun _ _ _ hst => ⟨⟨hst.1, hst.2.1⟩, hst.2.2⟩
  have hmeets : h.Whole started (fs.resolve (s.makeEntityPath e id)) cf.shared
      ∧ ∀ i, (cf.thread i).Meets (h.Writes (reqs i))
          (h.Reads started (s.makeEntityPath e id) (reqs i))
          (h.Returns started (reqs i)) :=
    Conf.run_meets (I := h.Whole started _)
      (fun cf j c k hwhole hQ hcall hwrites =>
        serve_started (hmem j hQ.1) hwhole hQ.2 hcall hwrites)
      hlabels hearlier fun j => onDisk_meets (hreqs j) hback
  have hi := hmeets.2 i
  rw [hanswer] at hi
  exact hi hget

/-- A PUT and a GET of `/api/a/1`. -/
def putAndGet (get : Bool) : Request :=
  if get then jsonRequest "GET" "/api/a/1" ""
  else jsonRequest "PUT" "/api/a/1" "7"

theorem putAndGet_onDocument :
    ∀ get, api.OnDocument "a".toList (.ofInt 1) (putAndGet get) := by
  intro get
  cases get
  · refine ⟨by decide, by decide, ?_⟩
    show isValidInteger (api.extractId (putAndGet false).uri) = _
    decide
  · refine ⟨by decide, by decide, ?_⟩
    show isValidInteger (api.extractId (putAndGet true).uri) = _
    decide

/-- There is no document yet. -/
theorem dataDisk_whole :
    api.Whole ∅ (plainSystem.resolve
      (dataStorage.makeEntityPath "a".toList (.ofInt 1))) dataDisk := by
  intro text htext
  have hnone : dataDisk.entry (plainSystem.resolve
      (dataStorage.makeEntityPath "a".toList (.ofInt 1))) = none := by
    decide +kernel
  rw [hnone] at htext
  cases htext

theorem no_torn_reads_in_turn :
    ∃ cf : DiskTraffic Bool, ∃ answer,
      cf.thread true = .ret answer
        ∧ answer.map Response.statusCode = some 200
        ∧ api.Answered (∅ ∪ {req | ∃ j ∈ [false, false, false, false, true, true],
            req = putAndGet j}) answer := by
  have hplay : (Conf.playGuarded
      (fun cf i => ¬ Tears plainSystem putAndGet cf i) plainSystem.serve
      (api.arrive dataStorage putAndGet dataDisk)
      [false, false, false, false, true, true]).any
        (fun cf => (cf.thread true).result.map
          (Option.map Response.statusCode) = some (some 200)) := by
    decide +kernel
  obtain ⟨cf, hcf, hresult⟩ := (Option.any_eq_true _ _).mp hplay
  obtain ⟨answer, hanswer, hcode⟩ :=
    Option.map_eq_some_iff.mp (of_decide_eq_true hresult)
  rw [Prog.result_eq_some_iff] at hanswer
  exact ⟨cf, answer, hanswer, hcode, no_torn_reads api dataStorage
    plainSystem "a".toList (.ofInt 1) putAndGet putAndGet_onDocument ∅
    dataDisk dataDisk_whole _ (fun req _ => api_readsBack req) cf
    (Conf.run_of_playGuarded hcf) true (by decide) answer hanswer⟩

/-- A GET between the truncation of the file and its write. -/
theorem torn_read :
    ¬ ∀ (sched : List Bool) (cf : DiskTraffic Bool)
      (answer : Option Response),
      Run (Conf.Step plainSystem.serve)
        (api.arrive dataStorage putAndGet dataDisk) sched cf →
      cf.thread true = .ret answer →
      api.Answered (∅ ∪ {req | ∃ j ∈ sched, req = putAndGet j}) answer := by
  intro hclaim
  have hplay : (Conf.play plainSystem.serve
      (api.arrive dataStorage putAndGet dataDisk)
      [false, false, false, true, true]).any
        (fun cf => (cf.thread true).result.map
          (Option.map Response.statusCode) = some (some 500)) := by
    decide +kernel
  obtain ⟨cf, hcf, hresult⟩ := (Option.any_eq_true _ _).mp hplay
  obtain ⟨answer, hanswer, hcode⟩ :=
    Option.map_eq_some_iff.mp (of_decide_eq_true hresult)
  rw [Prog.result_eq_some_iff] at hanswer
  obtain ⟨res, rfl, hanswered⟩ :=
    hclaim _ cf answer (Conf.run_of_play hcf) hanswer
  have h500 : res.statusCode = 500 := Option.some.inj hcode
  rcases hanswered with h404 | ⟨h200, -⟩
  · rw [h404] at h500
    cases h500
  · rw [h200] at h500
    cases h500

end CrudRequestHandler

end Creeper

/-
What the static handler answers.

# The status and the body

A path is absent, a directory, a file that can be opened or a file that
cannot, or the system cannot look it up (`FileState`), and `inspect` is
what the handler is told of each. `answer_of` goes through the five. For
a file that cannot be opened, the 404 that is set is overwritten by the
200 below it; for a path that cannot be looked up, the question itself
throws. The handler tells the truth about every other path
(`static_truthful_iff`).

# The content type

`get_file_content_type` cuts at the last dot of everything behind the
root, directories included. Where that is a dot in a directory name,
what comes after it contains a slash, and no key of `CONTENT_TYPE` does;
so the type is that of the last segment (`contentType_iff`).
-/
import Mathlib.Data.Bool.AllAny
import Creeper.Lib.Path
import Creeper.Static

namespace Creeper

open Lib

-- ========================================================= the file system

/-- What there is at a path. At an `unknown` one the system does not
say, but fails with an error other than that nothing is there: a name
that is too long, a directory that may not be searched, a circle of
links. -/
inductive FileState
  | absent
  | directory
  | file (content : Str)
  | unreadable
  | unknown
  deriving DecidableEq

/-- What the file system says of a path. A directory can be opened as a
stream, which is then empty. -/
def FileState.reply : FileState → (c : FileCall) → c.Reply
  | .unknown, .pathExists _ => none
  | .absent, .pathExists _ => some false
  | _, .pathExists _ => some true
  | .unknown, .isRegularFile _ => none
  | .file _, .isRegularFile _ => some true
  | .unreadable, .isRegularFile _ => some true
  | _, .isRegularFile _ => some false
  | .file content, .openFile _ => some content
  | .directory, .openFile _ => some []
  | _, .openFile _ => none

/-- The system says what is at the path, and if it is a regular file, it
can be opened. -/
def FileState.Settled (state : FileState) : Prop :=
  state ≠ .unreadable ∧ state ≠ .unknown

instance (state : FileState) : Decidable state.Settled :=
  inferInstanceAs (Decidable (_ ∧ _))

/-- A file system that is only read. -/
def inspect (_ : Nat) :
    Lib.Server FileCall FileCall.Reply (Str → FileState) :=
  fun c disk => (disk, (disk c.path).reply c)

namespace StaticRequestHandler

variable {h : StaticRequestHandler} {req : Request}

/-- The answer of `handle_request`, `none` where it throws. -/
def answer (h : StaticRequestHandler) (disk : Str → FileState)
    (req : Request) : Option Response :=
  (Prog.eval inspect 0 (h.handleRequest req) disk).2

/-- An answer that tells the truth about what is there: 200 and the
whole content for a file that can be opened, the stock 404 otherwise. -/
def TellsTruth : FileState → Option Response → Prop
  | .file content, answer =>
      ∃ res, answer = some res ∧ res.statusCode = 200 ∧ res.body = content
  | _, answer => answer = some (stockResponse .c404)

-- ================================================= the status and the body

/-- The answer for each state of the computed file. -/
theorem answer_of {disk : Str → FileState} {filePath : Str}
    (hpath : h.generateFilePath req.uri = some filePath) :
    h.answer disk req = match disk filePath with
      | .absent => some (stockResponse .c404)
      | .directory => some (stockResponse .c404)
      | .file content => some (h.fileResponse req filePath (some content))
      | .unreadable => some (h.fileResponse req filePath none)
      | .unknown => none := by
  unfold answer handleRequest
  rw [hpath]
  show (Prog.eval inspect 0 (.call (.pathExists filePath) _) disk).2 = _
  rw [Prog.eval_call]
  cases hstate : disk filePath <;>
    simp [inspect, FileCall.path, FileState.reply, hstate, Prog.eval_call,
      handleThere]

/-- A file that cannot be opened is answered 200. -/
theorem not_tellsTruth {disk : Str → FileState} {filePath : Str}
    (hpath : h.generateFilePath req.uri = some filePath)
    (hstate : disk filePath = .unreadable) :
    ¬ TellsTruth .unreadable (h.answer disk req) := by
  rw [answer_of hpath, hstate]
  intro htruth
  have hstatus := congrArg Response.statusCode (Option.some.inj htruth)
  exact absurd hstatus (show ¬ (200 : Int) = 404 by decide)

/-- A path that cannot be looked up is not answered at all. -/
theorem not_tellsTruth_unknown {disk : Str → FileState} {filePath : Str}
    (hpath : h.generateFilePath req.uri = some filePath)
    (hstate : disk filePath = .unknown) :
    ¬ TellsTruth .unknown (h.answer disk req) := by
  rw [answer_of hpath, hstate]
  intro htruth
  cases htruth

/-- Static responses tell the truth, exactly. For every location and
root, every state of the file system and every routed URI: the answer is
200 with the whole content when the computed file can be opened and the
stock 404 when it is anything else, if and only if the file system can
say what is at its path, and it is not a regular file that cannot be
opened. -/
theorem static_truthful_iff (h : StaticRequestHandler)
    (disk : Str → FileState) (req : Request)
    (hstarts : h.baseUri <+: req.uri) :
    TellsTruth (disk (h.rootPath ++ req.uri.drop h.baseUri.length))
        (h.answer disk req)
      ↔ (disk (h.rootPath ++ req.uri.drop h.baseUri.length)).Settled := by
  have hpath := generateFilePath_of_starts hstarts
  cases hstate : disk (h.rootPath ++ req.uri.drop h.baseUri.length) with
  | absent =>
      rw [answer_of hpath, hstate]
      exact iff_of_true rfl (by decide)
  | directory =>
      rw [answer_of hpath, hstate]
      exact iff_of_true rfl (by decide)
  | file content =>
      rw [answer_of hpath, hstate]
      exact iff_of_true ⟨_, rfl, rfl, rfl⟩
        ⟨FileState.noConfusion, FileState.noConfusion⟩
  | unreadable =>
      exact iff_of_false (not_tellsTruth hpath hstate) (by decide)
  | unknown =>
      exact iff_of_false (not_tellsTruth_unknown hpath hstate) (by decide)

/-- `/static` over `/data`. -/
def dataHandler : StaticRequestHandler :=
  ⟨"/static".toList, "/data".toList⟩

/-- A file system with one path. -/
def onlyPath (path : Str) (state : FileState) : Str → FileState :=
  fun p => if p = path then state else .absent

theorem static_truthful_file :
    TellsTruth (.file "hello".toList)
      (dataHandler.answer
        (onlyPath "/data/a.txt".toList (.file "hello".toList))
        { uri := "/static/a.txt".toList }) :=
  (static_truthful_iff dataHandler
    (onlyPath "/data/a.txt".toList (.file "hello".toList))
    { uri := "/static/a.txt".toList } ⟨"/a.txt".toList, rfl⟩).mpr
      (by decide)

theorem static_untruthful :
    ¬ TellsTruth .unreadable
      (dataHandler.answer (onlyPath "/data/a.txt".toList .unreadable)
        { uri := "/static/a.txt".toList }) := by
  have hpath : dataHandler.generateFilePath "/static/a.txt".toList
      = some "/data/a.txt".toList := by
    decide
  exact not_tellsTruth hpath (if_pos rfl)

-- ======================================================== the content type

/-- The last segment of a path: what comes after its last slash, or all
of it. -/
def LastSegment (path segment : Str) : Prop :=
  '/' ∉ segment ∧ (path = segment ∨ ∃ dir, path = dir ++ '/' :: segment)

/-- What comes after the last dot of a text that has one. -/
def Extension (text extension : Str) : Prop :=
  '.' ∉ extension ∧ ∃ stem, text = stem ++ '.' :: extension

/-- The last segment has an extension, and `CONTENT_TYPE` the type of
it. -/
def HasType (path type : Str) : Prop :=
  ∃ segment extension, LastSegment path segment
    ∧ Extension segment extension
    ∧ contentTypes.lookup extension = some type

/-- The extension of a text, where it has one. -/
theorem fileExtension_of {text extension : Str}
    (h : Extension text extension) :
    fileExtension text = extension := by
  obtain ⟨hdot, stem, rfl⟩ := h
  have hall : ∀ c ∈ extension.reverse, decide (c ≠ '.') = true := by
    intro c hc
    rw [decide_eq_true_eq]
    intro heq
    subst heq
    exact hdot (List.mem_reverse.mp hc)
  have hcut : (stem ++ '.' :: extension).reverse
      = extension.reverse ++ '.' :: stem.reverse := by
    simp
  rw [fileExtension, if_pos (by simp), hcut,
    List.takeWhile_append_of_pos hall, List.takeWhile_cons_of_neg (by simp),
    List.append_nil, List.reverse_reverse]

/-- A text with a dot has an extension. -/
theorem exists_extension {text : Str} (h : '.' ∈ text) :
    ∃ extension, Extension text extension := by
  obtain ⟨stem, extension, rfl, hdot⟩ := exists_last_sep h
  exact ⟨extension, hdot, stem, rfl⟩

/-- Every path has a last segment. -/
theorem exists_lastSegment (path : Str) :
    ∃ segment, LastSegment path segment := by
  by_cases h : '/' ∈ path
  · obtain ⟨dir, segment, rfl, hslash⟩ := exists_last_sep h
    exact ⟨segment, hslash, Or.inr ⟨dir, rfl⟩⟩
  · exact ⟨path, h, Or.inl rfl⟩

/-- A text without slashes goes on the last segment. -/
theorem LastSegment.append {path segment rest : Str}
    (h : LastSegment path segment) (hrest : '/' ∉ rest) :
    LastSegment (path ++ rest) (segment ++ rest) := by
  obtain ⟨hslash, hpath⟩ := h
  refine ⟨?_, ?_⟩
  · rw [List.mem_append]
    intro hor
    rcases hor with hin | hin
    · exact hslash hin
    · exact hrest hin
  · rcases hpath with rfl | ⟨dir, rfl⟩
    · exact Or.inl rfl
    · exact Or.inr ⟨dir, by rw [List.append_assoc]; rfl⟩

/-- An extension of the last segment is one of the path. -/
theorem Extension.of_lastSegment {path segment extension : Str}
    (hlast : LastSegment path segment) (h : Extension segment extension) :
    Extension path extension := by
  obtain ⟨hdot, stem, rfl⟩ := h
  obtain ⟨-, rfl | ⟨dir, rfl⟩⟩ := hlast
  · exact ⟨hdot, stem, rfl⟩
  · exact ⟨hdot, dir ++ '/' :: stem, by simp⟩

/-- The keys of `CONTENT_TYPE` are nonempty and have no slash. -/
theorem contentTypes_key {extension type : Str}
    (h : contentTypes.lookup extension = some type) :
    extension ≠ [] ∧ '/' ∉ extension := by
  have hkeys : ∀ entry ∈ contentTypes, entry.1 ≠ [] ∧ '/' ∉ entry.1 :=
    List.all_iff_forall_prop.mp (by decide)
  obtain ⟨before, after, hsplit, -⟩ := List.lookup_eq_some_iff.mp h
  have hmem : (extension, type) ∈ contentTypes := by
    rw [hsplit]
    exact List.mem_append_right _ (List.mem_cons_self ..)
  exact hkeys _ hmem

/-- The code's cut finds a type exactly where the last segment has
one. -/
theorem lookup_fileExtension_iff (path type : Str) :
    contentTypes.lookup (fileExtension path) = some type
      ↔ HasType path type := by
  constructor
  · intro htype
    obtain ⟨hne, hslash⟩ := contentTypes_key htype
    have hdot : '.' ∈ path := by
      by_contra hdot
      rw [fileExtension, if_neg hdot] at hne
      exact hne rfl
    obtain ⟨extension, hext⟩ := exists_extension hdot
    rw [fileExtension_of hext] at htype hslash
    obtain ⟨hdot', stem, rfl⟩ := hext
    -- the dot is in the last segment, since no slash comes after it
    obtain ⟨segment, hlast⟩ := exists_lastSegment stem
    have hrest : '/' ∉ '.' :: extension := by
      simpa using hslash
    exact ⟨segment ++ '.' :: extension, extension, hlast.append hrest,
      ⟨hdot', segment, rfl⟩, htype⟩
  · intro hex
    obtain ⟨segment, extension, hlast, hext, htype⟩ := hex
    rw [fileExtension_of (hext.of_lastSegment hlast)]
    exact htype

/-- The content type follows the file name. For every root, and every
path that is the root with something after it: the type is the one
`CONTENT_TYPE` has for the extension of the last segment of what comes
after the root, and `application/octet-stream` when there is none. -/
theorem contentType_iff (location root rest type : Str) :
    getFileContentType ⟨location, root⟩ (root ++ rest) = type
      ↔ HasType rest type
        ∨ (type = "application/octet-stream".toList
          ∧ ∀ type', ¬ HasType rest type') := by
  have hcut : getFileContentType ⟨location, root⟩ (root ++ rest)
      = (contentTypes.lookup (fileExtension rest)).getD
          "application/octet-stream".toList := by
    show (contentTypes.lookup (fileExtension
      ((root ++ rest).drop root.length))).getD _ = _
    rw [List.drop_left]
  simp only [← lookup_fileExtension_iff]
  rw [hcut]
  cases contentTypes.lookup (fileExtension rest) with
  | some found => simp
  | none => simp [eq_comm]

end StaticRequestHandler

end Creeper

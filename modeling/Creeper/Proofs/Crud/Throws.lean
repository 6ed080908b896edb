/-
Which requests an exception leaves.

The handler catches nothing around its storage, and the storage nothing
around its directories, so a request throws exactly when the file system
does, in the constructors or in the handling. `Clear` is when it does
not, for each call of the storage (`serve_returns_iff`): a directory
that is to be made can be; what is to be removed is no directory with
something in it; no status is asked for behind a name that is too long.
All of this is decided before the request, but by what earlier requests
left on the disk.

Requests whose entities are ordinary names leave a disk on which
everything is clear: the disk goes on holding an entity map (`Holds`),
and from such a disk every call returns (`real_answers`). The names `.`
and `..` are what breaks this: an id of `.` is a file where the
directory of an entity should be. It need not stay broken: `..` can
remove the data directory itself, and the next handler makes it again.
-/
import Creeper.Proofs.Crud.Directory

namespace Creeper

open Lib

-- ============================================================ one call

namespace RealEntityStorage

variable {s : RealEntityStorage} {fs : FileSystem} {c : StoreCall}
  {e data : Str} {id : CInt} {d : Disk} {loc : Loc}

/-- The directory of the entity can be made, or is there. -/
def Makeable (s : RealEntityStorage) (fs : FileSystem) (e : Str)
    (d : Disk) : Prop :=
  fs.Makeable (s.makeEntityDir e) d

/-- The path leads to nothing, or a file, or a directory with nothing in
it, and names it; or it gets to a name that is not there. -/
def Removable (fs : FileSystem) (path : Str) (d : Disk) : Prop :=
  match fs.leads path d with
  | .ok _ => endsWithName path
      ∧ (d.entry (fs.resolve path) = some .dir →
        d.children (fs.resolve path) = [])
  | .error e => e = .noEntry

/-- The call finds nothing in its way: the directory it makes can be
made, what it removes can be removed, and it asks for no status behind a
name that is too long. -/
def Clear (s : RealEntityStorage) (fs : FileSystem) :
    StoreCall → Disk → Prop
  | .create e _, d => s.Makeable fs e d
  | .retrieve _ _, _ => True
  | .update e _ _, d => s.Makeable fs e d
  | .remove e id, d => Removable fs (s.makeEntityPath e id) d
  | .list e, d => fs.leads (s.makeEntityDir e) d ≠ .error .nameTooLong

/-- What is removable is removed, and nothing else. -/
theorem remove_returns_iff {path : Str} :
    (fs.serve (.remove path) d).2.isSome ↔ Removable fs path d := by
  unfold FileSystem.serve Removable
  simp only
  cases fs.leads path d with
  | error e => cases e <;> simp
  | ok u =>
      cases hname : endsWithName path with
      | false => simp
      | true =>
          unfold FileSystem.remove
          cases hentry : d.entry (fs.resolve path) with
          | none => simp
          | some found =>
              cases found with
              | file content => simp
              | dir =>
                  by_cases huse : d.children (fs.resolve path) = []
                  · simp [huse]
                  · simp [huse]

/-- A file that is opened and written throws nothing. -/
theorem writeFile_returns {α : Type} {path : Str} {written failed : α}
    (n : Nat) (d : Disk) :
    (Prog.eval (fun _ => fs.serve) n
      (.call (.openTruncate path) fun opened =>
        if opened then .call (.write path data) fun _ =>
          .ret (some written)
        else .ret (some failed)) d).2.isSome := by
  rw [Prog.eval_call]
  cases (fs.serve (.openTruncate path) d).2 <;> rfl

/-- Retrieving changes nothing and throws nothing. -/
theorem serve_retrieve (s : RealEntityStorage) (fs : FileSystem) (e : Str)
    (id : CInt) (d : Disk) :
    ∃ found, s.serve fs (.retrieve e id) d = (d, some found) := by
  unfold serve perform retrieve
  rw [Prog.eval_call]
  have hopen : (fs.serve (.openRead (s.makeEntityPath e id)) d).1 = d := rfl
  rw [hopen]
  cases (fs.serve (.openRead (s.makeEntityPath e id)) d).2 with
  | false => exact ⟨none, rfl⟩
  | true => exact ⟨some (fs.contents _ d), rfl⟩

/-- Listing throws only over a name that is too long. -/
theorem list_returns_iff :
    (s.serve fs (.list e) d).2.isSome
      ↔ fs.leads (s.makeEntityDir e) d ≠ .error .nameTooLong := by
  unfold serve perform list
  rw [Prog.eval_call]
  cases hleads : fs.leads (s.makeEntityDir e) d with
  | error why =>
      unfold FileSystem.serve
      simp only
      rw [hleads]
      cases why <;> simp
  | ok u =>
      refine iff_of_true ?_ (by simp)
      rw [FileSystem.serve_pathExists hleads]
      cases hfound : fs.found (s.makeEntityDir e) d with
      | none => rfl
      | some found =>
          simp only [Option.isSome_some]
          rw [Prog.eval_call, FileSystem.serve_isDirectory hleads, hfound]
          cases found with
          | file content => rfl
          | dir =>
              unfold listScan
              simp only [decide_true]
              rw [Prog.eval_call,
                FileSystem.serve_directoryIterator ⟨hleads, hfound⟩]
              rfl

/-- Creating and updating throw only over the directory. -/
theorem create_returns_iff :
    (s.serve fs (.create e data) d).2.isSome ↔ s.Makeable fs e d := by
  unfold serve perform create
  simp only
  rw [Prog.eval_call]
  rcases fs.serve_createDirectories (s.makeEntityDir e) d with
    ⟨hclear, hmade⟩ | ⟨hnot, made, -, hmade⟩
  · refine iff_of_true ?_ hclear
    rw [hmade]
    unfold createScan
    simp only
    rw [Prog.eval_call,
      FileSystem.serve_directoryIterator hclear.isDirectory]
    simp only
    split
    · rfl
    · exact writeFile_returns _ _
  · refine iff_of_false ?_ hnot
    rw [hmade]
    simp

theorem update_returns_iff {id : CInt} :
    (s.serve fs (.update e id data) d).2.isSome ↔ s.Makeable fs e d := by
  unfold serve perform update
  simp only
  rw [Prog.eval_call]
  rcases fs.serve_createDirectories (s.makeEntityDir e) d with
    ⟨hclear, hmade⟩ | ⟨hnot, made, -, hmade⟩
  · refine iff_of_true ?_ hclear
    rw [hmade]
    exact writeFile_returns _ _
  · refine iff_of_false ?_ hnot
    rw [hmade]
    simp

/-- A call, alone, throws exactly when something is in its way. -/
theorem serve_returns_iff (s : RealEntityStorage) (fs : FileSystem)
    (c : StoreCall) (d : Disk) :
    (s.serve fs c d).2.isSome ↔ s.Clear fs c d := by
  cases c with
  | create e data => exact create_returns_iff
  | retrieve e id =>
      obtain ⟨found, hserve⟩ := serve_retrieve s fs e id d
      rw [hserve]
      exact iff_of_true rfl trivial
  | update e id data => exact update_returns_iff
  | remove e id =>
      unfold serve perform remove Clear
      simp only
      rw [Prog.eval_call, Prog.eval_ret]
      exact remove_returns_iff
  | list e => exact list_returns_iff

end RealEntityStorage

-- =============================================================== a request

namespace CrudRequestHandler

variable {J : Type} {h : CrudRequestHandler J} {s : RealEntityStorage}
  {fs : FileSystem} {req : Request} {d : Disk} {m : EntityMap}

/-- The calls of the request find nothing in their way: a POST or PUT can
have the directory of its entity, a listing asks for no status behind a
name that is too long, and what a DELETE removes can be removed. -/
def HandledClear (h : CrudRequestHandler J) (s : RealEntityStorage)
    (fs : FileSystem) (req : Request) (d : Disk) : Prop :=
  h.ReachesStorage req →
    match getMethod req.method with
    | .post => s.Makeable fs (h.extractEntity req.uri) d
    | .get => h.extractId req.uri = [] →
        s.Clear fs (.list (h.extractEntity req.uri)) d
    | .put => s.Makeable fs (h.extractEntity req.uri) d
    | .delete => ∀ id, isValidInteger (h.extractId req.uri) = some id →
        s.Clear fs (.remove (h.extractEntity req.uri) id) d
    | .invalidMethod => True

/-- The request finds nothing in its way: the data directory can be made,
or is there, and with it the calls of the request find nothing in
theirs. -/
def Clear (h : CrudRequestHandler J) (s : RealEntityStorage)
    (fs : FileSystem) (req : Request) (d : Disk) : Prop :=
  fs.Makeable s.root d ∧ h.HandledClear s fs req (d.mkdirs (fs.ways s.root))

/-- A request that makes one call throws exactly when the call does. -/
theorem one_call_returns_iff {c : StoreCall} {f : c.Reply → Response} :
    (Prog.eval (fun _ => fs.serve) 0 ((Prog.call c fun r =>
      .ret (f r) : StoreProg).through s.perform) d).2.isSome
      ↔ s.Clear fs c d := by
  rw [← RealEntityStorage.serve_returns_iff]
  rcases hserve : s.serve fs c d with ⟨d', _ | r⟩
  · rw [Prog.eval_through_none hserve]
    exact iff_of_false (by simp) (by simp)
  · rw [Prog.eval_through_some hserve]
    exact iff_of_true rfl rfl

/-- The handling of a request throws exactly when something is in its
way. -/
theorem onDisk_returns_iff (h : CrudRequestHandler J)
    (s : RealEntityStorage) (fs : FileSystem) (req : Request) (d : Disk) :
    (Prog.eval (fun _ => fs.serve) 0 (h.onDisk s req) d).2.isSome
      ↔ h.HandledClear s fs req d := by
  unfold onDisk HandledClear
  rcases h.handleRequest_cases req with ⟨hno, res, hret⟩ | ⟨hreach, -⟩
  · rw [hret]
    exact iff_of_true rfl fun hreach => absurd hreach hno
  · rw [forall_prop_of_true hreach]
    have hhandled := h.handled req
    generalize h.handleRequest req = p at hhandled ⊢
    cases hhandled with
    | refused hno => exact absurd hreach hno
    | post hentity hmethod hv =>
        rw [hmethod]
        exact one_call_returns_iff
    | get hentity hmethod hid =>
        rw [hmethod, one_call_returns_iff]
        refine iff_of_true trivial fun hnil => ?_
        rw [hnil] at hid
        cases hid
    | list hentity hmethod hid =>
        rw [hmethod, one_call_returns_iff]
        constructor
        · intro hclear _
          exact hclear
        · intro hclear
          exact hclear hid
    | @put id v hentity hmethod hid hv =>
        rw [hmethod]
        unfold putStore
        obtain ⟨found, hfound⟩ := RealEntityStorage.serve_retrieve s fs
          (h.extractEntity req.uri) id d
        rw [Prog.eval_through_some hfound]
        exact one_call_returns_iff
    | delete hentity hmethod hid =>
        rw [hmethod, one_call_returns_iff]
        constructor
        · intro hclear id hid'
          obtain rfl := Option.some.inj (hid.symm.trans hid')
          exact hclear
        · intro hclear
          exact hclear _ hid

/-- The handler is constructed with the data directory made, or not at
all. -/
theorem construct_cases (s : RealEntityStorage) (fs : FileSystem)
    (d : Disk) :
    (fs.Makeable s.root d
        ∧ Prog.eval (fun _ => fs.serve) 0 (construct s) d
          = (d.mkdirs (fs.ways s.root), some ()))
      ∨ (¬ fs.Makeable s.root d ∧ ∃ d',
        Prog.eval (fun _ => fs.serve) 0 (construct s) d = (d', none)) := by
  unfold construct RealEntityStorage.construct
  rw [Prog.eval_call]
  rcases fs.serve_createDirectories s.root d with
    ⟨hclear, hmade⟩ | ⟨hnot, made, -, hmade⟩
  · -- the storage finds the directory that the handler has made
    have hdir := hclear.isDirectory
    refine Or.inl ⟨hclear, ?_⟩
    rw [hmade]
    simp only
    rw [Prog.eval_call, Prog.eval_ret]
    rcases fs.serve_createDirectories s.root (d.mkdirs (fs.ways s.root)) with
      ⟨-, hagain⟩ | ⟨hnot, -⟩
    · rw [hagain, hdir.mkdirs]
    · exact absurd hdir.makeable hnot
  · refine Or.inr ⟨hnot, d.mkdirs made, ?_⟩
    rw [hmade]
    rfl

/-- A request whose handler is constructed is handled then. -/
theorem serveOnDisk_of_makeable (h : CrudRequestHandler J) (req : Request)
    (hclear : fs.Makeable s.root d) :
    h.serveOnDisk s fs req d
      = Prog.eval (fun _ => fs.serve) 0 (h.onDisk s req)
          (d.mkdirs (fs.ways s.root)) := by
  unfold serveOnDisk
  rcases construct_cases s fs d with ⟨-, hbuilt⟩ | ⟨hnot, -⟩
  · rw [Prog.eval_bind _ 0 0, hbuilt]
    rfl
  · exact absurd hclear hnot

/-- A request, alone, throws exactly when something is in its way. -/
theorem serveOnDisk_returns_iff (h : CrudRequestHandler J)
    (s : RealEntityStorage) (fs : FileSystem) (req : Request) (d : Disk) :
    (h.serveOnDisk s fs req d).2.isSome ↔ h.Clear s fs req d := by
  unfold Clear
  rcases construct_cases s fs d with ⟨hclear, -⟩ | ⟨hnot, d', hbuilt⟩
  · rw [serveOnDisk_of_makeable h req hclear, onDisk_returns_iff]
    exact (and_iff_right hclear).symm
  · refine iff_of_false ?_ fun h => hnot h.1
    unfold serveOnDisk
    rw [Prog.eval_bind _ 0 0, hbuilt]
    simp [Prog.orThrow]

-- ============================================================== a sequence

/-- Every request returns a response, the disk going from one to the
next. -/
def ReturnsAlong (h : CrudRequestHandler J) (s : RealEntityStorage)
    (fs : FileSystem) : List Request → Disk → Prop
  | [], _ => True
  | req :: reqs, d =>
      (h.serveOnDisk s fs req d).2.isSome
        ∧ ReturnsAlong h s fs reqs (h.serveOnDisk s fs req d).1

/-- Every request finds nothing in its way. -/
def ClearAlong (h : CrudRequestHandler J) (s : RealEntityStorage)
    (fs : FileSystem) : List Request → Disk → Prop
  | [], _ => True
  | req :: reqs, d =>
      h.Clear s fs req d
        ∧ ClearAlong h s fs reqs (h.serveOnDisk s fs req d).1

theorem returnsAlong_iff (h : CrudRequestHandler J) (s : RealEntityStorage)
    (fs : FileSystem) (reqs : List Request) (d : Disk) :
    h.ReturnsAlong s fs reqs d ↔ h.ClearAlong s fs reqs d := by
  induction reqs generalizing d with
  | nil => exact Iff.rfl
  | cons req reqs ih =>
      unfold ReturnsAlong ClearAlong
      rw [serveOnDisk_returns_iff, ih]

/-- A program all of whose calls are on usable resources returns, and
leaves the disk holding a map. -/
theorem eval_through_holds {p : StoreProg}
    (hp : p.AllCalls fun c => Usable fs s c.resource)
    (hd : Holds fs s.root d m) :
    ∃ d' res m',
      Prog.eval (fun _ => fs.serve) 0 (p.through s.perform) d
        = (d', some res)
      ∧ Holds fs s.root d' m' := by
  induction p generalizing d m with
  | ret res => exact ⟨d, res, m, rfl, hd⟩
  | call c k ih =>
      obtain ⟨d', r, m', hserve, -, hd'⟩ :=
        RealEntityStorage.real_answers hp.1 hd
      rw [Prog.eval_through_some hserve]
      exact ih r (hp.2 r) hd'

/-- Requests on ordinary entities find nothing in their way. -/
theorem returnsAlong_of_usable {reqs : List Request}
    (hreqs : ∀ req ∈ reqs, h.ReachesStorage req →
      Usable fs s (h.extractEntity req.uri))
    (hd : Holds fs s.root d m) : h.ReturnsAlong s fs reqs d := by
  induction reqs generalizing d m with
  | nil => trivial
  | cons req reqs ih =>
      have hcalls : (h.handleRequest req).AllCalls
          fun c => Usable fs s c.resource := by
        rcases h.handleRequest_cases req with ⟨-, res, hret⟩ | ⟨hreach, -⟩
        · rw [hret]
          trivial
        · apply (h.handleRequest_resource req).mono
          intro c hc
          rw [hc]
          exact hreqs req (List.mem_cons_self ..) hreach
      obtain ⟨d', res, m', hserve, hd'⟩ := eval_through_holds hcalls hd
      have hserved : h.serveOnDisk s fs req d = (d', some res) := by
        rw [serveOnDisk_of_makeable h req hd.root_dir.makeable,
          hd.root_dir.mkdirs]
        exact hserve
      unfold ReturnsAlong
      rw [hserved]
      exact ⟨rfl, ih (fun req hreq => hreqs req (List.mem_cons_of_mem _ hreq))
        hd'⟩

/-- Requests throw nothing, exactly. From an empty data directory, along
any sequence of requests, every request returns a response if and only
if every request finds nothing in its way; and that is so whenever the
entities of all requests that reach the storage are one ordinary path
component within the length of a name. -/
theorem crud_returns_iff (h : CrudRequestHandler J) (s : RealEntityStorage)
    (fs : FileSystem) {d : Disk} (hempty : IsEmptyDirectory fs s.root d)
    (reqs : List Request) :
    (h.ReturnsAlong s fs reqs d ↔ h.ClearAlong s fs reqs d)
      ∧ ((∀ req ∈ reqs, h.ReachesStorage req →
            OrdinaryName (h.extractEntity req.uri)
              ∧ (h.extractEntity req.uri).length ≤ fs.nameMax) →
          h.ClearAlong s fs reqs d) := by
  refine ⟨returnsAlong_iff h s fs reqs d, fun hordinary => ?_⟩
  rw [← returnsAlong_iff]
  apply returnsAlong_of_usable ?_ hempty.holds
  intro req hreq hreach
  obtain ⟨hentity, hlength⟩ := hordinary req hreq hreach
  exact ⟨hempty.not_nul, hentity, hlength⟩

/-- A POST, and what it stored removed and listed. -/
def ordinaryRequests : List Request :=
  [jsonRequest "POST" "/api/a" "5", jsonRequest "DELETE" "/api/a/1" "",
    jsonRequest "GET" "/api/a" ""]

theorem crud_returns_ordinary :
    api.ReturnsAlong dataStorage plainSystem ordinaryRequests dataDisk := by
  have hexact := crud_returns_iff api dataStorage plainSystem
    dataDisk_isEmpty ordinaryRequests
  have hentities : ∀ req ∈ ordinaryRequests,
      OrdinaryName (api.extractEntity req.uri)
        ∧ (api.extractEntity req.uri).length ≤ plainSystem.nameMax := by
    decide
  exact hexact.1.mpr (hexact.2 fun req hreq _ => hentities req hreq)

/-- An id of `.` is in the way of the entity of that name. -/
theorem crud_throws :
    isPlainBase api.baseUri ∧ IsEmptyDirectory plainSystem "/data".toList dataDisk
      ∧ ¬ api.ReturnsAlong dataStorage plainSystem
        [jsonRequest "PUT" "/api/./5" "7", jsonRequest "POST" "/api/5" "7"]
        dataDisk := by
  refine ⟨by decide, dataDisk_isEmpty, ?_⟩
  intro hreturns
  have hsecond := hreturns.2.1
  have hthrows : (api.serveOnDisk dataStorage plainSystem
      (jsonRequest "POST" "/api/5" "7")
      (api.serveOnDisk dataStorage plainSystem
        (jsonRequest "PUT" "/api/./5" "7") dataDisk).1).2.isSome = false := by
    decide +kernel
  rw [hthrows] at hsecond
  cases hsecond

/-- A removed data directory is made again for the next request, and a
`..` in it is looked up on the disk there is then. -/
example :
    let s : RealEntityStorage := ⟨"/tmp/5".toList⟩
    let d := Disk.empty.mkdirs [["tmp".toList], ["tmp".toList, "5".toList]]
    let removed := api.serveOnDisk s plainSystem
      (jsonRequest "DELETE" "/api/../5" "") d
    let put := api.serveOnDisk s plainSystem
      (jsonRequest "PUT" "/api/../5" "7") removed.1
    let posted := api.serveOnDisk s plainSystem
      (jsonRequest "POST" "/api/x" "7") put.1
    [removed.2, put.2, posted.2].map (Option.map Response.statusCode)
      = [some 204, some 500, some 201] := by
  decide +kernel

end CrudRequestHandler

end Creeper

import BlueSky.Nfs.Handlers

/-!
# Whether the replies tell the truth

A reply tells the truth if success means that the name of the request has been bound or unbound
as asked, failure that nothing has changed, and no other binding changes in either case.  CREATE,
MKDIR and SYMLINK do not look at the result of `bluesky_directory_insert` and report success also
when the name exists; REMOVE does not look at the result of `bluesky_directory_remove` and
reports success also when the name does not exist, or the handle is not that of a directory.

Main results:

- Theorem {lit}`nfsCall_truthful_iff`: a reply tells the truth exactly if the request is not one
  of these.
-/

namespace BlueSky

open Option ByteLib CStringLib NameTreeLib

/-! ## Truthful replies -/

/-- Bindings other than that of one name in one directory. -/
def SameElsewhere (s s' : NfsState) (fh : Bytes) (name : CString) : Prop :=
  ∀ inum name', (handleInum fh ≠ some inum ∨ name' ≠ name) →
    s'.binding inum name' = s.binding inum name'

/-- No directory changes. -/
def SameDirectories (s s' : NfsState) : Prop :=
  ∀ inum, s.kind inum = some .directory → s'.inodes inum = s.inodes inum

/-- The reply to a request that is to bind a name to the inode with a given handle. -/
structure BindsTruly (s s' : NfsState) (reply : NfsReply) (fh : Bytes) (name : CString)
    (handle : Option Bytes) : Prop where
  ok : reply.status = .ok → ∃ dir inum, handleInum fh = some dir ∧
    handle.bind handleInum = some inum ∧ s.binding dir name = none ∧
    s'.binding dir name = some inum ∧ s'.kind inum ≠ none
  failed : reply.status ≠ .ok → SameDirectories s s'
  others : SameElsewhere s s' fh name

/-- The reply to a request that is to unbind a name. -/
structure UnbindsTruly (s s' : NfsState) (reply : NfsReply) (fh : Bytes) (name : CString) :
    Prop where
  ok : reply.status = .ok → ∃ dir, handleInum fh = some dir ∧ s.binding dir name ≠ none ∧
    s'.binding dir name = none
  failed : reply.status ≠ .ok → SameDirectories s s'
  others : SameElsewhere s s' fh name

/-- The reply to a request that is to move a name. -/
structure MovesTruly (s s' : NfsState) (reply : NfsReply) (fromFh : Bytes) (fromName : CString)
    (toFh : Bytes) (toName : CString) : Prop where
  ok : reply.status = .ok → ∃ dir1 dir2 inum, handleInum fromFh = some dir1 ∧
    handleInum toFh = some dir2 ∧ s.binding dir1 fromName = some inum ∧
    s'.binding dir2 toName = some inum ∧
    (dir1 ≠ dir2 ∨ fromName ≠ toName → s'.binding dir1 fromName = none)
  failed : reply.status ≠ .ok → SameDirectories s s'
  others : ∀ inum name, (handleInum fromFh ≠ some inum ∨ name ≠ fromName) →
    (handleInum toFh ≠ some inum ∨ name ≠ toName) → s'.binding inum name = s.binding inum name

/-- The reply tells the truth about what happened to the directories. -/
def NfsRequest.Truthful (s s' : NfsState) (reply : NfsReply) : NfsRequest → Prop
  | .create fh name => BindsTruly s s' reply fh name reply.handle
  | .mkdir fh name _ => BindsTruly s s' reply fh name reply.handle
  | .symlink fh name _ => BindsTruly s s' reply fh name reply.handle
  | .link file fh name => BindsTruly s s' reply fh name (some file)
  | .remove fh name => UnbindsTruly s s' reply fh name
  | .rmdir fh name => UnbindsTruly s s' reply fh name
  | .rename fromFh fromName toFh toName => MovesTruly s s' reply fromFh fromName toFh toName

/-! ## The handlers -/

theorem SameElsewhere.refl (s : NfsState) (fh : Bytes) (name : CString) :
    SameElsewhere s s fh name :=
  fun _ _ _ => rfl

theorem SameDirectories.refl (s : NfsState) : SameDirectories s s :=
  fun _ _ => rfl

theorem SameElsewhere.of_setName {s s' : NfsState} {fh : Bytes} {name : CString} {dir : BitVec 64}
    {value : Option (BitVec 64)} (hfh : handleInum fh = some dir)
    (h : s'.binding = setName s.binding dir name value) : SameElsewhere s s' fh name := by
  intro inum name' hother
  rw [h, setName_apply, if_neg]
  rintro ⟨rfl, rfl⟩
  exact hother.elim (fun hne => hne hfh) fun hne => hne rfl

theorem Makes.truthful {s s' : NfsState} {reply : NfsReply} {fh : Bytes} {name : CString}
    {type : FileType} {request : NfsRequest} (h : Makes fh name type request) :
    request.Truthful s s' reply ↔ BindsTruly s s' reply fh name reply.handle := by
  cases h <;> exact Iff.rfl

/-- When nothing happens, a reply that tells of a failure tells the truth. -/
theorem truthful_refused {s : NfsState} {reply : NfsReply} (hstatus : reply.status ≠ .ok)
    (request : NfsRequest) : request.Truthful s s reply := by
  have hok : ∀ {P : Prop}, reply.status = .ok → P := fun hok => absurd hok hstatus
  cases request with
  | rename fromFh fromName toFh toName => exact ⟨hok, fun _ => .refl _, fun _ _ _ _ => rfl⟩
  | _ => exact ⟨hok, fun _ => .refl _, .refl _ _ _⟩

/-- A reply tells the truth exactly if the request does not create a name that exists or remove
one that does not. -/
theorem nfsCall_truthful_iff {s s' : NfsState} {c : NfsCall} {reply : NfsReply} (h : FsInv s)
    (hnumbered : s.Numbered) (hcall : nfsCall s c = some (s', reply)) :
    c.request.Truthful s s' reply ↔ c.request.Answerable s := by
  have hhandled := nfsCall_handled h hnumbered hcall
  generalize c.request = request at hhandled ⊢
  cases hhandled with
  | refused hstatus hsame hanswerable =>
    rw [hsame]
    exact iff_of_true (truthful_refused hstatus request) hanswerable
  | @made _ fh name _ dir hmakes hfh hdir hname hstatus hhandle _ hbecomes =>
    rw [hmakes.truthful, hmakes.answerable]
    constructor
    · intro htruly dir' hfh' _ _
      rcases htruly.ok hstatus with ⟨dir'', inum, hfh'', -, hunbound, -⟩
      rw [some_inj.mp (hfh'.symm.trans hfh'')]
      exact hunbound
    · intro hfree
      have hunbound := hfree dir hfh hdir hname
      have hbinding := hbecomes.binding
      rw [if_pos hunbound] at hbinding
      refine ⟨fun _ => ⟨dir, s.nextInum, hfh, ?_, hunbound, ?_, ?_⟩,
        fun hfailed => absurd hstatus hfailed, .of_setName hfh hbinding⟩
      · rw [hhandle, bind_some, handleInum_fileHandle]
      · rw [hbinding, setName_self]
      · rw [hbecomes.kind, Function.update_self]
        simp
  | @linked file fh name inum dir hfile hfh _ hinum _ _ hunbound hstatus _ hbecomes =>
    refine iff_of_true ⟨fun _ => ?_, fun hfailed => absurd hstatus hfailed,
      .of_setName hfh hbecomes.binding⟩ trivial
    exact ⟨dir, inum, hfh, hfile, hunbound, by rw [hbecomes.binding, setName_self],
      by rw [hbecomes.kind]; exact hinum⟩
  | @removed fh name dir hfh hdir hname hstatus _ hbecomes =>
    constructor
    · intro htruly dir' hfh' _ _
      rcases htruly.ok hstatus with ⟨dir'', hfh'', hbound, -⟩
      rw [some_inj.mp (hfh'.symm.trans hfh'')]
      exact hbound
    · intro hbound
      refine ⟨fun _ => ?_, fun hfailed => absurd hstatus hfailed, .of_setName hfh hbecomes.binding⟩
      exact ⟨dir, hfh, hbound dir hfh hdir hname, by rw [hbecomes.binding, setName_self]⟩
  | @rmdir fh name dir hfh hbound hstatus _ hbecomes =>
    refine iff_of_true ⟨fun _ => ?_, fun hfailed => absurd hstatus hfailed,
      .of_setName hfh hbecomes.binding⟩ trivial
    exact ⟨dir, hfh, hbound, by rw [hbecomes.binding, setName_self]⟩
  | @renamed fromFh toFh fromName toName dir1 dir2 inum hfrom hto _ _ hbound hstatus _ hbecomes =>
    refine iff_of_true ⟨fun _ => ?_, fun hfailed => absurd hstatus hfailed, ?_⟩ trivial
    · refine ⟨dir1, dir2, inum, hfrom, hto, hbound, by rw [hbecomes.binding, setName_self], ?_⟩
      intro hne
      rw [hbecomes.binding, setName_apply, if_neg, setName_self]
      rintro ⟨rfl, rfl⟩
      exact hne.elim (fun h => h rfl) fun h => h rfl
    · intro inum' name hother1 hother2
      have hne1 : ¬(inum' = dir1 ∧ name = fromName) := by
        rintro ⟨rfl, rfl⟩
        exact hother1.elim (fun hne => hne hfrom) fun hne => hne rfl
      have hne2 : ¬(inum' = dir2 ∧ name = toName) := by
        rintro ⟨rfl, rfl⟩
        exact hother2.elim (fun hne => hne hto) fun hne => hne rfl
      rw [hbecomes.binding, setName_apply, if_neg hne2, setName_apply, if_neg hne1,
        setName_apply, if_neg hne2]

/-- CREATE of `a` in the root directory. -/
def createA : NfsCall := ⟨0, [4], .create (fileHandle 1) nameA⟩

/-- REMOVE of `a` in the root directory. -/
def removeA : NfsCall := ⟨0, [], .remove (fileHandle 1) nameA⟩

theorem nfsCall_truthful_fresh : ∃ s' reply, nfsCall (.fresh 0) createA = some (s', reply) ∧
    reply.status = .ok ∧ createA.request.Truthful (.fresh 0) s' reply := by
  have hfacts : ∃ result ∈ nfsCall (.fresh 0) createA, result.2.status = .ok := by
    decide +kernel
  rcases hfacts with ⟨⟨s', reply⟩, hcall, hok⟩
  refine ⟨s', reply, hcall, hok, ?_⟩
  refine (nfsCall_truthful_iff (fresh_becomes 0).inv (fresh_numbered 0) hcall).mpr ?_
  intro dir _ _ _
  rw [(fresh_becomes 0).binding]

/-- CREATE of a name that exists and REMOVE of a name that does not are answered with success. -/
theorem nfsCall_untruthful :
    (∃ s s' made reply, nfsCall (.fresh 0) createA = some (s, made) ∧
        nfsCall s createA = some (s', reply) ∧ reply.status = .ok ∧
        ¬createA.request.Truthful s s' reply) ∧
      ∃ s' reply, nfsCall (.fresh 0) removeA = some (s', reply) ∧ reply.status = .ok ∧
        ¬removeA.request.Truthful (.fresh 0) s' reply := by
  constructor
  · have hfacts : ∃ made ∈ nfsCall (.fresh 0) createA, made.1.binding 1 nameA = some 2 ∧
        ∃ result ∈ nfsCall made.1 createA, result.2.status = .ok := by
      decide +kernel
    rcases hfacts with ⟨⟨s, made⟩, hmade, hbound, ⟨s', reply⟩, hcall, hok⟩
    refine ⟨s, s', made, reply, hmade, hcall, hok, ?_⟩
    intro htruly
    have hbinds : BindsTruly s s' reply (fileHandle 1) nameA reply.handle := htruly
    rcases hbinds.ok hok with ⟨dir, -, hdir, -, hunbound, -⟩
    rw [handleInum_fileHandle, some_inj] at hdir
    rw [← hdir, hbound] at hunbound
    cases hunbound
  · have hfacts : ∃ result ∈ nfsCall (.fresh 0) removeA, result.2.status = .ok := by
      decide +kernel
    rcases hfacts with ⟨⟨s', reply⟩, hcall, hok⟩
    refine ⟨s', reply, hcall, hok, ?_⟩
    intro htruly
    have hunbinds : UnbindsTruly (.fresh 0) s' reply (fileHandle 1) nameA := htruly
    rcases hunbinds.ok hok with ⟨dir, -, hbound, -⟩
    rw [(fresh_becomes 0).binding] at hbound
    exact hbound rfl

end BlueSky

import BlueSky.Nfs.Tree

/-!
# Which names the directories hold

CREATE, MKDIR, SYMLINK and LINK refuse names that are not legal.  RENAME does not look at the
name that it is given, and neither does `bluesky_rename`.

Main results:

- Theorem {lit}`legalNames_of_requests`: as long as RENAME is given legal names, all entries have
  legal names, and a RENAME that succeeds keeps this exactly if its name is legal.
-/

namespace BlueSky

open Option ByteLib CStringLib NameTreeLib TransitionLib

/-- The name passes `validate_filename` and is neither `.` nor `..`. -/
def LegalName (name : CString) : Prop :=
  validateFilename name = true ∧ name.bytes ≠ [0x2e] ∧ name.bytes ≠ [0x2e, 0x2e]

variable {name : CString}

theorem refusedName_eq_false : refusedName name = false ↔ LegalName name := by
  simp [refusedName, LegalName, and_assoc]

/-- Every entry of every directory has a legal name. -/
def NfsState.LegalNames (s : NfsState) : Prop :=
  ∀ inum inode, s.inodes inum = some inode → inode.type = .directory →
    ∀ d ∈ inode.dir.dirents, LegalName d.name

variable {s : NfsState}

/-- The entries are those that the names are bound to. -/
theorem FsInv.legalNames_iff (h : FsInv s) :
    s.LegalNames ↔ ∀ dir name inum, s.binding dir name = some inum → LegalName name := by
  constructor
  · intro hlegal dir name inum hname
    rcases bind_eq_some_iff.mp hname with ⟨inode, hinode, hbinding⟩
    rw [Inode.binding] at hbinding
    split_ifs at hbinding with htype
    rcases map_eq_some_iff.mp hbinding with ⟨d, hd, -⟩
    rcases ((h.dirs dir inode hinode).hash name d).mp hd with ⟨hmem, rfl⟩
    exact hlegal dir inode hinode htype d hmem
  · intro hlegal dir inode hinode htype d hd
    refine hlegal dir d.name d.inum ?_
    have hhash := ((h.dirs dir inode hinode).hash d.name d).mpr ⟨hd, rfl⟩
    rw [NfsState.binding, hinode, bind_some, Inode.binding, if_pos htype,
      Directory.binding, hhash, map_some]

/-- RENAME is given a legal name, unless it has nothing to move or nowhere to move it. -/
def NfsRequest.LegalTarget (s : NfsState) : NfsRequest → Prop
  | .rename fromFh fromName toFh toName => ∀ dir1 dir2 inum, handleInum fromFh = some dir1 →
      handleInum toFh = some dir2 → s.kind dir2 = some .directory →
      s.binding dir1 fromName = some inum → LegalName toName
  | _ => True

/-! ## One request -/

theorem legal_setName {names : BitVec 64 → CString → Option (BitVec 64)} {dir : BitVec 64}
    {value : Option (BitVec 64)}
    (hlegal : ∀ dir name inum, names dir name = some inum → LegalName name)
    (hname : value ≠ none → LegalName name) (dir' : BitVec 64) (name' : CString) (inum : BitVec 64)
    (h : setName names dir name value dir' name' = some inum) :
    LegalName name' := by
  rw [setName_apply] at h
  split_ifs at h with heq
  · rw [heq.2]
    exact hname (by simp [h])
  · exact hlegal dir' name' inum h

theorem Makes.legalTarget {fh : Bytes} {type : FileType} {request : NfsRequest}
    (h : Makes fh name type request) : request.LegalTarget s := by
  cases h <;> exact trivial

/-- A request that succeeds keeps the names legal exactly if RENAME is given a legal one; a
request that fails changes nothing. -/
theorem nfsCall_legalNames {s' : NfsState} {c : NfsCall} {reply : NfsReply} (h : FsInv s)
    (hnumbered : s.Numbered) (hlegal : s.LegalNames) (hcall : nfsCall s c = some (s', reply)) :
    (reply.status ≠ .ok ∧ s' = s) ∨ (s'.LegalNames ↔ c.request.LegalTarget s) := by
  have hnames := h.legalNames_iff.mp hlegal
  have hhandled := nfsCall_handled h hnumbered hcall
  generalize c.request = request at hhandled ⊢
  cases hhandled with
  | refused hfailed hsame => exact Or.inl ⟨hfailed, hsame⟩
  | made hmakes _ _ hname _ _ _ hbecomes =>
    refine Or.inr (iff_of_true ?_ hmakes.legalTarget)
    rw [hbecomes.inv.legalNames_iff, hbecomes.binding]
    split_ifs
    · exact legal_setName hnames fun _ => refusedName_eq_false.mp hname
    · exact hnames
  | linked _ _ _ _ _ hname _ _ _ hbecomes =>
    refine Or.inr (iff_of_true ?_ trivial)
    rw [hbecomes.inv.legalNames_iff, hbecomes.binding]
    exact legal_setName hnames fun _ => refusedName_eq_false.mp hname
  | removed _ _ _ _ _ hbecomes =>
    refine Or.inr (iff_of_true ?_ trivial)
    rw [hbecomes.inv.legalNames_iff, hbecomes.binding]
    exact legal_setName hnames (by simp)
  | rmdir _ _ _ _ hbecomes =>
    refine Or.inr (iff_of_true ?_ trivial)
    rw [hbecomes.inv.legalNames_iff, hbecomes.binding]
    exact legal_setName hnames (by simp)
  | @renamed fromFh toFh fromName toName dir1 dir2 inum hfrom hto _ hdir2 hbound _ _ hbecomes =>
    refine Or.inr ?_
    rw [hbecomes.inv.legalNames_iff, hbecomes.binding]
    constructor
    · intro hafter _ _ _ _ _ _ _
      exact hafter dir2 toName inum setName_self
    · intro htarget
      refine legal_setName ?_ fun _ => htarget dir1 dir2 inum hfrom hto hdir2 hbound
      exact fun dir name inum hname => hnames dir name inum (moved_le hname)

/-! ## Whole runs -/

/-- RENAME is given a legal name, and there are inode numbers left. -/
def KeepsLegal (s : NfsState) (c : NfsCall) : Prop :=
  c.request.LegalTarget s ∧ s.nextInum + 1 ≠ 0

/-- A file system in order with legal names. -/
structure NamesInv (s : NfsState) : Prop where
  inv : FsInv s
  numbered : s.Numbered
  legal : s.LegalNames

theorem namesInv_of_reachable {now : Int} (h : Reachable nfsStep KeepsLegal (.fresh now) s) :
    NamesInv s := by
  have hfresh := fresh_becomes now
  have hlegal : (NfsState.fresh now).LegalNames := by
    rw [hfresh.inv.legalNames_iff, hfresh.binding]
    intro dir name inum hname
    cases hname
  refine h.invariant ⟨hfresh.inv, fresh_numbered now, hlegal⟩ ?_
  intro s c s' hs hkeeps hstep
  rcases map_eq_some_iff.mp hstep with ⟨⟨s'', reply⟩, hcall, rfl⟩
  rcases nfsCall_fsInv hs.inv hs.numbered hkeeps.2 hcall with ⟨hinv, hnumbered⟩
  refine ⟨hinv, hnumbered, ?_⟩
  rcases nfsCall_legalNames hs.inv hs.numbered hs.legal hcall with ⟨-, hsame⟩ | hiff
  · rw [hsame]
    exact hs.legal
  · exact hiff.mpr hkeeps.1

/-- As long as RENAME is given legal names, every entry of every directory has a legal name, and a
further request that succeeds keeps this exactly if it gives RENAME a legal name. -/
theorem legalNames_of_requests {now : Int} {s : NfsState}
    (h : Reachable nfsStep KeepsLegal (.fresh now) s) :
    s.LegalNames ∧ ∀ c s' reply, nfsCall s c = some (s', reply) → reply.status = .ok →
      (s'.LegalNames ↔ c.request.LegalTarget s) := by
  have hinv := namesInv_of_reachable h
  refine ⟨hinv.legal, ?_⟩
  intro c s' reply hcall hok
  rcases nfsCall_legalNames hinv.inv hinv.numbered hinv.legal hcall with ⟨hfailed, -⟩ | hiff
  · exact absurd hok hfailed
  · exact hiff

/-- RENAME of `a` in the root directory to a name. -/
def renameA (toName : CString) : NfsCall :=
  ⟨0, [4], .rename (fileHandle 1) nameA (fileHandle 1) toName⟩

theorem legalNames_of_requests_rename : ∃ s s', nfsStep (.fresh 0) createA = some s ∧
    nfsStep s (renameA ⟨[0x62], by decide⟩) = some s' ∧ s'.LegalNames := by
  have hfacts : ∃ s ∈ nfsStep (.fresh 0) createA, s.nextInum = 3 ∧
      ∃ s' ∈ nfsStep s (renameA ⟨[0x62], by decide⟩), True := by
    decide +kernel
  rcases hfacts with ⟨s, hs, hnext, s', hs', -⟩
  have hcreated : Reachable nfsStep KeepsLegal (.fresh 0) s :=
    .next createA .start ⟨trivial, by decide⟩ hs
  have hlegal : LegalName ⟨[0x62], by decide⟩ := refusedName_eq_false.mp (by decide)
  have hkeeps : KeepsLegal s (renameA ⟨[0x62], by decide⟩) := by
    refine ⟨?_, by rw [hnext]; decide⟩
    intro _ _ _ _ _ _ _
    exact hlegal
  exact ⟨s, s', hs, hs', (legalNames_of_requests (hcreated.next _ hkeeps hs')).1⟩

/-- The names `..` and `a/a`. -/
def illegalNames : List CString := [⟨[0x2e, 0x2e], by decide⟩, ⟨[0x61, 0x2f, 0x61], by decide⟩]

/-- An entry with a name that is not legal. -/
theorem NfsState.not_legalNames {inum : BitVec 64}
    (h : ∃ inode ∈ s.inodes inum, inode.type = .directory ∧
      ∃ d ∈ inode.dir.dirents, refusedName d.name = true) : ¬s.LegalNames := by
  intro hlegal
  rcases h with ⟨inode, hinode, htype, d, hd, hrefused⟩
  rw [refusedName_eq_false.mpr (hlegal inum inode hinode htype d hd)] at hrefused
  cases hrefused

/-- RENAME to a name that is not legal. -/
theorem not_legalNames_of_rename {toName : CString} (htoName : toName ∈ illegalNames) :
    ∃ s, Reachable nfsStep (fun _ _ => True) (.fresh 0) s ∧ s.binding 1 toName = some 2 ∧
      ¬s.LegalNames := by
  have hfacts : ∀ toName ∈ illegalNames,
      ∃ s ∈ runWhile nfsStep (fun _ _ => True) (.fresh 0) [createA, renameA toName],
        s.binding 1 toName = some 2 ∧ ∃ inode ∈ s.inodes 1,
          inode.type = .directory ∧ ∃ d ∈ inode.dir.dirents, refusedName d.name = true := by
    decide +kernel
  rcases hfacts toName htoName with ⟨s, hrun, hbound, hentry⟩
  exact ⟨s, reachable_of_runWhile .start hrun, hbound, NfsState.not_legalNames hentry⟩

/-- CREATE of `a` and RENAME of it to `..` or to a name with a slash. -/
theorem rename_illegal :
    (∃ s, Reachable nfsStep (fun _ _ => True) (.fresh 0) s ∧
      s.binding 1 ⟨[0x2e, 0x2e], by decide⟩ = some 2 ∧ ¬s.LegalNames) ∧
    ∃ s, Reachable nfsStep (fun _ _ => True) (.fresh 0) s ∧
      s.binding 1 ⟨[0x61, 0x2f, 0x61], by decide⟩ = some 2 ∧ ¬s.LegalNames :=
  ⟨not_legalNames_of_rename (by decide), not_legalNames_of_rename (by decide)⟩

end BlueSky

import BlueSky.Nfs.Replies

/-!
# When the directories form a tree

No directory is below itself, and each has at most one name.  `bluesky_rename` does not check
that a directory is not moved below itself, and LINK does not check that the inode it is given
is not a directory.

Main results:

- Theorem {lit}`nfsCall_treeInv`: a request that is safe keeps the tree a tree.
- Theorem {lit}`tree_of_safe_requests`: after any number of safe requests the directories form a
  tree, and a request that succeeds keeps it exactly if it is safe.
-/

namespace BlueSky

open Function Option ByteLib CStringLib NameTreeLib Relation TransitionLib

/-! ## The tree -/

namespace NfsState

/-- No inode is below itself, and directories have at most one name. -/
def Tree (s : NfsState) : Prop :=
  IsTree s.binding fun inum => s.kind inum = some .directory

/-- An inode is the given one or has it below it. -/
def AtOrBelow (s : NfsState) (inum below : BitVec 64) : Prop :=
  ReflTransGen (Child s.binding) inum below

/-- No directory has a name for the inode. -/
def Unnamed (s : NfsState) (inum : BitVec 64) : Prop :=
  ∀ dir name, s.binding dir name ≠ some inum

end NfsState

/-- The requests that keep the tree: LINK gives a directory a name only if it has none and not
at or below itself, and RENAME does not move a directory to or below itself. -/
def NfsRequest.TreeSafe (s : NfsState) : NfsRequest → Prop
  | .create _ _ => True
  | .mkdir _ _ _ => True
  | .symlink _ _ _ => True
  | .link file fh name => refusedName name = false → ∀ inum dir, handleInum file = some inum →
      handleInum fh = some dir → s.kind inum = some .directory →
      s.kind dir = some .directory → s.binding dir name = none →
      ¬s.AtOrBelow inum dir ∧ s.Unnamed inum
  | .remove _ _ => True
  | .rmdir _ _ => True
  | .rename fromFh fromName toFh _ => ∀ dir1 dir2 inum, handleInum fromFh = some dir1 →
      handleInum toFh = some dir2 → s.kind dir2 = some .directory →
      s.binding dir1 fromName = some inum → ¬s.AtOrBelow inum dir2

/-- A file system in order whose directories form a tree and name inodes that exist. -/
structure TreeInv (s : NfsState) : Prop where
  inv : FsInv s
  numbered : s.Numbered
  bound : ∀ dir name inum, s.binding dir name = some inum → s.kind inum ≠ none
  tree : s.Tree

variable {s : NfsState}

/-- Only directories have names for inodes. -/
theorem NfsState.kind_of_binding {dir inum : BitVec 64} {name : CString}
    (h : s.binding dir name = some inum) : s.kind dir = some .directory := by
  rcases bind_eq_some_iff.mp h with ⟨inode, hinode, hbinding⟩
  rw [Inode.binding] at hbinding
  split_ifs at hbinding with htype
  rw [NfsState.kind, hinode, map_some, htype]

/-- Nothing is below an inode that is not a directory. -/
theorem NfsState.AtOrBelow.eq {inum below : BitVec 64} (h : s.AtOrBelow inum below)
    (hkind : s.kind inum ≠ some .directory) : below = inum := by
  rcases ReflTransGen.cases_head h with heq | ⟨inum', ⟨name, hname⟩, -⟩
  · exact heq.symm
  · exact absurd (NfsState.kind_of_binding hname) hkind

/-! ## One request -/

section Request

variable {s s' : NfsState} {dir dir1 dir2 inum : BitVec 64} {name name1 name2 : CString}

/-- A new inode is not below anything and has nothing below it. -/
theorem TreeInv.made (h : TreeInv s) {type : FileType} (hdir : s.kind dir = some .directory)
    (hbecomes : s'.Becomes (if s.binding dir name = none then
      setName s.binding dir name (some s.nextInum) else s.binding)
      (update s.kind s.nextInum (some type))) :
    s'.Tree ∧ ∀ dir name inum, s'.binding dir name = some inum → s'.kind inum ≠ none := by
  have hunused : s.kind s.nextInum = none :=
    (@NfsState.Numbered.unused s h.numbered dir (by simp [hdir])).2
  have hkind : ∀ dir name inum, s.binding dir name = some inum → s'.kind inum = s.kind inum := by
    intro dir' name' inum hname
    rw [hbecomes.kind, update_of_ne]
    rintro rfl
    exact h.bound dir' name' _ hname hunused
  have hbound : ∀ dir name inum, s.binding dir name = some inum → s'.kind inum ≠ none := by
    intro dir' name' inum hname
    rw [hkind dir' name' inum hname]
    exact h.bound dir' name' inum hname
  -- the table of before is a tree for the types of afterwards
  have hold : IsTree s.binding fun inum => s'.kind inum = some .directory :=
    h.tree.unbind (fun _ _ _ hname => hname) fun dir' name' inum hname hdirectory =>
      hkind dir' name' inum hname ▸ hdirectory
  rw [NfsState.Tree, hbecomes.binding]
  split_ifs with hname
  · constructor
    · refine (hold.bind_iff hname).mpr ⟨?_, fun _ => ?_⟩
      · intro hpath
        have heq := NfsState.AtOrBelow.eq hpath (by rw [hunused]; simp)
        rw [heq, hunused] at hdir
        cases hdir
      · intro dir' name' hnext
        exact h.bound dir' name' _ hnext hunused
    · intro dir' name' inum hbinding
      rw [setName_apply] at hbinding
      split_ifs at hbinding
      · rw [← some_inj.mp hbinding, hbecomes.kind, update_self]
        simp
      · exact hbound dir' name' inum hbinding
  · exact ⟨hold, hbound⟩

/-- Taking names away keeps the tree. -/
theorem TreeInv.unbind (h : TreeInv s)
    (hbecomes : s'.Becomes (setName s.binding dir name none) s.kind) :
    s'.Tree ∧ ∀ dir name inum, s'.binding dir name = some inum → s'.kind inum ≠ none := by
  rw [NfsState.Tree, hbecomes.binding, hbecomes.kind]
  exact ⟨h.tree.unbind (fun _ _ _ => setName_none_le) fun _ _ _ _ hkind => hkind,
    fun dir name inum hname => h.bound dir name inum (setName_none_le hname)⟩

/-- The names after an inode that exists has been bound. -/
theorem TreeInv.bound_setName (h : TreeInv s)
    {names : BitVec 64 → CString → Option (BitVec 64)}
    (hnames : ∀ {dir name inum}, names dir name = some inum → s.binding dir name = some inum)
    (hinum : s.kind inum ≠ none)
    (hbecomes : s'.Becomes (setName names dir name (some inum)) s.kind) (dir' : BitVec 64)
    (name' : CString) (inum' : BitVec 64) (hbinding : s'.binding dir' name' = some inum') :
    s'.kind inum' ≠ none := by
  rw [hbecomes.binding, setName_apply] at hbinding
  rw [hbecomes.kind]
  split_ifs at hbinding
  · rw [← some_inj.mp hbinding]
    exact hinum
  · exact h.bound dir' name' inum' (hnames hbinding)

/-- The names that a rename leaves behind. -/
theorem moved_le
    (h : setName (setName s.binding dir2 name2 none) dir1 name1 none dir name = some inum) :
    s.binding dir name = some inum :=
  setName_none_le (setName_none_le h)

/-- A rename keeps the tree exactly if the inode is not moved to or below itself. -/
theorem TreeInv.renamed_iff (h : TreeInv s) (hbound : s.binding dir1 name1 = some inum)
    (hbecomes : s'.Becomes (setName (setName (setName s.binding dir2 name2 none) dir1 name1 none)
      dir2 name2 (some inum)) s.kind) : s'.Tree ↔ ¬s.AtOrBelow inum dir2 := by
  have hrest : IsTree (setName (setName s.binding dir2 name2 none) dir1 name1 none)
      fun inum => s.kind inum = some .directory :=
    h.tree.unbind (fun _ _ _ => moved_le) fun _ _ _ _ hkind => hkind
  have hunbound : setName (setName s.binding dir2 name2 none) dir1 name1 none dir2 name2 =
      none := by
    rw [setName_apply]
    split_ifs
    · rfl
    · exact setName_self
  -- the moved inode has lost its only name
  have hnamed : s.kind inum = some .directory → ∀ dir name,
      setName (setName s.binding dir2 name2 none) dir1 name1 none dir name ≠ some inum := by
    intro hkind dir name hname
    rcases h.tree.unique inum hkind dir name dir1 name1 (moved_le hname) hbound with ⟨rfl, rfl⟩
    rw [setName_self] at hname
    cases hname
  have hpath : ReflTransGen
      (Child (setName (setName s.binding dir2 name2 none) dir1 name1 none)) inum dir2 ↔
      s.AtOrBelow inum dir2 := by
    constructor
    · refine fun hpath => ReflTransGen.mono ?_ _ _ hpath
      rintro a b ⟨name, hname⟩
      exact ⟨name, moved_le hname⟩
    · refine h.tree.path_of_moved ?_
      rintro a b ⟨name, hname⟩ hsource htarget
      refine ⟨name, ?_⟩
      rw [setName_apply, if_neg, setName_apply, if_neg fun heq => hsource heq.1]
      · exact hname
      · rintro ⟨rfl, rfl⟩
        rw [hbound, some_inj] at hname
        exact htarget hname.symm
  rw [NfsState.Tree, hbecomes.binding, hbecomes.kind, hrest.bind_iff hunbound, hpath]
  exact and_iff_left hnamed

theorem Makes.treeSafe {fh : Bytes} {type : FileType} {request : NfsRequest}
    (h : Makes fh name type request) : request.TreeSafe s := by
  cases h <;> exact trivial

/-- A request that succeeds keeps the tree exactly if it is safe; one that fails keeps
everything. -/
theorem nfsCall_tree {c : NfsCall} {reply : NfsReply} (h : TreeInv s)
    (hcall : nfsCall s c = some (s', reply)) :
    (reply.status ≠ .ok ∧ s' = s) ∨ (s'.Tree ↔ c.request.TreeSafe s) ∧
      ∀ dir name inum, s'.binding dir name = some inum → s'.kind inum ≠ none := by
  have hhandled := nfsCall_handled h.inv h.numbered hcall
  generalize c.request = request at hhandled ⊢
  cases hhandled with
  | refused hfailed hsame => exact Or.inl ⟨hfailed, hsame⟩
  | made hmakes _ hdir _ _ _ _ hbecomes =>
    rcases h.made hdir hbecomes with ⟨htree, hbound⟩
    exact Or.inr ⟨iff_of_true htree hmakes.treeSafe, hbound⟩
  | @linked file fh name inum dir hfile hfh hne hinum hdir hname hunbound _ _ hbecomes =>
    refine Or.inr ⟨?_, h.bound_setName id hinum hbecomes⟩
    rw [NfsState.Tree, hbecomes.binding, hbecomes.kind, h.tree.bind_iff hunbound]
    constructor
    · rintro ⟨hbelow, hnamed⟩ _ inum' dir' hfile' hfh' hkind _ _
      obtain rfl := some_inj.mp (hfile.symm.trans hfile')
      obtain rfl := some_inj.mp (hfh.symm.trans hfh')
      exact ⟨hbelow, hnamed hkind⟩
    · intro hsafe
      by_cases hkind : s.kind inum = some .directory
      · rcases hsafe hname inum dir hfile hfh hkind hdir hunbound with ⟨hbelow, hnamed⟩
        exact ⟨hbelow, fun _ => hnamed⟩
      · exact ⟨fun hpath => hne (NfsState.AtOrBelow.eq hpath hkind).symm,
          fun hdirectory => absurd hdirectory hkind⟩
  | removed _ _ _ _ _ hbecomes =>
    rcases h.unbind hbecomes with ⟨htree, hbound⟩
    exact Or.inr ⟨iff_of_true htree trivial, hbound⟩
  | rmdir _ _ _ _ hbecomes =>
    rcases h.unbind hbecomes with ⟨htree, hbound⟩
    exact Or.inr ⟨iff_of_true htree trivial, hbound⟩
  | @renamed fromFh toFh fromName toName dir1 dir2 inum hfrom hto _ hdir2 hbound _ _ hbecomes =>
    refine Or.inr ⟨?_, h.bound_setName moved_le (h.bound _ _ _ hbound) hbecomes⟩
    rw [h.renamed_iff hbound hbecomes]
    constructor
    · intro hbelow dir1' dir2' inum' hfrom' hto' _ hbound'
      obtain rfl := some_inj.mp (hfrom.symm.trans hfrom')
      obtain rfl := some_inj.mp (hto.symm.trans hto')
      obtain rfl := some_inj.mp (hbound.symm.trans hbound')
      exact hbelow
    · exact fun hsafe => hsafe dir1 dir2 inum hfrom hto hdir2 hbound

end Request

/-- A request that is safe keeps the file system in order and the tree a tree. -/
theorem nfsCall_treeInv {s' : NfsState} {c : NfsCall} {reply : NfsReply} (h : TreeInv s)
    (hsafe : c.request.TreeSafe s) (hwrap : s.nextInum + 1 ≠ 0)
    (hcall : nfsCall s c = some (s', reply)) : TreeInv s' := by
  rcases nfsCall_tree h hcall with ⟨-, rfl⟩ | ⟨htree, hbound⟩
  · exact h
  · rcases nfsCall_fsInv h.inv h.numbered hwrap hcall with ⟨hinv, hnumbered⟩
    exact ⟨hinv, hnumbered, hbound, htree.mpr hsafe⟩

/-! ## Whole runs -/

/-- The requests as a transition system. -/
def nfsStep (s : NfsState) (c : NfsCall) : Option NfsState :=
  (nfsCall s c).map Prod.fst

/-- The request keeps the tree, and there are inode numbers left. -/
def KeepsTree (s : NfsState) (c : NfsCall) : Prop :=
  c.request.TreeSafe s ∧ s.nextInum + 1 ≠ 0

theorem fresh_treeInv (now : Int) : TreeInv (.fresh now) := by
  have hfresh := fresh_becomes now
  refine ⟨hfresh.inv, fresh_numbered now, ?_, ?_, ?_⟩
  · intro dir name inum hname
    rw [hfresh.binding] at hname
    cases hname
  · intro dir hcycle
    rcases TransGen.head'_iff.mp hcycle with ⟨inum, ⟨name, hname⟩, -⟩
    rw [hfresh.binding] at hname
    cases hname
  · intro inum _ dir name dir' name' hname _
    rw [hfresh.binding] at hname
    cases hname

/-- The invariant holds in every run of safe requests. -/
theorem treeInv_of_reachable {now : Int} (h : Reachable nfsStep KeepsTree (.fresh now) s) :
    TreeInv s := by
  refine h.invariant (fresh_treeInv now) ?_
  intro s c s' hs hkeeps hstep
  rcases map_eq_some_iff.mp hstep with ⟨⟨s'', reply⟩, hcall, rfl⟩
  exact nfsCall_treeInv hs hkeeps.1 hkeeps.2 hcall

/-- After any number of safe requests to a fresh file system the directories form a tree, and a
further request that succeeds keeps it exactly if it is safe. -/
theorem tree_of_safe_requests {now : Int} {s : NfsState}
    (h : Reachable nfsStep KeepsTree (.fresh now) s) :
    s.Tree ∧ ∀ c s' reply, nfsCall s c = some (s', reply) → reply.status = .ok →
      (s'.Tree ↔ c.request.TreeSafe s) := by
  have hinv := treeInv_of_reachable h
  refine ⟨hinv.tree, ?_⟩
  intro c s' reply hcall hok
  rcases nfsCall_tree hinv hcall with ⟨hfailed, -⟩ | ⟨htree, -⟩
  · exact absurd hok hfailed
  · exact htree

/-- CREATE of `b` in the root directory. -/
def createB : NfsCall := ⟨0, [5], .create (fileHandle 1) nameB⟩

/-- LINK of this file under its name in the directory `a`. -/
def linkB : NfsCall := ⟨0, [4], .link (fileHandle 3) (fileHandle 2) nameB⟩

/-- RENAME of the file from the root directory to another name in the directory `a`. -/
def renameB : NfsCall := ⟨0, [6], .rename (fileHandle 1) nameB (fileHandle 2) nameA⟩

/-- A directory and a file are made, the file is linked into the directory and then moved there
under a second name. -/
theorem tree_of_safe_requests_moved :
    ∃ s, Reachable nfsStep KeepsTree (.fresh 0) s ∧ s.binding 2 nameA = some 3 ∧
      s.binding 2 nameB = some 3 ∧ s.Tree := by
  have hfacts : ∃ s₁ ∈ nfsStep (.fresh 0) mkdirA, s₁.nextInum = 3 ∧
      ∃ s₂ ∈ nfsStep s₁ createB, s₂.nextInum = 4 ∧ s₂.kind 3 = some .regular ∧
      ∃ s₃ ∈ nfsStep s₂ linkB, s₃.nextInum = 4 ∧ s₃.kind 3 = some .regular ∧
        s₃.binding 1 nameB = some 3 ∧
      ∃ s₄ ∈ nfsStep s₃ renameB, s₄.binding 2 nameA = some 3 ∧ s₄.binding 2 nameB = some 3 := by
    decide +kernel
  rcases hfacts with ⟨s₁, h₁, hnext₁, s₂, h₂, hnext₂, hkind₂, s₃, h₃, hnext₃, hkind₃, hfrom, s₄, h₄,
    hmoved, hlinked⟩
  have hlink : linkB.request.TreeSafe s₂ := by
    intro _ inum dir hfile _ hkind
    rw [handleInum_fileHandle, some_inj] at hfile
    rw [← hfile, hkind₂] at hkind
    cases hkind
  have hrename : renameB.request.TreeSafe s₃ := by
    intro dir1 dir2 inum hdir1 hdir2 _ hbound hbelow
    rw [handleInum_fileHandle, some_inj] at hdir1 hdir2
    rw [← hdir1, hfrom, some_inj] at hbound
    rw [← hbound, ← hdir2] at hbelow
    exact absurd (hbelow.eq (by rw [hkind₃]; decide)) (by decide)
  have hreach : Reachable nfsStep KeepsTree (.fresh 0) s₄ :=
    .next renameB (.next linkB (.next createB (.next mkdirA .start ⟨trivial, by decide⟩ h₁)
      ⟨trivial, by simp [hnext₁]⟩ h₂) ⟨hlink, by simp [hnext₂]⟩ h₃) ⟨hrename, by simp [hnext₃]⟩ h₄
  exact ⟨s₄, hreach, hmoved, hlinked, (tree_of_safe_requests hreach).1⟩

/-- RENAME of `a` in the root directory to `a` in the directory that it names. -/
def renameBelow : NfsCall := ⟨0, [4], .rename (fileHandle 1) nameA (fileHandle 2) nameA⟩

/-- LINK of the directory that `a` names under another name in the root directory. -/
def linkDirectory : NfsCall := ⟨0, [5], .link (fileHandle 2) (fileHandle 1) nameB⟩

/-- A directory that is moved below itself, and one that is given a second name. -/
theorem requests_break_tree :
    (∃ s, Reachable nfsStep (fun _ _ => True) (.fresh 0) s ∧
        TransGen (Child s.binding) 2 2 ∧ s.kind 2 = some .directory ∧ ¬s.Tree) ∧
      ∃ s, Reachable nfsStep (fun _ _ => True) (.fresh 0) s ∧ s.kind 2 = some .directory ∧
        s.binding 1 nameA = some 2 ∧ s.binding 1 nameB = some 2 ∧ ¬s.Tree := by
  constructor
  · have hfacts : ∃ s ∈ runWhile nfsStep (fun _ _ => True) (.fresh 0) [mkdirA, renameBelow],
        s.kind 2 = some .directory ∧ s.binding 2 nameA = some 2 := by
      decide +kernel
    rcases hfacts with ⟨s, hrun, hkind, hbound⟩
    have hcycle : TransGen (Child s.binding) 2 2 := .single ⟨nameA, hbound⟩
    exact ⟨s, reachable_of_runWhile .start hrun, hcycle, hkind, fun htree => htree.acyclic 2 hcycle⟩
  · have hfacts : ∃ s ∈ runWhile nfsStep (fun _ _ => True) (.fresh 0) [mkdirA, linkDirectory],
        s.kind 2 = some .directory ∧ s.binding 1 nameA = some 2 ∧ s.binding 1 nameB = some 2 := by
      decide +kernel
    rcases hfacts with ⟨s, hrun, hkind, hfirst, hsecond⟩
    refine ⟨s, reachable_of_runWhile .start hrun, hkind, hfirst, hsecond, ?_⟩
    intro htree
    have hsame := (htree.unique 2 hkind _ _ _ _ hfirst hsecond).2
    exact absurd hsame (by decide)

end BlueSky

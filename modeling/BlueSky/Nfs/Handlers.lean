import BlueSky.Nfs.Namespace

/-!
# What the handlers do to the namespace

The effect of each request on the bindings of all directories and on the types of the inodes.
A handler either turns the request down and changes nothing, or it changes the bindings that are
named here.

Main results:

- Inductive {lit}`Handled`: the effect of a request.
- Theorem {lit}`makeNode_handled`, {lit}`nfsproc3Remove_handled`, {lit}`nfsproc3Rmdir_handled`,
  {lit}`nfsproc3Link_handled`, {lit}`nfsproc3Rename_handled`, {lit}`nfsCall_handled`: every request
  has this effect.
- Theorem {lit}`nfsCall_fsInv`: every request keeps the file system in order.
-/

namespace BlueSky

open Function Option ByteLib CStringLib NameTreeLib TableLib

/-! ## The effect of a request -/

/-- The name is not bound in the directory with the given handle, if there is one and it takes
the name. -/
def NfsState.FreeName (s : NfsState) (fh : Bytes) (name : CString) : Prop :=
  ∀ dir, handleInum fh = some dir → s.kind dir = some .directory → refusedName name = false →
    s.binding dir name = none

/-- The name is bound in the directory with the given handle, unless the handle stands for
nothing or the name is refused. -/
def NfsState.BoundName (s : NfsState) (fh : Bytes) (name : CString) : Prop :=
  ∀ inum, handleInum fh = some inum → s.kind inum ≠ none → refusedName name = false →
    s.binding inum name ≠ none

/-- CREATE, MKDIR and SYMLINK of names that are not bound, REMOVE of names that are, and all
other requests. -/
def NfsRequest.Answerable (s : NfsState) : NfsRequest → Prop
  | .create fh name => s.FreeName fh name
  | .mkdir fh name _ => s.FreeName fh name
  | .symlink fh name _ => s.FreeName fh name
  | .remove fh name => s.BoundName fh name
  | .link _ _ _ => True
  | .rmdir _ _ => True
  | .rename _ _ _ _ => True

/-- The requests that make an inode of a type and bind a name to it. -/
inductive Makes (fh : Bytes) (name : CString) : FileType → NfsRequest → Prop
  | create : Makes fh name .regular (.create fh name)
  | mkdir (attributes : Sattr3) : Makes fh name .directory (.mkdir fh name attributes)
  | symlink (symlinkData : CString) : Makes fh name .symlink (.symlink fh name symlinkData)

/-- What a request does to the namespace, with its reply. -/
inductive Handled (s s' : NfsState) (reply : NfsReply) : NfsRequest → Prop
  /-- Nothing happens. -/
  | refused {request : NfsRequest} (hstatus : reply.status ≠ .ok) (hsame : s' = s)
      (hanswerable : request.Answerable s) : Handled s s' reply request
  /-- The handle is that of a directory, the name is not refused, and a new inode is bound to it
  unless the name is bound. -/
  | made {request : NfsRequest} {fh : Bytes} {name : CString} {type : FileType} {dir : BitVec 64}
      (hmakes : Makes fh name type request) (hfh : handleInum fh = some dir)
      (hdir : s.kind dir = some .directory) (hname : refusedName name = false)
      (hstatus : reply.status = .ok) (hhandle : reply.handle = some (fileHandle s.nextInum))
      (hnext : s'.nextInum = s.nextInum + 1)
      (hbecomes : s'.Becomes (if s.binding dir name = none then
        setName s.binding dir name (some s.nextInum) else s.binding)
        (update s.kind s.nextInum (some type))) : Handled s s' reply request
  /-- The handle is that of another inode, which is a directory, the name is not refused, and it
  becomes bound to the inode that is given. -/
  | linked {file fh : Bytes} {name : CString} {inum dir : BitVec 64}
      (hfile : handleInum file = some inum) (hfh : handleInum fh = some dir) (hne : inum ≠ dir)
      (hinum : s.kind inum ≠ none) (hdir : s.kind dir = some .directory)
      (hname : refusedName name = false) (hunbound : s.binding dir name = none)
      (hstatus : reply.status = .ok) (hnext : s'.nextInum = s.nextInum)
      (hbecomes : s'.Becomes (setName s.binding dir name (some inum)) s.kind) :
      Handled s s' reply (.link file fh name)
  /-- The handle is that of an inode, the name is not refused, and the name is unbound
  afterwards. -/
  | removed {fh : Bytes} {name : CString} {dir : BitVec 64} (hfh : handleInum fh = some dir)
      (hdir : s.kind dir ≠ none) (hname : refusedName name = false) (hstatus : reply.status = .ok)
      (hnext : s'.nextInum = s.nextInum)
      (hbecomes : s'.Becomes (setName s.binding dir name none) s.kind) :
      Handled s s' reply (.remove fh name)
  /-- The name is bound before and unbound afterwards. -/
  | rmdir {fh : Bytes} {name : CString} {dir : BitVec 64} (hfh : handleInum fh = some dir)
      (hbound : s.binding dir name ≠ none) (hstatus : reply.status = .ok)
      (hnext : s'.nextInum = s.nextInum)
      (hbecomes : s'.Becomes (setName s.binding dir name none) s.kind) :
      Handled s s' reply (.rmdir fh name)
  /-- A name of the one directory moves to a name of the other. -/
  | renamed {fromFh toFh : Bytes} {fromName toName : CString} {dir1 dir2 inum : BitVec 64}
      (hfrom : handleInum fromFh = some dir1) (hto : handleInum toFh = some dir2)
      (hdir1 : s.kind dir1 = some .directory) (hdir2 : s.kind dir2 = some .directory)
      (hbound : s.binding dir1 fromName = some inum) (hstatus : reply.status = .ok)
      (hnext : s'.nextInum = s.nextInum)
      (hbecomes : s'.Becomes (setName (setName (setName s.binding dir2 toName none)
        dir1 fromName none) dir2 toName (some inum)) s.kind) :
      Handled s s' reply (.rename fromFh fromName toFh toName)

variable {s s' : NfsState} {request : NfsRequest}

/-- A request that is turned down. -/
theorem Handled.of_reply {reply reply' : NfsReply} (h : some (s, reply) = some (s', reply'))
    (hstatus : reply.status ≠ .ok) (hanswerable : request.Answerable s) :
    Handled s s' reply' request := by
  rw [some_inj, Prod.mk.injEq] at h
  rcases h with ⟨rfl, rfl⟩
  exact .refused hstatus rfl hanswerable

/-! ## CREATE, MKDIR and SYMLINK -/

variable {now : Int}

theorem setSize_of_not_regular {size : Option (BitVec 64)} {cacheDirty : Int} {i : Inode}
    (htype : i.type ≠ .regular) :
    setSize now size cacheDirty i = some (cacheDirty, i) := by
  cases size with
  | none => rfl
  | some size => exact if_neg htype

theorem setInitial_spec {attributes : Option Sattr3} {cacheDirty : Int} {i : Inode}
    {result : Int × Inode} (htype : attributes ≠ none → i.type ≠ .regular)
    (h : setInitial now attributes cacheDirty i = some result) :
    result.2.inum = i.inum ∧ result.2.type = i.type ∧ result.2.dir = i.dir := by
  cases attributes with
  | none =>
    rw [← some_inj.mp h]
    exact ⟨rfl, rfl, rfl⟩
  | some attributes =>
    rcases map_eq_some_iff.mp h with ⟨sized, hsized, rfl⟩
    have hsame := some_inj.mp (hsized.symm.trans (setSize_of_not_regular (htype (by simp))))
    rw [hsame]
    exact ⟨rfl, rfl, rfl⟩

theorem newNode_dir (now : Int) (inum : BitVec 64) (type : FileType) (text : CString) :
    (newNode now inum type text).inum = inum ∧ (newNode now inum type text).type = type ∧
      (newNode now inum type text).dir = .empty := by
  cases type <;> exact ⟨rfl, rfl, rfl⟩

/-- The next number is not in use. -/
theorem NfsState.Numbered.unused {s : NfsState} (h : s.Numbered) {inum : BitVec 64}
    (hinum : s.kind inum ≠ none) : s.nextInum ≠ 0 ∧ s.kind s.nextInum = none := by
  constructor
  · intro hzero
    exact BitVec.not_lt_zero (hzero ▸ h inum hinum)
  · by_contra hused
    exact BitVec.lt_irrefl _ (h _ hused)

/-- A new inode without names. -/
theorem NfsState.Becomes.insertInode {s : NfsState} {names kinds}
    (h : s.Becomes names kinds) {file : Inode} (hunused : file.inum ≠ 0 ∧ kinds file.inum = none)
    (hdir : file.dir = .empty) (nextInum : BitVec 64) (cacheDirty : Int) :
    NfsState.Becomes ⟨update s.inodes file.inum (some file), nextInum, cacheDirty⟩ names
      (update kinds file.inum (some file.type)) := by
  have hnone : s.inodes file.inum = none := by
    have hkind := hunused.2
    rw [← h.kind, NfsState.kind, map_eq_none_iff] at hkind
    exact hkind
  refine ⟨⟨?_, ?_, ?_⟩, ?_, ?_⟩
  · intro inum inode hinode
    rcases update_eq_some_iff.mp hinode with ⟨rfl, rfl⟩ | ⟨-, hinode⟩
    · rfl
    · exact h.inv.own inum inode hinode
  · exact (update_of_ne (Ne.symm hunused.1) _ _).trans h.inv.zero
  · intro inum inode hinode
    rcases update_eq_some_iff.mp hinode with ⟨-, rfl⟩ | ⟨-, hinode⟩
    · rw [hdir]
      exact DirInv.empty
    · exact h.inv.dirs inum inode hinode
  · rw [← h.binding]
    funext inum name
    by_cases heq : inum = file.inum
    · simp only [NfsState.binding, heq, update_self, hnone, bind_some,
        bind_none, Inode.binding, hdir, Directory.binding_empty, ite_self]
    · simp only [NfsState.binding, update_of_ne heq]
  · rw [← h.kind]
    funext inum
    by_cases heq : inum = file.inum
    · simp only [NfsState.kind, heq, update_self, map_some]
    · simp only [NfsState.kind, update_of_ne heq]

variable {fh : Bytes} {inum : BitVec 64}

/-- The directory that a handle stands for. -/
theorem FsInv.kind_of_lookupFh (h : FsInv s) (hfh : handleInum fh = some inum) :
    s.kind inum = (s.lookupFh fh).map fun inode => inode.type := by
  rw [NfsState.lookupFh, hfh, bind_some, NfsState.getInode, NfsState.kind]
  split_ifs with hzero
  · rw [hzero, h.zero, map_none]
  · rfl

variable {name : CString}

theorem Makes.answerable {type : FileType} (h : Makes fh name type request) :
    request.Answerable s ↔ s.FreeName fh name := by
  cases h <;> exact Iff.rfl

variable {draws : List (BitVec 32)}

theorem makeNode_handled {type : FileType} {text : CString} {attributes : Option Sattr3}
    {reply : NfsReply} (h : FsInv s) (hnumbered : s.Numbered) (hmakes : Makes fh name type request)
    (hattributes : attributes ≠ none → type ≠ .regular)
    (hcall : makeNode type text attributes now draws s fh name = some (s', reply)) :
    Handled s s' reply request := by
  rw [makeNode] at hcall
  cases hdir : s.lookupFh fh with
  | none =>
    simp only [hdir] at hcall
    refine .of_reply hcall (by simp) (hmakes.answerable.mpr ?_)
    intro inum hfh hkind _
    rw [h.kind_of_lookupFh hfh, hdir] at hkind
    cases hkind
  | some dir =>
    rcases h.lookupFh hdir with ⟨hget, hinum⟩
    simp only [hdir] at hcall
    split_ifs at hcall with htype hname
    · refine .of_reply hcall (by simp) (hmakes.answerable.mpr ?_)
      intro inum hfh hkind _
      rw [h.kind_of_lookupFh hfh, hdir, map_some, some_inj] at hkind
      exact absurd hkind htype
    · refine .of_reply hcall (by simp) (hmakes.answerable.mpr ?_)
      exact fun _ _ _ hlegal => absurd hname (by simp [hlegal])
    · rw [not_not] at htype
      rcases bind_eq_some_iff.mp hcall with ⟨⟨dir', ok⟩, hinsert, hcall⟩
      rcases bind_eq_some_iff.mp hcall with ⟨made, hmade, hcall⟩
      rw [some_inj, Prod.mk.injEq] at hcall
      rcases hcall with ⟨rfl, rfl⟩
      rcases newNode_dir now s.nextInum type text with ⟨hnum, hkind, hempty⟩
      have hfile := setInitial_spec (by rw [hkind]; exact hattributes) hmade
      rw [hnum, hkind, hempty] at hfile
      rcases hfile with ⟨hnum, hkind, hempty⟩
      have hdirs := (@FsInv.insertName s h dir dir' (Inode.updateCtime now true dir') hget
        htype now draws name s.nextInum ok hinsert ⟨rfl, rfl, rfl⟩).2
      have hunused := @NfsState.Numbered.unused s hnumbered dir.inum (by simp [NfsState.kind, hget])
      have hnew := @NfsState.Becomes.insertInode _ _ _ hdirs
        (Inode.updateCtime now false made.2) (hnum.symm ▸ hunused) hempty (s.nextInum + 1)
        made.1
      have hnum' : (Inode.updateCtime now false made.2).inum = s.nextInum := hnum
      have hkind' : (Inode.updateCtime now false made.2).type = type := hkind
      rw [hnum', hkind'] at hnew
      exact .made hmakes hinum (by rw [NfsState.kind, hget, map_some, htype])
        (by simpa using hname) rfl rfl rfl hnew

/-! ## REMOVE and RMDIR -/

theorem nfsproc3Remove_handled {reply : NfsReply} (h : FsInv s)
    (hcall : nfsproc3Remove now s fh name = some (s', reply)) :
    Handled s s' reply (.remove fh name) := by
  rw [nfsproc3Remove] at hcall
  cases hdir : s.lookupFh fh with
  | none =>
    simp only [hdir] at hcall
    refine .of_reply hcall (by simp) ?_
    intro inum hfh hkind _
    rw [h.kind_of_lookupFh hfh, hdir] at hkind
    exact absurd rfl hkind
  | some dir =>
    rcases h.lookupFh hdir with ⟨hget, hinum⟩
    simp only [hdir] at hcall
    split_ifs at hcall with hname
    · refine .of_reply hcall (by simp) ?_
      exact fun _ _ _ hlegal => absurd hname (by simp [hlegal])
    · rw [some_inj, Prod.mk.injEq] at hcall
      rcases hcall with ⟨rfl, rfl⟩
      exact .removed hinum (by simp [NfsState.kind, hget]) (by simpa using hname) rfl rfl
        (h.removeName hget now name)

theorem nfsproc3Rmdir_handled {reply : NfsReply} (h : FsInv s)
    (hcall : nfsproc3Rmdir now s fh name = some (s', reply)) :
    Handled s s' reply (.rmdir fh name) := by
  rw [nfsproc3Rmdir] at hcall
  cases hdir : s.lookupFh fh with
  | none =>
    simp only [hdir] at hcall
    exact .of_reply hcall (by simp) trivial
  | some dir =>
    rcases h.lookupFh hdir with ⟨hget, hinum⟩
    simp only [hdir] at hcall
    split at hcall
    · exact .of_reply hcall (by simp) trivial
    · cases hinode : s.getInode (dir.directoryLookup name) with
      | none =>
        simp only [hinode] at hcall
        exact .of_reply hcall (by simp) trivial
      | some inode =>
        simp only [hinode] at hcall
        split_ifs at hcall
        · exact .of_reply hcall (by simp) trivial
        · exact .of_reply hcall (by simp) trivial
        · rw [some_inj, Prod.mk.injEq] at hcall
          rcases hcall with ⟨rfl, rfl⟩
          refine .rmdir hinum ?_ rfl rfl (h.removeName hget now name)
          intro hnone
          rw [NfsState.binding_of_inode hget] at hnone
          rw [Inode.directoryLookup_eq_zero hnone, NfsState.getInode, if_pos rfl] at hinode
          cases hinode

/-! ## LINK -/

theorem nfsproc3Link_handled {file : Bytes} {reply : NfsReply} (h : FsInv s)
    (hcall : nfsproc3Link now draws s file fh name = some (s', reply)) :
    Handled s s' reply (.link file fh name) := by
  rw [nfsproc3Link] at hcall
  cases hfile : s.lookupFh file with
  | none =>
    simp only [hfile] at hcall
    exact .of_reply hcall (by simp) trivial
  | some inode =>
    rcases h.lookupFh hfile with ⟨hinode, hinum⟩
    simp only [hfile] at hcall
    cases hdir : s.lookupFh fh with
    | none =>
      simp only [hdir] at hcall
      exact .of_reply hcall (by simp) trivial
    | some dir =>
      rcases h.lookupFh hdir with ⟨hget, hfh⟩
      simp only [hdir] at hcall
      split_ifs at hcall with hne htype hname
      · exact .of_reply hcall (by simp) trivial
      · exact .of_reply hcall (by simp) trivial
      · rcases bind_eq_some_iff.mp hcall with ⟨⟨dir', ok⟩, hinsert, hcall⟩
        dsimp only at hcall
        split_ifs at hcall with hok
        · rw [some_inj, Prod.mk.injEq] at hcall
          rcases hcall with ⟨rfl, rfl⟩
          rw [not_not] at htype
          -- the inode given keeps its entries
          have hlinked := @FsInv.putSame s h inode (Inode.updateCtime now false
            { inode with nlink := inode.nlink + 1 }) hinode ⟨rfl, rfl, rfl⟩
          have hget' : (s.putInode (Inode.updateCtime now false
              { inode with nlink := inode.nlink + 1 })).inodes dir.inum = some dir :=
            (update_of_ne (Ne.symm hne) _ _).trans hget
          rcases @FsInv.insertName _ hlinked.inv dir dir' (Inode.updateCtime now true dir')
            hget' htype now draws name inode.inum ok hinsert ⟨rfl, rfl, rfl⟩ with
            ⟨hunbound, hadded⟩
          rw [hlinked.binding, hok] at hunbound
          rw [hlinked.binding, hlinked.kind, if_pos (hunbound.mp rfl)] at hadded
          exact .linked hinum hfh hne (by simp [NfsState.kind, hinode])
            (by rw [NfsState.kind, hget, map_some, htype])
            (by simpa using (not_or.mp hname).1) (hunbound.mp rfl) rfl rfl hadded
        · exact .of_reply hcall (by simp) trivial

/-! ## RENAME -/

theorem NfsState.removeName_nextInum (s : NfsState) (now : Int) (inum : BitVec 64)
    (name : CString) : (s.removeName now inum name).nextInum = s.nextInum := by
  rw [NfsState.removeName]
  split <;> rfl

theorem FsInv.removeName_becomes (h : FsInv s) (hkind : s.kind inum ≠ none) (now : Int)
    (name : CString) :
    (s.removeName now inum name).Becomes (setName s.binding inum name none) s.kind := by
  rw [NfsState.removeName]
  cases hdir : s.inodes inum with
  | none =>
    rw [NfsState.kind, hdir] at hkind
    exact absurd rfl hkind
  | some dir =>
    have hinum := h.own inum dir hdir
    rw [← hinum] at hdir ⊢
    exact h.removeName hdir now name

/-- The target of a rename is removed if there is one. -/
theorem FsInv.clearTarget (h : FsInv s) {dir : Inode} (hdir : s.inodes inum = some dir)
    (htype : dir.type = .directory) (now : Int) (name : CString) :
    (if dir.entry true name ≠ none then s.removeName now inum name else s).Becomes
        (setName s.binding inum name none) s.kind ∧
      (if dir.entry true name ≠ none then s.removeName now inum name else s).nextInum =
        s.nextInum := by
  split_ifs with hentry
  · exact ⟨h.removeName_becomes (by simp [NfsState.kind, hdir]) now name,
      s.removeName_nextInum now inum name⟩
  · refine ⟨?_, rfl⟩
    have hunbound : s.binding inum name = none := by
      rw [NfsState.binding, hdir, bind_some, Inode.binding, if_pos htype]
      exact Directory.binding_eq_none.mpr (not_not.mp hentry)
    rw [setName_none hunbound]
    exact ⟨h, rfl, rfl⟩

/-- Binding an unbound name of the directory with a given number. -/
theorem NfsState.Becomes.insertName {s : NfsState} {names kinds} (h : s.Becomes names kinds)
    {dir j : Inode} {inum inum' : BitVec 64} {name : CString} {now : Int}
    {draws : List (BitVec 32)} {ok : Bool} (hdir : s.inodes inum = some dir)
    (hkind : kinds inum = some .directory) (hunbound : names inum name = none)
    (hinsert : dir.directoryInsert now draws name inum' = some (j, ok)) :
    (s.putInode j).Becomes (setName names inum name (some inum')) kinds := by
  have htype : dir.type = .directory := by
    rw [← h.kind, NfsState.kind, hdir, map_some, some_inj] at hkind
    exact hkind
  have hinum := h.inv.own inum dir hdir
  rw [← hinum] at hdir hunbound ⊢
  have hadded := (@FsInv.insertName s h.inv dir j j hdir htype now draws name inum' ok hinsert
    ⟨rfl, rfl, rfl⟩).2
  rw [h.binding, h.kind, if_pos hunbound] at hadded
  exact hadded

/-- Either nothing happens, or the name in the one directory is unbound and that in the other
bound to what it was bound to. -/
theorem NfsState.rename_spec {inum1 inum2 : BitVec 64} {name1 name2 : CString} {ok : Bool}
    (h : FsInv s) (hcall : s.rename now draws inum1 name1 inum2 name2 true true = some (s', ok)) :
    (ok = false ∧ s' = s) ∨
      ∃ inum, s.kind inum1 = some .directory ∧ s.kind inum2 = some .directory ∧
        s.binding inum1 name1 = some inum ∧ ok = true ∧ s'.nextInum = s.nextInum ∧
        s'.Becomes (setName (setName (setName s.binding inum2 name2 none) inum1 name1 none)
          inum2 name2 (some inum)) s.kind := by
  rw [NfsState.rename] at hcall
  rcases bind_eq_some_iff.mp hcall with ⟨dir1, hdir1, hcall⟩
  rcases bind_eq_some_iff.mp hcall with ⟨dir2, hdir2, hcall⟩
  have hunchanged : ∀ {s' : NfsState} {ok : Bool}, some (s, false) = some (s', ok) →
      ok = false ∧ s' = s := by
    intro s' ok heq
    rw [some_inj, Prod.mk.injEq] at heq
    exact ⟨heq.2.symm, heq.1.symm⟩
  split_ifs at hcall with htypes
  · exact Or.inl (hunchanged hcall)
  · rw [not_or, not_not, not_not] at htypes
    have hkind1 : s.kind inum1 = some .directory := by
      rw [NfsState.kind, hdir1, map_some, htypes.1]
    have hkind2 : s.kind inum2 = some .directory := by
      rw [NfsState.kind, hdir2, map_some, htypes.2]
    cases hd1 : dir1.entry true name1 with
    | none =>
      simp only [hd1] at hcall
      exact Or.inl (hunchanged hcall)
    | some d1 =>
      simp only [hd1, and_false, if_false] at hcall
      rcases bind_eq_some_iff.mp hcall with ⟨dir2', hdir2', hcall⟩
      rcases bind_eq_some_iff.mp hcall with ⟨⟨dir2'', inserted⟩, hinsert, hcall⟩
      rw [some_inj, Prod.mk.injEq] at hcall
      have hcleared := h.clearTarget hdir2 htypes.2 now name2
      have hremoved := hcleared.1.inv.removeName_becomes
        (by rw [hcleared.1.kind, hkind1]; simp) now name1
      rw [hcleared.1.binding, hcleared.1.kind] at hremoved
      generalize hs2 : (if dir2.entry true name2 ≠ none then s.removeName now inum2 name2
        else s).removeName now inum1 name1 = s2 at hdir2' hcall hremoved
      have hnext : s2.nextInum = s.nextInum := by
        rw [← hs2, NfsState.removeName_nextInum, hcleared.2]
      have hunbound : setName (setName s.binding inum2 name2 none) inum1 name1 none inum2 name2 =
          none := by
        rw [setName_apply]
        split_ifs
        · rfl
        · exact setName_self
      have hadded := hremoved.insertName hdir2' hkind2 hunbound hinsert
      refine Or.inr ⟨d1.inum, hkind1, hkind2, ?_, hcall.2.symm, by rw [← hcall.1]; exact hnext, ?_⟩
      · rw [NfsState.binding, hdir1, bind_some, Inode.binding, if_pos htypes.1,
          Directory.binding,
          ← show dir1.entry true name1 = dir1.dir.dirhash name1 from if_pos rfl,
          hd1, map_some]
      · rw [← hcall.1]
        exact hadded

theorem nfsproc3Rename_handled {fromFh toFh : Bytes} {fromName toName : CString} {reply : NfsReply}
    (h : FsInv s)
    (hcall : nfsproc3Rename now draws s fromFh fromName toFh toName = some (s', reply)) :
    Handled s s' reply (.rename fromFh fromName toFh toName) := by
  rw [nfsproc3Rename] at hcall
  cases hdir1 : s.lookupFh fromFh with
  | none =>
    simp only [hdir1] at hcall
    exact .of_reply hcall (by simp) trivial
  | some dir1 =>
    simp only [hdir1] at hcall
    cases hdir2 : s.lookupFh toFh with
    | none =>
      simp only [hdir2] at hcall
      exact .of_reply hcall (by simp) trivial
    | some dir2 =>
      simp only [hdir2] at hcall
      rcases bind_eq_some_iff.mp hcall with ⟨⟨renamed, ok⟩, hrenamed, hcall⟩
      rcases bind_eq_some_iff.mp hcall with ⟨after1, -, hcall⟩
      rcases bind_eq_some_iff.mp hcall with ⟨after2, -, hcall⟩
      rw [some_inj, Prod.mk.injEq] at hcall
      rcases hcall with ⟨rfl, rfl⟩
      rcases NfsState.rename_spec h hrenamed with
        ⟨rfl, hsame⟩ | ⟨inum, hkind1, hkind2, hbound, rfl, hnext, hbecomes⟩
      · exact .refused (by simp) hsame trivial
      · exact .renamed (h.lookupFh hdir1).2 (h.lookupFh hdir2).2 hkind1 hkind2 hbound rfl hnext
          hbecomes

/-! ## All requests -/

/-- What a request does. -/
theorem nfsCall_handled {c : NfsCall} {reply : NfsReply} (h : FsInv s) (hnumbered : s.Numbered)
    (hcall : nfsCall s c = some (s', reply)) :
    Handled s s' reply c.request := by
  rw [nfsCall] at hcall
  cases hrequest : c.request with rw [hrequest] at hcall
  | create fh name => exact makeNode_handled h hnumbered .create (by simp) hcall
  | mkdir fh name attributes =>
    exact makeNode_handled h hnumbered (.mkdir attributes) (by simp) hcall
  | symlink fh name symlinkData =>
    exact makeNode_handled h hnumbered (.symlink symlinkData) (by simp) hcall
  | link file fh name => exact nfsproc3Link_handled h hcall
  | remove fh name => exact nfsproc3Remove_handled h hcall
  | rmdir fh name => exact nfsproc3Rmdir_handled h hcall
  | rename fromFh fromName toFh toName => exact nfsproc3Rename_handled h hcall

theorem NfsState.Numbered.of_kind (h : s.Numbered) (hkind : s'.kind = s.kind)
    (hnext : s'.nextInum = s.nextInum) : s'.Numbered := by
  intro inum hinum
  rw [hkind] at hinum
  rw [hnext]
  exact h inum hinum

/-- Every request keeps the file system in order, as long as there are inode numbers. -/
theorem nfsCall_fsInv {c : NfsCall} {reply : NfsReply} (h : FsInv s) (hnumbered : s.Numbered)
    (hwrap : s.nextInum + 1 ≠ 0) (hcall : nfsCall s c = some (s', reply)) :
    FsInv s' ∧ s'.Numbered := by
  have hhandled := nfsCall_handled h hnumbered hcall
  generalize c.request = request at hhandled
  cases hhandled with
  | refused _ hsame =>
    rw [hsame]
    exact ⟨h, hnumbered⟩
  | made _ _ _ _ _ _ hnext hbecomes =>
    refine ⟨hbecomes.inv, ?_⟩
    intro inum hinum
    have hlt : s.nextInum < s.nextInum + 1 := by
      bv_omega
    rw [hnext]
    by_cases heq : inum = s.nextInum
    · rw [heq]
      exact hlt
    · rw [hbecomes.kind, update_of_ne heq] at hinum
      exact BitVec.lt_trans (hnumbered inum hinum) hlt
  | linked _ _ _ _ _ _ _ _ hnext hbecomes =>
    exact ⟨hbecomes.inv, hnumbered.of_kind hbecomes.kind hnext⟩
  | removed _ _ _ _ hnext hbecomes =>
    exact ⟨hbecomes.inv, hnumbered.of_kind hbecomes.kind hnext⟩
  | rmdir _ _ _ hnext hbecomes =>
    exact ⟨hbecomes.inv, hnumbered.of_kind hbecomes.kind hnext⟩
  | renamed _ _ _ _ _ _ hnext hbecomes =>
    exact ⟨hbecomes.inv, hnumbered.of_kind hbecomes.kind hnext⟩

/-- A new file system has a root directory without names. -/
theorem fresh_becomes (now : Int) : (NfsState.fresh now).Becomes (fun _ _ => none)
    (update (fun _ => none) 1 (some .directory)) := by
  have hempty : NfsState.Becomes ⟨fun _ => none, 0, 0⟩ (fun _ _ => none) fun _ => none :=
    ⟨⟨by simp, rfl, by simp⟩, rfl, rfl⟩
  have hroot := @NfsState.Becomes.insertInode _ _ _ hempty (Inode.updateCtime now true
    { newInode 1 .directory with nlink := 1, mode := 0o755 })
    ⟨show (1 : BitVec 64) ≠ 0 by decide, rfl⟩ rfl 2 0
  exact hroot

theorem fresh_numbered (now : Int) : (NfsState.fresh now).Numbered := by
  intro inum hinum
  rw [(fresh_becomes now).kind] at hinum
  by_cases hroot : inum = 1
  · rw [hroot]
    exact show (1 : BitVec 64) < 2 by decide
  · rw [update_of_ne hroot] at hinum
    exact absurd rfl hinum

end BlueSky

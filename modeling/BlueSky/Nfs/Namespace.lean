import BlueSky.Lib.NameTree
import BlueSky.Nfs.Model

/-!
# The bindings of the directories

What a name is bound to in a directory, and what it takes to change one directory of the file
system: all handlers change directories through `bluesky_directory_insert` and
`bluesky_directory_remove`.

Main results:

- Theorem {lit}`FsInv.putInode`: putting an inode back with other names.
- Theorem {lit}`FsInv.insertName`, {lit}`FsInv.removeName`: binding and unbinding a name.
-/

namespace BlueSky

open Function Option ByteLib CStringLib NameTreeLib TableLib

/-! ## Bindings -/

/-- The names of an inode, if it is a directory. -/
def Inode.binding (inode : Inode) (name : CString) : Option (BitVec 64) :=
  if inode.type = .directory then inode.dir.binding name else none

namespace NfsState

/-- What a name is bound to in a directory. -/
def binding (s : NfsState) (inum : BitVec 64) (name : CString) : Option (BitVec 64) :=
  (s.inodes inum).bind fun inode => inode.binding name

/-- The type of an inode. -/
def kind (s : NfsState) (inum : BitVec 64) : Option FileType :=
  (s.inodes inum).map fun inode => inode.type

end NfsState

/-- A file system in order: inodes are found under their own numbers, zero is not one, and
directories are in order. -/
structure FsInv (s : NfsState) : Prop where
  own : ∀ inum inode, s.inodes inum = some inode → inode.inum = inum
  zero : s.inodes 0 = none
  dirs : ∀ inum inode, s.inodes inum = some inode → DirInv inode.dir

/-- Every inode has a number below the one that `bluesky_fs_alloc_inode` hands out next. -/
def NfsState.Numbered (s : NfsState) : Prop :=
  ∀ inum, s.kind inum ≠ none → inum < s.nextInum

variable {name : CString}

theorem Directory.binding_eq_none {dir : Directory} :
    dir.binding name = none ↔ dir.dirhash name = none := by
  rw [Directory.binding, map_eq_none_iff]

theorem Directory.binding_empty (name : CString) : Directory.empty.binding name = none :=
  rfl

/-- A new entry binds its name. -/
theorem Directory.binding_add (dir : Directory) (d : DirEntry) :
    (dir.add d).binding = update dir.binding d.name (some d.inum) :=
  Function.comp_update (Option.map DirEntry.inum) dir.dirhash d.name (some d)

/-- Without an entry its name is unbound. -/
theorem Directory.binding_without (dir : Directory) (d : DirEntry) :
    (dir.without d).binding = update dir.binding d.name none :=
  Function.comp_update (Option.map DirEntry.inum) dir.dirhash d.name none

/-! ## One inode -/

/-- A directory inode whose names have become others. -/
structure Inode.Becomes (i j : Inode) (names : CString → Option (BitVec 64)) : Prop where
  inum : j.inum = i.inum
  type : j.type = i.type
  inv : DirInv j.dir
  binding : j.dir.binding = names

variable {i : Inode}

/-- What an insertion does to the names of a directory. -/
theorem Inode.directoryInsert_spec {j : Inode} {now : Int} {draws : List (BitVec 32)}
    {inum : BitVec 64} {ok : Bool} (htype : i.type = .directory) (hinv : DirInv i.dir)
    (h : i.directoryInsert now draws name inum = some (j, ok)) :
    (ok = true ↔ i.dir.binding name = none) ∧
      i.Becomes j (if i.dir.binding name = none then
        update i.dir.binding name (some inum) else i.dir.binding) := by
  rw [Inode.directoryInsert, if_pos htype] at h
  rcases map_eq_some_iff.mp h with ⟨⟨dir, ok'⟩, hinsert, heq⟩
  rcases hinv.insert_cases hinsert with ⟨hbound, -, rfl⟩ | ⟨hfree, rfl, cookie, -, hspare, rfl⟩
  · have hname : i.dir.binding name ≠ none := Directory.binding_eq_none.not.mpr hbound
    rw [if_neg (by simp), Prod.mk.injEq] at heq
    rcases heq with ⟨rfl, rfl⟩
    rw [if_neg hname]
    exact ⟨iff_of_false (by simp) hname, rfl, rfl, hinv, rfl⟩
  · have hname := Directory.binding_eq_none.mpr hfree
    rw [if_pos rfl, Prod.mk.injEq] at heq
    rcases heq with ⟨rfl, rfl⟩
    rw [if_pos hname]
    exact ⟨iff_of_true rfl hname, rfl, rfl, hinv.add hfree hspare, Directory.binding_add ..⟩

/-- A removal unbinds the name, if it was bound. -/
theorem Inode.directoryRemove_spec (htype : i.type = .directory) (hinv : DirInv i.dir) (now : Int)
    (name : CString) :
    i.Becomes (i.directoryRemove now name).1 (update i.dir.binding name none) := by
  rw [Inode.directoryRemove, if_pos htype]
  rcases hinv.remove_cases name with ⟨hname, hremove⟩ | ⟨d, hd, -, rfl, hremove⟩
  · rw [hremove, if_neg (by simp)]
    refine ⟨rfl, rfl, hinv, ?_⟩
    rw [← Directory.binding_eq_none.mpr hname, update_eq_self]
  · rw [hremove, if_pos rfl]
    exact ⟨rfl, rfl, hinv.without hd, Directory.binding_without ..⟩

theorem Inode.directoryRemove_of_not_directory (htype : i.type ≠ .directory) (now : Int)
    (name : CString) : (i.directoryRemove now name).1 = i := by
  rw [Inode.directoryRemove, if_neg htype]

/-- Only numbers, types and entries count. -/
theorem Inode.Becomes.of_same {j k : Inode} {names : CString → Option (BitVec 64)}
    (h : i.Becomes j names) (hk : k.inum = j.inum ∧ k.type = j.type ∧ k.dir = j.dir) :
    i.Becomes k names :=
  ⟨hk.1.trans h.inum, hk.2.1.trans h.type, hk.2.2 ▸ h.inv, hk.2.2 ▸ h.binding⟩

theorem Inode.directoryLookup_eq_zero (h : i.binding name = none) : i.directoryLookup name = 0 := by
  rw [Inode.directoryLookup]
  split_ifs with htype
  · rw [Inode.binding, if_pos htype] at h
    rw [Directory.lookup, Directory.binding_eq_none.mp h]
  · rfl

/-! ## One directory of the file system -/

namespace FsInv

variable {s : NfsState} {i j : Inode}

/-- A handle leads to the inode whose number it holds. -/
theorem lookupFh (h : FsInv s) {fh : Bytes} (hi : s.lookupFh fh = some i) :
    s.inodes i.inum = some i ∧ handleInum fh = some i.inum := by
  rcases bind_eq_some_iff.mp hi with ⟨inum, hinum, hget⟩
  rw [NfsState.getInode] at hget
  split_ifs at hget
  rw [h.own inum i hget]
  exact ⟨hget, hinum⟩

/-- Putting an inode back with other names. -/
theorem putInode (h : FsInv s) (hi : s.inodes i.inum = some i)
    {names : CString → Option (BitVec 64)} (hj : i.Becomes j names) :
    FsInv (s.putInode j) ∧ (s.putInode j).kind = s.kind ∧
      (s.putInode j).binding = update s.binding i.inum
        (if i.type = .directory then names else fun _ => none) := by
  have hget : (s.putInode j).inodes = update s.inodes i.inum (some j) := by
    rw [NfsState.putInode, hj.inum]
  refine ⟨⟨?_, ?_, ?_⟩, ?_, ?_⟩
  · intro inum inode hinode
    rw [hget] at hinode
    rcases update_eq_some_iff.mp hinode with ⟨rfl, rfl⟩ | ⟨-, hinode⟩
    · exact hj.inum
    · exact h.own inum inode hinode
  · rw [hget, update_of_ne, h.zero]
    intro hzero
    rw [← hzero, h.zero] at hi
    cases hi
  · intro inum inode hinode
    rw [hget] at hinode
    rcases update_eq_some_iff.mp hinode with ⟨-, rfl⟩ | ⟨-, hinode⟩
    · exact hj.inv
    · exact h.dirs inum inode hinode
  · funext inum
    rw [NfsState.kind, NfsState.kind, hget]
    by_cases heq : inum = i.inum
    · rw [heq, update_self, hi, map_some, map_some, hj.type]
    · rw [update_of_ne heq]
  · funext inum name
    rw [NfsState.binding, hget]
    by_cases heq : inum = i.inum
    · rw [heq, update_self, update_self, bind_some, Inode.binding, hj.type, hj.binding]
      split_ifs <;> rfl
    · rw [update_of_ne heq, update_of_ne heq, NfsState.binding]

end FsInv

theorem NfsState.binding_of_inode {s : NfsState} (hi : s.inodes i.inum = some i) (name : CString) :
    s.binding i.inum name = i.binding name := by
  rw [NfsState.binding, hi, bind_some]

/-- A file system in order after its bindings and types have become others. -/
structure NfsState.Becomes (s' : NfsState)
    (names : BitVec 64 → CString → Option (BitVec 64)) (kinds : BitVec 64 → Option FileType) :
    Prop where
  inv : FsInv s'
  binding : s'.binding = names
  kind : s'.kind = kinds

/-- Putting an inode back with the same entries. -/
theorem FsInv.putSame {s : NfsState} (h : FsInv s) {i j : Inode} (hi : s.inodes i.inum = some i)
    (hj : j.inum = i.inum ∧ j.type = i.type ∧ j.dir = i.dir) :
    (s.putInode j).Becomes s.binding s.kind := by
  have hsame : i.Becomes i i.dir.binding := ⟨rfl, rfl, h.dirs _ _ hi, rfl⟩
  rcases h.putInode hi (hsame.of_same hj) with ⟨hinv, hkind, hbinding⟩
  refine ⟨hinv, hbinding.trans ?_, hkind⟩
  have hnames : s.binding i.inum =
      if i.type = .directory then i.dir.binding else fun _ => none := by
    funext name
    rw [NfsState.binding_of_inode hi, Inode.binding]
    split_ifs <;> rfl
  rw [← hnames, update_eq_self]

/-- A name is inserted into a directory whose attributes may change too. -/
theorem FsInv.insertName {s : NfsState} (h : FsInv s) {i j k : Inode}
    (hi : s.inodes i.inum = some i) (htype : i.type = .directory) {now : Int}
    {draws : List (BitVec 32)} {name : CString} {inum : BitVec 64} {ok : Bool}
    (hinsert : i.directoryInsert now draws name inum = some (j, ok))
    (hk : k.inum = j.inum ∧ k.type = j.type ∧ k.dir = j.dir) :
    (ok = true ↔ s.binding i.inum name = none) ∧
      (s.putInode k).Becomes
        (if s.binding i.inum name = none then setName s.binding i.inum name (some inum)
          else s.binding) s.kind := by
  have hnames : s.binding i.inum = i.dir.binding := by
    funext name
    rw [NfsState.binding_of_inode hi, Inode.binding, if_pos htype]
  rcases Inode.directoryInsert_spec htype (h.dirs _ _ hi) hinsert with ⟨hok, hj⟩
  rcases h.putInode hi (hj.of_same hk) with ⟨hinv, hkind, hbinding⟩
  rw [if_pos htype, ← hnames] at hbinding
  rw [← hnames] at hok
  refine ⟨hok, hinv, hbinding.trans ?_, hkind⟩
  split_ifs
  · rfl
  · exact update_eq_self _ _

/-- Removing a name; nothing happens in an inode that is no directory. -/
theorem FsInv.removeName {s : NfsState} (h : FsInv s) (hi : s.inodes i.inum = some i) (now : Int)
    (name : CString) :
    (s.putInode (i.directoryRemove now name).1).Becomes (setName s.binding i.inum name none)
      s.kind := by
  by_cases htype : i.type = .directory
  · have hnames : s.binding i.inum = i.dir.binding := by
      funext name
      rw [NfsState.binding_of_inode hi, Inode.binding, if_pos htype]
    rcases h.putInode hi (Inode.directoryRemove_spec htype (h.dirs _ _ hi) now name) with
      ⟨hinv, hkind, hbinding⟩
    rw [if_pos htype, ← hnames] at hbinding
    exact ⟨hinv, hbinding, hkind⟩
  · have hsame : s.putInode (i.directoryRemove now name).1 = s := by
      rw [Inode.directoryRemove_of_not_directory htype, NfsState.putInode, ← hi, update_eq_self]
    have hnone : setName s.binding i.inum name none = s.binding := by
      have hunbound : s.binding i.inum name = none := by
        rw [NfsState.binding_of_inode hi, Inode.binding, if_neg htype]
      exact setName_none hunbound
    rw [hsame, hnone]
    exact ⟨h, rfl, rfl⟩

end BlueSky

import BlueSky.Directory.Entries
import BlueSky.Nfs.Namespace

/-!
# Calls on the directories of a file system

The functions of `dir.c` that change directories, called in any order on the directories of a
file system.  What they do is described by a table that has at most one entry for each name in
each directory.

Main definitions:

- Definition {lit}`NfsState.entryAt`: the table of the entries.
- Definition {lit}`TableStep`: what a call does to the table.

Main results:

- Theorem {lit}`DirsInv.directoryInsert`, {lit}`DirsInv.directoryRemove`: one insertion and one
  removal.
- Theorem {lit}`DirsInv.renames`: what `bluesky_rename` does to the table.
- Theorem {lit}`dirCalls_represent`: in every state that calls lead to, both indices of a
  directory are those of the table, and each call changes the table as it should.
-/

namespace BlueSky

open Function Option CStringLib SortedSeqLib TableLib TransitionLib

/-! ## Calls -/

/-- A call of `bluesky_directory_insert`, `bluesky_directory_remove` or `bluesky_rename` on the
directories with the given numbers, at a time and with the random draws for it. -/
inductive DirCall where
  | insert (now : Int) (draws : List (BitVec 32)) (dir : BitVec 64) (name : CString)
      (inum : BitVec 64)
  | remove (now : Int) (dir : BitVec 64) (name : CString)
  | rename (now : Int) (draws : List (BitVec 32)) (dir1 : BitVec 64) (name1 : CString)
      (dir2 : BitVec 64) (name2 : CString) (caseSensitive overwrite : Bool)

/-- The call and its result. -/
def dirCall (s : NfsState) : DirCall → Option (NfsState × Bool)
  | .insert now draws dir name inum => do
      let inode ← s.inodes dir
      let inserted ← inode.directoryInsert now draws name inum
      some (s.putInode inserted.1, inserted.2)
  | .remove now dir name => do
      let inode ← s.inodes dir
      let removed := inode.directoryRemove now name
      some (s.putInode removed.1, removed.2)
  | .rename now draws dir1 name1 dir2 name2 caseSensitive overwrite =>
    s.rename now draws dir1 name1 dir2 name2 caseSensitive overwrite

/-- The state after a call. -/
def dirCallStep (s : NfsState) (c : DirCall) : Option NfsState :=
  (dirCall s c).map Prod.fst

/-- Renames are case-sensitive. -/
def DirCall.CaseSensitive : DirCall → Prop
  | .rename _ _ _ _ _ _ caseSensitive _ => caseSensitive = true
  | _ => True

instance : DecidablePred DirCall.CaseSensitive
  | .insert _ _ _ _ _ => inferInstanceAs (Decidable True)
  | .remove _ _ _ => inferInstanceAs (Decidable True)
  | .rename _ _ _ _ _ _ caseSensitive _ => inferInstanceAs (Decidable (caseSensitive = true))

/-! ## The table -/

/-- At most one entry for each name in each directory. -/
abbrev DirTable := BitVec 64 × CString → Option DirEntry

/-- The entries of the directories. -/
def NfsState.entryAt (s : NfsState) : DirTable := fun slot =>
  (s.inodes slot.1).bind fun inode =>
    if inode.type = .directory then inode.dir.dirhash slot.2 else none

/-- A cookie that no entry of the directory has. -/
def DirTable.Spare (T : DirTable) (dir : BitVec 64) (cookie : BitVec 32) : Prop :=
  (4 ≤ cookie.toNat ∧ cookie.toNat < 2 ^ 31) ∧ ∀ name d, T (dir, name) = some d → d.cookie ≠ cookie

/-- The table without the source and the target of a rename. -/
def DirTable.cleared (T : DirTable) (slot1 slot2 : BitVec 64 × CString) : DirTable :=
  update (update T slot2 none) slot1 none

/-- What the calls do to the table, with their results. -/
inductive TableStep (kinds : BitVec 64 → Option FileType) (T : DirTable) :
    DirCall → DirTable → Bool → Prop
  | insert {now draws dir name inum} {d : DirEntry} (hdir : kinds dir = some .directory)
      (hfree : T (dir, name) = none) (hname : d.name = name) (hinum : d.inum = inum)
      (hcookie : T.Spare dir d.cookie) :
      TableStep kinds T (.insert now draws dir name inum) (update T (dir, name) (some d)) true
  | insertRefused {now draws dir name inum}
      (h : kinds dir ≠ some .directory ∨ T (dir, name) ≠ none) :
      TableStep kinds T (.insert now draws dir name inum) T false
  | remove {now dir name} (h : T (dir, name) ≠ none) :
      TableStep kinds T (.remove now dir name) (update T (dir, name) none) true
  | removeRefused {now dir name} (h : T (dir, name) = none) :
      TableStep kinds T (.remove now dir name) T false
  | rename {now draws dir1 name1 dir2 name2 overwrite} {d1 d : DirEntry}
      (hdir : kinds dir2 = some .directory) (hsource : T (dir1, name1) = some d1)
      (htarget : T (dir2, name2) = none ∨ overwrite = true) (hname : d.name = name2)
      (hinum : d.inum = d1.inum)
      (hcookie : (T.cleared (dir1, name1) (dir2, name2)).Spare dir2 d.cookie) :
      TableStep kinds T (.rename now draws dir1 name1 dir2 name2 true overwrite)
        (update (T.cleared (dir1, name1) (dir2, name2)) (dir2, name2) (some d)) true
  | renameRefused {now draws dir1 name1 dir2 name2 overwrite}
      (h : kinds dir2 ≠ some .directory ∨ T (dir1, name1) = none ∨
        (T (dir2, name2) ≠ none ∧ overwrite = false)) :
      TableStep kinds T (.rename now draws dir1 name1 dir2 name2 true overwrite) T false

/-! ## One directory of the table -/

/-- Inodes are found under their own numbers, and directories are in order. -/
structure DirsInv (s : NfsState) : Prop where
  own : ∀ inum inode, s.inodes inum = some inode → inode.inum = inum
  dirs : ∀ inum inode, s.inodes inum = some inode → DirInv inode.dir
  folded : ∀ inum inode, s.inodes inum = some inode → FoldedInv inode.dir

section Table

variable {s : NfsState} {i j : Inode} {inum : BitVec 64}

theorem NfsState.entryAt_of_inode (hi : s.inodes inum = some i) (htype : i.type = .directory)
    (name : CString) : s.entryAt (inum, name) = i.dir.dirhash name := by
  rw [entryAt, hi, bind_some, if_pos htype]

theorem NfsState.entryAt_of_not_directory (hi : s.inodes inum = some i)
    (htype : i.type ≠ .directory) (name : CString) : s.entryAt (inum, name) = none := by
  rw [entryAt, hi, bind_some, if_neg htype]

theorem NfsState.kind_of_inode (hi : s.inodes inum = some i) : s.kind inum = some i.type := by
  rw [kind, hi, map_some]

/-- A state in order with a given table, in which inodes have kept their types. -/
structure NfsState.Tabulates (s' s : NfsState) (T : DirTable) : Prop where
  inv : DirsInv s'
  entryAt : s'.entryAt = T
  kind : s'.kind = s.kind

theorem DirsInv.tabulates (h : DirsInv s) : s.Tabulates s s.entryAt :=
  ⟨h, rfl, rfl⟩

theorem DirsInv.putInode_self (h : DirsInv s) (hi : s.inodes inum = some i) :
    (s.putInode i).Tabulates s s.entryAt := by
  rw [NfsState.putInode, h.own inum i hi, ← hi, update_eq_self]
  exact h.tabulates

variable {name : CString}

/-- Putting a directory back with another entry for one name. -/
theorem DirsInv.put (h : DirsInv s) (hi : s.inodes inum = some i) (htype : i.type = .directory)
    (hdir : DirInv j.dir) (hfolded : FoldedInv j.dir) {d : Option DirEntry}
    (hhash : j.dir.dirhash = update i.dir.dirhash name d)
    (hj : j.inum = i.inum ∧ j.type = i.type) :
    (s.putInode j).Tabulates s (update s.entryAt (inum, name) d) := by
  have hown := h.own inum i hi
  have hget : (s.putInode j).inodes = update s.inodes inum (some j) := by
    rw [NfsState.putInode, hj.1, hown]
  have hall : ∀ P : BitVec 64 → Inode → Prop,
      (∀ k inode, s.inodes k = some inode → P k inode) → P inum j →
      ∀ k inode, (s.putInode j).inodes k = some inode → P k inode := by
    intro P hold hnew k inode hinode
    rw [hget] at hinode
    rcases update_eq_some_iff.mp hinode with ⟨rfl, rfl⟩ | ⟨-, hinode⟩
    · exact hnew
    · exact hold k inode hinode
  refine ⟨⟨hall _ h.own (hj.1.trans hown), hall _ h.dirs hdir, hall _ h.folded hfolded⟩, ?_, ?_⟩
  · funext slot
    rcases slot with ⟨k, name'⟩
    by_cases heq : k = inum
    · subst heq
      have hj' : (s.putInode j).inodes k = some j := by rw [hget, update_self]
      rw [NfsState.entryAt_of_inode hj' (hj.2.trans htype), hhash]
      by_cases hname : name' = name
      · rw [hname, update_self, update_self]
      · have hslot : (k, name') ≠ (k, name) := fun h => hname (Prod.mk.inj h).2
        rw [update_of_ne hname, update_of_ne hslot, NfsState.entryAt_of_inode hi htype]
    · have hslot : (k, name') ≠ (inum, name) := fun h => heq (Prod.mk.inj h).1
      rw [update_of_ne hslot, NfsState.entryAt, NfsState.entryAt, hget, update_of_ne heq]
  · funext k
    rw [NfsState.kind, NfsState.kind, hget]
    by_cases heq : k = inum
    · rw [heq, update_self, hi, map_some, map_some, hj.2]
    · rw [update_of_ne heq]

/-- An insertion is refused, or it adds an entry for the name. -/
theorem DirsInv.directoryInsert (h : DirsInv s) (hi : s.inodes inum = some i) {now : Int}
    {draws : List (BitVec 32)} {target : BitVec 64} {ok : Bool}
    (hinsert : i.directoryInsert now draws name target = some (j, ok)) :
    ∃ T, (s.putInode j).Tabulates s T ∧
      TableStep s.kind s.entryAt (.insert now draws inum name target) T ok := by
  have hkind := NfsState.kind_of_inode hi
  rw [Inode.directoryInsert] at hinsert
  split_ifs at hinsert with htype
  · have hdir := h.dirs inum i hi
    have hentry := NfsState.entryAt_of_inode hi htype
    rw [htype] at hkind
    rcases map_eq_some_iff.mp hinsert with ⟨⟨dir', ok'⟩, hresult, heq⟩
    rcases hdir.insert_cases hresult with
      ⟨hbound, -, rfl⟩ | ⟨hfree, rfl, cookie, -, hspare, rfl⟩
    · cases heq
      rw [← hentry] at hbound
      exact ⟨_, h.putInode_self hi, .insertRefused (Or.inr hbound)⟩
    · cases heq
      refine ⟨update s.entryAt (inum, name) (some ⟨name, cookie, target⟩),
        h.put hi htype (hdir.add hfree hspare) ((h.folded inum i hi).add _) rfl ⟨rfl, rfl⟩,
        .insert hkind ((hentry name).trans hfree) rfl rfl ⟨hspare.1, ?_⟩⟩
      intro name' d hd hcookie
      rw [hentry] at hd
      exact hspare.2 d ((hdir.hash name' d).mp hd).1 (congrArg BitVec.toNat hcookie)
  · cases hinsert
    refine ⟨_, h.putInode_self hi, .insertRefused (Or.inl ?_)⟩
    rw [hkind, some_inj.ne]
    exact htype

/-- A removal is refused, or it takes the entry for the name away. -/
theorem DirsInv.directoryRemove (h : DirsInv s) (hi : s.inodes inum = some i) {now : Int}
    {ok : Bool} (hremove : i.directoryRemove now name = (j, ok)) :
    ∃ T, (s.putInode j).Tabulates s T ∧
      TableStep s.kind s.entryAt (.remove now inum name) T ok := by
  rw [Inode.directoryRemove] at hremove
  by_cases htype : i.type = .directory
  · have hdir := h.dirs inum i hi
    have hentry := NfsState.entryAt_of_inode hi htype name
    rw [if_pos htype] at hremove
    rcases hdir.remove_cases name with ⟨hnone, heq⟩ | ⟨d, hd, hbound, rfl, heq⟩
    · rw [heq, if_neg (by simp)] at hremove
      cases hremove
      exact ⟨_, h.putInode_self hi, .removeRefused (hentry.trans hnone)⟩
    · rw [heq, if_pos rfl] at hremove
      cases hremove
      refine ⟨update s.entryAt (inum, d.name) none, h.put hi htype
        (hdir.without hd) ((h.folded inum i hi).without hdir hd) rfl ⟨rfl, rfl⟩, .remove ?_⟩
      rw [hentry, hbound]
      simp
  · rw [if_neg htype] at hremove
    cases hremove
    exact ⟨_, h.putInode_self hi, .removeRefused (NfsState.entryAt_of_not_directory hi htype name)⟩

/-- In any case there is no entry for the name afterwards. -/
theorem DirsInv.removeName (h : DirsInv s) (now : Int) (inum : BitVec 64) (name : CString) :
    (s.removeName now inum name).Tabulates s (update s.entryAt (inum, name) none) := by
  rw [NfsState.removeName]
  cases hi : s.inodes inum with
  | none =>
    have hnone : s.entryAt (inum, name) = none := by
      rw [NfsState.entryAt, hi]
      rfl
    rw [← hnone, update_eq_self]
    exact h.tabulates
  | some i =>
    dsimp only
    rcases hremove : i.directoryRemove now name with ⟨j, ok⟩
    rcases h.directoryRemove hi hremove with ⟨T, htab, hstep⟩
    cases hstep with
    | remove => exact htab
    | removeRefused hnone =>
      rw [← hnone, update_eq_self]
      exact htab

end Table

/-! ## Renaming -/

section Rename

variable {s s' : NfsState} {now : Int} {draws : List (BitVec 32)} {inum1 inum2 : BitVec 64}
  {name1 name2 : CString} {caseSensitive overwrite ok : Bool}

/-- The entry that `bluesky_rename` finds for a name in a directory. -/
def NfsState.found (s : NfsState) (caseSensitive : Bool) (inum : BitVec 64) (name : CString) :
    Option DirEntry :=
  (s.inodes inum).bind fun inode => inode.entry caseSensitive name

/-- The table when `bluesky_rename` has made its removals. -/
def NfsState.vacated (s : NfsState) (caseSensitive : Bool) (inum1 : BitVec 64) (name1 : CString)
    (inum2 : BitVec 64) (name2 : CString) : DirTable :=
  update
    (if s.found caseSensitive inum2 name2 ≠ none then
      update s.entryAt (inum2, name2) none else s.entryAt) (inum1, name1) none

/-- The state when `bluesky_rename` has made its removals. -/
def NfsState.unlinked (s : NfsState) (now : Int) (caseSensitive : Bool) (inum1 : BitVec 64)
    (name1 : CString) (inum2 : BitVec 64) (name2 : CString) : NfsState :=
  (if s.found caseSensitive inum2 name2 ≠ none then s.removeName now inum2 name2
    else s).removeName now inum1 name1

theorem DirsInv.unlinked (h : DirsInv s) (now : Int) (caseSensitive : Bool) (inum1 : BitVec 64)
    (name1 : CString) (inum2 : BitVec 64) (name2 : CString) :
    (s.unlinked now caseSensitive inum1 name1 inum2 name2).Tabulates s
      (s.vacated caseSensitive inum1 name1 inum2 name2) := by
  have hfirst : (if s.found caseSensitive inum2 name2 ≠ none then s.removeName now inum2 name2
      else s).Tabulates s (if s.found caseSensitive inum2 name2 ≠ none then
        update s.entryAt (inum2, name2) none else s.entryAt) := by
    split_ifs
    · exact h.removeName now inum2 name2
    · exact h.tabulates
  have hsecond := hfirst.inv.removeName now inum1 name1
  rw [hfirst.entryAt] at hsecond
  exact ⟨hsecond.inv, hsecond.entryAt, hsecond.kind.trans hfirst.kind⟩

/-- When nothing stands against it, a rename removes entries and then inserts one. -/
theorem NfsState.rename_of_found {d1 : DirEntry} (hkind1 : s.kind inum1 = some .directory)
    (hkind2 : s.kind inum2 = some .directory)
    (hfound : s.found caseSensitive inum1 name1 = some d1)
    (hallowed : s.found caseSensitive inum2 name2 = none ∨ overwrite = true) :
    s.rename now draws inum1 name1 inum2 name2 caseSensitive overwrite =
      ((s.unlinked now caseSensitive inum1 name1 inum2 name2).inodes inum2).bind fun dir2 =>
        (dir2.directoryInsert now draws name2 d1.inum).bind fun inserted =>
          some ((s.unlinked now caseSensitive inum1 name1 inum2 name2).putInode inserted.1,
            true) := by
  rcases map_eq_some_iff.mp hkind1 with ⟨dir1, hdir1, htype1⟩
  rcases map_eq_some_iff.mp hkind2 with ⟨dir2, hdir2, htype2⟩
  have hentry1 : dir1.entry caseSensitive name1 = some d1 := by
    rw [← hfound, found, hdir1, bind_some]
  have hentry2 : dir2.entry caseSensitive name2 = s.found caseSensitive inum2 name2 := by
    rw [found, hdir2, bind_some]
  have hgoes : ¬ (s.found caseSensitive inum2 name2 ≠ none ∧ overwrite = false) := by
    rintro ⟨hsome, hno⟩
    rcases hallowed with hnone | hyes
    · exact hsome hnone
    · rw [hno] at hyes
      cases hyes
  rw [rename, hdir1, bind_eq_bind, bind_some, hdir2, bind_eq_bind,
    bind_some, if_neg (by rw [htype1, htype2]; simp)]
  simp only [hentry1, hentry2]
  rw [if_neg hgoes]
  rfl

/-- A rename is refused if one of the two is not a directory, if nothing is found for the source
name, or if something is found for the target name that may not be overwritten. -/
theorem NfsState.rename_refused (hdir1 : s.kind inum1 ≠ none) (hdir2 : s.kind inum2 ≠ none)
    (h : (s.kind inum1 ≠ some .directory ∨ s.kind inum2 ≠ some .directory) ∨
      s.found caseSensitive inum1 name1 = none ∨
        s.found caseSensitive inum2 name2 ≠ none ∧ overwrite = false) :
    s.rename now draws inum1 name1 inum2 name2 caseSensitive overwrite = some (s, false) := by
  rcases ne_none_iff_exists'.mp hdir1 with ⟨kind1, hkind1⟩
  rcases ne_none_iff_exists'.mp hdir2 with ⟨kind2, hkind2⟩
  rcases map_eq_some_iff.mp hkind1 with ⟨dir1, hdir1, rfl⟩
  rcases map_eq_some_iff.mp hkind2 with ⟨dir2, hdir2, rfl⟩
  have hentry1 : dir1.entry caseSensitive name1 = s.found caseSensitive inum1 name1 := by
    rw [found, hdir1, bind_some]
  have hentry2 : dir2.entry caseSensitive name2 = s.found caseSensitive inum2 name2 := by
    rw [found, hdir2, bind_some]
  rw [rename, hdir1, bind_eq_bind, bind_some, hdir2, bind_eq_bind, bind_some]
  split_ifs with htypes
  · rfl
  simp only [hentry1, hentry2]
  cases hd1 : s.found caseSensitive inum1 name1 with
  | none => rfl
  | some d1 =>
    dsimp only
    rw [hkind1, hkind2, hd1] at h
    simp only [ne_eq, some_inj, htypes, false_or, reduceCtorEq] at h
    rw [if_pos h]

/-- What `bluesky_rename` does to the table, with its result. -/
inductive NfsState.Renames (s : NfsState) (caseSensitive overwrite : Bool) (inum1 : BitVec 64)
    (name1 : CString) (inum2 : BitVec 64) (name2 : CString) : DirTable → Bool → Prop
  | notDirectory (hkinds : s.kind inum1 ≠ some .directory ∨ s.kind inum2 ≠ some .directory) :
      Renames s caseSensitive overwrite inum1 name1 inum2 name2 s.entryAt false
  | refused (hkinds : s.kind inum1 = some .directory ∧ s.kind inum2 = some .directory)
      (hrefused : s.found caseSensitive inum1 name1 = none ∨
        s.found caseSensitive inum2 name2 ≠ none ∧ overwrite = false) :
      Renames s caseSensitive overwrite inum1 name1 inum2 name2 s.entryAt false
  /-- There still is an entry for the name, and no other one is added. -/
  | kept {d1 : DirEntry} (hfound : s.found caseSensitive inum1 name1 = some d1)
      (hbound : s.vacated caseSensitive inum1 name1 inum2 name2 (inum2, name2) ≠ none)
      (hkinds : s.kind inum1 = some .directory ∧ s.kind inum2 = some .directory) :
      Renames s caseSensitive overwrite inum1 name1 inum2 name2
        (s.vacated caseSensitive inum1 name1 inum2 name2) true
  | moved {d1 d : DirEntry} (hfound : s.found caseSensitive inum1 name1 = some d1)
      (hfree : s.vacated caseSensitive inum1 name1 inum2 name2 (inum2, name2) = none)
      (hallowed : s.found caseSensitive inum2 name2 = none ∨ overwrite = true)
      (hname : d.name = name2) (hinum : d.inum = d1.inum)
      (hspare : (s.vacated caseSensitive inum1 name1 inum2 name2).Spare inum2 d.cookie)
      (hkinds : s.kind inum1 = some .directory ∧ s.kind inum2 = some .directory) :
      Renames s caseSensitive overwrite inum1 name1 inum2 name2
        (update (s.vacated caseSensitive inum1 name1 inum2 name2) (inum2, name2) (some d))
        true

theorem DirsInv.renames (h : DirsInv s)
    (hcall : s.rename now draws inum1 name1 inum2 name2 caseSensitive overwrite = some (s', ok)) :
    ∃ T, s'.Tabulates s T ∧ s.Renames caseSensitive overwrite inum1 name1 inum2 name2 T ok := by
  have hexists : s.kind inum1 ≠ none ∧ s.kind inum2 ≠ none := by
    rcases bind_eq_some_iff.mp hcall with ⟨dir1, hdir1, hcall⟩
    rcases bind_eq_some_iff.mp hcall with ⟨dir2, hdir2, -⟩
    rw [NfsState.kind_of_inode hdir1, NfsState.kind_of_inode hdir2]
    simp
  by_cases hkinds : s.kind inum1 = some .directory ∧ s.kind inum2 = some .directory
  · by_cases hrefused : s.found caseSensitive inum1 name1 = none ∨
        s.found caseSensitive inum2 name2 ≠ none ∧ overwrite = false
    · rw [NfsState.rename_refused hexists.1 hexists.2 (Or.inr hrefused)] at hcall
      cases hcall
      exact ⟨_, h.tabulates, .refused hkinds hrefused⟩
    rw [not_or, not_and, Bool.not_eq_false] at hrefused
    rcases ne_none_iff_exists'.mp hrefused.1 with ⟨d1, hd1⟩
    have hallowed := or_iff_not_imp_left.mpr hrefused.2
    rw [NfsState.rename_of_found hkinds.1 hkinds.2 hd1 hallowed] at hcall
    have htab := h.unlinked now caseSensitive inum1 name1 inum2 name2
    rcases bind_eq_some_iff.mp hcall with ⟨dir2, hdir2, hcall⟩
    rcases bind_eq_some_iff.mp hcall with ⟨⟨j, inserted⟩, hinsert, hcall⟩
    cases hcall
    rcases htab.inv.directoryInsert hdir2 hinsert with ⟨T, hnew, hstep⟩
    rw [htab.entryAt, htab.kind] at hstep
    refine ⟨T, ⟨hnew.inv, hnew.entryAt, hnew.kind.trans htab.kind⟩, ?_⟩
    cases hstep with
    | insert _ hfree hname hinum hspare =>
      exact .moved hd1 hfree hallowed hname hinum hspare hkinds
    | insertRefused hbound => exact .kept hd1 (hbound.resolve_left (not_not.mpr hkinds.2)) hkinds
  · rw [not_and_or] at hkinds
    rw [NfsState.rename_refused hexists.1 hexists.2 (Or.inl hkinds)] at hcall
    cases hcall
    exact ⟨_, h.tabulates, .notDirectory hkinds⟩

end Rename

/-! ## Whole runs -/

section Runs

variable {s s' : NfsState} {inum : BitVec 64} {name : CString} {c : DirCall} {ok : Bool}

theorem NfsState.entryAt_of_kind (hkind : s.kind inum ≠ some .directory) (name : CString) :
    s.entryAt (inum, name) = none := by
  cases hi : s.inodes inum with
  | none =>
    rw [entryAt, hi]
    rfl
  | some i =>
    rw [kind_of_inode hi, ne_eq, some_inj] at hkind
    exact entryAt_of_not_directory hi hkind name

theorem NfsState.found_true (hkind : s.kind inum = some .directory) (name : CString) :
    s.found true inum name = s.entryAt (inum, name) := by
  cases hi : s.inodes inum with
  | none =>
    rw [kind, hi] at hkind
    cases hkind
  | some i =>
    rw [kind_of_inode hi, some_inj] at hkind
    rw [entryAt_of_inode hi hkind, found, hi]
    rfl

/-- With exact names, the target is removed if there is one. -/
theorem NfsState.vacated_true {inum1 inum2 : BitVec 64} (hkind : s.kind inum2 = some .directory)
    (name1 name2 : CString) :
    s.vacated true inum1 name1 inum2 name2 = s.entryAt.cleared (inum1, name1) (inum2, name2) := by
  rw [vacated, found_true hkind, DirTable.cleared]
  split_ifs with htarget
  · rfl
  · rw [not_not] at htarget
    rw [← htarget, update_eq_self]

theorem DirTable.cleared_target (T : DirTable) (slot1 slot2 : BitVec 64 × CString) :
    T.cleared slot1 slot2 slot2 = none := by
  by_cases heq : slot2 = slot1
  · rw [cleared, heq, update_self]
  · rw [cleared, update_of_ne heq, update_self]

/-- Every call leaves directories in order and changes the table as it should. -/
theorem DirsInv.dirCall (h : DirsInv s) (hcall : dirCall s c = some (s', ok)) :
    ∃ T, s'.Tabulates s T ∧ (c.CaseSensitive → TableStep s.kind s.entryAt c T ok) := by
  cases c with
  | insert now draws dir name inum =>
    rcases bind_eq_some_iff.mp hcall with ⟨i, hi, hcall⟩
    rcases bind_eq_some_iff.mp hcall with ⟨⟨j, inserted⟩, hinsert, hcall⟩
    cases hcall
    rcases h.directoryInsert hi hinsert with ⟨T, htab, hstep⟩
    exact ⟨T, htab, fun _ => hstep⟩
  | remove now dir name =>
    rcases bind_eq_some_iff.mp hcall with ⟨i, hi, hcall⟩
    rcases hremove : i.directoryRemove now name with ⟨j, removed⟩
    rw [hremove] at hcall
    cases hcall
    rcases h.directoryRemove hi hremove with ⟨T, htab, hstep⟩
    exact ⟨T, htab, fun _ => hstep⟩
  | rename now draws dir1 name1 dir2 name2 caseSensitive overwrite =>
    rcases h.renames hcall with ⟨T, htab, hrenames⟩
    refine ⟨T, htab, ?_⟩
    intro hsensitive
    obtain rfl : caseSensitive = true := hsensitive
    cases hrenames with
    | notDirectory hkinds =>
      refine .renameRefused ?_
      rcases hkinds with hkind1 | hkind2
      · exact Or.inr (Or.inl (NfsState.entryAt_of_kind hkind1 name1))
      · exact Or.inl hkind2
    | refused hkinds hrefused =>
      rw [NfsState.found_true hkinds.1, NfsState.found_true hkinds.2] at hrefused
      exact .renameRefused (Or.inr hrefused)
    | kept _ hbound hkinds =>
      rw [NfsState.vacated_true hkinds.2, DirTable.cleared_target] at hbound
      exact absurd rfl hbound
    | moved hfound _ hallowed hname hinum hspare hkinds =>
      rw [NfsState.found_true hkinds.1] at hfound
      rw [NfsState.found_true hkinds.2] at hallowed
      rw [NfsState.vacated_true hkinds.2] at hspare ⊢
      exact .rename hkinds.2 hfound hallowed hname hinum hspare

theorem DirsInv.tableStep (h : DirsInv s) (hc : c.CaseSensitive)
    (hcall : BlueSky.dirCall s c = some (s', ok)) :
    TableStep s.kind s.entryAt c s'.entryAt ok := by
  rcases h.dirCall hcall with ⟨T, htab, hstep⟩
  rw [htab.entryAt]
  exact hstep hc

/-- The calls that put a new entry in the place of another one. -/
def DirCall.Rebinds (slot : BitVec 64 × CString) : DirCall → Prop
  | .rename _ _ _ _ dir2 name2 _ _ => slot = (dir2, name2)
  | _ => False

/-- An entry that stays is the same one. -/
theorem TableStep.stable {kinds : BitVec 64 → Option FileType} {T T' : DirTable}
    (h : TableStep kinds T c T' ok) {slot : BitVec 64 × CString} {d d' : DirEntry}
    (hd : T slot = some d) (hd' : T' slot = some d') (hslot : ¬ c.Rebinds slot) : d' = d := by
  have hsame : T slot = some d' → d' = d := by
    intro hsome
    rw [hd, some_inj] at hsome
    exact hsome.symm
  cases h with
  | insert _ hfree =>
    rcases update_eq_some_iff.mp hd' with ⟨rfl, -⟩ | ⟨-, hd'⟩
    · rw [hfree] at hd
      cases hd
    · exact hsame hd'
  | remove => exact hsame (update_none_eq_some_iff.mp hd').2
  | rename =>
    rw [update_of_ne hslot] at hd'
    exact hsame (update_none_eq_some_iff.mp (update_none_eq_some_iff.mp hd').2).2
  | insertRefused | removeRefused | renameRefused => exact hsame hd'

/-- A directory has the entries of a table of names, in both indices. -/
structure Directory.Represents (dir : Directory) (names : CString → Option DirEntry) : Prop where
  increasing : dir.dirents.Pairwise fun d d' => d.cookie.toNat < d'.cookie.toNat
  cookies : ∀ d ∈ dir.dirents, 4 ≤ d.cookie.toNat ∧ d.cookie.toNat < 2 ^ 31
  dirents : ∀ d, d ∈ dir.dirents ↔ names d.name = some d
  dirhash : dir.dirhash = names
  named : ∀ name d, names name = some d → d.name = name
  unique : (dir.dirents.map DirEntry.name).Nodup
  /-- The assertion of `bluesky_directory_remove`. -/
  asserted : ∀ name d, dir.dirhash name = some d → before DirEntry.key dir.dirents d.key = some d
  lookup : ∀ name, dir.lookup name = ((names name).map DirEntry.inum).getD 0
  read : ∀ cookie d, dir.read cookie = some d ↔
    names d.name = some d ∧ cookie.toNat < d.cookie.toNat ∧
      ∀ name d', names name = some d' → cookie.toNat < d'.cookie.toNat →
        d.cookie.toNat ≤ d'.cookie.toNat

theorem DirInv.represents {dir : Directory} (h : DirInv dir) : dir.Represents dir.dirhash where
  increasing := h.sorted
  cookies := h.cookies
  dirents := fun _ => h.mem_iff
  dirhash := rfl
  named := fun name d hd => ((h.hash name d).mp hd).2
  unique := h.nodup_names
  asserted := fun name d hd => h.sorted.before_eq ((h.hash name d).mp hd).1
  lookup := by
    intro name
    rw [Directory.lookup]
    cases dir.dirhash name with
    | none => rfl
    | some d => rfl
  read := by
    intro cookie d
    rw [h.read_eq_some_iff, h.mem_iff]
    refine and_congr_right fun _ => and_congr_right fun _ => ?_
    constructor
    · intro hleast name d' hd'
      exact hleast d' ((h.hash name d').mp hd').1
    · intro hleast d' hd'
      exact hleast d'.name d' (h.mem_iff.mp hd')

/-- The directories of a file system are empty. -/
structure NfsState.EmptyDirs (s : NfsState) : Prop where
  own : ∀ inum inode, s.inodes inum = some inode → inode.inum = inum
  empty : ∀ inum inode, s.inodes inum = some inode → inode.dir = .empty

theorem NfsState.EmptyDirs.dirsInv (h : s.EmptyDirs) : DirsInv s where
  own := h.own
  dirs := by
    intro inum inode hinode
    rw [h.empty inum inode hinode]
    exact DirInv.empty
  folded := by
    intro inum inode hinode
    rw [h.empty inum inode hinode]
    exact FoldedInv.empty

theorem dirsInv_of_reachable {s₀ : NfsState} {allowed : NfsState → DirCall → Prop}
    (h₀ : s₀.EmptyDirs) (hs : Reachable dirCallStep allowed s₀ s) : DirsInv s := by
  refine hs.invariant h₀.dirsInv ?_
  intro s c s' h _ hstep
  rcases map_eq_some_iff.mp hstep with ⟨⟨s₁, ok⟩, hcall, rfl⟩
  rcases h.dirCall hcall with ⟨T, htab, -⟩
  exact htab.inv

end Runs

/-- After any sequence of calls, with any draws, the two indices of each directory hold the
entries of one table; and the next call changes the table as it should, and leaves every entry
as it is that it does not remove. -/
theorem dirCalls_represent {s₀ s : NfsState} (h₀ : s₀.EmptyDirs)
    (hs : Reachable dirCallStep (fun _ c => c.CaseSensitive) s₀ s) :
    (∀ inum inode, s.inodes inum = some inode → inode.type = .directory →
      inode.dir.Represents fun name => s.entryAt (inum, name)) ∧
    ∀ c s' ok, c.CaseSensitive → dirCall s c = some (s', ok) →
      TableStep s.kind s.entryAt c s'.entryAt ok ∧
        ∀ slot d d', s.entryAt slot = some d → s'.entryAt slot = some d' →
          ¬ c.Rebinds slot → d'.cookie = d.cookie := by
  have h := dirsInv_of_reachable h₀ hs
  constructor
  · intro inum inode hinode htype
    have hnames : (fun name => s.entryAt (inum, name)) = inode.dir.dirhash := by
      funext name
      exact NfsState.entryAt_of_inode hinode htype name
    rw [hnames]
    exact (h.dirs inum inode hinode).represents
  · intro c s' ok hc hcall
    have hstep := h.tableStep hc hcall
    refine ⟨hstep, ?_⟩
    intro slot d d' hd hd' hslot
    rw [hstep.stable hd hd' hslot]

theorem emptyDirs_fresh (now : Int) : (NfsState.fresh now).EmptyDirs := by
  have hroot : ∀ {inum : BitVec 64} {inode : Inode}, (NfsState.fresh now).inodes inum = some inode →
      inum = 1 ∧ inode.inum = 1 ∧ inode.dir = .empty := by
    intro inum inode hinode
    simp only [NfsState.fresh] at hinode
    rcases update_eq_some_iff.mp hinode with ⟨rfl, rfl⟩ | ⟨-, hinode⟩
    · exact ⟨rfl, rfl, rfl⟩
    · cases hinode
  constructor
  · intro inum inode hinode
    rw [(hroot hinode).1, (hroot hinode).2.1]
  · intro inum inode hinode
    exact (hroot hinode).2.2

/-- The name "x". -/
def nameX : CString := ⟨[0x78], by decide⟩

/-- A name is inserted in the root directory and renamed to itself. -/
def renameInPlace : List DirCall :=
  [.insert 0 [5] 1 nameX 2, .rename 0 [9] 1 nameX 1 nameX true true]

theorem dirCalls_represent_in_place :
    ∃ s, runWhile dirCallStep (fun _ c => c.CaseSensitive) (.fresh 0) renameInPlace = some s ∧
      (∀ inum inode, s.inodes inum = some inode → inode.type = .directory →
        inode.dir.Represents fun name => s.entryAt (inum, name)) ∧
      ∀ c s' ok, c.CaseSensitive → dirCall s c = some (s', ok) →
        TableStep s.kind s.entryAt c s'.entryAt ok ∧
          ∀ slot d d', s.entryAt slot = some d → s'.entryAt slot = some d' →
            ¬ c.Rebinds slot → d'.cookie = d.cookie := by
  have hsome : (runWhile dirCallStep (fun _ c => c.CaseSensitive) (.fresh 0)
      renameInPlace).isSome := by
    decide +kernel
  rcases isSome_iff_exists.mp hsome with ⟨s, hs⟩
  exact ⟨s, hs, dirCalls_represent (emptyDirs_fresh 0) (reachable_of_runWhile .start hs)⟩

end BlueSky

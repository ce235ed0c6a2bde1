import BlueSky.Nfs.DirCalls

/-!
# Renaming up to case

What `bluesky_rename` should do to the table of the entries, for names that are compared exactly
or up to ASCII case, and when it does so.

For names compared up to case, `bluesky_rename` looks for the names as they are given in the
tables of folded names, but it removes entries by exact name.  It finds nothing for a name with
an upper-case letter, and it may find an entry that it does not remove.

Main results:

- Theorem {lit}`DirsInv.rename_returns`: the calls that return, for some draws.
- Theorem {lit}`DirsInv.rename_exact`: with exact names, every call does what it should.
- Theorem {lit}`rename_moves_iff`: the calls that do what they should.
-/

namespace BlueSky

open Function Option ByteLib CStringLib SortedSeqLib TableLib TransitionLib

/-! ## What a rename should do -/

/-- The entry matches a name. -/
def DirEntry.Matches (caseSensitive : Bool) (name : CString) (d : DirEntry) : Prop :=
  if caseSensitive then d.name = name else d.nameFolded = lowercase name

/-- An entry of the directory matches a name. -/
def DirTable.IsMatch (T : DirTable) (caseSensitive : Bool) (inum : BitVec 64) (name : CString)
    (d : DirEntry) : Prop :=
  T (inum, d.name) = some d ∧ d.Matches caseSensitive name

def DirTable.HasMatch (T : DirTable) (caseSensitive : Bool) (inum : BitVec 64) (name : CString) :
    Prop :=
  ∃ d, T.IsMatch caseSensitive inum name d

/-- What a rename should do to the table, with its result.  Where several entries match a name,
any of them may be taken. -/
inductive RenameSpec (T : DirTable) (caseSensitive overwrite : Bool) (inum1 : BitVec 64)
    (name1 : CString) (inum2 : BitVec 64) (name2 : CString) : DirTable → Bool → Prop
  | refused
      (h : ¬ T.HasMatch caseSensitive inum1 name1 ∨
        T.HasMatch caseSensitive inum2 name2 ∧ overwrite = false) :
      RenameSpec T caseSensitive overwrite inum1 name1 inum2 name2 T false
  | moved {d1 d : DirEntry} (hsource : T.IsMatch caseSensitive inum1 name1 d1)
      (hfree : ¬ T.HasMatch caseSensitive inum2 name2) (hname : d.name = name2)
      (hinum : d.inum = d1.inum) :
      RenameSpec T caseSensitive overwrite inum1 name1 inum2 name2
        (update (update T (inum1, d1.name) none) (inum2, name2) (some d)) true
  | replaced {d1 d2 d : DirEntry} (hsource : T.IsMatch caseSensitive inum1 name1 d1)
      (htarget : T.IsMatch caseSensitive inum2 name2 d2) (hoverwrite : overwrite = true)
      (hplace : T.cleared (inum1, d1.name) (inum2, d2.name) (inum2, name2) = none)
      (hname : d.name = name2) (hinum : d.inum = d1.inum) :
      RenameSpec T caseSensitive overwrite inum1 name1 inum2 name2
        (update (T.cleared (inum1, d1.name) (inum2, d2.name)) (inum2, name2) (some d))
        true

section Spec

variable {T T' : DirTable} {caseSensitive overwrite : Bool} {inum1 inum2 : BitVec 64}
  {name1 name2 : CString}

theorem RenameSpec.refused_iff :
    RenameSpec T caseSensitive overwrite inum1 name1 inum2 name2 T' false ↔
      (¬ T.HasMatch caseSensitive inum1 name1 ∨
        T.HasMatch caseSensitive inum2 name2 ∧ overwrite = false) ∧ T' = T := by
  constructor
  · intro hspec
    cases hspec with
    | refused h => exact ⟨h, rfl⟩
  · rintro ⟨h, rfl⟩
    exact .refused h

/-- When a rename is done, the name is bound, and source and target are gone. -/
theorem RenameSpec.done
    (h : RenameSpec T caseSensitive overwrite inum1 name1 inum2 name2 T' true) :
    ∃ d1 d : DirEntry, T.IsMatch caseSensitive inum1 name1 d1 ∧
      T' (inum2, name2) = some d ∧ d.inum = d1.inum ∧
      ((inum1, d1.name) ≠ (inum2, name2) → T' (inum1, d1.name) = none) ∧
      (¬ T.HasMatch caseSensitive inum2 name2 ∨ overwrite = true ∧
        ∃ d2, T.IsMatch caseSensitive inum2 name2 d2 ∧
          ((inum2, d2.name) ≠ (inum2, name2) → T' (inum2, d2.name) = none)) := by
  cases h with
  | @moved d1 d hsource hfree hname hinum =>
    refine ⟨d1, d, hsource, update_self .., hinum, ?_, Or.inl hfree⟩
    intro hne
    rw [update_of_ne hne, update_self]
  | @replaced d1 d2 d hsource htarget hoverwrite _ hname hinum =>
    refine ⟨d1, d, hsource, update_self .., hinum, ?_, Or.inr ⟨hoverwrite, d2, htarget, ?_⟩⟩
    · intro hne
      rw [update_of_ne hne, DirTable.cleared, update_self]
    · intro hne
      rw [update_of_ne hne, DirTable.cleared_target]

end Spec

/-! ## Calls that return -/

section Returns

variable {s s' : NfsState} {now : Int} {draws : List (BitVec 32)} {inum inum1 inum2 : BitVec 64}
  {name name1 name2 : CString} {caseSensitive overwrite ok : Bool} {d d' : DirEntry}

theorem DirsInv.entryAt_eq_some (h : DirsInv s) (hd : s.entryAt (inum, name) = some d) :
    d.name = name ∧ ∃ i, s.inodes inum = some i ∧ d ∈ i.dir.dirents := by
  rcases bind_eq_some_iff.mp hd with ⟨i, hi, hd⟩
  have hmem := ((h.dirs inum i hi).hash name d).mp (ite_none_right_eq_some.mp hd).2
  exact ⟨hmem.2, i, hi, hmem.1⟩

theorem DirsInv.name_eq (h : DirsInv s) (hd : s.entryAt (inum, name) = some d) :
    d.name = name :=
  (h.entryAt_eq_some hd).1

/-- Entries of one directory with the same cookie are the same. -/
theorem DirsInv.eq_of_cookie_eq (h : DirsInv s) (hd : s.entryAt (inum, name) = some d)
    (hd' : s.entryAt (inum, name1) = some d') (hcookie : d.cookie = d'.cookie) : d = d' := by
  rcases (h.entryAt_eq_some hd).2 with ⟨i, hi, hmem⟩
  rcases (h.entryAt_eq_some hd').2 with ⟨j, hj, hmem'⟩
  obtain rfl := some_inj.mp (hi.symm.trans hj)
  exact (h.dirs inum i hi).sorted.eq_of_key_eq hmem hmem' (congrArg BitVec.toNat hcookie)

/-- What is left are the entries in other places than those of the removals. -/
theorem NfsState.vacated_eq_some_iff {slot : BitVec 64 × CString} :
    s.vacated caseSensitive inum1 name1 inum2 name2 slot = some d ↔
      slot ≠ (inum1, name1) ∧ (s.found caseSensitive inum2 name2 ≠ none → slot ≠ (inum2, name2)) ∧
        s.entryAt slot = some d := by
  rw [vacated, update_none_eq_some_iff]
  split_ifs with hfound
  · rw [update_none_eq_some_iff]
    simp [hfound]
  · simp [hfound]

/-- The cookie of an entry that is removed can be used again. -/
theorem DirsInv.spare_of_removed (h : DirsInv s) (hd : s.entryAt (inum2, name) = some d)
    (hnone : s.vacated caseSensitive inum1 name1 inum2 name2 (inum2, name) = none) :
    (s.vacated caseSensitive inum1 name1 inum2 name2).Spare inum2 d.cookie := by
  rcases (h.entryAt_eq_some hd).2 with ⟨i, hi, hmem⟩
  refine ⟨(h.dirs inum2 i hi).cookies d hmem, ?_⟩
  intro name' d' hd' hcookie
  have hold := (NfsState.vacated_eq_some_iff.mp hd').2.2
  have heq := h.eq_of_cookie_eq hold hd hcookie
  rw [← h.name_eq hd, ← heq, h.name_eq hold, hd'] at hnone
  cases hnone

/-- The call is refused, or there is a cookie for the new entry: a spare one, or that of an entry
which is removed, or none is needed. -/
def NfsState.HasPlace (s : NfsState) (caseSensitive overwrite : Bool) (inum1 : BitVec 64)
    (name1 : CString) (inum2 : BitVec 64) (name2 : CString) : Prop :=
  (s.found caseSensitive inum1 name1 = none ∨
      s.found caseSensitive inum2 name2 ≠ none ∧ overwrite = false) ∨
    s.entryAt (inum2, name2) ≠ none ∨ (inum1 = inum2 ∧ s.entryAt (inum1, name1) ≠ none) ∨
    ∃ cookie, s.entryAt.Spare inum2 cookie

/-- The place is free when the removals have been made, and there is a cookie for it, or it is
not free. -/
theorem DirsInv.place (h : DirsInv s)
    (hplace : s.entryAt (inum2, name2) ≠ none ∨
      (inum1 = inum2 ∧ s.entryAt (inum1, name1) ≠ none) ∨
      ∃ cookie, s.entryAt.Spare inum2 cookie) :
    s.vacated caseSensitive inum1 name1 inum2 name2 (inum2, name2) ≠ none ∨
      ∃ cookie, (s.vacated caseSensitive inum1 name1 inum2 name2).Spare inum2 cookie := by
  rcases hplace with hbound | ⟨rfl, hbound⟩ | ⟨cookie, hrange, hunused⟩
  · rcases ne_none_iff_exists'.mp hbound with ⟨d, hd⟩
    by_cases hnone : s.vacated caseSensitive inum1 name1 inum2 name2 (inum2, name2) = none
    · exact Or.inr ⟨d.cookie, h.spare_of_removed hd hnone⟩
    · exact Or.inl hnone
  · rcases ne_none_iff_exists'.mp hbound with ⟨d, hd⟩
    refine Or.inr ⟨d.cookie, h.spare_of_removed hd ?_⟩
    rw [NfsState.vacated, update_self]
  · refine Or.inr ⟨cookie, hrange, ?_⟩
    intro name d hd
    exact hunused name d (NfsState.vacated_eq_some_iff.mp hd).2.2

/-- A cookie that can be used after the removals is spare, or something is removed. -/
theorem NfsState.place_of_spare {cookie : BitVec 32}
    (hspare : (s.vacated caseSensitive inum1 name1 inum2 name2).Spare inum2 cookie) :
    s.entryAt (inum2, name2) ≠ none ∨ (inum1 = inum2 ∧ s.entryAt (inum1, name1) ≠ none) ∨
      ∃ cookie, s.entryAt.Spare inum2 cookie := by
  by_cases hbound2 : s.entryAt (inum2, name2) = none
  · by_cases hbound1 : inum1 = inum2 ∧ s.entryAt (inum1, name1) ≠ none
    · exact Or.inr (Or.inl hbound1)
    · refine Or.inr (Or.inr ⟨cookie, hspare.1, ?_⟩)
      intro name d hd
      refine hspare.2 name d (vacated_eq_some_iff.mpr ⟨?_, ?_, hd⟩)
      · intro heq
        refine hbound1 ⟨(Prod.mk.inj heq).1.symm, ?_⟩
        rw [← heq, hd]
        simp
      · intro _ heq
        rw [heq, hbound2] at hd
        cases hd
  · exact Or.inl hbound2

/-- An insertion returns when there is a cookie for it, or when it is refused. -/
theorem DirsInv.directoryInsert_isSome (h : DirsInv s) {i : Inode} (hi : s.inodes inum = some i)
    (htype : i.type = .directory)
    (hplace : s.entryAt (inum, name) ≠ none ∨ ∃ cookie, s.entryAt.Spare inum cookie)
    (now : Int) (target : BitVec 64) :
    ∃ draws, (i.directoryInsert now draws name target).isSome := by
  have hdir := h.dirs inum i hi
  have hentry := NfsState.entryAt_of_inode hi htype
  simp only [Inode.directoryInsert, if_pos htype, isSome_map]
  rcases hplace with hbound | ⟨cookie, hrange, hunused⟩
  · refine ⟨[], ?_⟩
    rw [hentry] at hbound
    rw [Directory.insert_of_bound hbound]
    rfl
  · refine ⟨[cookie], ?_⟩
    rw [Directory.insert]
    split_ifs
    · rfl
    · rw [isSome_map]
      refine hdir.pickCookie_isSome ⟨hrange, ?_⟩ (List.mem_singleton.mpr rfl)
      intro d hd hkey
      refine hunused d.name d ?_ (BitVec.eq_of_toNat_eq hkey)
      rw [hentry]
      exact hdir.mem_iff.mp hd

/-- The calls that return, for some draws. -/
theorem DirsInv.rename_returns (h : DirsInv s) (hkind1 : s.kind inum1 = some .directory)
    (hkind2 : s.kind inum2 = some .directory) :
    (∃ draws, (s.rename now draws inum1 name1 inum2 name2 caseSensitive overwrite).isSome) ↔
      s.HasPlace caseSensitive overwrite inum1 name1 inum2 name2 := by
  constructor
  · rintro ⟨draws, hsome⟩
    rcases isSome_iff_exists.mp hsome with ⟨⟨s', ok⟩, hcall⟩
    rcases h.renames hcall with ⟨T, -, hrenames⟩
    cases hrenames with
    | notDirectory hkinds => exact absurd ⟨hkind1, hkind2⟩ (not_and_or.mpr hkinds)
    | refused _ hrefused => exact Or.inl hrefused
    | kept _ hbound =>
      rcases ne_none_iff_exists'.mp hbound with ⟨d, hd⟩
      refine Or.inr (Or.inl ?_)
      rw [(NfsState.vacated_eq_some_iff.mp hd).2.2]
      simp
    | moved _ _ _ _ _ hspare => exact Or.inr (NfsState.place_of_spare hspare)
  · intro hplace
    by_cases hrefused : s.found caseSensitive inum1 name1 = none ∨
        s.found caseSensitive inum2 name2 ≠ none ∧ overwrite = false
    · refine ⟨[], ?_⟩
      rw [NfsState.rename_refused (by rw [hkind1]; simp) (by rw [hkind2]; simp) (Or.inr hrefused)]
      rfl
    have hplace' := hplace.resolve_left hrefused
    rw [not_or, not_and, Bool.not_eq_false] at hrefused
    rcases ne_none_iff_exists'.mp hrefused.1 with ⟨d1, hd1⟩
    have hallowed := or_iff_not_imp_left.mpr hrefused.2
    have htab := h.unlinked now caseSensitive inum1 name1 inum2 name2
    have hkind := hkind2
    rw [← htab.kind] at hkind
    rcases map_eq_some_iff.mp hkind with ⟨dir2, hdir2, htype⟩
    have hroom := @DirsInv.place s inum1 inum2 name1 name2 caseSensitive h hplace'
    rw [← htab.entryAt] at hroom
    rcases htab.inv.directoryInsert_isSome hdir2 htype hroom now d1.inum with ⟨draws, hsome⟩
    rcases isSome_iff_exists.mp hsome with ⟨inserted, hinsert⟩
    refine ⟨draws, ?_⟩
    rw [NfsState.rename_of_found hkind1 hkind2 hd1 hallowed, hdir2, bind_some, hinsert]
    rfl

end Returns

/-! ## Exact names -/

section Exact

variable {s s' : NfsState} {now : Int} {draws : List (BitVec 32)} {inum inum1 inum2 : BitVec 64}
  {name name1 name2 : CString} {overwrite ok : Bool} {d : DirEntry}

theorem DirsInv.isMatch_true (h : DirsInv s) :
    s.entryAt.IsMatch true inum name d ↔ s.entryAt (inum, name) = some d := by
  constructor
  · rintro ⟨hd, hname⟩
    rw [← show d.name = name from hname]
    exact hd
  · intro hd
    refine ⟨?_, h.name_eq hd⟩
    rw [h.name_eq hd]
    exact hd

theorem DirsInv.hasMatch_true (h : DirsInv s) :
    s.entryAt.HasMatch true inum name ↔ s.entryAt (inum, name) ≠ none := by
  rw [ne_none_iff_exists']
  exact exists_congr fun _ => h.isMatch_true

/-- With exact names, a rename does what it should. -/
theorem DirsInv.rename_exact (h : DirsInv s) (hkind2 : s.kind inum2 = some .directory)
    (hcall : s.rename now draws inum1 name1 inum2 name2 true overwrite = some (s', ok)) :
    RenameSpec s.entryAt true overwrite inum1 name1 inum2 name2 s'.entryAt ok := by
  have hstep := h.tableStep (c := .rename now draws inum1 name1 inum2 name2 true overwrite) rfl
    hcall
  generalize s'.entryAt = T' at hstep
  cases hstep with
  | @rename _ _ _ _ _ _ _ d1 d _ hsource htarget hname hinum _ =>
    have hmatch1 := h.isMatch_true.mpr hsource
    cases htaken : s.entryAt (inum2, name2) with
    | none =>
      have hfree : ¬ s.entryAt.HasMatch true inum2 name2 := by
        rw [h.hasMatch_true, not_not, htaken]
      have hcleared : s.entryAt.cleared (inum1, name1) (inum2, name2) =
          update s.entryAt (inum1, d1.name) none := by
        rw [DirTable.cleared, ← htaken, update_eq_self, h.name_eq hsource]
      rw [hcleared]
      exact .moved hmatch1 hfree hname hinum
    | some d2 =>
      have hmatch2 := h.isMatch_true.mpr htaken
      rw [htaken] at htarget
      obtain rfl := h.name_eq hsource
      obtain rfl := h.name_eq htaken
      exact .replaced hmatch1 hmatch2 (htarget.resolve_left (by simp))
        (DirTable.cleared_target _ _ _) hname hinum
  | renameRefused hrefused =>
    refine .refused ?_
    rw [h.hasMatch_true, h.hasMatch_true, not_not]
    exact hrefused.resolve_left (not_not.mpr hkind2)

end Exact

/-! ## Names up to case -/

theorem lowercaseByte_lowercaseByte (b : Byte) :
    lowercaseByte (lowercaseByte b) = lowercaseByte b := by
  revert b
  decide +kernel

@[simp]
theorem lowercase_lowercase (name : CString) : lowercase (lowercase name) = lowercase name := by
  simp only [lowercase, CString.mk.injEq, List.map_map]
  refine List.map_congr_left ?_
  intro b _
  exact lowercaseByte_lowercaseByte b

/-- When a rename up to case does what it should.  {lit}`s.found false` is the entry in the table
of folded names under the name as it is given. -/
inductive NfsState.FoldedRename (s : NfsState) (overwrite : Bool) (inum1 : BitVec 64)
    (name1 : CString) (inum2 : BitVec 64) (name2 : CString) : Prop
  /-- Nothing matches the source name. -/
  | absent (h : ¬ s.entryAt.HasMatch false inum1 name1)
  /-- The target may not be overwritten, and the call finds it or does not find the source. -/
  | refused (hfound : s.found false inum1 name1 = none ∨ s.found false inum2 name2 ≠ none)
      (htarget : s.entryAt.HasMatch false inum2 name2) (hoverwrite : overwrite = false)
  /-- The entry that is found has the inode of the entry with just the source name; and there is
  no target, or the one that is removed has just the target name or is the source itself. -/
  | moved {e1 d1 : DirEntry} (hfound : s.found false inum1 name1 = some e1)
      (hsource : s.entryAt (inum1, name1) = some d1) (hinum : d1.inum = e1.inum)
      (htarget : ¬ s.entryAt.HasMatch false inum2 name2 ∨ overwrite = true ∧
        (s.found false inum2 name2 ≠ none ∧ s.entryAt (inum2, name2) ≠ none ∨
          s.found false inum2 name2 = none ∧ (inum1 = inum2 ∧ lowercase name1 = lowercase name2) ∧
            s.entryAt (inum2, name2) = none))
  /-- The target is not found, although there is an entry with just this name; it stays, and it
  is a source as well or has the inode of the source. -/
  | kept {d2 : DirEntry} (hfound1 : s.found false inum1 name1 ≠ none)
      (hfound2 : s.found false inum2 name2 = none) (hoverwrite : overwrite = true)
      (htarget : s.entryAt (inum2, name2) = some d2)
      (hsource : (inum1 = inum2 ∧ lowercase name1 = lowercase name2) ∨
        ∃ d1, s.entryAt (inum1, name1) = some d1 ∧ d1.inum = d2.inum)

section Folded

variable {s s' : NfsState} {now : Int} {draws : List (BitVec 32)} {inum inum1 inum2 : BitVec 64}
  {name name1 name2 : CString} {overwrite ok : Bool} {d d1 d2 e1 : DirEntry} {T T' : DirTable}

/-- What is found under a name is an entry whose folded name it is. -/
theorem DirsInv.found_false (h : DirsInv s) (hkind : s.kind inum = some .directory)
    (hfound : s.found false inum name = some d) :
    s.entryAt (inum, d.name) = some d ∧ d.nameFolded = name ∧ lowercase name = name := by
  rcases map_eq_some_iff.mp hkind with ⟨i, hi, htype⟩
  rw [NfsState.found, hi, bind_some] at hfound
  have hdir := h.dirs inum i hi
  rcases h.folded inum i hi name d hfound with ⟨hmem, hname⟩
  rw [NfsState.entryAt_of_inode hi htype]
  refine ⟨hdir.mem_iff.mp hmem, hname, ?_⟩
  rw [← hname, DirEntry.nameFolded, lowercase_lowercase]

theorem DirsInv.hasMatch_of_found (h : DirsInv s) (hkind : s.kind inum = some .directory)
    (hfound : s.found false inum name ≠ none) : s.entryAt.HasMatch false inum name := by
  rcases ne_none_iff_exists'.mp hfound with ⟨d, hd⟩
  rcases h.found_false hkind hd with ⟨hentry, hfolded, hname⟩
  exact ⟨d, hentry, hfolded.trans hname.symm⟩

/-- The entry with just the name matches. -/
theorem DirsInv.isMatch_false (h : DirsInv s) (hd : s.entryAt (inum, name) = some d) :
    s.entryAt.IsMatch false inum name d := by
  refine ⟨?_, ?_⟩
  · rw [h.name_eq hd]
    exact hd
  · change lowercase d.name = lowercase name
    rw [h.name_eq hd]

/-- The removals when the target is not found, and when it is. -/
theorem NfsState.vacated_of_none (hfound : s.found false inum2 name2 = none) :
    s.vacated false inum1 name1 inum2 name2 = update s.entryAt (inum1, name1) none := by
  rw [vacated, if_neg (not_not.mpr hfound)]

theorem NfsState.vacated_of_found (hfound : s.found false inum2 name2 ≠ none) :
    s.vacated false inum1 name1 inum2 name2 = s.entryAt.cleared (inum1, name1) (inum2, name2) := by
  rw [vacated, if_pos hfound, DirTable.cleared]

/-- A refused call. -/
theorem DirsInv.folded_refused (h : DirsInv s) (hkind2 : s.kind inum2 = some .directory)
    (hrefused : s.found false inum1 name1 = none ∨
      s.found false inum2 name2 ≠ none ∧ overwrite = false) :
    RenameSpec s.entryAt false overwrite inum1 name1 inum2 name2 s.entryAt false ↔
      s.FoldedRename overwrite inum1 name1 inum2 name2 := by
  rw [RenameSpec.refused_iff, and_iff_left rfl]
  constructor
  · intro hwhy
    rcases hwhy with habsent | ⟨htarget, hoverwrite⟩
    · exact .absent habsent
    · refine .refused ?_ htarget hoverwrite
      rcases hrefused with hnone | ⟨hsome, -⟩
      · exact Or.inl hnone
      · exact Or.inr hsome
  · intro hcond
    cases hcond with
    | absent habsent => exact Or.inl habsent
    | refused _ htarget hoverwrite => exact Or.inr ⟨htarget, hoverwrite⟩
    | moved hfound =>
      rw [hfound] at hrefused
      rcases hrefused.resolve_left (by simp) with ⟨hsome, hoverwrite⟩
      exact Or.inr ⟨h.hasMatch_of_found hkind2 hsome, hoverwrite⟩
    | kept hfound1 hfound2 =>
      rcases hrefused with hnone | ⟨hsome, -⟩
      · exact absurd hnone hfound1
      · exact absurd hfound2 hsome

/-- A call that leaves the entry with the target name as it is. -/
theorem DirsInv.folded_kept (h : DirsInv s) (hkind1 : s.kind inum1 = some .directory)
    (hfound1 : s.found false inum1 name1 = some e1) (hfound2 : s.found false inum2 name2 = none)
    (hslots : (inum1, name1) ≠ (inum2, name2)) (htaken : s.entryAt (inum2, name2) = some d2) :
    RenameSpec s.entryAt false overwrite inum1 name1 inum2 name2
        (update s.entryAt (inum1, name1) none) true ↔
      s.FoldedRename overwrite inum1 name1 inum2 name2 := by
  have hsome1 : s.found false inum1 name1 ≠ none := by
    rw [hfound1]
    simp
  have hmatch2 := h.isMatch_false htaken
  constructor
  · intro hspec
    rcases hspec.done with ⟨d1, d, ⟨hsource, hmatch1⟩, hbound, hinum, hgone, htarget⟩
    rcases htarget.resolve_left (not_not.mpr ⟨d2, hmatch2⟩) with ⟨hoverwrite, -⟩
    rw [update_of_ne hslots.symm, htaken, some_inj] at hbound
    subst hbound
    refine .kept hsome1 hfound2 hoverwrite htaken ?_
    by_cases hplace : (inum1, d1.name) = (inum2, name2)
    · rcases Prod.mk.inj hplace with ⟨rfl, rfl⟩
      exact Or.inl ⟨rfl, Eq.symm hmatch1⟩
    · have hnone := hgone hplace
      by_cases hexact : (inum1, d1.name) = (inum1, name1)
      · rw [(Prod.mk.inj hexact).2] at hsource
        exact Or.inr ⟨d1, hsource, hinum.symm⟩
      · rw [update_of_ne hexact, hsource] at hnone
        cases hnone
  · intro hcond
    cases hcond with
    | absent habsent => exact absurd (h.hasMatch_of_found hkind1 hsome1) habsent
    | refused hfound =>
      rcases hfound with hnone | hsome
      · exact absurd hnone hsome1
      · exact absurd hfound2 hsome
    | moved _ _ _ htarget =>
      rcases htarget with hfree | ⟨-, ⟨hsome, -⟩ | ⟨-, -, hnone⟩⟩
      · exact absurd ⟨d2, hmatch2⟩ hfree
      · exact absurd hfound2 hsome
      · rw [htaken] at hnone
        cases hnone
    | kept _ _ hoverwrite htaken' hsource =>
      rw [htaken, some_inj] at htaken'
      subst htaken'
      obtain rfl := h.name_eq htaken
      rcases hsource with ⟨rfl, hfold⟩ | ⟨d1, hd1, hinum⟩
      · have hmatch1 : s.entryAt.IsMatch false inum1 name1 d2 := ⟨hmatch2.1, hfold.symm⟩
        cases hd1 : s.entryAt (inum1, name1) with
        | none =>
          have htable : update s.entryAt (inum1, name1) none =
              update (s.entryAt.cleared (inum1, d2.name) (inum1, d2.name))
                (inum1, d2.name) (some d2) := by
            rw [DirTable.cleared, update_idem, update_idem, ← htaken, ← hd1,
              update_eq_self, update_eq_self]
          rw [htable]
          exact .replaced hmatch1 hmatch2 hoverwrite (DirTable.cleared_target _ _ _) rfl rfl
        | some d1 =>
          obtain rfl := h.name_eq hd1
          have htable : update s.entryAt (inum1, d1.name) none =
              update (s.entryAt.cleared (inum1, d2.name) (inum1, d1.name))
                (inum1, d2.name) (some d2) := by
            rw [DirTable.cleared, update_idem, ← htaken,
              ← update_of_ne hslots.symm none s.entryAt, update_eq_self]
          have hplace : s.entryAt.cleared (inum1, d2.name) (inum1, d1.name)
              (inum1, d2.name) = none := update_self ..
          rw [htable]
          exact .replaced hmatch1 ⟨hd1, hfold⟩ hoverwrite hplace rfl rfl
      · obtain rfl := h.name_eq hd1
        have htable : update s.entryAt (inum1, d1.name) none =
            update (s.entryAt.cleared (inum1, d1.name) (inum2, d2.name))
              (inum2, d2.name) (some d2) := by
          rw [DirTable.cleared, update_comm hslots, update_idem, ← htaken, update_eq_self]
        rw [htable]
        exact .replaced (h.isMatch_false hd1) hmatch2 hoverwrite
          (DirTable.cleared_target _ _ _) rfl hinum.symm

/-- A call that does not find the target and makes a new entry. -/
theorem DirsInv.folded_moved (h : DirsInv s) (hkind1 : s.kind inum1 = some .directory)
    (hfound1 : s.found false inum1 name1 = some e1) (hfound2 : s.found false inum2 name2 = none)
    (hfree : s.entryAt (inum2, name2) = none) (hname : d.name = name2)
    (hinum : d.inum = e1.inum) :
    RenameSpec s.entryAt false overwrite inum1 name1 inum2 name2
        (update (update s.entryAt (inum1, name1) none) (inum2, name2) (some d))
        true ↔
      s.FoldedRename overwrite inum1 name1 inum2 name2 := by
  have hsome1 : s.found false inum1 name1 ≠ none := by
    rw [hfound1]
    simp
  have hslots : (inum1, name1) ≠ (inum2, name2) := by
    intro heq
    rcases Prod.mk.inj heq with ⟨rfl, rfl⟩
    exact hsome1 hfound2
  have hsource_of : ∀ {d' : DirEntry} {inum : BitVec 64}, s.entryAt (inum, d'.name) = some d' →
      ((inum, d'.name) ≠ (inum2, name2) → update (update s.entryAt
        (inum1, name1) none) (inum2, name2) (some d) (inum, d'.name) = none) →
      (inum, d'.name) = (inum1, name1) := by
    intro d' inum hd' hgone
    have hne : (inum, d'.name) ≠ (inum2, name2) := by
      intro heq
      rw [heq, hfree] at hd'
      cases hd'
    have hnone := hgone hne
    by_contra hother
    rw [update_of_ne hne, update_of_ne hother, hd'] at hnone
    cases hnone
  constructor
  · intro hspec
    rcases hspec.done with ⟨d1, d', ⟨hd1, hmatch1⟩, hbound, hinum', hgone, htarget⟩
    rw [update_self, some_inj] at hbound
    subst hbound
    rw [hsource_of hd1 hgone] at hd1
    refine .moved hfound1 hd1 (hinum'.symm.trans hinum) ?_
    rcases htarget with hnone | ⟨hoverwrite, d2, ⟨hd2, hmatch2⟩, hgone2⟩
    · exact Or.inl hnone
    · rcases Prod.mk.inj (hsource_of hd2 hgone2) with ⟨rfl, rfl⟩
      exact Or.inr ⟨hoverwrite, Or.inr ⟨hfound2, ⟨rfl, hmatch2⟩, hfree⟩⟩
  · intro hcond
    cases hcond with
    | absent habsent => exact absurd (h.hasMatch_of_found hkind1 hsome1) habsent
    | refused hfound =>
      rcases hfound with hnone | hsome
      · exact absurd hnone hsome1
      · exact absurd hfound2 hsome
    | @moved e1' d1 hfound1' hd1 hinum' htarget =>
      rw [hfound1, some_inj] at hfound1'
      subst hfound1'
      have hsource := h.isMatch_false hd1
      obtain rfl := h.name_eq hd1
      rcases htarget with hnone | ⟨hoverwrite, ⟨hsome, -⟩ | ⟨-, ⟨rfl, hfold⟩, -⟩⟩
      · exact .moved hsource hnone hname (hinum.trans hinum'.symm)
      · exact absurd hfound2 hsome
      · have hcleared : s.entryAt.cleared (inum1, d1.name) (inum1, d1.name) =
            update s.entryAt (inum1, d1.name) none := update_idem ..
        rw [← hcleared]
        refine .replaced hsource ⟨hd1, hfold⟩ hoverwrite ?_ hname (hinum.trans hinum'.symm)
        rw [hcleared, update_of_ne hslots.symm, hfree]
    | kept _ _ _ htaken =>
      rw [hfree] at htaken
      cases htaken

/-- A call that finds the target and makes a new entry; both names are then folded ones. -/
theorem DirsInv.folded_replaced (h : DirsInv s) (hkind1 : s.kind inum1 = some .directory)
    (hkind2 : s.kind inum2 = some .directory)
    (hfound1 : s.found false inum1 name1 = some e1) (hfound2 : s.found false inum2 name2 ≠ none)
    (hoverwrite : overwrite = true) (hname : d.name = name2) (hinum : d.inum = e1.inum) :
    RenameSpec s.entryAt false overwrite inum1 name1 inum2 name2
        (update (s.entryAt.cleared (inum1, name1) (inum2, name2)) (inum2, name2) (some d)) true ↔
      s.FoldedRename overwrite inum1 name1 inum2 name2 := by
  have hsome1 : s.found false inum1 name1 ≠ none := by
    rw [hfound1]
    simp
  rcases ne_none_iff_exists'.mp hfound2 with ⟨e2, he2⟩
  have hname1 := (h.found_false hkind1 hfound1).2.2
  have hname2 := (h.found_false hkind2 he2).2.2
  constructor
  · intro hspec
    rcases hspec.done with ⟨d1, d', ⟨hd1, hmatch1⟩, hbound, hinum', hgone, htarget⟩
    rw [update_self, some_inj] at hbound
    subst hbound
    have hslot_of : ∀ {d' : DirEntry} {inum : BitVec 64}, s.entryAt (inum, d'.name) = some d' →
        ((inum, d'.name) ≠ (inum2, name2) → update (s.entryAt.cleared (inum1, name1)
          (inum2, name2)) (inum2, name2) (some d) (inum, d'.name) = none) →
        (inum, d'.name) = (inum1, name1) ∨ (inum, d'.name) = (inum2, name2) := by
      intro d' inum hd' hgone
      by_cases hne : (inum, d'.name) = (inum2, name2)
      · exact Or.inr hne
      · have hnone := hgone hne
        by_contra hother
        rw [not_or] at hother
        rw [update_of_ne hne, DirTable.cleared, update_of_ne hother.1,
          update_of_ne hne, hd'] at hnone
        cases hnone
    have hsource : s.entryAt (inum1, name1) = some d1 := by
      rcases hslot_of hd1 hgone with heq | heq
      · rw [← heq]
        exact hd1
      · have hfold : lowercase d1.name = lowercase name1 := hmatch1
        rw [(Prod.mk.inj heq).2, hname1, hname2] at hfold
        rw [← hfold, ← (Prod.mk.inj heq).2]
        exact hd1
    refine .moved hfound1 hsource (hinum'.symm.trans hinum) (Or.inr ⟨hoverwrite, Or.inl ?_⟩)
    rcases htarget.resolve_left (not_not.mpr (h.hasMatch_of_found hkind2 hfound2)) with
      ⟨-, d2, ⟨hd2, hmatch2⟩, hgone2⟩
    refine ⟨hfound2, ?_⟩
    have hfold : lowercase d2.name = lowercase name2 := hmatch2
    have hd2name : d2.name = name2 := by
      rcases hslot_of hd2 hgone2 with heq | heq
      · rw [(Prod.mk.inj heq).2, hname1, hname2] at hfold
        exact (Prod.mk.inj heq).2.trans hfold
      · exact (Prod.mk.inj heq).2
    rw [← hd2name, hd2]
    simp
  · intro hcond
    cases hcond with
    | absent habsent => exact absurd (h.hasMatch_of_found hkind1 hsome1) habsent
    | refused _ _ hno =>
      rw [hoverwrite] at hno
      cases hno
    | @moved e1' d1 hfound1' hd1 hinum' htarget =>
      rw [hfound1, some_inj] at hfound1'
      subst hfound1'
      have hsource := h.isMatch_false hd1
      obtain rfl := h.name_eq hd1
      rcases htarget with hnone | ⟨-, ⟨-, hbound⟩ | ⟨hnone, -⟩⟩
      · exact absurd (h.hasMatch_of_found hkind2 hfound2) hnone
      · rcases ne_none_iff_exists'.mp hbound with ⟨d2, hd2⟩
        have htarget := h.isMatch_false hd2
        obtain rfl := h.name_eq hd2
        exact .replaced hsource htarget hoverwrite (DirTable.cleared_target _ _ _) hname
          (hinum.trans hinum'.symm)
      · exact absurd hnone hfound2
    | kept _ hnone => exact absurd hnone hfound2

/-- Up to case, a rename does what it should exactly under the condition. -/
theorem DirsInv.rename_folded (h : DirsInv s) (hkind1 : s.kind inum1 = some .directory)
    (hkind2 : s.kind inum2 = some .directory)
    (hcall : s.rename now draws inum1 name1 inum2 name2 false overwrite = some (s', ok)) :
    RenameSpec s.entryAt false overwrite inum1 name1 inum2 name2 s'.entryAt ok ↔
      s.FoldedRename overwrite inum1 name1 inum2 name2 := by
  rcases h.renames hcall with ⟨T, htab, hrenames⟩
  rw [htab.entryAt]
  cases hrenames with
  | notDirectory hkinds => exact absurd ⟨hkind1, hkind2⟩ (not_and_or.mpr hkinds)
  | refused _ hrefused => exact h.folded_refused hkind2 hrefused
  | kept hfound1 hbound =>
    rcases ne_none_iff_exists'.mp hbound with ⟨d2, hd2⟩
    rcases NfsState.vacated_eq_some_iff.mp hd2 with ⟨hslots, hkept, htaken⟩
    have hfound2 : s.found false inum2 name2 = none := by
      by_contra hsome
      exact hkept hsome rfl
    rw [NfsState.vacated_of_none hfound2]
    exact h.folded_kept hkind1 hfound1 hfound2 hslots.symm htaken
  | moved hfound1 hfree hallowed hname hinum =>
    by_cases hfound2 : s.found false inum2 name2 = none
    · rw [NfsState.vacated_of_none hfound2] at hfree ⊢
      have hslots : (inum2, name2) ≠ (inum1, name1) := by
        intro heq
        rcases Prod.mk.inj heq with ⟨rfl, rfl⟩
        rw [hfound1] at hfound2
        cases hfound2
      rw [update_of_ne hslots] at hfree
      exact h.folded_moved hkind1 hfound1 hfound2 hfree hname hinum
    · rw [NfsState.vacated_of_found hfound2]
      exact h.folded_replaced hkind1 hkind2 hfound1 hfound2 (hallowed.resolve_left hfound2) hname
        hinum

end Folded

/-- In every state that calls lead to, a rename returns and does what it should, whatever is drawn,
exactly if there is a place for the new entry and the names are compared exactly or the condition
on the names holds. -/
theorem rename_moves_iff {s₀ s : NfsState} (h₀ : s₀.EmptyDirs)
    (hs : Reachable dirCallStep (fun _ _ => True) s₀ s) {inum1 inum2 : BitVec 64}
    (hkind1 : s.kind inum1 = some .directory) (hkind2 : s.kind inum2 = some .directory) (now : Int)
    (name1 name2 : CString) (caseSensitive overwrite : Bool) :
    ((∃ draws, (s.rename now draws inum1 name1 inum2 name2 caseSensitive overwrite).isSome) ∧
      ∀ draws s' ok,
        s.rename now draws inum1 name1 inum2 name2 caseSensitive overwrite = some (s', ok) →
        RenameSpec s.entryAt caseSensitive overwrite inum1 name1 inum2 name2 s'.entryAt ok) ↔
      s.HasPlace caseSensitive overwrite inum1 name1 inum2 name2 ∧
        (caseSensitive = true ∨ s.FoldedRename overwrite inum1 name1 inum2 name2) := by
  have h := dirsInv_of_reachable h₀ hs
  rw [h.rename_returns hkind1 hkind2]
  refine and_congr_right ?_
  intro hplace
  rcases (h.rename_returns hkind1 hkind2).mpr hplace with ⟨draws, hsome⟩
  rcases isSome_iff_exists.mp hsome with ⟨⟨s', ok⟩, hcall⟩
  cases caseSensitive with
  | false =>
    rw [or_iff_right Bool.false_ne_true]
    constructor
    · intro hspec
      exact (h.rename_folded hkind1 hkind2 hcall).mp (hspec draws s' ok hcall)
    · intro hcond draws s' ok hcall
      exact (h.rename_folded hkind1 hkind2 hcall).mpr hcond
  | true =>
    refine iff_of_true ?_ (Or.inl rfl)
    intro draws s' ok hcall
    exact h.rename_exact hkind2 hcall

/-- The root directory with one entry, for a name and the inode 2. -/
def oneEntry (name : CString) : NfsState :=
  (dirCallStep (.fresh 0) (.insert 0 [5] 1 name 2)).getD (.fresh 0)

theorem oneEntry_reachable (name : CString) :
    Reachable dirCallStep (fun _ _ => True) (.fresh 0) (oneEntry name) :=
  .next (.insert 0 [5] 1 name 2) .start trivial rfl

theorem rename_moves_iff_same_name :
    (∃ draws, ((oneEntry nameX).rename 0 draws 1 nameX 1 nameX false true).isSome) ∧
      ∀ draws s' ok, (oneEntry nameX).rename 0 draws 1 nameX 1 nameX false true = some (s', ok) →
        RenameSpec (oneEntry nameX).entryAt false true 1 nameX 1 nameX s'.entryAt ok := by
  have hfound : (oneEntry nameX).found false 1 nameX = some ⟨nameX, 5, 2⟩ := by
    decide +kernel
  have hentry : (oneEntry nameX).entryAt (1, nameX) = some ⟨nameX, 5, 2⟩ := by
    decide +kernel
  have hsome : (oneEntry nameX).entryAt (1, nameX) ≠ none := by
    rw [hentry]
    simp
  refine (rename_moves_iff (emptyDirs_fresh 0) (oneEntry_reachable nameX) rfl rfl 0 nameX nameX
    false true).mpr ⟨Or.inr (Or.inl hsome), Or.inr ?_⟩
  exact .moved hfound hentry rfl (Or.inr ⟨rfl, Or.inl ⟨by rw [hfound]; simp, hsome⟩⟩)

/-- The name "X". -/
def upperX : CString := ⟨[0x58], by decide⟩

/-- The name "y". -/
def nameY : CString := ⟨[0x79], by decide⟩

/-- A rename of "x" to "y" up to case finds "X" and links its inode to "y", but "X" stays. -/
theorem rename_leaves_source :
    ∃ s s' : NfsState, Reachable dirCallStep (fun _ _ => True) (.fresh 0) s ∧
      s.rename 0 [9] 1 nameX 1 nameY false true = some (s', true) ∧
      s'.entryAt (1, upperX) = some ⟨upperX, 5, 2⟩ ∧ s'.entryAt (1, nameY) = some ⟨nameY, 9, 2⟩ ∧
      ¬ RenameSpec s.entryAt false true 1 nameX 1 nameY s'.entryAt true := by
  have hreach := oneEntry_reachable upperX
  have h := dirsInv_of_reachable (emptyDirs_fresh 0) hreach
  have hresult : (((oneEntry upperX).rename 0 [9] 1 nameX 1 nameY false true).map fun r =>
      (r.2, r.1.entryAt (1, upperX), r.1.entryAt (1, nameY))) =
        some (true, some ⟨upperX, 5, 2⟩, some ⟨nameY, 9, 2⟩) := by
    decide +kernel
  rcases map_eq_some_iff.mp hresult with ⟨⟨s', ok⟩, hcall, heq⟩
  simp only [Prod.mk.injEq] at heq
  rcases heq with ⟨rfl, hold, hnew⟩
  refine ⟨oneEntry upperX, s', hreach, hcall, hold, hnew, ?_⟩
  rw [h.rename_folded rfl rfl hcall]
  intro hcond
  have hsource : (oneEntry upperX).entryAt (1, nameX) = none := by
    decide +kernel
  have htarget : (oneEntry upperX).entryAt (1, nameY) = none := by
    decide +kernel
  cases hcond with
  | absent habsent =>
    refine habsent ⟨⟨upperX, 5, 2⟩, ?_, ?_⟩
    · decide +kernel
    · change lowercase upperX = lowercase nameX
      decide
  | refused _ _ hno => cases hno
  | moved _ hd1 =>
    rw [hsource] at hd1
    cases hd1
  | kept _ _ _ hd2 =>
    rw [htarget] at hd2
    cases hd2

end BlueSky

import BlueSky.Directory.Entries
import BlueSky.Inode.Serialize

/-!
# Looking up names up to case

The table of folded names has one place for all entries whose names differ only in ASCII case.
An insertion takes the place over, a removal empties it, and reloading the directory fills it
with the entry that comes last in the order of the cookies.

Main results:

- Theorem {lit}`dirhashFolded_foldl_add`: what reloading leaves in the table.
- Theorem {lit}`caseBlind_iff`: when the lookup is complete and survives reloading.
- Theorem {lit}`ilookup_keeps_iff`: which operations keep it so.
-/

namespace BlueSky

open Function List Option ByteLib CStringLib SortedSeqLib TransitionLib

/-! ## Reloading -/

/-- The last entry with a folded name, in the order of the cookies. -/
def Directory.lastFolded (dir : Directory) (folded : CString) : Option DirEntry :=
  (dir.dirents.filter fun d => d.nameFolded = folded).getLast?

/-- Entries that are added one after the other leave the last one in the table. -/
theorem dirhashFolded_foldl_add (dirents : List DirEntry) (dir : Directory) (folded : CString) :
    (dirents.foldl Directory.add dir).dirhashFolded folded =
      (dirents.filter fun d => d.nameFolded = folded).getLast?.or (dir.dirhashFolded folded) := by
  induction dirents generalizing dir with
  | nil => rfl
  | cons d dirents ih =>
    rw [foldl_cons, ih, Directory.dirhashFolded_add]
    by_cases hd : d.nameFolded = folded
    · rw [filter_cons_of_pos (by simpa using hd), hd, update_self, getLast?_cons]
      cases (dirents.filter fun d => d.nameFolded = folded).getLast? with
      | none => rfl
      | some last => rfl
    · rw [filter_cons_of_neg (by simpa using hd), update_of_ne (fun heq => hd heq.symm)]

/-- The directory that `bluesky_deserialize_inode` makes of a serialized one. -/
def Directory.reloaded (dir : Directory) : Directory :=
  dir.dirents.foldl Directory.add .empty

theorem Directory.dirhashFolded_reloaded (dir : Directory) (folded : CString) :
    dir.reloaded.dirhashFolded folded = dir.lastFolded folded := by
  rw [reloaded, dirhashFolded_foldl_add]
  exact or_none

/-- A directory inode is read back with its entries added in order. -/
theorem deserializeInode_directory {i into : Inode} (hdir : DirInv i.dir)
    (hi : i.type = .directory) (hinum : into.inum = i.inum) (id : CloudId) :
    ∃ j, into.deserializeInode (i.serializeInode id) = some (j, true) ∧ j.dir = i.dir.reloaded := by
  have hcookies : ∀ d ∈ i.dir.dirents, d.cookie ≠ 0 := by
    intro d hd hzero
    have hrange := (hdir.cookies d hd).1
    rw [hzero] at hrange
    exact absurd hrange (by decide)
  have hloop := direntLoop_direntsBytes hcookies
    (Nat.lt_succ_of_le (length_le_direntsBytes i.dir.dirents)) .empty
  have htype : (into.withMetadata i.serialized).type = .directory := by
    simp [Inode.withMetadata, Inode.initInode, Inode.serialized, hi]
  have hempty : (into.withMetadata i.serialized).dir = .empty := by
    simp [Inode.withMetadata, Inode.initInode, Inode.serialized, hi]
  have hbytes : i.contentBytes = direntsBytes i.dir.dirents := by
    rw [Inode.contentBytes, hi]
  refine ⟨{ into.withMetadata i.serialized with dir := i.dir.reloaded }, ?_, rfl⟩
  rw [deserializeInode_serializeInode hinum, deserializeContents, htype]
  dsimp only
  rw [hempty, hbytes, hloop]
  rfl

/-! ## Complete and stable lookups -/

/-- The lookup finds the inode of an entry whose name is the given one up to case, if there is
one, and still finds it when the directory has been serialized and reloaded. -/
structure Directory.CaseBlind (dir : Directory) : Prop where
  found : ∀ name, dir.ilookup name ≠ 0 ↔ ∃ d ∈ dir.dirents, d.nameFolded = lowercase name
  inode : ∀ name, dir.ilookup name ≠ 0 →
    ∃ d ∈ dir.dirents, d.nameFolded = lowercase name ∧ d.inum = dir.ilookup name
  reload : ∀ (i into : Inode) (id : CloudId), i.type = .directory → i.dir = dir →
    into.inum = i.inum → ∃ j, into.deserializeInode (i.serializeInode id) = some (j, true) ∧
      ∀ name, j.dir.ilookup name = dir.ilookup name

section CaseBlind

variable {dir : Directory}

theorem DirInv.lastFolded_eq_some_iff (h : DirInv dir) {folded : CString} {d : DirEntry} :
    dir.lastFolded folded = some d ↔
      d ∈ dir.dirents ∧ d.nameFolded = folded ∧
        ∀ d' ∈ dir.dirents, d'.nameFolded = folded → d'.key ≤ d.key := by
  rw [Directory.lastFolded, Sorted.getLast?_eq_some_iff (h.sorted.filter _)]
  simp only [mem_filter, decide_eq_true_iff, and_imp, and_assoc]

theorem Directory.lastFolded_eq_none_iff {folded : CString} :
    dir.lastFolded folded = none ↔ ∀ d ∈ dir.dirents, d.nameFolded ≠ folded := by
  rw [lastFolded, getLast?_eq_none_iff, filter_eq_nil_iff]
  simp only [decide_eq_true_iff]

/-- The lookup of an entry's inode number in a table. -/
theorem Directory.ilookup_eq (dir : Directory) (name : CString) :
    dir.ilookup name = ((dir.dirhashFolded (lowercase name)).map DirEntry.inum).getD 0 := by
  rw [ilookup]
  cases dir.dirhashFolded (lowercase name) with
  | none => rfl
  | some d => rfl

theorem Directory.ilookup_reloaded (dir : Directory) (name : CString) :
    dir.reloaded.ilookup name = ((dir.lastFolded (lowercase name)).map DirEntry.inum).getD 0 := by
  rw [ilookup_eq, dirhashFolded_reloaded]

/-- The table has the inode that reloading gives for each name, which is not zero. -/
def Directory.FoldsLast (dir : Directory) (folded : CString) : Prop :=
  (dir.dirhashFolded folded).map DirEntry.inum = (dir.lastFolded folded).map DirEntry.inum ∧
    ∀ d, dir.lastFolded folded = some d → d.inum ≠ 0

theorem Directory.FoldsLast.ilookup {name : CString} (h : dir.FoldsLast (lowercase name)) :
    dir.ilookup name = ((dir.lastFolded (lowercase name)).map DirEntry.inum).getD 0 := by
  rw [ilookup_eq, h.1]

theorem Directory.CaseBlind.foldsLast (h : dir.CaseBlind) (hdir : DirInv dir)
    (hfolded : FoldedInv dir) (name : CString) : dir.FoldsLast (lowercase name) := by
  have hreload : dir.reloaded.ilookup name = dir.ilookup name := by
    let i : Inode := { newInode 1 .directory with dir := dir }
    rcases h.reload i i 0 rfl rfl rfl with ⟨j, hj, hsame⟩
    rcases @deserializeInode_directory i i hdir rfl rfl 0 with ⟨j', hj', hdir'⟩
    rw [hj, some_inj, Prod.mk.injEq] at hj'
    rw [← hsame name, hj'.1, hdir']
  rw [Directory.ilookup_reloaded] at hreload
  cases hlast : dir.lastFolded (lowercase name) with
  | none =>
    refine ⟨?_, by simp [hlast]⟩
    cases htable : dir.dirhashFolded (lowercase name) with
    | none => rw [hlast]
    | some d =>
      rcases hfolded _ _ htable with ⟨hd, hname⟩
      exact absurd hname (Directory.lastFolded_eq_none_iff.mp hlast d hd)
  | some last =>
    rcases hdir.lastFolded_eq_some_iff.mp hlast with ⟨hmem, hname, -⟩
    have hne := (h.found name).mpr ⟨last, hmem, hname⟩
    rw [hlast, map_some, getD_some] at hreload
    constructor
    · rw [Directory.ilookup_eq] at hne hreload
      cases htable : dir.dirhashFolded (lowercase name) with
      | none =>
        rw [htable] at hne
        exact absurd rfl hne
      | some d =>
        rw [htable] at hreload
        rw [hlast, map_some, map_some, hreload]
        rfl
    · intro d hd
      rw [hlast, some_inj] at hd
      rw [← hd, hreload]
      exact hne

/-- The lookup is complete and stable exactly if the table agrees with reloading. -/
theorem caseBlind_iff (hdir : DirInv dir) (hfolded : FoldedInv dir) :
    dir.CaseBlind ↔ ∀ name, dir.FoldsLast (lowercase name) := by
  constructor
  · intro h name
    exact h.foldsLast hdir hfolded name
  · intro h
    have hnone : ∀ name, (¬ ∃ d ∈ dir.dirents, d.nameFolded = lowercase name) →
        dir.ilookup name = 0 := by
      intro name hno
      push Not at hno
      rw [(h name).ilookup, Directory.lastFolded_eq_none_iff.mpr hno]
      rfl
    have hsome : ∀ name, (∃ d ∈ dir.dirents, d.nameFolded = lowercase name) →
        ∃ d ∈ dir.dirents, d.nameFolded = lowercase name ∧ d.inum = dir.ilookup name ∧
          d.inum ≠ 0 := by
      rintro name ⟨d, hd, hname⟩
      cases hlast : dir.lastFolded (lowercase name) with
      | none => exact absurd hname (Directory.lastFolded_eq_none_iff.mp hlast d hd)
      | some last =>
        rcases hdir.lastFolded_eq_some_iff.mp hlast with ⟨hmem, hname', -⟩
        refine ⟨last, hmem, hname', ?_, (h name).2 last hlast⟩
        rw [(h name).ilookup, hlast]
        rfl
    refine ⟨?_, ?_, ?_⟩
    · intro name
      constructor
      · intro hne
        by_contra hno
        exact hne (hnone name hno)
      · intro hex
        rcases hsome name hex with ⟨d, -, -, hinum, hne⟩
        rw [← hinum]
        exact hne
    · intro name hne
      by_cases hex : ∃ d ∈ dir.dirents, d.nameFolded = lowercase name
      · rcases hsome name hex with ⟨d, hd, hname, hinum, -⟩
        exact ⟨d, hd, hname, hinum⟩
      · exact absurd (hnone name hex) hne
    · rintro i into id hi rfl hinum
      rcases deserializeInode_directory hdir hi hinum id with ⟨j, hj, hreloaded⟩
      refine ⟨j, hj, ?_⟩
      intro name
      rw [hreloaded, Directory.ilookup_reloaded, (h name).ilookup]

end CaseBlind

/-! ## Operations -/

/-- The operations that keep the lookup complete and stable.  An entry that is inserted has an
inode number that is not zero, and if other names differ from its own only in case, then its
cookie is the largest one, or the one that has the largest cookie is a link to the same inode.
An entry is only removed if no other name differs from its own only in case. -/
def DirOp.KeepsFolded (dir : Directory) : DirOp → Prop
  | .insert draws name inum => dir.dirhash name = none →
      inum ≠ 0 ∧ ∀ cookie d, dir.pickCookie draws = some cookie → d ∈ dir.dirents →
        d.nameFolded = lowercase name →
        (∀ d' ∈ dir.dirents, d'.nameFolded = lowercase name → d'.key ≤ d.key) →
          d.key < cookie.toNat ∨ d.inum = inum
  | .remove name => dir.dirhash name ≠ none →
      ∀ d ∈ dir.dirents, d.nameFolded = lowercase name → d.name = name

section Operations

variable {dir dir' : Directory} {d : DirEntry}

/-- Entries with other folded names do not count. -/
theorem Directory.lastFolded_congr (hdir : DirInv dir) (hdir' : DirInv dir') {folded : CString}
    (h : ∀ d : DirEntry, d.nameFolded = folded → (d ∈ dir'.dirents ↔ d ∈ dir.dirents)) :
    dir'.lastFolded folded = dir.lastFolded folded := by
  apply ext
  intro d
  rw [hdir.lastFolded_eq_some_iff, hdir'.lastFolded_eq_some_iff]
  constructor
  · rintro ⟨hd, hfolded, hlargest⟩
    refine ⟨(h d hfolded).mp hd, hfolded, ?_⟩
    intro d' hd' hfolded'
    exact hlargest d' ((h d' hfolded').mpr hd') hfolded'
  · rintro ⟨hd, hfolded, hlargest⟩
    refine ⟨(h d hfolded).mpr hd, hfolded, ?_⟩
    intro d' hd' hfolded'
    exact hlargest d' ((h d' hfolded').mp hd') hfolded'

/-- An operation on one entry matters for its own folded name only. -/
theorem DirInv.forall_foldsLast_iff (hdir : DirInv dir) (hdir' : DirInv dir')
    (hfolds : ∀ name, dir.FoldsLast (lowercase name))
    (hmem : ∀ d', d' ≠ d → (d' ∈ dir'.dirents ↔ d' ∈ dir.dirents))
    (htable : ∀ folded, folded ≠ d.nameFolded →
      dir'.dirhashFolded folded = dir.dirhashFolded folded) :
    (∀ name, dir'.FoldsLast (lowercase name)) ↔ dir'.FoldsLast d.nameFolded := by
  constructor
  · intro hall
    exact hall d.name
  · intro hd name
    by_cases hname : lowercase name = d.nameFolded
    · rw [hname]
      exact hd
    · have hsame : dir'.lastFolded (lowercase name) = dir.lastFolded (lowercase name) := by
        refine Directory.lastFolded_congr hdir hdir' ?_
        rintro d' hd'
        refine hmem d' ?_
        rintro rfl
        exact hname hd'.symm
      rw [Directory.FoldsLast, hsame, htable _ hname]
      exact hfolds name

/-- The last entry after an insertion: the new one, or the one that has a larger cookie. -/
theorem DirInv.lastFolded_add (h : DirInv dir) (hadd : DirInv (dir.add d)) :
    (dir.add d).lastFolded d.nameFolded =
      (dir.lastFolded d.nameFolded).elim (some d) fun last =>
        if last.key < d.key then some d else some last := by
  have hnew : (∀ d' ∈ dir.dirents, d'.nameFolded = d.nameFolded → d'.key ≤ d.key) →
      (dir.add d).lastFolded d.nameFolded = some d := by
    intro hlargest
    rw [hadd.lastFolded_eq_some_iff]
    refine ⟨Directory.mem_add.mpr (Or.inl rfl), rfl, ?_⟩
    intro d' hd' hfolded
    rcases Directory.mem_add.mp hd' with rfl | hd'
    · exact Nat.le_refl _
    · exact hlargest d' hd' hfolded
  cases hlast : dir.lastFolded d.nameFolded with
  | none =>
    refine hnew ?_
    intro d' hd' hfolded
    exact absurd hfolded (Directory.lastFolded_eq_none_iff.mp hlast d' hd')
  | some last =>
    rcases h.lastFolded_eq_some_iff.mp hlast with ⟨hmem, hfolded, hlargest⟩
    rw [elim_some]
    split_ifs with hlt
    · refine hnew ?_
      intro d' hd' hfolded'
      exact Nat.le_of_lt (Nat.lt_of_le_of_lt (hlargest d' hd' hfolded') hlt)
    · rw [hadd.lastFolded_eq_some_iff]
      refine ⟨Directory.mem_add.mpr (Or.inr hmem), hfolded, ?_⟩
      intro d' hd' hfolded'
      rcases Directory.mem_add.mp hd' with rfl | hd'
      · exact Nat.le_of_not_lt hlt
      · exact hlargest d' hd' hfolded'

/-- An insertion, name by name. -/
theorem DirInv.foldsLast_add (h : DirInv dir) (hadd : DirInv (dir.add d))
    (hfolds : ∀ name, dir.FoldsLast (lowercase name)) :
    (∀ name, (dir.add d).FoldsLast (lowercase name)) ↔
      d.inum ≠ 0 ∧ ∀ last, dir.lastFolded d.nameFolded = some last →
        last.key < d.key ∨ last.inum = d.inum := by
  rw [h.forall_foldsLast_iff hadd hfolds
    (fun d' hne => by rw [Directory.mem_add, or_iff_right hne])
    fun folded hne => update_of_ne hne ..]
  rw [Directory.FoldsLast, Directory.dirhashFolded_add, update_self, h.lastFolded_add hadd]
  cases hlast : dir.lastFolded d.nameFolded with
  | none => simp
  | some last =>
    simp only [elim_some, map_some, some_inj, forall_eq']
    split_ifs with hlt
    · simp [hlt]
    · simp only [map_some, some_inj, forall_eq', hlt, false_or]
      constructor
      · rintro ⟨hinum, hne⟩
        exact ⟨hinum ▸ hne, hinum.symm⟩
      · rintro ⟨hne, hinum⟩
        exact ⟨hinum.symm, hinum ▸ hne⟩

/-- A removal, name by name. -/
theorem DirInv.foldsLast_without (h : DirInv dir) (hd : d ∈ dir.dirents)
    (hfolds : ∀ name, dir.FoldsLast (lowercase name)) :
    (∀ name, (dir.without d).FoldsLast (lowercase name)) ↔
      ∀ d' ∈ dir.dirents, d'.nameFolded = d.nameFolded → d' = d := by
  have htable : (dir.without d).dirhashFolded d.nameFolded = none := update_self ..
  rw [h.forall_foldsLast_iff (h.without hd) hfolds
    (fun d' hne => by rw [h.mem_without hd, and_iff_left hne])
    fun folded hne => update_of_ne hne ..]
  rw [Directory.FoldsLast, htable, map_none]
  constructor
  · rintro ⟨hnone, -⟩ d' hd' hfolded
    have hlast := map_eq_none_iff.mp hnone.symm
    by_contra hne
    exact Directory.lastFolded_eq_none_iff.mp hlast d' ((h.mem_without hd).mpr ⟨hd', hne⟩) hfolded
  · intro honly
    have hlast : (dir.without d).lastFolded d.nameFolded = none := by
      rw [Directory.lastFolded_eq_none_iff]
      intro d' hd' hfolded
      rcases (h.mem_without hd).mp hd' with ⟨hmem, hne⟩
      exact hne (honly d' hmem hfolded)
    rw [hlast]
    exact ⟨rfl, nofun⟩

/-- Which operations keep the lookup complete and stable. -/
theorem caseBlind_step {op : DirOp} (hdir : DirInv dir) (hfolded : FoldedInv dir)
    (h : dir.CaseBlind) (hstep : dirStep dir op = some dir') :
    dir'.CaseBlind ↔ op.KeepsFolded dir := by
  have hfolds := (caseBlind_iff hdir hfolded).mp h
  have hdir' := hdir.step hstep
  rw [caseBlind_iff hdir' (hfolded.step hdir hstep)]
  cases op with
  | insert draws name inum =>
    rcases map_eq_some_iff.mp hstep with ⟨⟨dir₁, ok⟩, hinsert, rfl⟩
    rcases hdir.insert_cases hinsert with
      ⟨hbound, rfl, -⟩ | ⟨hfree, -, cookie, hpick, -, rfl⟩
    · refine iff_of_true hfolds ?_
      intro hnone
      exact absurd hnone hbound
    · rw [hdir.foldsLast_add hdir' hfolds]
      constructor
      · rintro ⟨hne, hlast⟩ -
        refine ⟨hne, ?_⟩
        intro cookie' d hpick' hd hname hlargest
        rw [hpick, some_inj] at hpick'
        subst hpick'
        exact hlast d (hdir.lastFolded_eq_some_iff.mpr ⟨hd, hname, hlargest⟩)
      · intro hkeeps
        rcases hkeeps hfree with ⟨hne, hlast⟩
        refine ⟨hne, ?_⟩
        intro last hlast'
        rcases hdir.lastFolded_eq_some_iff.mp hlast' with ⟨hd, hname, hlargest⟩
        exact hlast cookie last hpick hd hname hlargest
  | remove name =>
    have heq := some_inj.mp hstep
    rcases hdir.remove_cases name with ⟨hnone, hremove⟩ | ⟨d, hd, hbound, rfl, hremove⟩
    · rw [hremove] at heq
      subst heq
      refine iff_of_true hfolds ?_
      intro hne
      exact absurd hnone hne
    · rw [hremove] at heq
      subst heq
      rw [hdir.foldsLast_without hd hfolds]
      constructor
      · intro honly _ d' hd' hname
        rw [honly d' hd' hname]
      · intro hkeeps d' hd' hname
        exact hdir.eq_of_name_eq hd' hd (hkeeps (by rw [hbound]; simp) d' hd' hname)

theorem caseBlind_empty : Directory.empty.CaseBlind := by
  rw [caseBlind_iff DirInv.empty FoldedInv.empty]
  intro name
  exact ⟨rfl, nofun⟩

end Operations

/-- As long as every operation keeps the lookup complete and stable, it is so in every state
reached; and an operation that does not meet the condition breaks it. -/
theorem ilookup_keeps_iff {dir : Directory}
    (hdir : Reachable dirStep (fun dir op => op.KeepsFolded dir) .empty dir) :
    dir.CaseBlind ∧ ∀ op dir', dirStep dir op = some dir' →
      (dir'.CaseBlind ↔ op.KeepsFolded dir) := by
  have hinv : DirInv dir ∧ FoldedInv dir ∧ dir.CaseBlind := by
    refine hdir.invariant (I := fun dir => DirInv dir ∧ FoldedInv dir ∧ dir.CaseBlind)
      ⟨DirInv.empty, FoldedInv.empty, caseBlind_empty⟩ ?_
    rintro dir op dir' ⟨hinv, hfolded, hblind⟩ hkeeps hstep
    exact ⟨hinv.step hstep, hfolded.step hinv hstep,
      (caseBlind_step hinv hfolded hblind hstep).mpr hkeeps⟩
  refine ⟨hinv.2.2, ?_⟩
  intro op dir' hstep
  exact caseBlind_step hinv.1 hinv.2.1 hinv.2.2 hstep

/-- The name "A". -/
def upperA : CString := ⟨[0x41], by decide⟩

/-- A directory with the entries "a" and "A", inserted in this order with the cookies given. -/
def twoCases (cookie cookie' : BitVec 32) : Directory :=
  (Directory.empty.add ⟨nameA, cookie, 2⟩).add ⟨upperA, cookie', 3⟩

theorem ilookup_keeps_two_cases :
    (twoCases 5 9).CaseBlind ∧ ∀ op dir', dirStep (twoCases 5 9) op = some dir' →
      (dir'.CaseBlind ↔ op.KeepsFolded (twoCases 5 9)) := by
  have hfirst : (DirOp.insert [5] nameA 2).KeepsFolded .empty := by
    intro _
    refine ⟨by decide, ?_⟩
    intro cookie d _ hd
    cases hd
  have hsecond : (DirOp.insert [9] upperA 3).KeepsFolded
      (Directory.empty.add ⟨nameA, 5, 2⟩) := by
    intro _
    refine ⟨by decide, ?_⟩
    intro cookie d hpick hd _ _
    have hcookie : cookie = 9 := (some_inj.mp hpick).symm
    have hentry : d = ⟨nameA, 5, 2⟩ := mem_singleton.mp hd
    rw [hcookie, hentry]
    decide
  exact ilookup_keeps_iff
    (.next (.insert [9] upperA 3) (.next (.insert [5] nameA 2) .start hfirst rfl) hsecond rfl)

/-- When "A" has been removed again, "a" is not found; and with the cookies the other way round,
the lookup finds "A" before the directory is reloaded and "a" afterwards. -/
theorem ilookup_incomplete_unstable :
    (∃ dir, DirReachable dir ∧ (∃ d ∈ dir.dirents, d.name = nameA) ∧ dir.ilookup nameA = 0) ∧
      ∃ i : Inode, i.type = .directory ∧ DirReachable i.dir ∧ i.dir.ilookup nameA = 3 ∧
        ∃ j, (newInode i.inum .pending).deserializeInode (i.serializeInode 0) = some (j, true) ∧
          j.dir.ilookup nameA = 2 := by
  have hreach : ∀ cookie cookie',
      dirStep .empty (.insert [cookie] nameA 2) = some (Directory.empty.add ⟨nameA, cookie, 2⟩) →
      dirStep (Directory.empty.add ⟨nameA, cookie, 2⟩) (.insert [cookie'] upperA 3) =
        some (twoCases cookie cookie') → DirReachable (twoCases cookie cookie') := by
    intro cookie cookie' hfirst hsecond
    exact .next _ (.next _ .start trivial hfirst) trivial hsecond
  constructor
  · refine ⟨((twoCases 5 9).remove upperA).1,
      .next (.remove upperA) (hreach 5 9 rfl rfl) trivial rfl, ?_, by decide⟩
    exact ⟨⟨nameA, 5, 2⟩, by decide, rfl⟩
  · have hdir := hreach 9 5 rfl rfl
    let i : Inode := { newInode 7 .directory with dir := twoCases 9 5 }
    rcases @deserializeInode_directory i (newInode 7 .pending) (dirInv_of_reachable hdir) rfl rfl 0
      with ⟨j, hj, hreloaded⟩
    refine ⟨i, rfl, hdir, by decide, j, hj, ?_⟩
    rw [hreloaded]
    decide

end BlueSky

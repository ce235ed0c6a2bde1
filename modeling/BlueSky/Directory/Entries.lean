import BlueSky.Directory

/-!
# The entries of a directory and its three indices

Reading a directory in the order of its cookies, looking up names up to ASCII case, and what
insertions and removals do to the table of the folded names.

Main results:

- Theorem {lit}`DirInv.read_eq_some_iff`: `bluesky_directory_read` finds the entry with the next
  cookie.
- Theorem {lit}`FoldedInv.add`, {lit}`FoldedInv.without`: the table of folded names holds current
  entries only.
-/

namespace BlueSky

open CStringLib SortedSeqLib TableLib TransitionLib

namespace Directory

/-- `bluesky_directory_read`. -/
def read (dir : Directory) (cookie : BitVec 32) : Option DirEntry :=
  after DirEntry.key dir.dirents cookie.toNat

/-- `bluesky_directory_ilookup`. -/
def ilookup (dir : Directory) (name : CString) : BitVec 64 :=
  match dir.dirhashFolded (lowercase name) with
  | none => 0
  | some d => d.inum

end Directory

/-- The table of folded names holds entries of the directory, under their folded names. -/
def FoldedInv (dir : Directory) : Prop :=
  ∀ folded d, dir.dirhashFolded folded = some d → d ∈ dir.dirents ∧ d.nameFolded = folded

/-! ## Entries -/

section Entries

variable {dir dir' : Directory}

theorem DirInv.nodup_names (h : DirInv dir) : (dir.dirents.map DirEntry.name).Nodup := by
  rw [List.nodup_iff_pairwise_ne, List.pairwise_map]
  refine h.sorted.imp_of_mem ?_
  intro d d' hd hd' hlt hname
  rw [h.eq_of_name_eq hd hd' hname] at hlt
  exact absurd hlt (Nat.lt_irrefl _)

variable {d : DirEntry}

/-- The entry with the next cookie is found, if there is one. -/
theorem DirInv.read_eq_some_iff (h : DirInv dir) {cookie : BitVec 32} :
    dir.read cookie = some d ↔
      d ∈ dir.dirents ∧ cookie.toNat < d.key ∧
        ∀ d' ∈ dir.dirents, cookie.toNat < d'.key → d.key ≤ d'.key :=
  h.sorted.after_eq_some_iff

/-! ## Folded names -/

theorem Directory.mem_add {d' : DirEntry} : d' ∈ (dir.add d).dirents ↔ d' = d ∨ d' ∈ dir.dirents :=
  mem_insertSorted

theorem Directory.dirhashFolded_add (d : DirEntry) :
    (dir.add d).dirhashFolded = Function.update dir.dirhashFolded d.nameFolded (some d) :=
  rfl

theorem FoldedInv.empty : FoldedInv .empty := by
  intro folded d h
  cases h

theorem FoldedInv.add (h : FoldedInv dir) (d : DirEntry) : FoldedInv (dir.add d) := by
  intro folded d' hd'
  rw [Directory.dirhashFolded_add] at hd'
  rw [Directory.mem_add]
  rcases update_eq_some_iff.mp hd' with ⟨rfl, rfl⟩ | ⟨-, hd'⟩
  · exact ⟨Or.inl rfl, rfl⟩
  · exact (h folded d' hd').imp_left Or.inr

theorem FoldedInv.without (h : FoldedInv dir) (hdir : DirInv dir) (hd : d ∈ dir.dirents) :
    FoldedInv (dir.without d) := by
  intro folded d' hd'
  rcases update_none_eq_some_iff.mp hd' with ⟨hne, hd'⟩
  rcases h folded d' hd' with ⟨hmem, rfl⟩
  exact ⟨(hdir.mem_without hd).mpr ⟨hmem, fun heq => hne (congrArg _ heq)⟩, rfl⟩

end Entries

/-! ## Sequences of operations -/

theorem FoldedInv.step {dir dir' : Directory} {op : DirOp} (hdir : DirInv dir)
    (h : FoldedInv dir) (hstep : dirStep dir op = some dir') : FoldedInv dir' := by
  cases op with
  | insert draws name inum =>
    rcases Option.map_eq_some_iff.mp hstep with ⟨⟨dir₁, ok⟩, hinsert, rfl⟩
    rcases hdir.insert_cases hinsert with ⟨-, rfl, -⟩ | ⟨-, -, cookie, -, -, rfl⟩
    · exact h
    · exact h.add _
  | remove name =>
    obtain rfl := Option.some_inj.mp hstep
    rcases hdir.remove_cases name with ⟨-, hremove⟩ | ⟨d, hd, -, -, hremove⟩
    · rwa [hremove]
    · rw [hremove]
      exact h.without hdir hd

end BlueSky

import BlueSky.Lib.CString
import BlueSky.Lib.SortedSeq
import BlueSky.Lib.Tables
import BlueSky.Lib.Transition
import Mathlib.Data.Finset.Card

/-!
# Directories

The entries of a directory and the operations of `dir.c` on them.  The entries are kept in a
sequence sorted by cookie and in two hash tables, by name and by folded name.

Main results:

- Theorem {lit}`DirInv.insert_cases` and theorem {lit}`DirInv.remove_cases`: the outcomes of the
  two operations, which bind and unbind one name.
- Theorem {lit}`DirInv.add` and theorem {lit}`DirInv.without`: sequence and hash table stay in
  step.
- Theorem {lit}`dirInv_of_reachable`: the invariant holds after any sequence of operations.
-/

namespace BlueSky

open Function List Option ByteLib CStringLib SortedSeqLib TableLib TransitionLib

/-! ## Data model -/

/-- `g_ascii_strdown` on one character. -/
def lowercaseByte (b : Byte) : Byte :=
  if 65 ≤ b.toNat ∧ b.toNat ≤ 90 then b + 32 else b

theorem lowercaseByte_ne_zero {b : Byte} (h : b ≠ 0) : lowercaseByte b ≠ 0 := by
  revert b
  decide +kernel

/-- `bluesky_lowercase`. -/
def lowercase (s : CString) : CString where
  bytes := s.bytes.map lowercaseByte
  nul_free := by
    intro h
    rcases List.mem_map.mp h with ⟨b, hb, hzero⟩
    refine lowercaseByte_ne_zero ?_ hzero
    rintro rfl
    exact s.nul_free hb

/-- `BlueSkyDirent`. -/
structure DirEntry where
  name : CString
  cookie : BitVec 32
  inum : BitVec 64
deriving DecidableEq, Repr

/-- The field `name_folded`. -/
def DirEntry.nameFolded (d : DirEntry) : CString :=
  lowercase d.name

/-- What `bluesky_dirent_compare` compares. -/
def DirEntry.key (d : DirEntry) : Nat :=
  d.cookie.toNat

/-- The fields of a directory inode for its entries. -/
structure Directory where
  dirents : List DirEntry
  dirhash : CString → Option DirEntry
  dirhashFolded : CString → Option DirEntry

namespace Directory

/-- A directory as `bluesky_init_inode` makes it. -/
def empty : Directory where
  dirents := []
  dirhash := fun _ => none
  dirhashFolded := fun _ => none

/-- `bluesky_directory_lookup`; zero is never a valid inode number. -/
def lookup (dir : Directory) (name : CString) : BitVec 64 :=
  match dir.dirhash name with
  | none => 0
  | some d => d.inum

/-- Adds an entry to the sequence and to both hash tables. -/
def add (dir : Directory) (d : DirEntry) : Directory where
  dirents := insertSorted DirEntry.key dir.dirents d
  dirhash := update dir.dirhash d.name (some d)
  dirhashFolded := update dir.dirhashFolded d.nameFolded (some d)

/-- The loop of `bluesky_directory_insert` that picks an unused cookie: the first of the
random draws that it accepts, if it has accepted one. -/
def pickCookie (dir : Directory) (draws : List (BitVec 32)) : Option (BitVec 32) :=
  (draws.map (· &&& 0x7fffffff)).find? fun cookie =>
    4 ≤ cookie.toNat ∧ (dir.dirents.length = 0 ∨
      (before DirEntry.key dir.dirents cookie.toNat).map DirEntry.key ≠ some cookie.toNat)

/-- `bluesky_directory_insert`, with the draws of the random number generator.  It has not
returned yet if no draw has been accepted. -/
def insert (draws : List (BitVec 32)) (dir : Directory) (name : CString) (inum : BitVec 64) :
    Option (Directory × Bool) :=
  if dir.dirhash name ≠ none then some (dir, false)
  else
    (dir.pickCookie draws).map fun cookie =>
      (dir.add { name := name, cookie := cookie, inum := inum }, true)

/-- `bluesky_directory_remove`. -/
def remove (dir : Directory) (name : CString) : Directory × Bool :=
  match dir.dirhash name with
  | none => (dir, false)
  | some d =>
    let unhashed : Directory :=
      { dir with
        dirhash := update dir.dirhash d.name none
        dirhashFolded := update dir.dirhashFolded d.nameFolded none }
    if before DirEntry.key dir.dirents d.key = some d then
      ({ unhashed with dirents := removeBefore DirEntry.key dir.dirents d.key }, true)
    else (unhashed, false)

/-- The inode number that a name is bound to. -/
def binding (dir : Directory) (name : CString) : Option (BitVec 64) :=
  (dir.dirhash name).map DirEntry.inum

/-- A cookie that `bluesky_directory_insert` may pick. -/
def Spare (dir : Directory) (cookie : BitVec 32) : Prop :=
  (4 ≤ cookie.toNat ∧ cookie.toNat < 2 ^ 31) ∧ ∀ d ∈ dir.dirents, d.key ≠ cookie.toNat

/-- The directory without an entry. -/
def without (dir : Directory) (d : DirEntry) : Directory where
  dirents := dir.dirents.filter fun d' => d'.key ≠ d.key
  dirhash := update dir.dirhash d.name none
  dirhashFolded := update dir.dirhashFolded d.nameFolded none

end Directory

/-! ## The invariant -/

/-- Sequence and hash table have the same entries. -/
structure DirInv (dir : Directory) : Prop where
  sorted : Sorted DirEntry.key dir.dirents
  cookies : ∀ d ∈ dir.dirents, 4 ≤ d.cookie.toNat ∧ d.cookie.toNat < 2 ^ 31
  hash : ∀ name d, dir.dirhash name = some d ↔ d ∈ dir.dirents ∧ d.name = name

theorem DirInv.empty : DirInv .empty where
  sorted := .nil
  cookies := by simp [Directory.empty]
  hash := by simp [Directory.empty]

section Invariant

variable {dir dir' : Directory} {d d' : DirEntry} {name : CString} {cookie : BitVec 32}
  {draws : List (BitVec 32)}

theorem DirInv.mem_iff (h : DirInv dir) : d ∈ dir.dirents ↔ dir.dirhash d.name = some d := by
  rw [h.hash]
  exact (and_iff_left rfl).symm

/-- Different entries have different names. -/
theorem DirInv.eq_of_name_eq (h : DirInv dir) (hd : d ∈ dir.dirents) (hd' : d' ∈ dir.dirents)
    (hname : d.name = d'.name) : d = d' := by
  rw [h.mem_iff] at hd hd'
  rw [hname, hd', some_inj] at hd
  exact hd.symm

/-! ## Insertion -/

theorem toNat_mask_lt (draw : BitVec 32) : (draw &&& 0x7fffffff).toNat < 2 ^ 31 := by
  rw [BitVec.toNat_and]
  exact lt_of_le_of_lt Nat.and_le_right (by decide)

/-- An accepted cookie is in range and unused. -/
theorem DirInv.pickCookie (h : DirInv dir) (hpick : dir.pickCookie draws = some cookie) :
    dir.Spare cookie := by
  have hmem := mem_of_find?_eq_some hpick
  rcases List.mem_map.mp hmem with ⟨draw, -, rfl⟩
  have haccept := find?_some hpick
  rw [decide_eq_true_iff] at haccept
  refine ⟨⟨haccept.1, toNat_mask_lt draw⟩, ?_⟩
  intro d hd hkey
  rcases haccept.2 with hnil | hbefore
  · rw [eq_nil_of_length_eq_zero hnil] at hd
    simp at hd
  · exact hbefore (h.sorted.before_key_iff.mpr ⟨d, hd, hkey⟩)

theorem toNat_mask (h : cookie.toNat < 2 ^ 31) :
    (cookie &&& 0x7fffffff).toNat = cookie.toNat := by
  rw [BitVec.toNat_and]
  change cookie.toNat &&& (2 ^ 31 - 1) = cookie.toNat
  rw [Nat.and_two_pow_sub_one_eq_mod]
  exact Nat.mod_eq_of_lt h

/-- An unused cookie is accepted when it is drawn. -/
theorem DirInv.pickCookie_isSome (h : DirInv dir) (hspare : dir.Spare cookie)
    (hdraw : cookie ∈ draws) : (dir.pickCookie draws).isSome := by
  rw [Directory.pickCookie, find?_isSome]
  refine ⟨_, List.mem_map.mpr ⟨_, hdraw, rfl⟩, ?_⟩
  rw [decide_eq_true_iff, toNat_mask hspare.1.2]
  refine ⟨hspare.1.1, Or.inr ?_⟩
  intro hused
  rcases h.sorted.before_key_iff.mp hused with ⟨d, hd, hkey⟩
  exact hspare.2 d hd hkey

/-- A name that is bound stays as it is. -/
theorem Directory.insert_of_bound (hname : dir.dirhash name ≠ none) (draws : List (BitVec 32))
    (inum : BitVec 64) : dir.insert draws name inum = some (dir, false) := by
  rw [Directory.insert, if_pos hname]

/-- An insertion is refused, or it adds an entry with a new name and a spare cookie. -/
theorem DirInv.insert_cases (h : DirInv dir) {inum : BitVec 64} {ok : Bool}
    (hinsert : dir.insert draws name inum = some (dir', ok)) :
    (dir.dirhash name ≠ none ∧ dir' = dir ∧ ok = false) ∨
      (dir.dirhash name = none ∧ ok = true ∧ ∃ cookie, dir.pickCookie draws = some cookie ∧
        dir.Spare cookie ∧ dir' = dir.add ⟨name, cookie, inum⟩) := by
  by_cases hname : dir.dirhash name = none
  · rw [Directory.insert, if_neg (not_not.mpr hname)] at hinsert
    rcases map_eq_some_iff.mp hinsert with ⟨cookie, hpick, heq⟩
    rw [Prod.mk.injEq] at heq
    exact Or.inr ⟨hname, heq.2.symm, cookie, hpick, h.pickCookie hpick, heq.1.symm⟩
  · rw [Directory.insert_of_bound hname, some_inj, Prod.mk.injEq] at hinsert
    exact Or.inl ⟨hname, hinsert.1.symm, hinsert.2.symm⟩

/-- Adding an entry with a new name and a spare cookie. -/
theorem DirInv.add (h : DirInv dir) (hname : dir.dirhash d.name = none)
    (hspare : dir.Spare d.cookie) : DirInv (dir.add d) where
  sorted := h.sorted.insertSorted hspare.2
  cookies := by
    intro d' hd'
    rcases mem_insertSorted.mp hd' with rfl | hd'
    · exact hspare.1
    · exact h.cookies d' hd'
  hash := by
    intro name d'
    change update dir.dirhash d.name (some d) name = some d' ↔
      d' ∈ insertSorted DirEntry.key dir.dirents d ∧ d'.name = name
    rw [update_eq_some_iff, mem_insertSorted, h.hash]
    constructor
    · rintro (⟨rfl, rfl⟩ | ⟨-, hd', rfl⟩)
      · exact ⟨Or.inl rfl, rfl⟩
      · exact ⟨Or.inr hd', rfl⟩
    · rintro ⟨rfl | hd', rfl⟩
      · exact Or.inl ⟨rfl, rfl⟩
      · refine Or.inr ⟨?_, hd', rfl⟩
        intro heq
        rw [← heq, h.mem_iff.mp hd'] at hname
        cases hname

/-! ## Removal -/

/-- A name that is not bound cannot be removed. -/
theorem Directory.remove_of_unbound (hname : dir.dirhash name = none) :
    dir.remove name = (dir, false) := by
  rw [Directory.remove, hname]

/-- A removal is refused, or it takes the entry out of all three indices; the element that the
search finds is the right one. -/
theorem DirInv.remove_cases (h : DirInv dir) (name : CString) :
    (dir.dirhash name = none ∧ dir.remove name = (dir, false)) ∨
      ∃ d ∈ dir.dirents, dir.dirhash name = some d ∧ d.name = name ∧
        dir.remove name = (dir.without d, true) := by
  cases hname : dir.dirhash name with
  | none => exact Or.inl ⟨rfl, Directory.remove_of_unbound hname⟩
  | some d =>
    rcases (h.hash name d).mp hname with ⟨hd, hd'⟩
    refine Or.inr ⟨d, hd, rfl, hd', ?_⟩
    rw [Directory.remove, hname]
    dsimp only
    rw [if_pos (h.sorted.before_eq hd), h.sorted.removeBefore_eq hd]
    rfl

theorem DirInv.mem_without (h : DirInv dir) (hd : d ∈ dir.dirents) :
    d' ∈ (dir.without d).dirents ↔ d' ∈ dir.dirents ∧ d' ≠ d := by
  rw [Directory.without, mem_filter, decide_eq_true_iff]
  refine and_congr_right ?_
  intro hd'
  refine not_congr ⟨fun hkey => h.sorted.eq_of_key_eq hd' hd hkey, ?_⟩
  rintro rfl
  rfl

/-- Taking an entry out. -/
theorem DirInv.without (h : DirInv dir) (hd : d ∈ dir.dirents) : DirInv (dir.without d) where
  sorted := h.sorted.filter _
  cookies := fun d' hd' => h.cookies d' (mem_of_mem_filter hd')
  hash := by
    intro name d'
    rw [h.mem_without hd]
    change update dir.dirhash d.name none name = some d' ↔ _
    rw [update_none_eq_some_iff, h.hash]
    constructor
    · rintro ⟨hne, hd', rfl⟩
      exact ⟨⟨hd', fun heq => hne (congrArg DirEntry.name heq)⟩, rfl⟩
    · rintro ⟨⟨hd', hne⟩, rfl⟩
      exact ⟨fun heq => hne (h.eq_of_name_eq hd' hd heq), hd', rfl⟩

end Invariant

/-! ## Sequences of operations -/

/-- The operations on a directory. -/
inductive DirOp where
  | insert (draws : List (BitVec 32)) (name : CString) (inum : BitVec 64)
  | remove (name : CString)

/-- One operation. -/
def dirStep (dir : Directory) : DirOp → Option Directory
  | .insert draws name inum => (dir.insert draws name inum).map Prod.fst
  | .remove name => some (dir.remove name).1

/-- The directories that operations make of an empty one. -/
abbrev DirReachable : Directory → Prop := Reachable dirStep (fun _ _ => True) .empty

theorem DirInv.step {dir dir' : Directory} {op : DirOp} (h : DirInv dir)
    (hstep : dirStep dir op = some dir') : DirInv dir' := by
  cases op with
  | insert draws name inum =>
    rcases map_eq_some_iff.mp hstep with ⟨⟨dir₁, ok⟩, hinsert, rfl⟩
    rcases h.insert_cases hinsert with ⟨-, rfl, -⟩ | ⟨hfree, -, cookie, -, hspare, rfl⟩
    · exact h
    · exact h.add hfree hspare
  | remove name =>
    obtain rfl := some_inj.mp hstep
    rcases h.remove_cases name with ⟨-, hremove⟩ | ⟨d, hd, -, -, hremove⟩
    · rwa [hremove]
    · rw [hremove]
      exact h.without hd

theorem dirInv_of_reachable {dir : Directory} (hdir : DirReachable dir) : DirInv dir :=
  hdir.invariant DirInv.empty fun _ _ _ h _ hstep => h.step hstep

/-- The name `a`. -/
def nameA : CString := ⟨[0x61], by decide⟩

/-- The name `b`. -/
def nameB : CString := ⟨[0x62], by decide⟩

end BlueSky

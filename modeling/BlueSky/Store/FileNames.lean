import BlueSky.Store.Server

/-!
# The names of files on the simple server

The server keeps an object in a file of its working directory whose name is the key with `/` and
`_` escaped.  The name is passed to `open`, which walks through the directories that the name
mentions, so that what it opens is a file of the directory only if the name is a plain component.

Main results:

- Theorem {lit}`normalizePath_injective`: different keys have different names.
- Theorem {lit}`slash_not_mem_normalizePath`: a name is one component of a path.
- Theorem {lit}`normalizePath_stays_inside`: every key but `..` is looked up inside the directory.
-/

namespace BlueSky

open List ByteLib WordsLib

/-! ## Path names -/

/-- The byte that separates the components of a path. -/
def slash : Byte := 47

/-- One component of a path, from a directory given by the names that lead to it from the root. -/
def enterComponent (dir : List Bytes) (component : Bytes) : List Bytes :=
  if component = chars ['.'] then dir
  else if component = chars ['.', '.'] then dir.dropLast
  else dir ++ [component]

/-- What a path names for a process whose working directory is {lit}`dir`, without symbolic
links. -/
def resolvePath (dir : List Bytes) (path : Bytes) : List Bytes :=
  (words (fun b => b = slash) path).foldl enterComponent
    (if path.head? = some slash then [] else dir)

/-! ## Escapes -/

theorem normalizePath_cons (b : Byte) (key : Bytes) :
    normalizePath (b :: key) =
      (if b = 47 then [95, 115] else if b = 95 then [95, 117] else [b]) ++ normalizePath key :=
  rfl

/-- A byte is escaped by at most two. -/
theorem length_normalizePath (key : Bytes) :
    key.length ≤ (normalizePath key).length ∧ (normalizePath key).length ≤ 2 * key.length := by
  induction key with
  | nil => exact ⟨le_rfl, le_rfl⟩
  | cons b key ih =>
    rw [normalizePath_cons, length_append, length_cons]
    split_ifs <;> simp only [length_cons, length_nil] <;> omega

theorem normalizePath_ne_nil {key : Bytes} (h : key ≠ []) : normalizePath key ≠ [] := by
  have hlength := (length_normalizePath key).1
  have hpos := length_pos_of_ne_nil h
  exact ne_nil_of_length_pos (by omega)

/-- Different keys are stored in different files. -/
theorem normalizePath_injective : Function.Injective normalizePath := by
  intro key
  induction key with
  | nil =>
    intro key' h
    by_contra hne
    exact normalizePath_ne_nil (Ne.symm hne) h.symm
  | cons b key ih =>
    intro key' h
    cases key' with
    | nil => exact absurd h (normalizePath_ne_nil (cons_ne_nil b key))
    | cons b' key' =>
      rw [normalizePath_cons, normalizePath_cons] at h
      -- The code of a byte is read off its first bytes.
      have hb : b = b' ∧ normalizePath key = normalizePath key' := by
        split_ifs at h <;> simp_all
      rw [hb.1, ih hb.2]

theorem slash_not_mem_normalizePath (key : Bytes) : slash ∉ normalizePath key := by
  induction key with
  | nil => exact not_mem_nil
  | cons b key ih =>
    rw [normalizePath_cons, mem_append, not_or]
    refine ⟨?_, ih⟩
    split_ifs with hslash
    · decide
    · decide
    · simpa [slash, eq_comm] using hslash

/-! ## Where a key is stored -/

/-- Only these keys have a name that stands for a directory. -/
theorem normalizePath_eq_dots {key : Bytes} :
    (normalizePath key = chars ['.'] ↔ key = chars ['.']) ∧
      (normalizePath key = chars ['.', '.'] ↔ key = chars ['.', '.']) :=
  ⟨normalizePath_injective.eq_iff' (by decide), normalizePath_injective.eq_iff' (by decide)⟩

/-- The name of a file is one component. -/
theorem resolvePath_normalizePath (dir : List Bytes) {key : Bytes} (hkey : key ≠ []) :
    resolvePath dir (normalizePath key) =
      if key = chars ['.'] then dir
      else if key = chars ['.', '.'] then dir.dropLast
      else dir ++ [normalizePath key] := by
  have hslash := slash_not_mem_normalizePath key
  have hhead : (normalizePath key).head? ≠ some slash :=
    fun h => hslash (mem_of_mem_head? h)
  rw [resolvePath, if_neg hhead, words_single (normalizePath_ne_nil hkey)]
  · simp only [foldl_cons, foldl_nil, enterComponent, normalizePath_eq_dots]
  · intro b hb
    exact decide_eq_false fun h => hslash (h ▸ hb)

/-- Names are injective, have no separator and are at most twice as long as the key.  A key names
a file of the server's directory unless it is `.` or `..`, different such keys name different
files, and `..` is the only key that leads out of the directory. -/
theorem normalizePath_stays_inside (dir : List Bytes) (key : Bytes) :
    (∀ key', normalizePath key = normalizePath key' → key = key') ∧
    (slash ∉ normalizePath key ∧ (normalizePath key).length ≤ 2 * key.length) ∧
    (key ≠ [] →
      (resolvePath dir (normalizePath key) = dir ++ [normalizePath key] ↔
        key ≠ chars ['.'] ∧ key ≠ chars ['.', '.'])) ∧
    (dir ≠ [] → (dir <+: resolvePath dir (normalizePath key) ↔ key ≠ chars ['.', '.'])) := by
  refine ⟨fun key' h => normalizePath_injective h,
    ⟨slash_not_mem_normalizePath key, (length_normalizePath key).2⟩, ?_, ?_⟩
  · intro hkey
    rw [resolvePath_normalizePath dir hkey]
    split_ifs with hdot hdots
    · simp [hdot]
    · have hne : dir.dropLast ≠ dir ++ [normalizePath key] := by
        intro h
        have hlength := congrArg List.length h
        rw [length_dropLast, length_append, length_singleton] at hlength
        omega
      exact iff_of_false hne fun h => h.2 hdots
    · simp [hdot, hdots]
  · intro hdir
    by_cases hkey : key = []
    · subst hkey
      simp [resolvePath, normalizePath, chars]
    rw [resolvePath_normalizePath dir hkey]
    split_ifs with hdot hdots
    · simp [hdot, chars]
    · have hlt : dir.dropLast.length < dir.length := by
        rw [length_dropLast]
        exact Nat.sub_lt (length_pos_of_ne_nil hdir) one_pos
      simp only [hdots, ne_eq, not_true_eq_false, iff_false]
      exact fun h => absurd h.length_le (Nat.not_le_of_lt hlt)
    · simp [hdots]

/-- The key `..` names the parent of the server's directory. -/
theorem normalizePath_dots_escapes :
    ¬ ∀ dir key, dir ≠ [] → (0 : Byte) ∉ key → dir <+: resolvePath dir (normalizePath key) := by
  intro h
  exact absurd (h [chars ['s', 'r', 'v'], chars ['o']] (chars ['.', '.']) (by decide) (by decide))
    (by decide)

end BlueSky

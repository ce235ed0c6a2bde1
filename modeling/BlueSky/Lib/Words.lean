import Mathlib.Data.List.TakeWhile

/-!
# Words of a text

A text is cut into words at separators.  {lit}`strtok` cuts off one word at a time.

Main results:

- Theorem {lit}`words_of_strtok`: one call of {lit}`strtok` gives the first word.
- Theorem {lit}`words_append`: the words of a text that starts with a word and a separator.
-/

namespace WordsLib

open List

variable {α : Type*} (sep : α → Bool)

/-- The pieces between separators that are not empty. -/
def words (text : List α) : List (List α) :=
  (text.splitOnP sep).filter fun word => !word.isEmpty

/-- `strtok`: the next word, and the text behind the separator that ends it. -/
def strtok (text : List α) : Option (List α × List α) :=
  match text.dropWhile sep with
  | [] => none
  | c :: rest =>
    some ((c :: rest).takeWhile (!sep ·), ((c :: rest).dropWhile (!sep ·)).tail)

/-! ## The words of a text -/

@[simp]
theorem words_nil : words sep [] = [] := rfl

variable {sep}

theorem words_cons_of_sep {c : α} (h : sep c = true) (text : List α) :
    words sep (c :: text) = words sep text := by
  rw [words, splitOnP_cons_eq_if_modifyHead, if_pos h, filter_cons_of_neg (by simp)]
  rfl

theorem words_dropWhile (text : List α) : words sep (text.dropWhile sep) = words sep text := by
  induction text with
  | nil => rfl
  | cons c text ih =>
    by_cases h : sep c = true
    · rw [dropWhile_cons_of_pos h, ih, words_cons_of_sep h]
    · rw [dropWhile_cons_of_neg h]

variable {word : List α}

/-- A text that starts with a word and a separator. -/
theorem words_append (hne : word ≠ []) (hword : ∀ c ∈ word, sep c = false) {c : α}
    (hc : sep c = true) (rest : List α) :
    words sep (word ++ c :: rest) = word :: words sep rest := by
  rw [words, splitOnP_append_cons_of_forall_mem hword c hc, filter_cons_of_pos (by simpa using hne)]
  rfl

/-- A text that is one word. -/
theorem words_single (hne : word ≠ []) (hword : ∀ c ∈ word, sep c = false) :
    words sep word = [word] := by
  rw [words, splitOnP_eq_singleton hword, filter_cons_of_pos (by simpa using hne), filter_nil]

/-! ## Cutting off words -/

theorem words_of_strtok_none {text : List α} (h : strtok sep text = none) :
    words sep text = [] := by
  rw [← words_dropWhile]
  unfold strtok at h
  split at h
  · rename_i hnil
    rw [hnil]
    rfl
  · cases h

variable {rest : List α}

/-- The word that is cut off, the separators before it and what is left. -/
theorem strtok_split {text : List α} (h : strtok sep text = some (word, rest)) :
    word ≠ [] ∧ (∀ c ∈ word, sep c = false) ∧
      ((text.dropWhile sep = word ∧ rest = []) ∨
        ∃ c, sep c = true ∧ text.dropWhile sep = word ++ c :: rest) := by
  unfold strtok at h
  split at h
  · cases h
  · rename_i c tail hdrop
    rcases Prod.mk.inj (Option.some.inj h) with ⟨hword, hrest⟩
    have hc : sep c = false := by
      have hhead := head?_dropWhile_not sep text
      rw [hdrop] at hhead
      simpa using hhead
    have hsplit := takeWhile_append_dropWhile (p := (!sep ·)) (l := c :: tail)
    refine ⟨?_, ?_, ?_⟩
    · rw [← hword, takeWhile_cons_of_pos (by simp [hc])]
      exact cons_ne_nil _ _
    · intro d hd
      rw [← hword] at hd
      simpa using mem_takeWhile_imp hd
    · rw [hword] at hsplit
      cases hafter : (c :: tail).dropWhile (!sep ·) with
      | nil =>
        rw [hafter, append_nil] at hsplit
        rw [hafter] at hrest
        exact Or.inl ⟨by rw [hdrop, hsplit], hrest.symm⟩
      | cons d after =>
        have hd : sep d = true := by
          have hhead := head?_dropWhile_not (!sep ·) (c :: tail)
          rw [hafter] at hhead
          simpa using hhead
        rw [hafter, tail_cons] at hrest
        rw [hafter, hrest] at hsplit
        exact Or.inr ⟨d, hd, by rw [hdrop, hsplit]⟩

/-- One call of {lit}`strtok` gives the first word. -/
theorem words_of_strtok {text : List α} (h : strtok sep text = some (word, rest)) :
    words sep text = word :: words sep rest := by
  rcases strtok_split h with ⟨hne, hword, ⟨hdrop, hrest⟩ | ⟨c, hc, hdrop⟩⟩
  · rw [← words_dropWhile, hdrop, words_single hne hword, hrest]
    rfl
  · rw [← words_dropWhile, hdrop, words_append hne hword hc]

theorem length_of_strtok {text : List α} (h : strtok sep text = some (word, rest)) :
    rest.length < text.length := by
  have hle := length_dropWhile_le sep text
  rcases strtok_split h with ⟨hne, _, ⟨hdrop, hrest⟩ | ⟨c, _, hdrop⟩⟩
  · have hpos := length_pos_iff.mpr hne
    rw [hdrop] at hle
    rw [hrest, length_nil]
    omega
  · rw [hdrop, length_append, length_cons] at hle
    omega

end WordsLib

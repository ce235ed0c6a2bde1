import Mathlib.Data.List.Sort
import Mathlib.Tactic.Linarith

/-!
# Reclaiming cache files

`bluesky_cachefile_gc` walks the cache files from the one that was used longest ago, and deletes
files that are not in use until the cache is small enough.

Main results:

- Theorem {lit}`cachefileGc_reclaims`: which files a pass deletes.
-/

namespace BlueSky

open List

/-- `BlueSkyCacheFile`, as far as the collector uses it.  The journal files have sequence numbers;
`locked` says that another thread holds the lock when the collector tries to take it. -/
structure CachedFile where
  filename : Nat
  journal : Option Int
  atime : Int
  refcount : Nat
  mapcount : Nat
  diskUsed : Int
  locked : Bool
deriving DecidableEq, Repr

/-- A file that may be deleted when space is needed. -/
def CachedFile.Unused (watermark : Int) (f : CachedFile) : Prop :=
  f.locked = false ∧ f.refcount = 0 ∧ f.mapcount = 0 ∧ ∀ seq ∈ f.journal, seq < watermark

instance (watermark : Int) (f : CachedFile) : Decidable (f.Unused watermark) :=
  inferInstanceAs (Decidable (_ ∧ _ ∧ _ ∧ _))

/-- A pass: the files that are kept and deleted, and `disk_used`. -/
structure GcPass where
  kept : List CachedFile
  deleted : List CachedFile
  diskUsed : Int

/-- The loop of `bluesky_cachefile_gc`. -/
def gcLoop (cacheSize watermark : Int) : Int → List CachedFile → GcPass
  | used, [] => ⟨[], [], used⟩
  | used, f :: fs =>
    if cacheSize < used ∧ f.Unused watermark then
      let pass := gcLoop cacheSize watermark (used - f.diskUsed) fs
      { pass with deleted := f :: pass.deleted }
    else
      let pass := gcLoop cacheSize watermark used fs
      { pass with kept := f :: pass.kept }

/-- `bluesky_cachefile_gc`, for the files of `mmap_cache` in any order. -/
def cachefileGc (cacheSize watermark diskUsed : Int) (files : List CachedFile) : GcPass :=
  gcLoop cacheSize watermark diskUsed (files.mergeSort fun a b => a.atime ≤ b.atime)

/-- What a pass over files does. -/
structure Reclaims (cacheSize watermark used : Int) (files : List CachedFile) (pass : GcPass) :
    Prop where
  perm : (pass.deleted ++ pass.kept).Perm files
  accounted : pass.diskUsed = used - (pass.deleted.map CachedFile.diskUsed).sum
  unused : ∀ f ∈ pass.deleted, f.Unused watermark
  enough : ∀ f ∈ pass.kept, f.Unused watermark →
    pass.diskUsed ≤ cacheSize ∧ ∀ g ∈ pass.deleted, g.atime ≤ f.atime
  needed : ∀ g ∈ pass.deleted.getLast?, cacheSize < pass.diskUsed + g.diskUsed

variable {cacheSize watermark used : Int} {files : List CachedFile}

theorem gcLoop_stops (h : used ≤ cacheSize) :
    gcLoop cacheSize watermark used files = ⟨files, [], used⟩ := by
  induction files with
  | nil => rfl
  | cons f fs ih => simp [gcLoop, not_lt.mpr h, ih]

theorem gcLoop_reclaims (hsorted : files.Pairwise fun a b => a.atime ≤ b.atime) :
    Reclaims cacheSize watermark used files (gcLoop cacheSize watermark used files) := by
  induction files generalizing used with
  | nil => constructor <;> simp [gcLoop]
  | cons f fs ih =>
    rw [pairwise_cons] at hsorted
    rw [gcLoop]
    by_cases hdelete : cacheSize < used ∧ f.Unused watermark
    · rw [if_pos hdelete]
      have hpass : Reclaims cacheSize watermark (used - f.diskUsed) fs _ := ih hsorted.2
      refine ⟨hpass.perm.cons f, ?_, ?_, ?_, ?_⟩
      · simp only [hpass.accounted, map_cons, sum_cons]
        omega
      · exact forall_mem_cons.mpr ⟨hdelete.2, hpass.unused⟩
      · intro g hg hunused
        refine ⟨(hpass.enough g hg hunused).1, forall_mem_cons.mpr ⟨?_, ?_⟩⟩
        · exact hsorted.1 g (hpass.perm.subset (mem_append_right _ hg))
        · exact (hpass.enough g hg hunused).2
      · -- the last deletion is this one if it is the only one
        intro g hg
        rw [getLast?_cons, Option.mem_some_iff] at hg
        cases hlast : (gcLoop cacheSize watermark (used - f.diskUsed) fs).deleted.getLast? with
        | none =>
          have hused := hpass.accounted
          rw [getLast?_eq_none_iff.mp hlast, map_nil, sum_nil] at hused
          rw [← hg, hlast, Option.getD_none, hused]
          omega
        | some g' =>
          rw [hlast, Option.getD_some] at hg
          exact hpass.needed g (hg ▸ hlast)
    · rw [if_neg hdelete]
      have hpass : Reclaims cacheSize watermark used fs _ := ih hsorted.2
      refine ⟨perm_middle.trans (hpass.perm.cons f), hpass.accounted, hpass.unused, ?_,
        hpass.needed⟩
      refine forall_mem_cons.mpr ⟨fun hunused => ?_, hpass.enough⟩
      have hle : used ≤ cacheSize := not_lt.mp fun hlt => hdelete ⟨hlt, hunused⟩
      rw [gcLoop_stops hle]
      simpa using hle

/-- Whatever the order in which the files are found: the files are kept or deleted, `disk_used` is
lowered by what is deleted, and nothing is deleted that is locked, referenced, mapped, or a journal
file that is not below the watermark.  If a file is kept that might have been deleted, the cache is
small enough and all deleted files were used before it; and without its last deletion the pass would
have left the cache too large. -/
theorem cachefileGc_reclaims (cacheSize watermark diskUsed : Int) (files : List CachedFile) :
    Reclaims cacheSize watermark diskUsed files
      (cachefileGc cacheSize watermark diskUsed files) := by
  have hsorted := @pairwise_mergeSort _ (fun a b : CachedFile => a.atime ≤ b.atime)
    (by simp; omega) (by simp; omega) files
  have hpass : Reclaims cacheSize watermark diskUsed _ _ :=
    gcLoop_reclaims (hsorted.imp of_decide_eq_true)
  exact { hpass with perm := hpass.perm.trans (mergeSort_perm _ _) }

end BlueSky

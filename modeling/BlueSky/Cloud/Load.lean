import BlueSky.Cloud.Store

/-!
# Loading a checkpoint

`bluesky_inode_map_deserialize` follows the links of a checkpoint to the sections of the
inode map and enters what they list in the map of a new file system.

Main results:

- Theorem {lit}`loadSections_spec`: loading sections that list the entries of a map gives
  that map, the locations of its items and a bound on its inode numbers.
- Theorem {lit}`inodeMapDeserialize_mono`: objects that are added to the store do not
  matter.
-/

namespace BlueSky

open Function List

/-! ## The loader -/

/-- The part of a `BlueSkyFS` that loading a checkpoint fills in. -/
structure LoadedMap where
  inodeMap : InodeMap
  /-- The locations of the items in `fs->locations`. -/
  location : Nat → Option Location
  nextInum : Nat
  latestCleanerSeqSeen : Int

namespace LoadedMap

/-- The state of a new file system. -/
def empty : LoadedMap where
  inodeMap := []
  location := fun _ => none
  nextInum := 2
  latestCleanerSeqSeen := -1

/-- The location of a link target, as `bluesky_deserialize_cloudlog` notes it. -/
def noteLink (r : LoadedMap) : Option (Nat × Location) → LoadedMap
  | none => r
  | some (id, l) => { r with location := update r.location id (some l) }

/-- The links of an object that is fetched. -/
def noteLinks (r : LoadedMap) (links : List (Option (Nat × Location))) : LoadedMap :=
  links.foldl noteLink r

/-- Enter an item in the inode map. -/
def enter (r : LoadedMap) (inum id : Nat) : LoadedMap :=
  { r with
    inodeMap := inodeMapInsert r.inodeMap inum id
    nextInum := max r.nextInum ((inum + 1) % 2 ^ 64) }

/-- The loop over the entries of a section.  A section has no null links. -/
def loadEntries : LoadedMap → List Nat → List (Option (Nat × Location)) → Option LoadedMap
  | r, _, [] => some r
  | r, inum :: inums, some (id, _) :: links => loadEntries (r.enter inum id) inums links
  | _, _, _ => none

/-- The loop over the links of a checkpoint. -/
def loadSections (get : Location → Option CloudObject) :
    LoadedMap → List (Option (Nat × Location)) → Option LoadedMap
  | r, [] => some r
  | _, none :: _ => none
  | r, some (id, _) :: links =>
    match (r.location id).bind get with
    | some ⟨_, .inodeMap inums, _, sectionLinks⟩ =>
      (loadEntries (r.noteLinks sectionLinks) inums sectionLinks).bind (loadSections get · links)
    | _ => none

/-- The loop over the version vector; log directory 1 is the cleaner's. -/
def loadVersions (r : LoadedMap) (versions : List (Nat × Nat)) : LoadedMap :=
  versions.foldl (fun r version =>
    if version.1 = 1 then { r with latestCleanerSeqSeen := version.2 } else r) r

end LoadedMap

/-- `bluesky_inode_map_deserialize` in a new file system; a failed assertion is `none`. -/
def inodeMapDeserialize (get : Location → Option CloudObject) (checkpoint : CloudObject) :
    Option LoadedMap :=
  match checkpoint.payload with
  | .checkpoint versions _ =>
    if versions.length ≤ 2 ∧
        checkpoint.payload.length = 16 * checkpoint.links.length + 12 + 8 * versions.length then
      LoadedMap.loadSections get
        ((LoadedMap.empty.noteLinks checkpoint.links).loadVersions versions) checkpoint.links
    else none
  | _ => none

/-! ## What is loaded -/

/-- The map lists certain entries, and the locations are those of a table. -/
structure Loaded (location : Nat → Option Location) (entry : Nat → Nat → Prop)
    (r : LoadedMap) : Prop where
  mapOk : InodeMapOk r.inodeMap
  entries : ∀ {k x : Nat}, MapEntry r.inodeMap k x ↔ entry k x
  agrees : ∀ {id : Nat} {l : Location}, r.location id = some l → location id = some l
  located : ∀ {k x : Nat}, entry k x → ∃ l, r.location x = some l
  next : ∀ {k x : Nat}, entry k x → k + 1 < 2 ^ 64 → k < r.nextInum

section Load

variable {location : Nat → Option Location} {entry : Nat → Nat → Prop} {r : LoadedMap}

theorem location_noteLink (r : LoadedMap) (id : Nat) (l : Location) :
    (r.noteLink (some (id, l))).location = update r.location id (some l) :=
  rfl

/-- Links carry the locations of a table. -/
def LinksAgree (location : Nat → Option Location) (links : List (Option (Nat × Location))) :
    Prop :=
  ∀ id l, some (id, l) ∈ links → location id = some l

variable {links : List (Option (Nat × Location))}

theorem LinksAgree.tail {link : Option (Nat × Location)} (h : LinksAgree location (link :: links)) :
    LinksAgree location links :=
  fun id l hmem => h id l (mem_cons_of_mem _ hmem)

/-- What following links does to the locations. -/
theorem noteLinks_spec (hlinks : LinksAgree location links)
    (hr : ∀ {id l}, r.location id = some l → location id = some l) :
    (r.noteLinks links).inodeMap = r.inodeMap ∧ (r.noteLinks links).nextInum = r.nextInum ∧
      (r.noteLinks links).latestCleanerSeqSeen = r.latestCleanerSeqSeen ∧
      (∀ {id l}, (r.noteLinks links).location id = some l → location id = some l) ∧
      (∀ {id l}, r.location id = some l → ∃ l', (r.noteLinks links).location id = some l') ∧
      ∀ {id l}, some (id, l) ∈ links → ∃ l', (r.noteLinks links).location id = some l' := by
  induction links generalizing r with
  | nil => exact ⟨rfl, rfl, rfl, hr, fun h => ⟨_, h⟩, by simp⟩
  | cons link links ih =>
    have hstep : (∀ {id l}, (r.noteLink link).location id = some l → location id = some l) ∧
        (∀ {id l}, r.location id = some l → ∃ l', (r.noteLink link).location id = some l') ∧
        ∀ {id l}, some (id, l) = link → ∃ l', (r.noteLink link).location id = some l' := by
      cases link with
      | none => exact ⟨hr, fun h => ⟨_, h⟩, by simp⟩
      | some target =>
        rcases target with ⟨id, l⟩
        refine ⟨?_, ?_, ?_⟩
        · intro id' l' h
          rw [location_noteLink] at h
          by_cases heq : id' = id
          · subst heq
            rw [update_self] at h
            rw [← Option.some.inj h]
            exact hlinks _ _ mem_cons_self
          · rw [update_of_ne heq] at h
            exact hr h
        · intro id' l' h
          rw [location_noteLink]
          by_cases heq : id' = id
          · exact ⟨l, by rw [heq, update_self]⟩
          · exact ⟨l', by rw [update_of_ne heq, h]⟩
        · intro id' l' h
          rw [Option.some.injEq, Prod.mk.injEq] at h
          exact ⟨l, by rw [location_noteLink, h.1, update_self]⟩
    rcases ih hlinks.tail hstep.1 with ⟨hmap, hnext, hseen, hagrees, hkeeps, hnew⟩
    have hnote : (r.noteLink link).inodeMap = r.inodeMap ∧
        (r.noteLink link).nextInum = r.nextInum ∧
        (r.noteLink link).latestCleanerSeqSeen = r.latestCleanerSeqSeen := by
      cases link with
      | none => exact ⟨rfl, rfl, rfl⟩
      | some target => exact ⟨rfl, rfl, rfl⟩
    refine ⟨hmap.trans hnote.1, hnext.trans hnote.2.1, hseen.trans hnote.2.2, hagrees, ?_, ?_⟩
    · intro id l h
      rcases hstep.2.1 h with ⟨l', h'⟩
      exact hkeeps h'
    · intro id l hmem
      rcases mem_cons.mp hmem with heq | hmem
      · rcases hstep.2.2 heq with ⟨l', h'⟩
        exact hkeeps h'
      · exact hnew hmem

theorem Loaded.noteLinks (h : Loaded location entry r) (hlinks : LinksAgree location links) :
    Loaded location entry (r.noteLinks links) := by
  rcases noteLinks_spec hlinks h.agrees with ⟨hmap, hnext, -, hagrees, hkeeps, -⟩
  refine ⟨hmap ▸ h.mapOk, ?_, hagrees, ?_, ?_⟩
  · rw [hmap]
    exact h.entries
  · intro k x hentry
    rcases h.located hentry with ⟨l, hl⟩
    exact hkeeps hl
  · rw [hnext]
    exact h.next

/-- A new entry. -/
theorem Loaded.enter (h : Loaded location entry r) {k x : Nat} (hk : k < 2 ^ 64)
    (hnew : ∀ y, ¬ entry k y) {l : Location} (hl : r.location x = some l) :
    Loaded location (fun k' x' => entry k' x' ∨ (k' = k ∧ x' = x)) (r.enter k x) where
  mapOk := h.mapOk.insert hk x
  entries := by
    intro k' x'
    unfold LoadedMap.enter
    rw [mapEntry_inodeMapInsert h.mapOk hk, h.entries]
    constructor
    · rintro (heq | ⟨-, hold⟩)
      · exact Or.inr heq
      · exact Or.inl hold
    · rintro (hold | heq)
      · refine Or.inr ⟨?_, hold⟩
        rintro rfl
        exact hnew x' hold
      · exact Or.inl heq
  agrees := h.agrees
  located := by
    rintro k' x' (hold | ⟨-, rfl⟩)
    · exact h.located hold
    · exact ⟨l, hl⟩
  next := by
    intro k' x' hentry hlt
    show k' < max r.nextInum ((k + 1) % 2 ^ 64)
    rcases hentry with hold | ⟨rfl, -⟩
    · exact Nat.lt_of_lt_of_le (h.next hold hlt) (Nat.le_max_left _ _)
    · rw [Nat.mod_eq_of_lt hlt]
      exact Nat.lt_of_lt_of_le (Nat.lt_succ_self k') (Nat.le_max_right _ _)

/-- The links that a section has for the entries of a range. -/
def entryLinks (linkTo : Nat → Nat × Location) (es : List (Nat × Nat)) :
    List (Option (Nat × Location)) :=
  es.map fun e => some (linkTo e.2)

/-- The loop over the entries of a section. -/
theorem loadEntries_spec {linkTo : Nat → Nat × Location} (hlinkTo : ∀ x, (linkTo x).1 = x)
    {es : List (Nat × Nat)} (hkeys : es.Pairwise fun a b => a.1 < b.1)
    (hbound : ∀ e ∈ es, e.1 < 2 ^ 64) (h : Loaded location entry r)
    (hnew : ∀ e ∈ es, ∀ y, ¬ entry e.1 y) (hlocated : ∀ e ∈ es, ∃ l, r.location e.2 = some l) :
    ∃ r', r.loadEntries (es.map Prod.fst) (entryLinks linkTo es) = some r' ∧
      Loaded location (fun k x => entry k x ∨ (k, x) ∈ es) r' ∧ r'.location = r.location ∧
      r'.latestCleanerSeqSeen = r.latestCleanerSeqSeen := by
  induction es generalizing r entry with
  | nil =>
    refine ⟨r, rfl, ?_, rfl, rfl⟩
    simpa using h
  | cons e es ih =>
    rw [pairwise_cons] at hkeys
    rcases hlocated e mem_cons_self with ⟨l, hl⟩
    have hentered := h.enter (hbound e mem_cons_self) (hnew e mem_cons_self) hl
    rcases ih hkeys.2 (fun e' he' => hbound e' (mem_cons_of_mem _ he')) hentered
      (fun e' he' y => by
        rintro (hold | ⟨heq, -⟩)
        · exact hnew e' (mem_cons_of_mem _ he') y hold
        · exact absurd heq (Nat.ne_of_gt (hkeys.1 e' he')))
      (fun e' he' => hlocated e' (mem_cons_of_mem _ he')) with
      ⟨r', hrun, hloaded, hlocation, hseen⟩
    refine ⟨r', ?_, ?_, hlocation, hseen⟩
    · rw [entryLinks, map_cons, map_cons, ← Prod.eta (linkTo e.2), hlinkTo, LoadedMap.loadEntries]
      exact hrun
    · convert hloaded using 3 with k x
      rw [mem_cons, or_assoc, Prod.ext_iff]

/-- A section lists the entries of a range. -/
def IsSectionOf (linkTo : Nat → Nat × Location) (range : InodeMapRange) (object : CloudObject) :
    Prop :=
  object.payload = .inodeMap (range.entries.map Prod.fst) ∧
    object.links = entryLinks linkTo range.entries

/-- The loop over the links of a checkpoint. -/
theorem loadSections_spec (get : Location → Option CloudObject)
    (linkTo : Nat → Nat × Location) (sectionOf : InodeMapRange → Nat)
    (hlinkTo : ∀ x, (linkTo x).1 = x) {m : InodeMap} (hm : InodeMapOk m)
    (hbound : ∀ {k x}, MapEntry m k x → k < 2 ^ 64)
    (hentries : ∀ {k x}, MapEntry m k x → location x = some (linkTo x).2)
    (h : Loaded location entry r) (hnew : ∀ {k x}, MapEntry m k x → ∀ y, ¬ entry k y)
    (hsections : ∀ range ∈ m, location (sectionOf range) = some (linkTo (sectionOf range)).2 ∧
      (∃ l, r.location (sectionOf range) = some l) ∧
      ∃ object, get (linkTo (sectionOf range)).2 = some object ∧ IsSectionOf linkTo range object) :
    ∃ r', r.loadSections get (m.map fun range => some (linkTo (sectionOf range))) = some r' ∧
      Loaded location (fun k x => entry k x ∨ MapEntry m k x) r' ∧
      r'.latestCleanerSeqSeen = r.latestCleanerSeqSeen := by
  induction m generalizing r entry with
  | nil =>
    refine ⟨r, rfl, ?_, rfl⟩
    simpa [MapEntry] using h
  | cons range m ih =>
    have hmTail : InodeMapOk m :=
      ⟨fun r hr => hm.start_aligned r (mem_cons_of_mem _ hr),
        fun r hr => hm.stop_eq r (mem_cons_of_mem _ hr),
        (pairwise_cons.mp hm.sorted).2,
        fun r hr => hm.inside r (mem_cons_of_mem _ hr),
        fun r hr => hm.keys r (mem_cons_of_mem _ hr)⟩
    have hhead : ∀ {k x}, (k, x) ∈ range.entries → MapEntry (range :: m) k x :=
      fun hx => ⟨range, mem_cons_self, hx⟩
    have htail : ∀ {k x}, MapEntry m k x → MapEntry (range :: m) k x := by
      rintro k x ⟨r', hr', hx⟩
      exact ⟨r', mem_cons_of_mem _ hr', hx⟩
    -- Entries of different ranges have different inode numbers.
    have hdisjoint : ∀ {k x y}, MapEntry m k x → (k, y) ∉ range.entries := by
      rintro k x y ⟨r', hr', hx⟩ hy
      have hlt := (pairwise_cons.mp hm.sorted).1 r' hr'
      have hin := hm.inside range mem_cons_self _ hy
      have hin' := hm.inside r' (mem_cons_of_mem _ hr') _ hx
      have halign := hm.start_aligned range mem_cons_self
      have halign' := hm.start_aligned r' (mem_cons_of_mem _ hr')
      have hstop := hm.stop_eq range mem_cons_self
      simp only [targetImapSize] at halign halign' hstop
      dsimp only at hin hin'
      omega
    rcases hsections range mem_cons_self with ⟨hloc, ⟨l, hl⟩, object, hget, hpayload, hlinks⟩
    have hl' : r.location (sectionOf range) = some (linkTo (sectionOf range)).2 := by
      rw [hl, ← h.agrees hl, hloc]
    have hagree : LinksAgree location (entryLinks linkTo range.entries) := by
      intro id l hmem
      rcases mem_map.mp hmem with ⟨e, he, heq⟩
      have hpair := Option.some.inj heq
      have hid : id = e.2 := by rw [← hlinkTo e.2, hpair]
      rw [hid, hentries (hhead (k := e.1) (x := e.2) he), hpair]
    have hnoted := h.noteLinks hagree
    rcases noteLinks_spec hagree h.agrees with ⟨-, -, hseenNote, -, hkeeps, hnewLinks⟩
    rcases loadEntries_spec hlinkTo (hm.keys range mem_cons_self)
      (fun e he => hbound (hhead (k := e.1) (x := e.2) he)) hnoted
      (fun e he y => hnew (hhead (k := e.1) (x := e.2) he) y)
      (fun e he => @hnewLinks e.2 (linkTo e.2).2 (mem_map.mpr
        ⟨e, he, by rw [← Prod.eta (linkTo e.2), hlinkTo]⟩)) with
      ⟨r₁, hrun, hloaded, hlocation, hseen⟩
    rcases ih hmTail (fun hx => hbound (htail hx)) (fun hx => hentries (htail hx)) hloaded
      (fun {k x} hx y => by
        rintro (hold | hmem)
        · exact hnew (htail hx) y hold
        · exact hdisjoint hx hmem)
      (fun range' hrange' => by
        rcases hsections range' (mem_cons_of_mem _ hrange') with ⟨hloc', ⟨l', hl'⟩, hobj⟩
        refine ⟨hloc', ?_, hobj⟩
        rw [hlocation]
        exact hkeeps hl') with ⟨r₂, hrun₂, hloaded₂, hseen₂⟩
    refine ⟨r₂, ?_, ?_, hseen₂.trans (hseen.trans hseenNote)⟩
    · rcases object with ⟨oid, payload, oinum, links⟩
      dsimp only at hpayload hlinks
      subst hpayload hlinks
      rw [map_cons, ← Prod.eta (linkTo (sectionOf range)), hlinkTo,
        LoadedMap.loadSections, hl', Option.bind_some, hget]
      dsimp only
      rw [hrun, Option.bind_some]
      exact hrun₂
    · convert hloaded₂ using 3 with k x
      rw [or_assoc]
      simp [MapEntry]

end Load

/-! ## Objects that are added -/

section Mono

variable {get get' : Location → Option CloudObject}

theorem loadSections_mono (hget : ∀ {l o}, get l = some o → get' l = some o)
    {links : List (Option (Nat × Location))} {r r' : LoadedMap}
    (h : r.loadSections get links = some r') : r.loadSections get' links = some r' := by
  induction links generalizing r with
  | nil => exact h
  | cons link links ih =>
    cases link with
    | none => cases h
    | some target =>
      rcases target with ⟨id, l⟩
      rw [LoadedMap.loadSections] at h ⊢
      cases hobject : (r.location id).bind get with
      | none =>
        rw [hobject] at h
        cases h
      | some object =>
        have hobject' : (r.location id).bind get' = some object := by
          rcases Option.bind_eq_some_iff.mp hobject with ⟨l', hl', hgot⟩
          rw [hl', Option.bind_some, hget hgot]
        rw [hobject] at h
        rw [hobject']
        rcases object with ⟨oid, payload, oinum, olinks⟩
        cases payload with
        | inodeMap inums =>
          dsimp only at h ⊢
          rcases Option.bind_eq_some_iff.mp h with ⟨r₁, hr₁, hrest⟩
          rw [hr₁, Option.bind_some]
          exact ih hrest
        | _ => cases h

/-- Objects that are added do not matter. -/
theorem inodeMapDeserialize_mono (hget : ∀ {l o}, get l = some o → get' l = some o)
    {checkpoint : CloudObject} {r : LoadedMap}
    (h : inodeMapDeserialize get checkpoint = some r) :
    inodeMapDeserialize get' checkpoint = some r := by
  unfold inodeMapDeserialize at h ⊢
  split at h
  · split_ifs at h with hguard
    rw [if_pos hguard]
    exact loadSections_mono hget h
  · cases h

end Mono

end BlueSky

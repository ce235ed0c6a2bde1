import BlueSky.Journal.Writer

/-!
# Log items and cloud objects

The items that the proxy logs, seen as values instead of bytes: what each type of
item holds, how long it is when serialized, and how it lies in a segment of the
cloud log.  An item never changes once it is created, so items are numbered in the
order of their creation and links between items are these numbers.

Main results:

- Theorem {lit}`segmentGet_append`: an object stays where it is when its segment
  grows.
- Theorem {lit}`segmentGet_last`: an object is found at the location recorded for it
  when it is appended.
-/

namespace BlueSky

open List ByteLib

/-! ## Items -/

/-- A directory entry. -/
structure Dirent where
  cookie : Nat
  inum : Nat
  name : Bytes
deriving DecidableEq, Repr

/-- The part of an inode that depends on its type. -/
inductive InodeBody where
  | regular (size : Nat)
  | directory (dirents : List Dirent)
  | symlink (contents : Bytes)
deriving DecidableEq, Repr

/-- What `bluesky_serialize_inode` writes of an inode, its blocks apart. -/
structure InodeImage where
  mode : Nat
  uid : Nat
  gid : Nat
  nlink : Nat
  changeCount : Nat
  atime : Int
  ctime : Int
  mtime : Int
  ntime : Int
  body : InodeBody
deriving DecidableEq, Repr

/-- The number of bytes of the part that depends on the type. -/
def InodeBody.length : InodeBody → Nat
  | regular _ => 8
  | directory dirents => (dirents.map fun d => 4 + 8 + d.name.length + 1).sum + 4
  | symlink contents => contents.length + 1

/-- The data of a log item, by type. -/
inductive Payload where
  | data (bytes : Bytes)
  | inode (image : InodeImage)
  | inodeMap (inums : List Nat)
  /-- The version vector, and the bounds of the ranges of the inode map. -/
  | checkpoint (versions : List (Nat × Nat)) (ranges : List (Nat × Nat))
  | journalMarker
  /-- The position of the marker. -/
  | journalCheckpoint (seq offset : Nat)
deriving DecidableEq, Repr

/-- The number of bytes of the data; `struct serialized_inode` has 76. -/
def Payload.length : Payload → Nat
  | data bytes => bytes.length
  | inode image => 76 + image.body.length
  | inodeMap inums => 8 * inums.length
  | checkpoint versions ranges => 8 + 4 + 8 * versions.length + 16 * ranges.length
  | journalMarker => 0
  | journalCheckpoint _ _ => 8

/-- Whether the item is an inode. -/
def Payload.isInode : Payload → Bool
  | inode _ => true
  | _ => false

/-- Whether the item is a cloud checkpoint. -/
def Payload.isCheckpoint : Payload → Bool
  | checkpoint _ _ => true
  | _ => false

/-- The part of a `BlueSkyCloudLog` that is fixed when the item is created.  The links
are the numbers of other items. -/
structure Item where
  payload : Payload
  inum : Nat
  links : List (Option Nat)
deriving DecidableEq, Repr

/-- The size of an item's journal record: header, the three sections, footer. -/
def Item.journalSize (item : Item) : Nat :=
  45 + item.payload.length + 16 * item.links.length +
    16 * (item.links.filter Option.isSome).length + 8

theorem Item.journalSize_pos (item : Item) : 0 < item.journalSize := by
  simp [Item.journalSize]

/-! ## Objects in the cloud log -/

/-- A `BlueSkyCloudPointer`. -/
structure Location where
  directory : Nat
  sequence : Nat
  offset : Nat
  size : Nat
deriving DecidableEq, Repr

/-- An item as it stands in a cloud segment: each link that is not null has the
location of its target. -/
structure CloudObject where
  id : Nat
  payload : Payload
  inum : Nat
  links : List (Option (Nat × Location))
deriving DecidableEq, Repr

/-- The size of an object: `struct cloudlog_header` has 89 bytes. -/
def CloudObject.size (object : CloudObject) : Nat :=
  89 + object.payload.length + 16 * object.links.length +
    16 * (object.links.filter Option.isSome).length

theorem CloudObject.size_pos (object : CloudObject) : 0 < object.size := by
  simp only [CloudObject.size]
  omega

/-- The objects of a segment, in order. -/
abbrev CloudSegment := List CloudObject

/-- The number of bytes of a segment. -/
def segmentLength (segment : CloudSegment) : Nat :=
  (segment.map CloudObject.size).sum

/-- The object that starts at an offset. -/
def segmentFind : CloudSegment → Nat → Option CloudObject
  | [], _ => none
  | object :: rest, offset =>
    if offset = 0 then some object
    else if offset < object.size then none
    else segmentFind rest (offset - object.size)

/-- The object at a location, if its size is the one that the location says. -/
def segmentGet (segment : CloudSegment) (location : Location) : Option CloudObject :=
  (segmentFind segment location.offset).filter fun object => object.size = location.size

variable {s : CloudSegment}

theorem segmentFind_append (t : CloudSegment) {offset : Nat} {object : CloudObject}
    (h : segmentFind s offset = some object) :
    segmentFind (s ++ t) offset = some object := by
  induction s generalizing offset with
  | nil => cases h
  | cons first rest ih =>
    rw [cons_append]
    unfold segmentFind at h ⊢
    split_ifs at h ⊢ with hzero hinside
    · exact h
    · exact ih h

theorem segmentFind_last (s : CloudSegment) (object : CloudObject) :
    segmentFind (s ++ [object]) (segmentLength s) = some object := by
  induction s with
  | nil => simp [segmentFind, segmentLength]
  | cons first rest ih =>
    have hpos := first.size_pos
    have hlength : segmentLength (first :: rest) = first.size + segmentLength rest := by
      simp [segmentLength]
    rw [cons_append, segmentFind, hlength, if_neg (by omega), if_neg (by omega),
      Nat.add_sub_cancel_left, ih]

theorem segmentFind_mem {offset : Nat} {object : CloudObject}
    (h : segmentFind s offset = some object) : object ∈ s := by
  induction s generalizing offset with
  | nil => cases h
  | cons first rest ih =>
    unfold segmentFind at h
    split_ifs at h
    · exact mem_cons.mpr (Or.inl (Option.some.inj h).symm)
    · exact mem_cons_of_mem _ (ih h)

variable {location : Location}

theorem segmentGet_eq_some {object : CloudObject} :
    segmentGet s location = some object ↔
      segmentFind s location.offset = some object ∧ object.size = location.size := by
  simp [segmentGet, Option.filter_eq_some_iff]

/-- An object stays where it is when its segment grows. -/
theorem segmentGet_append (t : CloudSegment) {object : CloudObject}
    (h : segmentGet s location = some object) :
    segmentGet (s ++ t) location = some object := by
  rw [segmentGet_eq_some] at h ⊢
  exact ⟨segmentFind_append t h.1, h.2⟩

/-- An object is found at the location recorded for it when it is appended. -/
theorem segmentGet_last (s : CloudSegment) (object : CloudObject) (directory seq : Nat) :
    segmentGet (s ++ [object]) ⟨directory, seq, segmentLength s, object.size⟩ = some object :=
  segmentGet_eq_some.mpr ⟨segmentFind_last s object, rfl⟩

theorem segmentGet_mem {object : CloudObject} (h : segmentGet s location = some object) :
    object ∈ s :=
  segmentFind_mem (segmentGet_eq_some.mp h).1

end BlueSky

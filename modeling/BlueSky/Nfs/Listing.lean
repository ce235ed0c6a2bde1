import BlueSky.Nfs.Model

/-!
# Directory listings

The handlers of READDIR and READDIRPLUS, and a client that lists a directory page by page.  A page
begins behind the cookie that the client gives; it ends after 64 entries, when the sizes that the
client gives are used up, or at the end of the directory.  READDIRPLUS leaves out entries whose
inodes cannot be loaded.

Main results:

- Theorem {lit}`nfsproc3Readdir_pages` and theorem {lit}`nfsproc3Readdirplus_pages`: a reply holds
  the entries of a stretch of the directory, and is marked as the last one if the stretch reaches
  the end.
- Theorem {lit}`listing_sound`: between the pages entries may come and go; still no entry is sent
  twice, and one that is there all the time is sent.
-/

namespace BlueSky

open Function List Option ByteLib CStringLib SortedSeqLib TransitionLib

/-! ## The handlers -/

/-- `MAX_READDIR_DIRENTS`. -/
def maxReaddirDirents : Nat := 64

/-- `entry3`. -/
structure Entry3 where
  fileid : BitVec 64
  name : CString
  cookie : BitVec 64
deriving DecidableEq, Repr

/-- `entryplus3`. -/
structure EntryPlus3 extends Entry3 where
  nameAttributes : Fattr3
  nameHandle : Bytes
deriving DecidableEq, Repr

/-- `readdir3res` and `readdirplus3res`; the verifier is always zero. -/
structure DirList (α : Type) where
  status : NfsStatus
  dirAttributes : Option Fattr3
  entries : List α
  eof : Bool
deriving Repr

/-- The reply when the handle is not that of an inode. -/
def DirList.stale (α : Type) : DirList α :=
  { status := .stale, dirAttributes := none, entries := [], eof := false }

/-- How an entry is sent. -/
def DirEntry.entry3 (d : DirEntry) : Entry3 where
  fileid := d.inum
  name := d.name
  cookie := d.cookie.setWidth 64

/-- The entries behind a cookie, which is cut to 32 bits in `start`. -/
def Directory.behind (dir : Directory) (cookie : BitVec 64) : List DirEntry :=
  dir.dirents.drop (search DirEntry.key dir.dirents (cookie.setWidth 32).toNat)

/-- The loop of `nfsproc3_readdir_3_svc`: the entries that it takes and those where it stops. -/
def readdirLoop (count : Nat) : List DirEntry → List Entry3 × List DirEntry
  | [] => ([], [])
  | d :: ds =>
    if count < maxReaddirDirents then
      let taken := readdirLoop (count + 1) ds
      (d.entry3 :: taken.1, taken.2)
    else ([], d :: ds)

/-- `nfsproc3_readdir_3_svc`.  Only a directory has entries to search in. -/
def nfsproc3Readdir (s : NfsState) (fh : Bytes) (cookie : BitVec 64) : Option (DirList Entry3) :=
  match s.lookupFh fh with
  | none => some (.stale Entry3)
  | some dir =>
    if dir.type ≠ .directory then none
    else
      let taken := readdirLoop 0 (dir.dir.behind cookie)
      some
        { status := .ok
          dirAttributes := some (encodeFattr3 dir)
          entries := taken.1
          eof := taken.2.isEmpty }

/-- The second loop of `nfsproc3_readdirplus_3_svc`; the first one only starts to load inodes.
The loop does not end if an inode is to be locked that is the directory itself. -/
def readdirplusLoop (s : NfsState) (dir : BitVec 64) (maxDircount maxcount : Nat) :
    Nat → Nat → Nat → List DirEntry → Option (List EntryPlus3 × List DirEntry)
  | _, _, _, [] => some ([], [])
  | count, dircount, attrcount, d :: ds =>
    if count < maxReaddirDirents then
      match s.getInode d.inum with
      | none => readdirplusLoop s dir maxDircount maxcount count dircount attrcount ds
      | some inode =>
        if inode.inum = dir then none
        else
          let dircount := dircount + 24 + (d.name.bytes.length + 3) / 4 * 4
          let attrcount := attrcount + (88 + 8 + 8)
          if maxDircount < dircount ∨ maxcount < dircount + attrcount then
            some ([], d :: ds)
          else
            (readdirplusLoop s dir maxDircount maxcount (count + 1) dircount attrcount ds).map
              fun taken =>
                ({ d.entry3 with
                    nameAttributes := encodeFattr3 inode
                    nameHandle := fileHandle d.inum } :: taken.1, taken.2)
    else some ([], d :: ds)

/-- `nfsproc3_readdirplus_3_svc`. -/
def nfsproc3Readdirplus (s : NfsState) (fh : Bytes) (cookie : BitVec 64)
    (dircount maxcount : BitVec 32) : Option (DirList EntryPlus3) :=
  match s.lookupFh fh with
  | none => some (.stale EntryPlus3)
  | some dir =>
    if dir.type ≠ .directory then none
    else
      (readdirplusLoop s dir.inum dircount.toNat maxcount.toNat 0 (88 + 16) 0
        (dir.dir.behind cookie)).map fun taken =>
          { status := .ok
            dirAttributes := some (encodeFattr3 dir)
            entries := taken.1
            eof := taken.2.isEmpty }

/-! ## Pages -/

/-- A reply holds those entries of a stretch of the directory that can be loaded. -/
def IsPage (loads : DirEntry → Bool) (behind : List DirEntry) (entries : List Entry3)
    (eof : Bool) : Prop :=
  ∃ page rest, behind = page ++ rest ∧ entries = (page.filter loads).map DirEntry.entry3 ∧
    eof = rest.isEmpty

theorem readdirLoop_pages (count : Nat) (ds : List DirEntry) :
    IsPage (fun _ => true) ds (readdirLoop count ds).1 (readdirLoop count ds).2.isEmpty := by
  induction ds generalizing count with
  | nil => exact ⟨[], [], rfl, rfl, rfl⟩
  | cons d ds ih =>
    rw [readdirLoop]
    split_ifs
    · rcases ih (count + 1) with ⟨page, rest, hds, hentries, heof⟩
      exact ⟨d :: page, rest, by rw [hds, cons_append], by simp [hentries], heof⟩
    · exact ⟨[], d :: ds, rfl, rfl, rfl⟩

/-- The entries whose inodes can be loaded. -/
def NfsState.loads (s : NfsState) (d : DirEntry) : Bool :=
  (s.getInode d.inum).isSome

variable {s : NfsState}

theorem readdirplusLoop_pages {dir : BitVec 64} {maxDircount maxcount : Nat}
    {count dircount attrcount : Nat} {ds : List DirEntry} {taken : List EntryPlus3 × List DirEntry}
    (h : readdirplusLoop s dir maxDircount maxcount count dircount attrcount ds = some taken) :
    IsPage s.loads ds (taken.1.map EntryPlus3.toEntry3) taken.2.isEmpty := by
  induction ds generalizing count dircount attrcount taken with
  | nil =>
    rw [readdirplusLoop, some_inj] at h
    subst h
    exact ⟨[], [], rfl, rfl, rfl⟩
  | cons d ds ih =>
    have hstop : IsPage s.loads (d :: ds) [] false := ⟨[], d :: ds, rfl, rfl, rfl⟩
    rw [readdirplusLoop] at h
    split at h
    · cases hinode : s.getInode d.inum with
      | none =>
        rw [hinode] at h
        rcases ih h with ⟨page, rest, hds, hentries, heof⟩
        refine ⟨d :: page, rest, by rw [hds, cons_append], ?_, heof⟩
        rw [hentries, filter_cons_of_neg (by simp [NfsState.loads, hinode])]
      | some inode =>
        simp only [hinode] at h
        split_ifs at h
        · rw [some_inj] at h
          subst h
          exact hstop
        · rcases map_eq_some_iff.mp h with ⟨later, hlater, rfl⟩
          rcases ih hlater with ⟨page, rest, hds, hentries, heof⟩
          refine ⟨d :: page, rest, by rw [hds, cons_append], ?_, heof⟩
          rw [filter_cons_of_pos (by simp [NfsState.loads, hinode]), map_cons, map_cons, hentries]
    · rw [some_inj] at h
      subst h
      exact hstop

/-- READDIR sends every entry of the stretch. -/
theorem nfsproc3Readdir_pages {fh : Bytes} {cookie : BitVec 64} {dir : Inode}
    (hdir : s.lookupFh fh = some dir) {reply : DirList Entry3}
    (h : nfsproc3Readdir s fh cookie = some reply) :
    IsPage (fun _ => true) (dir.dir.behind cookie) reply.entries reply.eof := by
  rw [nfsproc3Readdir, hdir] at h
  simp only at h
  split_ifs at h
  rw [some_inj] at h
  subst h
  exact readdirLoop_pages 0 _

/-- READDIRPLUS sends those entries of the stretch whose inodes can be loaded. -/
theorem nfsproc3Readdirplus_pages {fh : Bytes} {cookie : BitVec 64} {dircount maxcount : BitVec 32}
    {dir : Inode} (hdir : s.lookupFh fh = some dir) {reply : DirList EntryPlus3}
    (h : nfsproc3Readdirplus s fh cookie dircount maxcount = some reply) :
    IsPage s.loads (dir.dir.behind cookie) (reply.entries.map EntryPlus3.toEntry3)
      reply.eof := by
  rw [nfsproc3Readdirplus, hdir] at h
  simp only at h
  split_ifs at h
  rcases map_eq_some_iff.mp h with ⟨taken, htaken, rfl⟩
  exact readdirplusLoop_pages htaken

/-! ## A client -/

/-- A client in the course of listing a directory. -/
structure Listing where
  fs : NfsState
  /-- The cookie to go on from. -/
  cookie : BitVec 64
  received : List Entry3
  eof : Bool

/-- A client that has not begun. -/
def Listing.start (fs : NfsState) : Listing :=
  { fs := fs, cookie := 0, received := [], eof := false }

/-- The cookie of the last entry of a page, or the old one if there is none. -/
def lastCookie (cookie : BitVec 64) (entries : List Entry3) : BitVec 64 :=
  (entries.getLast?.map Entry3.cookie).getD cookie

/-- A page arrives. -/
def Listing.receive (l : Listing) (entries : List Entry3) (eof : Bool) : Listing :=
  { l with
    cookie := lastCookie l.cookie entries
    received := l.received ++ entries
    eof := eof }

/-- What happens while a directory is listed. -/
inductive ListingEvent where
  /-- An entry is inserted into the directory or removed from it. -/
  | update (op : DirOp)
  /-- The other inodes change in any way; some may not be loadable any more. -/
  | others (inodes : BitVec 64 → Option Inode)
  | readdir
  | readdirplus (dircount maxcount : BitVec 32)

/-- The entries of the directory with a given number. -/
def NfsState.direntsOf (s : NfsState) (inum : BitVec 64) : List DirEntry :=
  match s.inodes inum with
  | none => []
  | some dir => dir.dir.dirents

/-- One event while the directory {lit}`inum` is listed. -/
def listingStep (inum : BitVec 64) (l : Listing) : ListingEvent → Option Listing
  | .update op =>
    (l.fs.inodes inum).bind fun dir =>
      (dirStep dir.dir op).map fun entries =>
        { l with fs := l.fs.putInode { dir with dir := entries } }
  | .others inodes =>
    some { l with
      fs := { l.fs with inodes := update inodes inum (l.fs.inodes inum) } }
  | .readdir =>
    if l.eof then none
    else
      (nfsproc3Readdir l.fs (fileHandle inum) l.cookie).map fun reply =>
        l.receive reply.entries reply.eof
  | .readdirplus dircount maxcount =>
    if l.eof then none
    else
      (nfsproc3Readdirplus l.fs (fileHandle inum) l.cookie dircount maxcount).map fun reply =>
        l.receive (reply.entries.map EntryPlus3.toEntry3) reply.eof

/-- Which entries an event can send. -/
def ListingEvent.loads (e : ListingEvent) (s : NfsState) (d : DirEntry) : Bool :=
  match e with
  | .readdirplus _ _ => s.loads d
  | _ => true

/-- An entry is in the directory, and if READDIRPLUS is called its inode can be loaded. -/
def PresentAt (inum : BitVec 64) (d : DirEntry) (l : Listing) (e : ListingEvent) : Prop :=
  d ∈ l.fs.direntsOf inum ∧ e.loads l.fs d = true

instance (inum : BitVec 64) (d : DirEntry) (l : Listing) (e : ListingEvent) :
    Decidable (PresentAt inum d l e) :=
  inferInstanceAs (Decidable (_ ∧ _))

/-! ## The invariant -/

/-- The directory is in order, and the entries that were sent have increasing cookies up to the
one to go on from. -/
structure ListingInv (inum : BitVec 64) (l : Listing) : Prop where
  dir : ∃ dir, l.fs.inodes inum = some dir ∧ dir.inum = inum ∧ DirInv dir.dir
  received : l.received.Pairwise fun a b => a.cookie.toNat < b.cookie.toNat
  up_to : ∀ e ∈ l.received, e.cookie.toNat ≤ l.cookie.toNat
  cookie : l.cookie.toNat < 2 ^ 32

theorem toNat_entry3_cookie (d : DirEntry) : d.entry3.cookie.toNat = d.key := by
  change (d.cookie.setWidth 64).toNat = d.cookie.toNat
  rw [BitVec.toNat_setWidth]
  exact Nat.mod_eq_of_lt (by omega)

section Page

variable {dir : Directory} {cookie : BitVec 64} {loads : DirEntry → Bool} {entries : List Entry3}
  {eof : Bool}

/-- The entries behind a cookie are those with a larger one. -/
theorem mem_behind (h : DirInv dir) (hcookie : cookie.toNat < 2 ^ 32) {d : DirEntry} :
    d ∈ dir.behind cookie ↔ d ∈ dir.dirents ∧ cookie.toNat < d.key := by
  have hcut : (cookie.setWidth 32).toNat = cookie.toNat := by
    rw [BitVec.toNat_setWidth, Nat.mod_eq_of_lt hcookie]
  rw [Directory.behind, hcut]
  exact h.sorted.mem_drop_search

theorem DirInv.behind_sorted (h : DirInv dir) (cookie : BitVec 64) :
    Sorted DirEntry.key (dir.behind cookie) :=
  h.sorted.sublist (drop_sublist _ _)

/-- Where a client goes on that has received entries with increasing cookies. -/
theorem lastCookie_spec (cookie : BitVec 64)
    (h : entries.Pairwise fun a b => a.cookie.toNat < b.cookie.toNat) :
    (entries = [] ∧ lastCookie cookie entries = cookie) ∨
      ∃ e ∈ entries, lastCookie cookie entries = e.cookie ∧
        ∀ e' ∈ entries, e'.cookie.toNat ≤ e.cookie.toNat := by
  rcases eq_nil_or_concat entries with rfl | ⟨before, e, rfl⟩
  · exact Or.inl ⟨rfl, rfl⟩
  · rw [concat_eq_append] at h ⊢
    refine Or.inr ⟨e, by simp, by simp [lastCookie], ?_⟩
    intro e' he'
    rcases mem_append.mp he' with he' | he'
    · exact le_of_lt ((pairwise_append.mp h).2.2 e' he' e (by simp))
    · rw [mem_singleton.mp he']

/-- What a page does for the client. -/
structure PageSound (dir : Directory) (cookie : BitVec 64) (loads : DirEntry → Bool)
    (entries : List Entry3) (eof : Bool) : Prop where
  increasing : entries.Pairwise fun a b => a.cookie.toNat < b.cookie.toNat
  behind : ∀ e ∈ entries, cookie.toNat < e.cookie.toNat
  up_to : ∀ e ∈ entries, e.cookie.toNat ≤ (lastCookie cookie entries).toNat
  mono : cookie.toNat ≤ (lastCookie cookie entries).toNat
  last : (lastCookie cookie entries).toNat < 2 ^ 32
  /-- Nothing that can be loaded is left out on the way. -/
  complete : ∀ d ∈ dir.dirents, loads d = true → cookie.toNat < d.key →
    (d.key ≤ (lastCookie cookie entries).toNat ∨ eof = true) → d.entry3 ∈ entries

theorem IsPage.sound (h : DirInv dir) (hcookie : cookie.toNat < 2 ^ 32)
    (hpage : IsPage loads (dir.behind cookie) entries eof) :
    PageSound dir cookie loads entries eof := by
  rcases hpage with ⟨page, rest, hbehind, hentries, heof⟩
  have hsorted := h.behind_sorted cookie
  rw [hbehind, Sorted, pairwise_append] at hsorted
  have hmem : ∀ {e : Entry3}, e ∈ entries → ∃ d ∈ page, loads d = true ∧ d.entry3 = e := by
    intro e he
    rw [hentries] at he
    rcases List.mem_map.mp he with ⟨d, hd, hde⟩
    rcases mem_filter.mp hd with ⟨hd, hloads⟩
    exact ⟨d, hd, hloads, hde⟩
  have hlarger : ∀ e ∈ entries, cookie.toNat < e.cookie.toNat := by
    intro e he
    rcases hmem he with ⟨d, hd, -, rfl⟩
    rw [toNat_entry3_cookie]
    exact ((mem_behind h hcookie).mp (by rw [hbehind]; exact mem_append_left _ hd)).2
  have hincreasing : entries.Pairwise fun a b => a.cookie.toNat < b.cookie.toNat := by
    rw [hentries, pairwise_map]
    refine (hsorted.1.sublist filter_sublist).imp ?_
    intro a b hab
    rwa [toNat_entry3_cookie, toNat_entry3_cookie]
  have hlast := lastCookie_spec cookie hincreasing
  refine ⟨hincreasing, hlarger, ?_, ?_, ?_, ?_⟩
  · intro e he
    rcases hlast with ⟨rfl, -⟩ | ⟨e', -, heq, hle⟩
    · cases he
    · rw [heq]
      exact hle e he
  · rcases hlast with ⟨-, heq⟩ | ⟨e', he', heq, -⟩
    · rw [heq]
    · rw [heq]
      exact le_of_lt (hlarger e' he')
  · rcases hlast with ⟨-, heq⟩ | ⟨e', he', heq, -⟩
    · rw [heq]
      exact hcookie
    · rcases hmem he' with ⟨d, -, -, rfl⟩
      rw [heq, toNat_entry3_cookie]
      exact d.cookie.isLt
  · intro d hd hloads hkey hreached
    have hd : d ∈ page ++ rest := by
      rw [← hbehind]
      exact (mem_behind h hcookie).mpr ⟨hd, hkey⟩
    rcases mem_append.mp hd with hd | hd
    · rw [hentries]
      exact List.mem_map_of_mem (mem_filter.mpr ⟨hd, hloads⟩)
    · -- what the page has not reached has a larger cookie than all of it
      exfalso
      rcases hreached with hle | hend
      · rcases hlast with ⟨-, heq⟩ | ⟨e', he', heq, -⟩
        · rw [heq] at hle
          omega
        · rcases hmem he' with ⟨d', hd', -, rfl⟩
          have hlt := hsorted.2.2 d' hd' d hd
          rw [heq, toNat_entry3_cookie] at hle
          omega
      · rw [hend, eq_comm, List.isEmpty_iff] at heof
        rw [heof] at hd
        cases hd

/-- At the end of the directory nothing that can be loaded has a larger cookie. -/
theorem PageSound.at_end (hpage : PageSound dir cookie loads entries true) {d : DirEntry}
    (hd : d ∈ dir.dirents) (hloads : loads d = true) :
    d.key ≤ (lastCookie cookie entries).toNat := by
  by_cases hkey : cookie.toNat < d.key
  · have hentry := hpage.complete d hd hloads hkey (Or.inr rfl)
    have hle := hpage.up_to _ hentry
    rwa [toNat_entry3_cookie] at hle
  · have := hpage.mono
    omega

end Page

/-! ## Steps -/

section Steps

variable {inum : BitVec 64} {l l' : Listing}

theorem lookupFh_fileHandle {s : NfsState} (hinum : inum ≠ 0) :
    s.lookupFh (fileHandle inum) = s.inodes inum := by
  rw [NfsState.lookupFh, handleInum_fileHandle, bind_some, NfsState.getInode, if_neg hinum]

/-- The events that change the file system leave what the client has. -/
inductive ListingMove (inum : BitVec 64) (l l' : Listing) (e : ListingEvent) : Prop
  | quiet (hdir : ∃ dir, l'.fs.inodes inum = some dir ∧ dir.inum = inum ∧ DirInv dir.dir)
      (hclient : l' = { l with fs := l'.fs })
  | page {dir : Inode} {entries : List Entry3} {eof : Bool} (hopen : l.eof = false)
      (hdir : l.fs.inodes inum = some dir) (hinum : dir.inum = inum) (hinv : DirInv dir.dir)
      (hpage : PageSound dir.dir l.cookie (e.loads l.fs) entries eof)
      (hl' : l' = l.receive entries eof)

variable {e : ListingEvent}

/-- What one event does. -/
theorem listingStep_move (hpos : inum ≠ 0) (h : ListingInv inum l)
    (hstep : listingStep inum l e = some l') : ListingMove inum l l' e := by
  rcases h.dir with ⟨dir, hdir, hinum, hinv⟩
  have hlookup : l.fs.lookupFh (fileHandle inum) = some dir := by
    rw [lookupFh_fileHandle hpos, hdir]
  cases e with
  | update op =>
    rw [listingStep, hdir, bind_some] at hstep
    rcases map_eq_some_iff.mp hstep with ⟨entries, hentries, rfl⟩
    refine .quiet ⟨{ dir with dir := entries }, ?_, hinum, hinv.step hentries⟩ rfl
    change update l.fs.inodes dir.inum _ inum = _
    rw [hinum, update_self]
  | others inodes =>
    rw [listingStep, some_inj] at hstep
    subst hstep
    refine .quiet ⟨dir, ?_, hinum, hinv⟩ rfl
    change update inodes inum (l.fs.inodes inum) inum = _
    rw [update_self, hdir]
  | readdir =>
    rw [listingStep] at hstep
    split_ifs at hstep with hopen
    rcases map_eq_some_iff.mp hstep with ⟨reply, hreply, rfl⟩
    exact .page (by simpa using hopen) hdir hinum hinv
      ((nfsproc3Readdir_pages hlookup hreply).sound hinv h.cookie) rfl
  | readdirplus dircount maxcount =>
    rw [listingStep] at hstep
    split_ifs at hstep with hopen
    rcases map_eq_some_iff.mp hstep with ⟨reply, hreply, rfl⟩
    exact .page (by simpa using hopen) hdir hinum hinv
      ((nfsproc3Readdirplus_pages hlookup hreply).sound hinv h.cookie) rfl

theorem listingInv_step (hpos : inum ≠ 0) (h : ListingInv inum l)
    (hstep : listingStep inum l e = some l') : ListingInv inum l' := by
  cases listingStep_move hpos h hstep with
  | quiet hdir hclient =>
    rw [hclient]
    exact ⟨hdir, h.received, h.up_to, h.cookie⟩
  | @page dir entries eof hopen hdir hinum hinv hpage hl' =>
    subst hl'
    refine ⟨⟨dir, hdir, hinum, hinv⟩, ?_, ?_, hpage.last⟩
    · change (l.received ++ entries).Pairwise _
      rw [pairwise_append]
      refine ⟨h.received, hpage.increasing, ?_⟩
      intro a ha b hb
      exact lt_of_le_of_lt (h.up_to a ha) (hpage.behind b hb)
    · intro a ha
      rcases mem_append.mp ha with ha | ha
      · exact le_trans (h.up_to a ha) hpage.mono
      · exact hpage.up_to a ha

/-- An entry that has been passed, or that was there when the end was reached, has been sent. -/
def Sent (d : DirEntry) (l : Listing) : Prop :=
  (d.key ≤ l.cookie.toNat ∨ l.eof = true) → d.entry3 ∈ l.received

/-- No entry has the cookie from which a listing begins. -/
theorem PresentAt.key_pos (h : ListingInv inum l) {d : DirEntry} (hpresent : PresentAt inum d l e) :
    0 < d.key := by
  rcases h.dir with ⟨dir, hdir, -, hinv⟩
  have hmem := hpresent.1
  rw [NfsState.direntsOf, hdir] at hmem
  exact lt_of_lt_of_le (by decide) (hinv.cookies d hmem).1

theorem sent_step (hpos : inum ≠ 0) (h : ListingInv inum l) {d : DirEntry} (hsent : Sent d l)
    (hpresent : PresentAt inum d l e) (hstep : listingStep inum l e = some l') : Sent d l' := by
  cases listingStep_move hpos h hstep with
  | quiet hdir hclient =>
    rw [hclient]
    exact hsent
  | @page dir entries eof hopen hdir hinum hinv hpage hl' =>
    subst hl'
    intro hreached
    have hd : d ∈ dir.dir.dirents := by
      have hmem := hpresent.1
      rwa [NfsState.direntsOf, hdir] at hmem
    by_cases hkey : l.cookie.toNat < d.key
    · exact mem_append_right _ (hpage.complete d hd hpresent.2 hkey hreached)
    · exact mem_append_left _ (hsent (Or.inl (by omega)))

end Steps

/-! ## Runs -/

/-- What holds of a client that lists the directory {lit}`inum` from {lit}`start` on. -/
structure ListingSound (inum : BitVec 64) (start l : Listing) : Prop where
  /-- No entry has been sent twice: the cookies increase. -/
  once : l.received.Pairwise fun a b => a.cookie.toNat < b.cookie.toNat
  /-- At the end, an entry that was there at every event has been sent, exactly once. -/
  complete : l.eof = true → ∀ d, Reachable (listingStep inum) (PresentAt inum d) start l →
    l.received.count d.entry3 = 1
  /-- The end is reported only when there is no larger cookie, among the entries that the
  request can send. -/
  at_end : ∀ e l', listingStep inum l e = some l' → l.eof = false → l'.eof = true →
    ∀ d ∈ l'.fs.direntsOf inum, e.loads l'.fs d = true → d.key ≤ l'.cookie.toNat

theorem nodup_of_increasing {entries : List Entry3}
    (h : entries.Pairwise fun a b => a.cookie.toNat < b.cookie.toNat) : entries.Nodup := by
  refine h.imp ?_
  rintro a b hlt rfl
  exact lt_irrefl _ hlt

/-- Listings neither lose nor repeat entries. -/
theorem listing_sound (fs : NfsState) (inum : BitVec 64) (dir : Inode) (hpos : inum ≠ 0)
    (hdir : fs.inodes inum = some dir) (hinum : dir.inum = inum) (hinv : DirInv dir.dir)
    (l : Listing)
    (h : Reachable (listingStep inum) (fun _ _ => True) (Listing.start fs) l) :
    ListingSound inum (Listing.start fs) l := by
  have hzero : (0 : BitVec 64).toNat < 2 ^ 32 := by decide
  have hstart : ListingInv inum (Listing.start fs) :=
    ⟨⟨dir, hdir, hinum, hinv⟩, .nil, nofun, hzero⟩
  have hl : ListingInv inum l :=
    h.invariant hstart fun _ _ _ hinv _ hstep => listingInv_step hpos hinv hstep
  refine ⟨hl.received, ?_, ?_⟩
  · intro heof d hrun
    have hsent : ListingInv inum l ∧ (0 < d.key → Sent d l) := by
      refine Reachable.invariant (I := fun l => ListingInv inum l ∧ (0 < d.key → Sent d l))
        ⟨hstart, ?_⟩ ?_ hrun
      · intro hkey hreached
        rcases hreached with hle | hend
        · exact absurd hkey (Nat.not_lt.mpr hle)
        · cases hend
      · rintro l₁ e l₂ ⟨hinv₁, hsent₁⟩ hpresent hstep
        refine ⟨listingInv_step hpos hinv₁ hstep, ?_⟩
        intro hkey
        exact sent_step hpos hinv₁ (hsent₁ hkey) hpresent hstep
    have hkey : 0 < d.key := by
      cases hrun with
      | start => cases heof
      | next e hprev hpresent _ =>
        refine hpresent.key_pos (hprev.invariant hstart ?_)
        intro _ _ _ hinv _ hstep
        exact listingInv_step hpos hinv hstep
    exact count_eq_one_of_mem (nodup_of_increasing hl.received) (hsent.2 hkey (Or.inr heof))
  · intro e l' hstep hopen heof d hd hloads
    cases listingStep_move hpos hl hstep with
    | quiet _ hclient =>
      rw [hclient] at heof
      change l.eof = true at heof
      rw [hopen] at heof
      cases heof
    | @page dir entries eof _ hdir _ _ hpage hl' =>
      subst hl'
      change eof = true at heof
      change d ∈ l.fs.direntsOf inum at hd
      rw [NfsState.direntsOf, hdir] at hd
      rw [heof] at hpage
      exact hpage.at_end hd hloads

/-- Two entries for the inode 7. -/
def listedA : DirEntry :=
  { name := nameA, cookie := 10, inum := 7 }

@[inherit_doc listedA]
def listedB : DirEntry :=
  { name := nameB, cookie := 20, inum := 7 }

/-- The directory 5 with both entries. -/
def listedDir : Inode :=
  { newInode 5 .directory with dir := (Directory.empty.add listedA).add listedB }

/-- A file system with this directory, in which the inode 7 can be loaded or not. -/
def listedFs (file : Option Inode) : NfsState where
  inodes := update (update (fun _ => none) 5 (some listedDir)) 7 file
  nextInum := 8
  cacheDirty := 0

theorem listedDir_inv : DirInv listedDir.dir := by
  have hA : DirInv (Directory.empty.add listedA) :=
    DirInv.empty.add rfl ⟨by decide, by simp [Directory.empty]⟩
  refine hA.add (by decide) ⟨by decide, ?_⟩
  intro d hd
  rw [show (Directory.empty.add listedA).dirents = [listedA] from rfl, mem_singleton] at hd
  subst hd
  decide

/-- A listing whose first page has room for one entry; then one entry is inserted in front, and the
one that the client has received is removed. -/
theorem listing_sound_pages :
    ∃ l : Listing,
      runWhile (listingStep 5) (PresentAt 5 listedB)
        (Listing.start (listedFs (some (newInode 7 .regular))))
        [.readdirplus 140 400, .update (.insert [4] ⟨[99], by decide⟩ 7),
          .update (.remove listedA.name), .readdir] = some l ∧
      l.eof = true ∧ l.received = [listedA.entry3, listedB.entry3] ∧
      ListingSound 5 (Listing.start (listedFs (some (newInode 7 .regular)))) l := by
  have hfacts : ∃ l ∈ runWhile (listingStep 5) (PresentAt 5 listedB)
      (Listing.start (listedFs (some (newInode 7 .regular))))
      [.readdirplus 140 400, .update (.insert [4] ⟨[99], by decide⟩ 7),
        .update (.remove listedA.name), .readdir],
      l.eof = true ∧ l.received = [listedA.entry3, listedB.entry3] := by
    decide +kernel
  rcases hfacts with ⟨l, hrun, heof, hreceived⟩
  have hreach := reachable_of_runWhile .start hrun
  exact ⟨l, hrun, heof, hreceived, listing_sound _ 5 listedDir (by decide) rfl rfl listedDir_inv l
    (hreach.mono fun _ _ _ => trivial)⟩

/-- When no inode can be loaded, READDIRPLUS reports the end although entries remain that the
client has not received. -/
theorem readdirplus_end_early :
    ∃ l : Listing,
      listingStep 5 (Listing.start (listedFs none)) (.readdirplus 1000 1000) = some l ∧
      l.eof = true ∧ l.received = [] ∧ listedA ∈ l.fs.direntsOf 5 ∧
      l.cookie.toNat < listedA.key := by
  change ∃ l ∈ listingStep 5 (Listing.start (listedFs none)) (.readdirplus 1000 1000), _
  decide +kernel

end BlueSky

import BlueSky.Nfs.Listing

/-!
# Progress of READDIRPLUS

A client of READDIRPLUS says how large the reply may be, and asks again from the last cookie it
has received until the end is reported.  Whether a reply brings it forward depends on whether the
first entry that could be sent fits into the sizes it gives; and the handler locks the inode of
every entry that it comes to, while it holds the lock of the directory.

Main results:

- Theorem {lit}`plusLoop_eq_none_iff`: the loop hangs if it comes to an entry for the directory.
- Theorem {lit}`plusLoop_sends`: what the loop sends, and where it stops.
- Theorem {lit}`readdirplus_progress`: when a call makes progress, when a client finishes, and that
  the size of a reply is bounded.
-/

namespace BlueSky

open List Option ByteLib SortedSeqLib

/-! ## Sizes -/

/-- The size of a reply without attributes and handles, as the handler adds it up. -/
def replyDircount (entries : List Entry3) : Nat :=
  88 + 16 + (entries.map fun e => 24 + (e.name.bytes.length + 3) / 4 * 4).sum

/-- The size of a reply, as the handler adds it up. -/
def replyMaxcount (entries : List Entry3) : Nat :=
  replyDircount entries + entries.length * (88 + 8 + 8)

/-- The entries can be sent in one reply. -/
def FitsReply (dircount maxcount : Nat) (page : List DirEntry) : Prop :=
  page.length ≤ maxReaddirDirents ∧
    (page ≠ [] → replyDircount (page.map DirEntry.entry3) ≤ dircount ∧
      replyMaxcount (page.map DirEntry.entry3) ≤ maxcount)

instance (dircount maxcount : Nat) (page : List DirEntry) :
    Decidable (FitsReply dircount maxcount page) :=
  inferInstanceAs (Decidable (_ ∧ (_ → _)))

section Sizes

variable {dircount maxcount : Nat} {page page' : List DirEntry} {d : DirEntry}

theorem fitsReply_nil : FitsReply dircount maxcount [] :=
  ⟨Nat.zero_le _, fun h => absurd rfl h⟩

theorem replyDircount_sublist {entries entries' : List Entry3} (h : entries.Sublist entries') :
    replyDircount entries ≤ replyDircount entries' :=
  Nat.add_le_add_left ((h.map _).sum_le_sum fun _ _ => Nat.zero_le _) _

/-- What fits still does when entries are left out. -/
theorem FitsReply.sublist (h : FitsReply dircount maxcount page') (hsub : page.Sublist page') :
    FitsReply dircount maxcount page := by
  refine ⟨hsub.length_le.trans h.1, ?_⟩
  intro hne
  have hne' : page' ≠ [] := by
    rintro rfl
    exact hne (sublist_nil.mp hsub)
  have hdircount := replyDircount_sublist (hsub.map DirEntry.entry3)
  have hlength := (hsub.map DirEntry.entry3).length_le
  rcases h.2 hne' with ⟨hdir, hmax⟩
  refine ⟨hdircount.trans hdir, le_trans ?_ hmax⟩
  rw [replyMaxcount, replyMaxcount]
  exact Nat.add_le_add hdircount (Nat.mul_le_mul_right _ hlength)

theorem fitsReply_concat_iff (hlen : page.length < maxReaddirDirents) :
    FitsReply dircount maxcount (page ++ [d]) ↔
      ¬ (dircount < replyDircount (page.map DirEntry.entry3) + 24 +
            (d.name.bytes.length + 3) / 4 * 4 ∨
        maxcount < replyDircount (page.map DirEntry.entry3) + 24 +
            (d.name.bytes.length + 3) / 4 * 4 + (page.length * (88 + 8 + 8) + (88 + 8 + 8))) := by
  simp only [FitsReply, replyMaxcount, replyDircount, map_append, sum_append,
    length_append, map_cons, map_nil, sum_cons, sum_nil, length_map,
    length_singleton, DirEntry.entry3, ne_eq, append_eq_nil_iff, cons_ne_nil,
    and_false, not_false_eq_true, forall_const]
  omega

end Sizes

/-! ## The loop -/

/-- The entry is for the inode of the directory itself. -/
def NfsState.IsSelf (s : NfsState) (dir : BitVec 64) (d : DirEntry) : Prop :=
  ((s.getInode d.inum).map fun inode => inode.inum) = some dir

instance (s : NfsState) (dir : BitVec 64) (d : DirEntry) : Decidable (s.IsSelf dir d) :=
  inferInstanceAs (Decidable (_ = _))

/-- The loop when the entries of a page have been taken. -/
def plusLoop (s : NfsState) (dir : BitVec 64) (dircount maxcount : Nat) (page ds : List DirEntry) :
    Option (List EntryPlus3 × List DirEntry) :=
  readdirplusLoop s dir dircount maxcount page.length
    (replyDircount (page.map DirEntry.entry3)) (page.length * (88 + 8 + 8)) ds

section Loop

variable {s : NfsState} {dir : BitVec 64} {dircount maxcount : Nat} {page ds : List DirEntry}
  {d : DirEntry}

theorem plusLoop_full (h : ¬ page.length < maxReaddirDirents) :
    plusLoop s dir dircount maxcount page ds = some ([], ds) := by
  cases ds with
  | nil => rfl
  | cons d ds => rw [plusLoop, readdirplusLoop, if_neg h]

theorem plusLoop_skip (h : page.length < maxReaddirDirents) (hload : s.loads d = false) :
    plusLoop s dir dircount maxcount page (d :: ds) = plusLoop s dir dircount maxcount page ds := by
  have hnone : s.getInode d.inum = none := by simpa [NfsState.loads] using hload
  rw [plusLoop, readdirplusLoop, if_pos h, hnone]
  rfl

theorem plusLoop_self (h : page.length < maxReaddirDirents) (hself : s.IsSelf dir d) :
    plusLoop s dir dircount maxcount page (d :: ds) = none := by
  rcases map_eq_some_iff.mp hself with ⟨inode, hinode, hinum⟩
  rw [plusLoop, readdirplusLoop, if_pos h, hinode]
  exact if_pos hinum

theorem plusLoop_load (h : page.length < maxReaddirDirents) (hload : s.loads d = true)
    (hself : ¬ s.IsSelf dir d) :
    ∃ entry : EntryPlus3, entry.toEntry3 = d.entry3 ∧
      plusLoop s dir dircount maxcount page (d :: ds) =
        if FitsReply dircount maxcount (page ++ [d]) then
          (plusLoop s dir dircount maxcount (page ++ [d]) ds).map fun taken =>
            (entry :: taken.1, taken.2)
        else some ([], d :: ds) := by
  rcases isSome_iff_exists.mp hload with ⟨inode, hinode⟩
  have hinum : inode.inum ≠ dir := by
    intro hinum
    exact hself (by rw [NfsState.IsSelf, hinode, map_some, hinum])
  refine ⟨{ d.entry3 with nameAttributes := encodeFattr3 inode, nameHandle := fileHandle d.inum },
    rfl, ?_⟩
  have hnext : replyDircount ((page ++ [d]).map DirEntry.entry3) =
      replyDircount (page.map DirEntry.entry3) + 24 + (d.name.bytes.length + 3) / 4 * 4 := by
    simp [replyDircount, DirEntry.entry3]
    omega
  rw [plusLoop, readdirplusLoop, if_pos h, hinode]
  simp only [if_neg hinum]
  by_cases hfits : FitsReply dircount maxcount (page ++ [d])
  · rw [if_neg ((fitsReply_concat_iff h).mp hfits), if_pos hfits, plusLoop, hnext,
      length_append, length_singleton, Nat.add_mul, Nat.one_mul]
  · rw [if_pos (by_contra fun hroom => hfits ((fitsReply_concat_iff h).mpr hroom)), if_neg hfits]

/-- Where the loop comes to an entry of the directory itself, it waits for a lock that it holds. -/
theorem plusLoop_eq_none_iff (hfits : FitsReply dircount maxcount page) :
    plusLoop s dir dircount maxcount page ds = none ↔
      ∃ pre d post, ds.filter s.loads = pre ++ d :: post ∧ s.IsSelf dir d ∧
        FitsReply dircount maxcount (page ++ pre) ∧ (page ++ pre).length < maxReaddirDirents := by
  induction ds generalizing page with
  | nil =>
    constructor
    · intro h
      cases h
    · rintro ⟨pre, d, post, hsplit, -⟩
      simp at hsplit
  | cons d ds ih =>
    by_cases hlen : page.length < maxReaddirDirents
    · cases hload : s.loads d with
      | false =>
        rw [plusLoop_skip hlen hload, filter_cons_of_neg (by simp [hload])]
        exact ih hfits
      | true =>
        rw [filter_cons_of_pos hload]
        by_cases hself : s.IsSelf dir d
        · rw [plusLoop_self hlen hself]
          refine iff_of_true rfl ⟨[], d, ds.filter s.loads, rfl, hself, ?_, ?_⟩
          · rwa [append_nil]
          · rwa [append_nil]
        · -- the entry is sent or the loop stops; what hangs, hangs at a later one
          have hlater : ∀ {pre : List DirEntry} {e : DirEntry} {post : List DirEntry},
              d :: ds.filter s.loads = pre ++ e :: post → s.IsSelf dir e →
              ∃ pre', pre = d :: pre' ∧ ds.filter s.loads = pre' ++ e :: post := by
            intro pre e post hsplit he
            cases pre with
            | nil =>
              cases hsplit
              exact absurd he hself
            | cons d' pre' =>
              rw [cons_append, List.cons.injEq] at hsplit
              exact ⟨pre', by rw [hsplit.1], hsplit.2⟩
          rcases @plusLoop_load s dir dircount maxcount page ds d hlen hload hself with
            ⟨entry, -, hloop⟩
          rw [hloop]
          by_cases hroom : FitsReply dircount maxcount (page ++ [d])
          · rw [if_pos hroom, map_eq_none_iff, ih hroom]
            constructor
            · rintro ⟨pre, e, post, hsplit, he, hpre, hshort⟩
              rw [append_assoc, singleton_append] at hpre hshort
              exact ⟨d :: pre, e, post, by rw [hsplit]; rfl, he, hpre, hshort⟩
            · rintro ⟨pre, e, post, hsplit, he, hpre, hshort⟩
              rcases hlater hsplit he with ⟨pre', rfl, hsplit'⟩
              refine ⟨pre', e, post, hsplit', he, ?_, ?_⟩
              · rwa [append_assoc, singleton_append]
              · rwa [append_assoc, singleton_append]
          · rw [if_neg hroom]
            refine iff_of_false nofun ?_
            rintro ⟨pre, e, post, hsplit, he, hpre, -⟩
            rcases hlater hsplit he with ⟨pre', rfl, -⟩
            refine hroom (hpre.sublist ?_)
            exact List.Sublist.append_left (singleton_sublist.mpr mem_cons_self) _
    · rw [plusLoop_full hlen]
      refine iff_of_false nofun ?_
      rintro ⟨pre, -, -, -, -, -, hshort⟩
      rw [length_append] at hshort
      omega

/-- The loop sends the first entries that can be loaded, as many as fit. -/
structure PlusSent (s : NfsState) (dir : BitVec 64) (dircount maxcount : Nat)
    (page ds : List DirEntry) (taken : List EntryPlus3 × List DirEntry)
    (sent rest : List DirEntry) : Prop where
  split : ds.filter s.loads = sent ++ rest
  entries : taken.1.map EntryPlus3.toEntry3 = sent.map DirEntry.entry3
  others : ∀ d ∈ sent, ¬ s.IsSelf dir d
  fits : FitsReply dircount maxcount (page ++ sent)
  stopped : ∀ d post, rest = d :: post →
    taken.2 ≠ [] ∧ ¬ FitsReply dircount maxcount (page ++ sent ++ [d])
  ended : rest = [] → taken.2 = [] ∨ maxReaddirDirents ≤ (page ++ sent).length

theorem plusLoop_sends {taken : List EntryPlus3 × List DirEntry}
    (hfits : FitsReply dircount maxcount page)
    (h : plusLoop s dir dircount maxcount page ds = some taken) :
    ∃ sent rest, PlusSent s dir dircount maxcount page ds taken sent rest := by
  induction ds generalizing page taken with
  | nil =>
    rw [← some_inj.mp h]
    refine ⟨[], [], rfl, rfl, nofun, ?_, nofun, fun _ => Or.inl rfl⟩
    rwa [append_nil]
  | cons d ds ih =>
    by_cases hlen : page.length < maxReaddirDirents
    · cases hload : s.loads d with
      | false =>
        rw [plusLoop_skip hlen hload] at h
        rcases ih hfits h with ⟨sent, rest, hsent⟩
        refine ⟨sent, rest, ?_, hsent.entries, hsent.others, hsent.fits, hsent.stopped, hsent.ended⟩
        rw [filter_cons_of_neg (by simp [hload]), hsent.split]
      | true =>
        have hself : ¬ s.IsSelf dir d := by
          intro hself
          rw [plusLoop_self hlen hself] at h
          cases h
        rcases @plusLoop_load s dir dircount maxcount page ds d hlen hload hself with
          ⟨entry, hentry, hloop⟩
        rw [hloop] at h
        by_cases hroom : FitsReply dircount maxcount (page ++ [d])
        · rw [if_pos hroom] at h
          rcases map_eq_some_iff.mp h with ⟨later, hlater, rfl⟩
          rcases ih hroom hlater with ⟨sent, rest, hsent⟩
          have hpage : page ++ [d] ++ sent = page ++ d :: sent := append_cons _ _ _ |>.symm
          refine ⟨d :: sent, rest, ?_, ?_, ?_, ?_, ?_, ?_⟩
          · rw [filter_cons_of_pos hload, hsent.split, cons_append]
          · rw [map_cons, map_cons, hentry, hsent.entries]
          · exact forall_mem_cons.mpr ⟨hself, hsent.others⟩
          · rw [← hpage]
            exact hsent.fits
          · rw [← hpage]
            exact hsent.stopped
          · rw [← hpage]
            exact hsent.ended
        · rw [if_neg hroom, some_inj] at h
          subst h
          refine ⟨[], d :: ds.filter s.loads, filter_cons_of_pos hload, rfl, nofun, ?_, ?_, nofun⟩
          · rwa [append_nil]
          · rintro e post ⟨⟩
            rw [append_nil]
            exact ⟨cons_ne_nil _ _, hroom⟩
    · rw [plusLoop_full hlen, some_inj] at h
      subst h
      refine ⟨[], (d :: ds).filter s.loads, rfl, rfl, nofun, ?_, ?_, fun _ => Or.inr ?_⟩
      · rwa [append_nil]
      · intro e post _
        refine ⟨cons_ne_nil _ _, ?_⟩
        rintro ⟨hlength, -⟩
        rw [append_nil, length_append, length_singleton] at hlength
        omega
      · rw [append_nil]
        exact Nat.not_lt.mp hlen

end Loop

/-! ## Calls -/

/-- The entries that are to be sent behind a cookie, which the handler cuts to 32 bits. -/
def NfsState.sendable (s : NfsState) (dir : Directory) (cookie : BitVec 64) : List DirEntry :=
  dir.dirents.filter fun d => (cookie.setWidth 32).toNat < d.key && s.loads d

section Calls

variable {s : NfsState} {dir : Inode} {cookie : BitVec 64} {dircount maxcount : BitVec 32}
  {fh : Bytes} {sent rest : List DirEntry}

theorem filter_behind (s : NfsState) (h : DirInv dir.dir) (cookie : BitVec 64) :
    (dir.dir.behind cookie).filter s.loads = s.sendable dir.dir cookie := by
  rw [Directory.behind, h.sorted.drop_search_eq_filter, List.filter_filter, NfsState.sendable]
  simp only [Bool.and_comm]

theorem nfsproc3Readdirplus_eq (hfh : s.lookupFh fh = some dir) (htype : dir.type = .directory) :
    nfsproc3Readdirplus s fh cookie dircount maxcount =
      (plusLoop s dir.inum dircount.toNat maxcount.toNat [] (dir.dir.behind cookie)).map
        fun taken =>
          { status := .ok
            dirAttributes := some (encodeFattr3 dir)
            entries := taken.1
            eof := taken.2.isEmpty } := by
  rw [nfsproc3Readdirplus, hfh]
  exact if_neg (not_not.mpr htype)

/-- A call hangs if it comes to an entry for the directory. -/
theorem readdirplus_eq_none_iff (hfh : s.lookupFh fh = some dir) (htype : dir.type = .directory)
    (hinv : DirInv dir.dir) :
    nfsproc3Readdirplus s fh cookie dircount maxcount = none ↔
      ∃ pre d post, s.sendable dir.dir cookie = pre ++ d :: post ∧ s.IsSelf dir.inum d ∧
        FitsReply dircount.toNat maxcount.toNat pre ∧ pre.length < maxReaddirDirents := by
  rw [nfsproc3Readdirplus_eq hfh htype, map_eq_none_iff, plusLoop_eq_none_iff fitsReply_nil,
    filter_behind s hinv]
  simp only [nil_append]

/-- What a reply holds. -/
theorem readdirplus_sends (hfh : s.lookupFh fh = some dir) (htype : dir.type = .directory)
    {reply : DirList EntryPlus3}
    (h : nfsproc3Readdirplus s fh cookie dircount maxcount = some reply) :
    ∃ taken sent rest, reply.status = .ok ∧ reply.entries = taken.1 ∧
      reply.eof = taken.2.isEmpty ∧
      PlusSent s dir.inum dircount.toNat maxcount.toNat [] (dir.dir.behind cookie) taken sent
        rest := by
  rw [nfsproc3Readdirplus_eq hfh htype] at h
  rcases map_eq_some_iff.mp h with ⟨taken, htaken, rfl⟩
  rcases plusLoop_sends fitsReply_nil htaken with ⟨sent, rest, hsent⟩
  exact ⟨taken, sent, rest, rfl, rfl, rfl, hsent⟩

/-- A call makes progress if the first entry fits and no entry for the directory is reached. -/
theorem readdirplus_progress_iff (hfh : s.lookupFh fh = some dir) (htype : dir.type = .directory)
    (hinv : DirInv dir.dir) (hsome : s.sendable dir.dir cookie ≠ []) :
    (∃ reply, nfsproc3Readdirplus s fh cookie dircount maxcount = some reply ∧
        (reply.entries ≠ [] ∨ reply.eof = true ∨ reply.status ≠ .ok)) ↔
      (∀ d ∈ (s.sendable dir.dir cookie).head?, FitsReply dircount.toNat maxcount.toNat [d]) ∧
        ∀ pre d post, s.sendable dir.dir cookie = pre ++ d :: post → s.IsSelf dir.inum d →
          ¬ (FitsReply dircount.toNat maxcount.toNat pre ∧ pre.length < maxReaddirDirents) := by
  constructor
  · rintro ⟨reply, hreply, hprogress⟩
    constructor
    · intro d hd
      by_contra hsmall
      rcases readdirplus_sends hfh htype hreply with
        ⟨taken, sent, rest, hstatus, hentries, heof, hsent⟩
      have hsplit := hsent.split
      rw [filter_behind s hinv] at hsplit
      rcases head?_eq_some_iff.mp hd with ⟨post, hpost⟩
      rw [hpost] at hsplit
      cases sent with
      | nil =>
        have hmap := hsent.entries
        rw [map_nil, map_eq_nil_iff] at hmap
        have hmore := (hsent.stopped d post hsplit.symm).1
        rw [hentries, heof, hmap, List.isEmpty_iff, hstatus] at hprogress
        rcases hprogress with h | h | h
        · exact h rfl
        · exact hmore h
        · exact h rfl
      | cons d' sent' =>
        rw [cons_append, List.cons.injEq] at hsplit
        refine hsmall (hsent.fits.sublist ?_)
        rw [nil_append, hsplit.1]
        exact singleton_sublist.mpr mem_cons_self
    · rintro pre d post hsplit hself ⟨hfits, hshort⟩
      rw [(readdirplus_eq_none_iff hfh htype hinv).mpr ⟨pre, d, post, hsplit, hself, hfits, hshort⟩]
        at hreply
      cases hreply
  · rintro ⟨hfirst, hothers⟩
    cases hreply : nfsproc3Readdirplus s fh cookie dircount maxcount with
    | none =>
      rcases (readdirplus_eq_none_iff hfh htype hinv).mp hreply with
        ⟨pre, d, post, hsplit, hself, hfits, hshort⟩
      exact absurd ⟨hfits, hshort⟩ (hothers pre d post hsplit hself)
    | some reply =>
      rcases readdirplus_sends hfh htype hreply with
        ⟨taken, sent, rest, -, hentries, -, hsent⟩
      refine ⟨reply, rfl, Or.inl ?_⟩
      intro hempty
      have hmap := hsent.entries
      rw [← hentries, hempty, map_nil, eq_comm, map_eq_nil_iff] at hmap
      have hsplit := hsent.split
      rw [filter_behind s hinv, hmap, nil_append] at hsplit
      rcases exists_cons_of_ne_nil hsome with ⟨d, post, hcons⟩
      refine (hsent.stopped d post (hsplit.symm.trans hcons)).2 ?_
      rw [hmap]
      exact hfirst d (by rw [hcons]; rfl)

end Calls

/-! ## A client -/

section Client

variable {inum : BitVec 64} {dircount maxcount : BitVec 32} {dir : Inode} {l l' : Listing}

/-- The client asks for another page. -/
def Asks (inum : BitVec 64) (dircount maxcount : BitVec 32) (l l' : Listing) : Prop :=
  listingStep inum l (.readdirplus dircount maxcount) = some l'

/-- The client is told the end after finitely many calls. -/
def Finishes (inum : BitVec 64) (dircount maxcount : BitVec 32) (l : Listing) : Prop :=
  ∃ l', Relation.ReflTransGen (Asks inum dircount maxcount) l l' ∧ l'.eof = true

/-- What is left to be sent after a page. -/
theorem sendable_lastCookie {s : NfsState} {cookie : BitVec 64} {sent rest : List DirEntry}
    (hinv : DirInv dir.dir) (hsplit : s.sendable dir.dir cookie = sent ++ rest) :
    s.sendable dir.dir (lastCookie cookie (sent.map DirEntry.entry3)) = rest := by
  have hsorted : (sent ++ rest).Pairwise fun a b => a.key < b.key := by
    rw [← hsplit]
    exact hinv.sorted.sublist filter_sublist
  rw [pairwise_append] at hsorted
  have hincreasing : (sent.map DirEntry.entry3).Pairwise
      fun a b => a.cookie.toNat < b.cookie.toNat := by
    rw [pairwise_map]
    simpa only [toNat_entry3_cookie] using hsorted.1
  rcases lastCookie_spec cookie hincreasing with ⟨hnil, hsame⟩ | ⟨e, he, hlast, hmax⟩
  · rw [hsame, hsplit, map_eq_nil_iff.mp hnil, nil_append]
  rcases List.mem_map.mp he with ⟨d, hd, rfl⟩
  have hkey : (d.entry3.cookie.setWidth 32).toNat = d.key := by
    rw [BitVec.toNat_setWidth, toNat_entry3_cookie]
    exact Nat.mod_eq_of_lt d.cookie.isLt
  have hbehind : (cookie.setWidth 32).toNat < d.key := by
    have hmem : d ∈ s.sendable dir.dir cookie := by
      rw [hsplit]
      exact mem_append_left _ hd
    simpa using (Bool.and_eq_true_iff.mp (mem_filter.mp hmem).2).1
  have hsent : sent.filter (fun x => d.key < x.key) = [] := by
    rw [filter_eq_nil_iff]
    intro x hx
    have hle := hmax x.entry3 (List.mem_map_of_mem hx)
    rw [toNat_entry3_cookie, toNat_entry3_cookie] at hle
    simpa using hle
  have hrest : rest.filter (fun x => d.key < x.key) = rest := by
    rw [filter_eq_self]
    intro x hx
    simpa using hsorted.2.2 d hd x hx
  calc
    s.sendable dir.dir (lastCookie cookie (sent.map DirEntry.entry3))
      = (s.sendable dir.dir cookie).filter fun x => d.key < x.key := by
        rw [hlast, NfsState.sendable, NfsState.sendable, hkey, List.filter_filter]
        refine filter_congr ?_
        intro x _
        by_cases hx : d.key < x.key
        · simp only [hx, hbehind.trans hx, decide_true, Bool.true_and]
        · simp [hx]
    _ = rest := by rw [hsplit, filter_append, hsent, hrest, nil_append]

/-- One page for the client, in a file system that does not change. -/
theorem Asks.sends (hpos : inum ≠ 0) (hdir : l.fs.inodes inum = some dir)
    (htype : dir.type = .directory) (hinv : DirInv dir.dir)
    (h : Asks inum dircount maxcount l l') :
    l'.fs = l.fs ∧ ∃ taken sent rest,
      PlusSent l.fs dir.inum dircount.toNat maxcount.toNat [] (dir.dir.behind l.cookie) taken sent
        rest ∧
      l'.eof = taken.2.isEmpty ∧ l.fs.sendable dir.dir l.cookie = sent ++ rest ∧
      l.fs.sendable dir.dir l'.cookie = rest := by
  rw [Asks, listingStep] at h
  split_ifs at h
  rcases map_eq_some_iff.mp h with ⟨reply, hreply, rfl⟩
  have hfh : l.fs.lookupFh (fileHandle inum) = some dir := by
    rw [lookupFh_fileHandle hpos, hdir]
  rcases readdirplus_sends hfh htype hreply with ⟨taken, sent, rest, -, hentries, heof, hsent⟩
  have hsplit := hsent.split
  rw [filter_behind _ hinv] at hsplit
  refine ⟨rfl, taken, sent, rest, hsent, heof, hsplit, ?_⟩
  change l.fs.sendable dir.dir (lastCookie l.cookie (reply.entries.map EntryPlus3.toEntry3)) = rest
  rw [hentries, hsent.entries]
  exact sendable_lastCookie hinv hsplit

/-- A client finishes if every entry fits by itself and none is for the directory. -/
theorem finishes_iff (hpos : inum ≠ 0) (hdir : l.fs.inodes inum = some dir)
    (htype : dir.type = .directory) (hinv : DirInv dir.dir) (hopen : l.eof = false) :
    Finishes inum dircount maxcount l ↔
      ∀ d ∈ l.fs.sendable dir.dir l.cookie,
        FitsReply dircount.toNat maxcount.toNat [d] ∧ ¬ l.fs.IsSelf dir.inum d := by
  constructor
  · rintro ⟨l', hrun, hend⟩
    induction hrun using Relation.ReflTransGen.head_induction_on with
    | refl =>
      rw [hend] at hopen
      cases hopen
    | @head l l₁ hasks _ ih =>
      rcases hasks.sends hpos hdir htype hinv with
        ⟨hfs, taken, sent, rest, hsent, heof, hsplit, hrest⟩
      rw [hsplit]
      intro d hd
      rcases mem_append.mp hd with hd | hd
      · exact ⟨hsent.fits.sublist (singleton_sublist.mpr hd), hsent.others d hd⟩
      · -- what has not been sent is sent later
        have hopen₁ : l₁.eof = false := by
          rw [heof, isEmpty_eq_false_iff]
          rcases exists_cons_of_ne_nil (ne_nil_of_mem hd) with ⟨e, post, hcons⟩
          exact (hsent.stopped e post hcons).1
        rw [← hfs] at hdir hrest ⊢
        rw [← hrest] at hd
        exact ih hdir hopen₁ d hd
  · intro hall
    obtain ⟨n, hn⟩ : ∃ n, (l.fs.sendable dir.dir l.cookie).length = n := ⟨_, rfl⟩
    induction n using Nat.strong_induction_on generalizing l with
    | _ n ih =>
      have hfh : l.fs.lookupFh (fileHandle inum) = some dir := by
        rw [lookupFh_fileHandle hpos, hdir]
      cases hreply : nfsproc3Readdirplus l.fs (fileHandle inum) l.cookie dircount maxcount with
      | none =>
        rcases (readdirplus_eq_none_iff hfh htype hinv).mp hreply with
          ⟨pre, d, post, hsplit, hself, -⟩
        refine absurd hself (hall d ?_).2
        rw [hsplit]
        simp
      | some reply =>
        have hasks : Asks inum dircount maxcount l
            (l.receive (reply.entries.map EntryPlus3.toEntry3) reply.eof) := by
          rw [Asks, listingStep, if_neg (by simp [hopen]), hreply, map_some]
        generalize l.receive (reply.entries.map EntryPlus3.toEntry3) reply.eof = l₁ at hasks
        rcases hasks.sends hpos hdir htype hinv with
          ⟨hfs, taken, sent, rest, hsent, heof, hsplit, hrest⟩
        cases hend : l₁.eof with
        | true => exact ⟨l₁, .single hasks, hend⟩
        | false =>
          -- the page is not empty, so that less is left
          have hne : sent ≠ [] := by
            rintro rfl
            cases rest with
            | nil =>
              rcases hsent.ended rfl with hdone | hfull
              · rw [heof, hdone] at hend
                cases hend
              · exact absurd hfull (by decide)
            | cons d post =>
              refine (hsent.stopped d post rfl).2 (hall d ?_).1
              rw [hsplit]
              simp
          have hless : rest.length < n := by
            rw [← hn, hsplit, length_append]
            have := length_pos_of_ne_nil hne
            omega
          rw [← hfs] at hdir hrest
          have hall₁ : ∀ d ∈ l₁.fs.sendable dir.dir l₁.cookie,
              FitsReply dircount.toNat maxcount.toNat [d] ∧ ¬ l₁.fs.IsSelf dir.inum d := by
            intro d hd
            rw [hrest] at hd
            rw [hfs]
            exact hall d (by rw [hsplit]; exact mem_append_right _ hd)
          rcases ih rest.length hless hdir hend hall₁ (by rw [hrest]) with ⟨l', hrun, hl'⟩
          exact ⟨l', hrun.head hasks, hl'⟩

end Client

/-- For every directory, sizes and cookie.  If there is an entry to be sent, a call returns one
exactly if the first one fits, and if no entry for the directory itself is reached, for which the
call would wait for ever.  A client that asks again and again is told the end exactly if every
entry fits by itself and none is for the directory.  The size of a reply with entries is bounded. -/
theorem readdirplus_progress {s : NfsState} {inum : BitVec 64} {dir : Inode} (hpos : inum ≠ 0)
    (hdir : s.inodes inum = some dir) (htype : dir.type = .directory) (hinv : DirInv dir.dir)
    (dircount maxcount : BitVec 32) (cookie : BitVec 64) :
    (s.sendable dir.dir cookie ≠ [] →
      ((∃ reply, nfsproc3Readdirplus s (fileHandle inum) cookie dircount maxcount = some reply ∧
          (reply.entries ≠ [] ∨ reply.eof = true ∨ reply.status ≠ .ok)) ↔
        (∀ d ∈ (s.sendable dir.dir cookie).head?, FitsReply dircount.toNat maxcount.toNat [d]) ∧
          ∀ pre d post, s.sendable dir.dir cookie = pre ++ d :: post → s.IsSelf dir.inum d →
            ¬ (FitsReply dircount.toNat maxcount.toNat pre ∧ pre.length < maxReaddirDirents))) ∧
    (∀ received, Finishes inum dircount maxcount ⟨s, cookie, received, false⟩ ↔
      ∀ d ∈ s.sendable dir.dir cookie,
        FitsReply dircount.toNat maxcount.toNat [d] ∧ ¬ s.IsSelf dir.inum d) ∧
    ∀ reply, nfsproc3Readdirplus s (fileHandle inum) cookie dircount maxcount = some reply →
      reply.entries ≠ [] →
      replyMaxcount (reply.entries.map EntryPlus3.toEntry3) ≤ maxcount.toNat := by
  have hfh : s.lookupFh (fileHandle inum) = some dir := by
    rw [lookupFh_fileHandle hpos, hdir]
  refine ⟨readdirplus_progress_iff hfh htype hinv,
    fun received => @finishes_iff inum dircount maxcount dir ⟨s, cookie, received, false⟩ hpos hdir
      htype hinv rfl, ?_⟩
  intro reply hreply hne
  rcases readdirplus_sends hfh htype hreply with ⟨taken, sent, rest, -, hentries, -, hsent⟩
  have hsome : sent ≠ [] := by
    rintro rfl
    have hmap := hsent.entries
    rw [← hentries, map_nil, map_eq_nil_iff] at hmap
    exact hne hmap
  rw [hentries, hsent.entries]
  exact (hsent.fits.2 hsome).2

theorem readdirplus_progress_pages :
    Finishes 5 140 400 (Listing.start (listedFs (some (newInode 7 .regular)))) ∧
      ∀ reply, nfsproc3Readdirplus (listedFs (some (newInode 7 .regular))) (fileHandle 5) 0 140 400
          = some reply → reply.entries ≠ [] →
        replyMaxcount (reply.entries.map EntryPlus3.toEntry3) ≤ 400 := by
  have h := readdirplus_progress (s := listedFs (some (newInode 7 .regular)))
    (show (5 : BitVec 64) ≠ 0 by decide) (show _ = some listedDir from rfl) rfl listedDir_inv
    140 400 0
  exact ⟨(h.2.1 []).mpr (by decide +kernel), h.2.2⟩

/-- With room for less than the first entry, the reply is empty and does not report the end, and
the client does not finish. -/
theorem readdirplus_no_progress :
    (nfsproc3Readdirplus (listedFs (some (newInode 7 .regular))) (fileHandle 5) 0 131 400).map
        (fun reply => (reply.status, reply.entries, reply.eof)) = some (.ok, [], false) ∧
      listedA ∈ (listedFs (some (newInode 7 .regular))).sendable listedDir.dir 0 ∧
      ¬ Finishes 5 131 400 (Listing.start (listedFs (some (newInode 7 .regular)))) := by
  refine ⟨by decide +kernel, by decide +kernel, ?_⟩
  intro hfinishes
  have hall := (finishes_iff (by decide) (show _ = some listedDir from rfl) rfl listedDir_inv
    rfl).mp hfinishes
  exact absurd (hall listedA (by decide +kernel)).1 (by decide +kernel)

end BlueSky

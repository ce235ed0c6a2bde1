import BlueSky.Cloud.Format

/-!
# Encrypting and authenticating an item

`bluesky_crypt_block_encrypt` and `bluesky_crypt_block_decrypt`.  The message
authentication code of an item covers its header from the initialization vector on,
its data and the identifiers of its links, so that the cleaner can rewrite the
locations of the links.  The magic number, which says whether the data is encrypted,
is not covered.

Main results:

- Theorem {lit}`Crypt.cryptBlockEncrypt_record` and theorem {lit}`Crypt.record_of_accepts`:
  what the two functions do to the record of an item.
- Theorem {lit}`decrypt_preserves_iff`: an accepted block with the code of an encrypted item has
  its contents exactly if the magic number was not exchanged.
-/

namespace BlueSky

open List Option ByteLib PackedLib

/-! ## Keys and primitives -/

/-- `BlueSkyCryptKeys`, the option `disable_crypto`, and the primitives of the
cryptographic library: a keyed hash, and AES in counter mode, which works in place. -/
structure Crypt where
  disableCrypto : Bool
  encryptionKey : BitVec 128
  authenticationKey : BitVec 256
  hmac : BitVec 256 → Bytes → BitVec 256
  ctrEncrypt : BitVec 128 → BitVec 128 → Bytes → Bytes
  ctrDecrypt : BitVec 128 → BitVec 128 → Bytes → Bytes
  length_ctrEncrypt : ∀ key iv m, (ctrEncrypt key iv m).length = m.length
  length_ctrDecrypt : ∀ key iv m, (ctrDecrypt key iv m).length = m.length

/-- Decryption inverts encryption under the same key and initialization vector. -/
def Crypt.Inverts (c : Crypt) : Prop :=
  ∀ iv m, c.ctrDecrypt c.encryptionKey iv (c.ctrEncrypt c.encryptionKey iv m) = m

/-- `CLOUDLOG_MAGIC_ENCRYPTED`, "AgI=". -/
def cloudlogMagicEncrypted : BitVec 32 := 0x3d496741#32

/-- The bit in which the two magic numbers differ, `magic[3] ^= 0x10`. -/
def magicBit : BitVec 32 := 0x10000000#32

@[simp]
theorem magic_xor : cloudlogMagic ^^^ magicBit = cloudlogMagicEncrypted ∧
    cloudlogMagicEncrypted ^^^ magicBit = cloudlogMagic := by
  decide

/-- `bluesky_crypt_block_needs_encryption`. -/
def cryptBlockNeedsEncryption (type : Byte) : Bool :=
  match (type - 48#8).toNat with
  | 1 => true
  | 2 => true
  | 3 => false
  | 4 => false
  | _ => true

/-- The part of a header that is authenticated: from `crypt_iv` on. -/
def CloudlogHeader.authenticatedBytes (h : CloudlogHeader) : Bytes :=
  pack (h.fields.drop 2)

/-- The bytes that are authenticated: from `crypt_iv` to the end, but for the last section.
If the size of that section exceeds the block, the code reads beyond it. -/
def authenticated (header : CloudlogHeader) (body : Bytes) : Option Bytes :=
  let span := header.authenticatedBytes ++ body
  if span.length < header.size3.toNat then none
  else some (span.take (span.length - header.size3.toNat))

/-- Work on the first `size1` bytes of the body in place. -/
def onData (f : Bytes → Bytes) (size1 : Nat) (body : Bytes) : Option Bytes :=
  if body.length < size1 then none else some (f (body.take size1) ++ body.drop size1)

/-- `bluesky_crypt_block_encrypt`, with the initialization vector that it draws. -/
def Crypt.cryptBlockEncrypt (c : Crypt) (iv : BitVec 128) (block : Bytes) : Option Bytes :=
  if c.disableCrypto then some block
  else
    let header := CloudlogHeader.ofBytes block
    let body := block.drop cloudlogHeaderSize
    if header.magic ≠ cloudlogMagic then none
    else do
      let (header, body) ←
        if cryptBlockNeedsEncryption header.type then
          (onData (c.ctrEncrypt c.encryptionKey iv) header.size1.toNat body).map fun body =>
            ({ header with magic := header.magic ^^^ magicBit, cryptIv := iv }, body)
        else some ({ header with cryptIv := 0 }, body)
      let span ← authenticated header body
      some ({ header with cryptAuth := c.hmac c.authenticationKey span }.toBytes ++ body)

/-- The types that are accepted without authentication from the cleaner. -/
def maybeUnauth (type : Byte) : Bool :=
  type = LogType.inodeMap.octet || type = LogType.checkpoint.octet

/-- `bluesky_crypt_block_decrypt`: the block that it leaves, and its verdict.  A block whose
magic number disagrees with its type is only warned about. -/
def Crypt.cryptBlockDecrypt (c : Crypt) (block : Bytes) (allowUnauth : Bool) :
    Option (Bytes × Bool) :=
  let header := CloudlogHeader.ofBytes block
  let body := block.drop cloudlogHeaderSize
  if header.magic ≠ cloudlogMagic ∧ header.magic ≠ cloudlogMagicEncrypted then none
  else if c.disableCrypto then
    if header.magic = cloudlogMagicEncrypted then none else some (block, true)
  else do
    let span ← authenticated header body
    if c.hmac c.authenticationKey span ≠ header.cryptAuth ∧
        ¬ (allowUnauth && maybeUnauth header.type) then
      some (block, false)
    else if header.magic = cloudlogMagicEncrypted then do
      let body ← onData (c.ctrDecrypt c.encryptionKey header.cryptIv) header.size1.toNat body
      some (({ header with magic := header.magic ^^^ magicBit, cryptIv := 0 } :
        CloudlogHeader).toBytes ++ body, true)
    else some (block, true)

/-- A cipher and a hash to run the model with. -/
def toyCrypt : Crypt where
  disableCrypto := false
  encryptionKey := 0
  authenticationKey := 0
  hmac := fun _ m => BitVec.ofNat 256 (leNat m % (2 ^ 255 - 19))
  ctrEncrypt := fun _ _ m => m.map (· ^^^ 0x5a#8)
  ctrDecrypt := fun _ _ m => m.map (· ^^^ 0x5a#8)
  length_ctrEncrypt := by simp
  length_ctrDecrypt := by simp

theorem toyCrypt_inverts : toyCrypt.Inverts := by
  intro iv m
  simp [toyCrypt, Function.comp_def]

/-! ## Headers and spans -/

@[simp]
theorem CloudlogHeader.length_authenticatedBytes (h : CloudlogHeader) :
    h.authenticatedBytes.length = 53 := by
  rw [authenticatedBytes, length_pack]
  rfl

/-- The authenticated part determines all of a header but the magic number and the code. -/
theorem CloudlogHeader.eq_of_authenticatedBytes {h h' : CloudlogHeader}
    (heq : h.authenticatedBytes = h'.authenticatedBytes) :
    h' = { h with magic := h'.magic, cryptAuth := h'.cryptAuth } := by
  have hsplit : ∀ (k : CloudlogHeader), k.toBytes =
      pack (k.fields.take 2) ++ k.authenticatedBytes := by
    intro k
    rw [toBytes, authenticatedBytes, ← pack_append, take_append_drop]
  have hbytes : h'.toBytes =
      ({ h with magic := h'.magic, cryptAuth := h'.cryptAuth } : CloudlogHeader).toBytes := by
    rw [hsplit, hsplit, ← heq]
    rfl
  have hread := ofBytes_append h' []
  rw [hbytes, ofBytes_append] at hread
  exact hread.symm

/-- A block is its header and its body. -/
theorem block_eq {block : Bytes} (h : cloudlogHeaderSize ≤ block.length) :
    block = (CloudlogHeader.ofBytes block).toBytes ++ block.drop cloudlogHeaderSize := by
  rw [CloudlogHeader.toBytes_ofBytes h, take_append_drop]

theorem drop_header (h : CloudlogHeader) (body : Bytes) :
    (h.toBytes ++ body).drop cloudlogHeaderSize = body := by
  rw [← CloudlogHeader.length_toBytes h, drop_left]

variable {header : CloudlogHeader} {body : Bytes}

/-- The authenticated span of a block whose last section fits. -/
theorem authenticated_eq
    (h : header.size3.toNat ≤ body.length) :
    authenticated header body =
      some (header.authenticatedBytes ++ body.take (body.length - header.size3.toNat)) := by
  have hlen := header.length_authenticatedBytes
  unfold authenticated
  simp only [length_append, hlen]
  rw [if_neg (by omega), take_append, hlen, take_of_length_le (by rw [hlen]; omega)]
  congr 3
  omega

theorem onData_eq {f : Bytes → Bytes} {size1 : Nat} (h : size1 ≤ body.length) :
    onData f size1 body = some (f (body.take size1) ++ body.drop size1) := by
  rw [onData, if_neg (by omega)]

/-! ## What encryption stores -/

/-- The header of an encrypted item, the code apart. -/
def storedHeader (iv : BitVec 128) (header : CloudlogHeader) : CloudlogHeader :=
  if cryptBlockNeedsEncryption header.type then
    { header with magic := cloudlogMagicEncrypted, cryptIv := iv }
  else { header with magic := cloudlogMagic, cryptIv := 0 }

/-- The body of an encrypted item. -/
def Crypt.storedBody (c : Crypt) (iv : BitVec 128) (header : CloudlogHeader) (body : Bytes) :
    Bytes :=
  if cryptBlockNeedsEncryption header.type then
    c.ctrEncrypt c.encryptionKey iv (body.take header.size1.toNat) ++ body.drop header.size1.toNat
  else body

/-- The message authentication code of an encrypted item. -/
def Crypt.storedAuth (c : Crypt) (iv : BitVec 128) (header : CloudlogHeader) (body : Bytes) :
    BitVec 256 :=
  c.hmac c.authenticationKey ((storedHeader iv header).authenticatedBytes ++
    (c.storedBody iv header body).take (header.size1.toNat + header.size2.toNat))

theorem storedHeader_same (iv : BitVec 128) (header : CloudlogHeader) :
    storedHeader iv header =
      { header with
        magic := (storedHeader iv header).magic
        cryptIv := (storedHeader iv header).cryptIv } := by
  unfold storedHeader
  split_ifs <;> rfl

/-- A body that has the length its header gives. -/
def HasSections (header : CloudlogHeader) (body : Bytes) : Prop :=
  body.length = header.size1.toNat + header.size2.toNat + header.size3.toNat

theorem Crypt.length_storedBody (c : Crypt) (iv : BitVec 128) (h : HasSections header body) :
    (c.storedBody iv header body).length = body.length := by
  unfold HasSections at h
  unfold storedBody
  split_ifs
  · rw [length_append, c.length_ctrEncrypt, length_take, length_drop]
    omega
  · rfl

variable {c : Crypt}

/-- What is authenticated of a stored item. -/
theorem Crypt.authenticated_stored (c : Crypt) (iv : BitVec 128) (h : HasSections header body) :
    authenticated (storedHeader iv header) (c.storedBody iv header body) =
      some ((storedHeader iv header).authenticatedBytes ++
        (c.storedBody iv header body).take (header.size1.toNat + header.size2.toNat)) := by
  have hlen := c.length_storedBody iv h
  unfold HasSections at h
  have hsize3 : (storedHeader iv header).size3 = header.size3 := by
    rw [storedHeader_same]
  rw [authenticated_eq (by rw [hsize3]; omega), hsize3, hlen, h, Nat.add_sub_cancel]

/-- Encryption of an item that has the length its header gives. -/
theorem Crypt.cryptBlockEncrypt_eq (hon : c.disableCrypto = false) (iv : BitVec 128)
    (h : HasSections header body) (hmagic : header.magic = cloudlogMagic) :
    c.cryptBlockEncrypt iv (header.toBytes ++ body) =
      some ({ storedHeader iv header with
        cryptAuth := c.storedAuth iv header body }.toBytes ++ c.storedBody iv header body) := by
  have hspan := c.authenticated_stored iv h
  unfold HasSections at h
  unfold cryptBlockEncrypt
  rw [if_neg (by simp [hon])]
  simp only [CloudlogHeader.ofBytes_append, drop_header, hmagic, ne_eq, not_true_eq_false, if_false]
  unfold storedAuth
  unfold storedHeader storedBody at hspan ⊢
  split_ifs at hspan ⊢ with hneeds
  · rw [onData_eq (by omega)]
    simp only [map_some, magic_xor, bind_eq_bind, bind_some, hspan]
  · rw [← hmagic] at hspan ⊢
    simp only [bind_eq_bind, bind_some, hspan]

/-! ## What decryption accepts -/

/-- The authenticated span of a block. -/
def blockSpan (block : Bytes) : Option Bytes :=
  authenticated (CloudlogHeader.ofBytes block) (block.drop cloudlogHeaderSize)

/-- The message authentication code of a block verifies. -/
def Crypt.Verifies (c : Crypt) (block : Bytes) : Prop :=
  (blockSpan block).map (c.hmac c.authenticationKey) = some (CloudlogHeader.ofBytes block).cryptAuth

instance (c : Crypt) (block : Bytes) : Decidable (c.Verifies block) :=
  inferInstanceAs (Decidable (_ = _))

/-- The code of a stored item verifies. -/
theorem Crypt.verifies_stored (c : Crypt) (iv : BitVec 128) (h : HasSections header body) :
    c.Verifies ({ storedHeader iv header with
      cryptAuth := c.storedAuth iv header body }.toBytes ++ c.storedBody iv header body) := by
  rw [Verifies, blockSpan, CloudlogHeader.ofBytes_append, drop_header]
  exact congrArg (Option.map (c.hmac c.authenticationKey)) (c.authenticated_stored iv h)

/-- Whether the data of a block counts as encrypted. -/
def isEncrypted (block : Bytes) : Bool :=
  (CloudlogHeader.ofBytes block).magic = cloudlogMagicEncrypted

/-- The block that decryption leaves when it accepts. -/
def Crypt.decrypted (c : Crypt) (block : Bytes) : Bytes :=
  let header := CloudlogHeader.ofBytes block
  let body := block.drop cloudlogHeaderSize
  if isEncrypted block then
    ({ header with magic := cloudlogMagic, cryptIv := 0 } : CloudlogHeader).toBytes ++
      (c.ctrDecrypt c.encryptionKey header.cryptIv (body.take header.size1.toNat) ++
        body.drop header.size1.toNat)
  else block

/-- What a block goes through: it is accepted if its code verifies, or need not, and then it is
decrypted. -/
theorem Crypt.cryptBlockDecrypt_cases (hon : c.disableCrypto = false) {block left : Bytes}
    {allowUnauth ok : Bool} (h : c.cryptBlockDecrypt block allowUnauth = some (left, ok)) :
    ((CloudlogHeader.ofBytes block).magic = cloudlogMagic ∨
        (CloudlogHeader.ofBytes block).magic = cloudlogMagicEncrypted) ∧
      (ok = true ↔ c.Verifies block ∨
        (allowUnauth = true ∧ maybeUnauth (CloudlogHeader.ofBytes block).type = true)) ∧
      (ok = true → left = c.decrypted block) := by
  unfold cryptBlockDecrypt at h
  simp only [hon, Bool.false_eq_true, if_false] at h
  by_cases hmagic : (CloudlogHeader.ofBytes block).magic ≠ cloudlogMagic ∧
      (CloudlogHeader.ofBytes block).magic ≠ cloudlogMagicEncrypted
  · rw [if_pos hmagic] at h
    cases h
  rw [if_neg hmagic] at h
  rw [not_and_or, not_not, not_not] at hmagic
  simp only [bind_eq_bind, bind_eq_some_iff] at h
  rcases h with ⟨span, hspan, h⟩
  have hverified : ¬ (c.hmac c.authenticationKey span ≠ (CloudlogHeader.ofBytes block).cryptAuth ∧
      ¬ (allowUnauth && maybeUnauth (CloudlogHeader.ofBytes block).type)) ↔
      c.Verifies block ∨
        (allowUnauth = true ∧ maybeUnauth (CloudlogHeader.ofBytes block).type = true) := by
    rw [not_and_or, not_not, not_not, Bool.and_eq_true, Verifies, blockSpan, hspan, map_some,
      some_inj]
  refine ⟨hmagic, ?_⟩
  split_ifs at h with hbad henc
  · rw [some_inj, Prod.mk.injEq] at h
    simp [← h.2, ← hverified, hbad]
  · rcases bind_eq_some_iff.mp h with ⟨body, hbody, hleft⟩
    unfold onData at hbody
    split_ifs at hbody
    simp only [some.injEq, Prod.mk.injEq] at hbody hleft
    refine ⟨⟨fun _ => hverified.mp hbad, fun _ => hleft.2.symm⟩, fun _ => ?_⟩
    rw [← hleft.1, ← hbody, henc, magic_xor.2]
    simp [decrypted, isEncrypted, henc]
  · rw [some_inj, Prod.mk.injEq] at h
    refine ⟨⟨fun _ => hverified.mp hbad, fun _ => h.2.symm⟩, fun _ => ?_⟩
    rw [← h.1]
    simp [decrypted, isEncrypted, henc]

/-- A block whose sections fit and whose code verifies, or need not, is accepted. -/
theorem Crypt.cryptBlockDecrypt_eq (hon : c.disableCrypto = false) {allowUnauth : Bool}
    (h : HasSections header body)
    (hmagic : header.magic = cloudlogMagic ∨ header.magic = cloudlogMagicEncrypted)
    (hok : c.Verifies (header.toBytes ++ body) ∨
      (allowUnauth = true ∧ maybeUnauth header.type = true)) :
    c.cryptBlockDecrypt (header.toBytes ++ body) allowUnauth =
      some (c.decrypted (header.toBytes ++ body), true) := by
  unfold HasSections at h
  have hspan := @authenticated_eq header body (by omega)
  unfold cryptBlockDecrypt
  simp only [hon, Bool.false_eq_true, if_false, CloudlogHeader.ofBytes_append, drop_header]
  rw [if_neg (by rw [not_and_or, not_not, not_not]; exact hmagic), hspan]
  simp only [bind_eq_bind, bind_some]
  rw [if_neg]
  · split_ifs with henc
    · rw [onData_eq (by omega)]
      simp [decrypted, isEncrypted, CloudlogHeader.ofBytes_append, henc]
    · simp [decrypted, isEncrypted, CloudlogHeader.ofBytes_append, henc]
  · rw [not_and_or, not_not, not_not, Bool.and_eq_true]
    refine hok.imp_left fun hverifies => ?_
    rw [Verifies, blockSpan, CloudlogHeader.ofBytes_append, drop_header, hspan,
      map_some, some.injEq] at hverifies
    exact hverifies

/-! ## Records -/

/-- The magic number of an item. -/
def itemMagic (encrypted : Bool) : BitVec 32 :=
  if encrypted then cloudlogMagicEncrypted else cloudlogMagic

theorem itemMagic_eq_encrypted_iff (encrypted : Bool) :
    itemMagic encrypted = cloudlogMagicEncrypted ↔ encrypted = true := by
  cases encrypted <;> decide

/-- An item with other data. -/
def LogItem.withData (item : LogItem) (data : Bytes) : LogItem :=
  { item with data := data }

variable {item : LogItem} {data : Bytes}

theorem LogItem.Fits.withData (h : item.Fits) (hlen : data.length = item.data.length) :
    (item.withData data).Fits where
  data_lt := by
    rw [LogItem.withData, hlen]
    exact h.data_lt
  linkIds_lt := h.linkIds_lt
  linkLocations_lt := h.linkLocations_lt

theorem LogItem.hasSections (hfits : item.Fits) (magic : BitVec 32) (crypt : CryptFields) :
    HasSections (item.cloudHeader magic crypt) item.payload := by
  rcases cloudHeader_sizes hfits magic crypt with ⟨h1, h2, h3⟩
  rw [HasSections, h1, h2, h3, length_payload]

/-- A record with other data of the same length. -/
theorem LogItem.cloudRecord_withData (item : LogItem) (hlen : data.length = item.data.length)
    (magic magic' : BitVec 32) (crypt crypt' : CryptFields) :
    (item.withData data).cloudRecord magic' crypt' =
      ({ item.cloudHeader magic crypt with
        magic := magic', cryptAuth := crypt'.auth, cryptIv := crypt'.iv } :
          CloudlogHeader).toBytes ++ (data ++ item.payload.drop item.data.length) := by
  have hdrop : item.payload.drop item.data.length = item.linkIds ++ item.linkLocations := by
    rw [payload, drop_left]
  rw [hdrop, cloudRecord]
  simp only [cloudHeader, withData, payload, hlen]
  rfl

/-- Encryption of a record leaves a record that differs at most in magic number, code,
initialization vector and data. -/
theorem Crypt.cryptBlockEncrypt_record (c : Crypt) (hfits : item.Fits) (iv : BitVec 128)
    (crypt : CryptFields) :
    ∃ encrypted data crypt', data.length = item.data.length ∧
      c.cryptBlockEncrypt iv (item.cloudRecord cloudlogMagic crypt) =
        some ((item.withData data).cloudRecord (itemMagic encrypted) crypt') := by
  cases hon : c.disableCrypto with
  | true =>
    refine ⟨false, item.data, crypt, rfl, ?_⟩
    rw [cryptBlockEncrypt, if_pos hon]
    rfl
  | false =>
    have hsections := LogItem.hasSections hfits cloudlogMagic crypt
    have hsize1 := (LogItem.cloudHeader_sizes hfits cloudlogMagic crypt).1
    have htake : item.payload.take item.data.length = item.data := by
      rw [LogItem.payload, take_left]
    rw [LogItem.cloudRecord, cryptBlockEncrypt_eq hon iv hsections rfl]
    generalize c.storedAuth iv (item.cloudHeader cloudlogMagic crypt) item.payload = auth
    unfold storedHeader storedBody
    rw [hsize1, htake]
    split_ifs with hneeds
    · refine ⟨true, c.ctrEncrypt c.encryptionKey iv item.data, ⟨auth, iv⟩,
        c.length_ctrEncrypt _ _ _, ?_⟩
      rw [item.cloudRecord_withData (c.length_ctrEncrypt _ _ _) cloudlogMagic _ crypt]
      rfl
    · exact ⟨false, item.data, ⟨auth, 0⟩, rfl, rfl⟩

/-- An accepted record leaves a record that differs at most in magic number, code,
initialization vector and data, and that is not encrypted. -/
theorem Crypt.record_of_accepts (hfits : item.Fits) {encrypted : Bool} {crypt : CryptFields}
    {allowUnauth : Bool} {left : Bytes}
    (h : c.cryptBlockDecrypt (item.cloudRecord (itemMagic encrypted) crypt) allowUnauth =
      some (left, true)) :
    ∃ data crypt', data.length = item.data.length ∧
      left = (item.withData data).cloudRecord cloudlogMagic crypt' := by
  have hheader := item.ofBytes_cloudRecord (itemMagic encrypted) crypt []
  rw [append_nil] at hheader
  have hmagic : (item.cloudHeader (itemMagic encrypted) crypt).magic = itemMagic encrypted := rfl
  cases hon : c.disableCrypto with
  | true =>
    have hvalid : ¬ (itemMagic encrypted ≠ cloudlogMagic ∧
        itemMagic encrypted ≠ cloudlogMagicEncrypted) := by
      cases encrypted <;> decide
    unfold cryptBlockDecrypt at h
    simp only [hheader, hmagic, hon, if_neg hvalid, if_true, itemMagic_eq_encrypted_iff] at h
    cases encrypted with
    | true => cases h
    | false =>
      refine ⟨item.data, crypt, rfl, ?_⟩
      simp only [Bool.false_eq_true, if_false, some.injEq, Prod.mk.injEq, and_true] at h
      exact h.symm
  | false =>
    obtain rfl := (cryptBlockDecrypt_cases hon h).2.2 rfl
    have hsize1 := (LogItem.cloudHeader_sizes hfits (itemMagic encrypted) crypt).1
    have htake : item.payload.take item.data.length = item.data := by
      rw [LogItem.payload, take_left]
    have hdrop : (item.cloudRecord (itemMagic encrypted) crypt).drop cloudlogHeaderSize =
        item.payload := drop_header _ _
    unfold decrypted isEncrypted
    simp only [hheader, hmagic, itemMagic_eq_encrypted_iff, hdrop, hsize1, htake]
    cases encrypted with
    | true =>
      refine ⟨c.ctrDecrypt c.encryptionKey crypt.iv item.data, ⟨crypt.auth, 0⟩,
        c.length_ctrDecrypt _ _ _, ?_⟩
      rw [item.cloudRecord_withData (c.length_ctrDecrypt _ _ _) (itemMagic true) _ crypt]
      rfl
    | false => exact ⟨item.data, crypt, rfl, rfl⟩

variable {body' : Bytes}

/-- The verdict on a block does not depend on the locations of the links. -/
theorem Crypt.cryptBlockDecrypt_verdict (c : Crypt)
    (h : HasSections header body) (hlen : body'.length = body.length)
    (hbody : body'.take (body.length - header.size3.toNat) =
      body.take (body.length - header.size3.toNat)) (allowUnauth : Bool) :
    (c.cryptBlockDecrypt (header.toBytes ++ body') allowUnauth).map Prod.snd =
      (c.cryptBlockDecrypt (header.toBytes ++ body) allowUnauth).map Prod.snd := by
  unfold HasSections at h
  have hspan : authenticated header body' = authenticated header body := by
    rw [authenticated_eq (by omega), authenticated_eq (by omega), hlen, hbody]
  unfold cryptBlockDecrypt
  simp only [CloudlogHeader.ofBytes_append, drop_header, hspan]
  rw [@onData_eq body _ _ (by omega), @onData_eq body' _ _ (by omega)]
  split_ifs with hmagic hoff henc henc
  · rfl
  · rfl
  · rfl
  · simp only [bind_eq_bind, Option.map_bind]
    congr 1
    funext span
    simp only [Function.comp_apply]
    split_ifs <;> rfl
  · simp only [bind_eq_bind, Option.map_bind]
    congr 1
    funext span
    simp only [Function.comp_apply]
    split_ifs <;> rfl

/-! ## Tampering with an item -/

/-- What an item says, the locations of its links apart. -/
structure ItemContents where
  type : Byte
  id : CloudId
  inum : BitVec 64
  size1 : BitVec 32
  size2 : BitVec 32
  size3 : BitVec 32
  data : Bytes
  linkIds : Bytes
deriving DecidableEq, Repr

/-- The same contents with other data. -/
def ItemContents.withData (k : ItemContents) (data : Bytes) : ItemContents :=
  { k with data := data }

theorem ItemContents.withData_withData (k : ItemContents) (data data' : Bytes) :
    (k.withData data).withData data' = k.withData data' :=
  rfl

theorem ItemContents.withData_eq_iff (k : ItemContents) (data : Bytes) :
    k.withData data = k ↔ data = k.data := by
  constructor
  · intro h
    exact congrArg ItemContents.data h
  · rintro rfl
    rfl

/-- The contents of a block. -/
def itemContents (block : Bytes) : ItemContents :=
  let header := CloudlogHeader.ofBytes block
  { type := header.type
    id := header.id
    inum := header.inum
    size1 := header.size1
    size2 := header.size2
    size3 := header.size3
    data := slice block cloudlogHeaderSize header.size1.toNat
    linkIds := slice block (cloudlogHeaderSize + header.size1.toNat) header.size2.toNat }

/-- The authenticated bytes of the two blocks are no collision of the hash. -/
def Crypt.CollisionFree (c : Crypt) (stored modified : Bytes) : Prop :=
  (blockSpan modified).map (c.hmac c.authenticationKey) =
    (blockSpan stored).map (c.hmac c.authenticationKey) → blockSpan modified = blockSpan stored

/-- The cipher happens to leave the data of an item as it is when the magic number of the
encrypted item is exchanged, for instance because there is no data. -/
def Crypt.LeavesData (c : Crypt) (iv : BitVec 128) (block : Bytes) : Prop :=
  let data := (itemContents block).data
  if cryptBlockNeedsEncryption (itemContents block).type then
    c.ctrEncrypt c.encryptionKey iv data = data
  else c.ctrDecrypt c.encryptionKey 0 data = data

theorem itemContents_append (header : CloudlogHeader) (body : Bytes) :
    itemContents (header.toBytes ++ body) =
      { type := header.type
        id := header.id
        inum := header.inum
        size1 := header.size1
        size2 := header.size2
        size3 := header.size3
        data := body.take header.size1.toNat
        linkIds := slice body header.size1.toNat header.size2.toNat } := by
  have hskip := fun off => slice_append_right header.toBytes body off
  simp only [CloudlogHeader.length_toBytes] at hskip
  have hdata := hskip 0
  rw [Nat.add_zero] at hdata
  simp only [itemContents, CloudlogHeader.ofBytes_append, hdata, hskip]
  rfl

/-- Other data of the same length. -/
theorem itemContents_withData (header : CloudlogHeader) (body : Bytes)
    (hlen : data.length = header.size1.toNat) :
    itemContents (header.toBytes ++ (data ++ body.drop header.size1.toNat)) =
      (itemContents (header.toBytes ++ body)).withData data := by
  have hids := slice_append_right data (body.drop header.size1.toNat) 0 header.size2.toNat
  rw [hlen, Nat.add_zero] at hids
  simp only [itemContents_append, hids]
  rw [take_append_of_le_length (Nat.le_of_eq hlen.symm), take_of_length_le (Nat.le_of_eq hlen)]
  rfl

/-- A block of the length of a stored item whose authenticated bytes are those of that item
differs from it at most in the magic number, the code and the locations of the links. -/
theorem eq_of_blockSpan {header header' : CloudlogHeader}
    (h : HasSections header body) (hlen : body'.length = body.length)
    (hspan : authenticated header' body' = authenticated header body) :
    header' = { header with magic := header'.magic, cryptAuth := header'.cryptAuth } ∧
      body'.take (header.size1.toNat + header.size2.toNat) =
        body.take (header.size1.toNat + header.size2.toNat) := by
  unfold HasSections at h
  have h53 := header.length_authenticatedBytes
  have h53' := header'.length_authenticatedBytes
  rw [@authenticated_eq header body (by omega), h, Nat.add_sub_cancel] at hspan
  -- the lengths of the spans give the size of the last section of the modified block
  have hsize3 : header'.size3.toNat = header.size3.toNat := by
    unfold authenticated at hspan
    simp only at hspan
    split_ifs at hspan with hfit
    have hlengths := congrArg List.length (some.inj hspan)
    simp only [length_take, length_append, h53, h53'] at hlengths hfit
    omega
  rw [@authenticated_eq header' body' (by omega), hlen, hsize3, h, Nat.add_sub_cancel,
    some.injEq] at hspan
  rcases append_inj hspan (by rw [h53, h53']) with ⟨hheader, hbody⟩
  exact ⟨CloudlogHeader.eq_of_authenticatedBytes hheader.symm, hbody⟩

/-- The data that decryption leaves in an accepted block with the authenticated bytes of a
stored item. -/
theorem Crypt.itemContents_decrypted (c : Crypt)
    (magic : BitVec 32) (auth : BitVec 256) (h : HasSections header body)
    (hlen : body'.length = body.length)
    (hbody : body'.take (header.size1.toNat + header.size2.toNat) =
      body.take (header.size1.toNat + header.size2.toNat)) :
    itemContents (c.decrypted (({ header with magic := magic, cryptAuth := auth } :
        CloudlogHeader).toBytes ++ body')) =
      (itemContents (header.toBytes ++ body)).withData
        (if magic = cloudlogMagicEncrypted then
          c.ctrDecrypt c.encryptionKey header.cryptIv (body.take header.size1.toNat)
        else body.take header.size1.toNat) := by
  unfold HasSections at h
  have hdata : body'.take header.size1.toNat = body.take header.size1.toNat := by
    have htake := congrArg (List.take header.size1.toNat) hbody
    rw [take_take, take_take, Nat.min_eq_left (by omega)] at htake
    exact htake
  have hids : slice body' header.size1.toNat header.size2.toNat =
      slice body header.size1.toNat header.size2.toNat := by
    have hdrop := congrArg (List.drop header.size1.toNat) hbody
    rw [drop_take, drop_take, Nat.add_sub_cancel_left] at hdrop
    exact hdrop
  unfold decrypted isEncrypted
  simp only [CloudlogHeader.ofBytes_append, drop_header, decide_eq_true_eq]
  split_ifs with henc
  · rw [itemContents_withData]
    · simp only [itemContents_append, hdata, hids]
    · rw [c.length_ctrDecrypt, length_take]
      exact Nat.min_eq_left (by omega)
  · simp only [itemContents_append, hdata, hids]
    rfl

/-- A stored item differs from the original at most in its data. -/
theorem Crypt.itemContents_stored (c : Crypt) (iv : BitVec 128) (auth : BitVec 256)
    (h : HasSections header body) :
    itemContents ({ storedHeader iv header with cryptAuth := auth }.toBytes ++
        c.storedBody iv header body) =
      (itemContents (header.toBytes ++ body)).withData
        (if cryptBlockNeedsEncryption header.type then
          c.ctrEncrypt c.encryptionKey iv (body.take header.size1.toNat)
        else body.take header.size1.toNat) := by
  unfold HasSections at h
  rw [storedHeader_same]
  unfold storedBody
  split_ifs with hneeds
  · rw [itemContents_withData]
    · simp only [itemContents_append]
    · rw [c.length_ctrEncrypt, length_take]
      exact Nat.min_eq_left (by omega)
  · simp only [itemContents_append]
    rfl

/-- Encryption keeps the shape of an item. -/
theorem Crypt.hasSections_stored (c : Crypt) (iv : BitVec 128) (auth : BitVec 256)
    (h : HasSections header body) :
    HasSections { storedHeader iv header with cryptAuth := auth }
      (c.storedBody iv header body) := by
  have hlen := c.length_storedBody iv h
  unfold HasSections at h ⊢
  rw [hlen, h, storedHeader_same]

/-- Only a block with the plain magic number is encrypted. -/
theorem Crypt.magic_of_cryptBlockEncrypt (hon : c.disableCrypto = false) {iv : BitVec 128}
    {body stored : Bytes}
    (h : c.cryptBlockEncrypt iv (header.toBytes ++ body) = some stored) :
    header.magic = cloudlogMagic := by
  by_contra hne
  unfold cryptBlockEncrypt at h
  simp only [hon, Bool.false_eq_true, if_false, CloudlogHeader.ofBytes_append] at h
  rw [if_pos hne] at h
  cases h

/-- An accepted block with the code of an item that was encrypted has the contents of that item
exactly if its magic number was not exchanged, or exchanging it makes no difference. -/
theorem decrypt_preserves_iff {c : Crypt} (hon : c.disableCrypto = false) (hinv : c.Inverts)
    {iv : BitVec 128} {block stored modified left : Bytes}
    (hitem : block.length = (CloudlogHeader.ofBytes block).itemSize)
    (hstored : c.cryptBlockEncrypt iv block = some stored)
    (hlen : modified.length = stored.length) (hcollision : c.CollisionFree stored modified)
    (hauth : (CloudlogHeader.ofBytes modified).cryptAuth =
      (CloudlogHeader.ofBytes stored).cryptAuth)
    (hleft : c.cryptBlockDecrypt modified false = some (left, true)) :
    itemContents left = itemContents block ↔
      isEncrypted modified = isEncrypted stored ∨ c.LeavesData iv block := by
  have hblock := @block_eq block (by rw [hitem, CloudlogHeader.itemSize]; omega)
  generalize CloudlogHeader.ofBytes block = header at hitem hblock
  generalize block.drop cloudlogHeaderSize = body at hblock
  subst hblock
  have hsections : HasSections header body := by
    unfold HasSections
    rw [length_append, CloudlogHeader.length_toBytes, CloudlogHeader.itemSize] at hitem
    omega
  rw [Crypt.cryptBlockEncrypt_eq hon iv hsections (Crypt.magic_of_cryptBlockEncrypt hon hstored),
    some.injEq] at hstored
  have hcontents := c.itemContents_stored iv (c.storedAuth iv header body) hsections
  have hsections' := c.hasSections_stored iv (c.storedAuth iv header body) hsections
  have hverifies := c.verifies_stored iv hsections
  generalize hH : ({ storedHeader iv header with cryptAuth := c.storedAuth iv header body } :
    CloudlogHeader) = header₁ at hstored hcontents hsections' hverifies
  generalize c.storedBody iv header body = body₁ at hstored hcontents hsections' hverifies
  subst hstored
  -- the modified block agrees with the stored one in what is authenticated
  rcases Crypt.cryptBlockDecrypt_cases hon hleft with ⟨hmagic, hverified, hdecrypted⟩
  replace hverified := hverified.mp rfl
  obtain rfl := hdecrypted rfl
  have hcode : c.Verifies modified := hverified.resolve_right (by simp)
  rw [Crypt.Verifies, hauth] at hcode
  have hspan := hcollision (hcode.trans hverifies.symm)
  have hmodified := @block_eq modified (by
    rw [hlen, length_append, CloudlogHeader.length_toBytes]
    omega)
  generalize CloudlogHeader.ofBytes modified = header₂ at hmodified hmagic
  generalize modified.drop cloudlogHeaderSize = body₂ at hmodified
  subst hmodified
  have hlen' : body₂.length = body₁.length := by
    simpa using hlen
  unfold blockSpan at hspan
  simp only [CloudlogHeader.ofBytes_append, drop_header] at hspan
  rcases eq_of_blockSpan hsections' hlen' hspan with ⟨hheader, hbody⟩
  have hplain := c.itemContents_decrypted header₂.magic header₂.cryptAuth hsections' hlen' hbody
  rw [← hheader] at hplain
  have hdata := congrArg ItemContents.data hcontents
  rw [itemContents_append] at hdata
  simp only [ItemContents.withData] at hdata
  rw [hplain, hcontents, ItemContents.withData_withData, ItemContents.withData_eq_iff, hdata]
  have hplaindata : (itemContents (header.toBytes ++ body)).data =
      body.take header.size1.toNat := by
    rw [itemContents_append]
  have hplaintype : (itemContents (header.toBytes ++ body)).type = header.type := by
    rw [itemContents_append]
  unfold isEncrypted Crypt.LeavesData
  simp only [CloudlogHeader.ofBytes_append, hplaindata, hplaintype, ← hH]
  have hne : cloudlogMagic ≠ cloudlogMagicEncrypted := by decide
  unfold storedHeader
  split_ifs with henc hneeds hneeds
  · simpa [henc] using hinv iv _
  · simp [henc, hne]
  · simp [henc]
  · simp [henc, hne]

/-- An inode with one link, before encryption. -/
def sealedBlock : Bytes :=
  LogItem.cloudRecord
    { type := .inode, id := 7, inum := 2, data := [0x68, 0x69]
      links := [some ⟨9, ⟨0, 1, 0, 120⟩⟩] }
    cloudlogMagic ⟨0, 0⟩

/-- The inode as it is stored. -/
def storedBlock : Bytes :=
  (toyCrypt.cryptBlockEncrypt 1 sealedBlock).getD []

/-- The stored inode after the cleaner has moved its block. -/
def relocatedBlock : Bytes :=
  storedBlock.take 107 ++ CloudPointer.toBytes ⟨1, 5, 0, 120⟩

/-- Only the location of a link is changed. -/
theorem decrypt_preserves_iff_relocated :
    relocatedBlock ≠ storedBlock ∧
      itemContents (toyCrypt.decrypted relocatedBlock) = itemContents sealedBlock := by
  refine ⟨by decide +kernel, ?_⟩
  refine (@decrypt_preserves_iff toyCrypt rfl toyCrypt_inverts 1 sealedBlock storedBlock
    relocatedBlock (toyCrypt.decrypted relocatedBlock) ?_ ?_ ?_ ?_ ?_ ?_).mpr ?_
  · decide +kernel
  · decide +kernel
  · decide +kernel
  · exact fun _ => by decide +kernel
  · decide +kernel
  · decide +kernel
  · exact Or.inl (by decide +kernel)

/-- The stored inode with the magic number of an item that is not encrypted. -/
def exchangedBlock : Bytes :=
  storedBlock.set 3 0x2d

/-- A block with the other magic number is accepted, and its data is taken as it is stored. -/
theorem exchanged_magic_accepted :
    toyCrypt.Inverts ∧ toyCrypt.cryptBlockEncrypt 1 sealedBlock = some storedBlock ∧
      exchangedBlock.length = storedBlock.length ∧
      blockSpan exchangedBlock = blockSpan storedBlock ∧
      toyCrypt.cryptBlockDecrypt exchangedBlock false = some (exchangedBlock, true) ∧
      (itemContents exchangedBlock).data ≠ (itemContents sealedBlock).data := by
  refine ⟨toyCrypt_inverts, ?_⟩
  decide +kernel

end BlueSky

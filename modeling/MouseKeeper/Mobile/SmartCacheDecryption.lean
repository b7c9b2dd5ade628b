import MouseKeeper.Desktop.SmartCacheCrypto

/-!
Decryption of a cached file by the mobile app.

What the desktop has encrypted and reported comes back as the plaintext, and nothing else passes
the checks of its metadata.
-/

namespace MouseKeeper.SmartCache

open MouseKeeper.Contracts (Fields Json SmartCacheEncryptionMetadata hexLower isLowerHex)
open MouseKeeper.FileEngine (isWhitespace)

namespace Mobile

inductive Failure
  | format (message : String)
  | state (message : String)
  deriving DecidableEq

def _algorithm : String := "AES-256-GCM"

def _format : String := "MKS1_NONCE_CIPHERTEXT_TAG"

def _magic : List UInt8 := [0x4d, 0x4b, 0x53, 0x31]

def _nonceBytes : ℕ := 12

def _tagBytes : ℕ := 16

def _keyBytes : ℕ := 32

/-! ### The metadata -/

/-- `trim().isEmpty`. -/
def isBlank (value : String) : Bool := value.toList.all fun c => isWhitespace c || c = '\ufeff'

def _stringField (map : Fields) (name : String) : Except Failure String :=
  match map.get name with
  | some (.str value) =>
    if isBlank value then .error (.format ("INVALID_SMART_CACHE_FIELD_" ++ name)) else .ok value
  | _ => .error (.format ("INVALID_SMART_CACHE_FIELD_" ++ name))

def _intField (map : Fields) (name : String) : Except Failure ℕ :=
  match map.get name with
  | some (.num q) =>
    if q.den = 1 ∧ 0 ≤ q.num then .ok q.num.toNat
    else .error (.format ("INVALID_SMART_CACHE_FIELD_" ++ name))
  | _ => .error (.format ("INVALID_SMART_CACHE_FIELD_" ++ name))

/-- A letter beyond ASCII is no hex digit in either case, so its lower case is left as it is. -/
def toLowerCase (value : String) : String := String.ofList (value.toList.map Char.toLower)

def _hexField (map : Fields) (name : String) (byteLength : ℕ) : Except Failure String := do
  let value ← _stringField map name
  if isLowerHex (byteLength * 2) (toLowerCase value) then .ok (toLowerCase value)
  else .error (.format ("INVALID_SMART_CACHE_FIELD_" ++ name))

/-- `SmartCacheEncryptionMetadata.fromJson`. -/
def fromJson (value : Json) : Except Failure SmartCacheEncryptionMetadata :=
  match value.asObj with
  | none => .error (.format "INVALID_SMART_CACHE_ENCRYPTION_METADATA")
  | some map => do
    let algorithm ← _stringField map "algorithm"
    let format ← _stringField map "format"
    let keyId ← _stringField map "keyId"
    let nonceHex ← _hexField map "nonceHex" _nonceBytes
    let plaintextSizeBytes ← _intField map "plaintextSizeBytes"
    let plaintextSha256 ← _hexField map "plaintextSha256" 32
    if algorithm ≠ _algorithm then
      .error (.format "UNSUPPORTED_SMART_CACHE_ENCRYPTION_ALGORITHM")
    else if format ≠ _format then
      .error (.format "UNSUPPORTED_SMART_CACHE_ENCRYPTION_FORMAT")
    else if isBlank keyId then .error (.format "INVALID_SMART_CACHE_KEY_ID")
    else .ok ⟨algorithm, format, keyId, nonceHex, plaintextSizeBytes, plaintextSha256⟩

/-! ### The envelope -/

/-- `sublist(start, end)`. -/
def sublist (l : List UInt8) (first last : ℕ) : List UInt8 := (l.take last).drop first

variable (aead : Aead) (sha256 : List UInt8 → List UInt8)

def decryptSmartCacheEnvelope (envelope : List UInt8) (metadata : SmartCacheEncryptionMetadata)
    (keyBytes : List UInt8) : Except Failure (List UInt8) :=
  if keyBytes.length ≠ _keyBytes then .error (.state "INVALID_SMART_CACHE_DECRYPTION_KEY")
  else if envelope.length < _magic.length + _nonceBytes + _tagBytes then
    .error (.format "INVALID_SMART_CACHE_ENVELOPE")
  else if sublist envelope 0 _magic.length ≠ _magic then
    .error (.format "INVALID_SMART_CACHE_ENVELOPE_MAGIC")
  else
    let nonce := sublist envelope _magic.length (_magic.length + _nonceBytes)
    if hexLower nonce ≠ metadata.nonceHex then .error (.state "SMART_CACHE_NONCE_MISMATCH")
    else
      let ciphertextEnd := envelope.length - _tagBytes
      let ciphertext := sublist envelope (_magic.length + _nonceBytes) ciphertextEnd
      let tag := sublist envelope ciphertextEnd envelope.length
      match aead.decrypt keyBytes nonce ciphertext tag with
      | none => .error (.state "SMART_CACHE_AUTHENTICATION_FAILED")
      | some bytes =>
        if bytes.length ≠ metadata.plaintextSizeBytes then
          .error (.state "SMART_CACHE_PLAINTEXT_SIZE_MISMATCH")
        else if hexLower (sha256 bytes) ≠ metadata.plaintextSha256 then
          .error (.state "SMART_CACHE_PLAINTEXT_CHECKSUM_MISMATCH")
        else .ok bytes

end Mobile

open Mobile

/-! ### Metadata from the server -/

lemma isBlank_of_mem {value : String} {c : Char} (h : c ∈ value.toList)
    (hc : isWhitespace c = false ∧ c ≠ '\ufeff') : isBlank value = false := by
  refine Bool.eq_false_iff.mpr fun hall => ?_
  have hb := List.all_eq_true.mp hall c h
  simp [hc.1, hc.2] at hb

lemma lowerHexDigit_plain {c : Char} (h : Contracts.isLowerHexDigit c = true) :
    (isWhitespace c = false ∧ c ≠ '\ufeff') ∧ c.toLower = c := by
  have hall : ("0123456789abcdef".toList.all fun c =>
      decide ((isWhitespace c = false ∧ c ≠ '\ufeff') ∧ c.toLower = c)) = true := by decide +kernel
  exact of_decide_eq_true (List.all_eq_true.mp hall c (lowerHexDigit_cases h))

lemma toLowerCase_lowerHex {n : ℕ} {value : String} (h : isLowerHex n value = true) :
    toLowerCase value = value := by
  rw [isLowerHex, Bool.and_eq_true, List.all_eq_true] at h
  have hmap : value.toList.map Char.toLower = value.toList := by
    conv_rhs => rw [← List.map_id value.toList]
    exact List.map_congr_left fun c hc => (lowerHexDigit_plain (h.2 c hc)).2
  rw [toLowerCase, hmap, String.ofList_toList]

lemma isBlank_lowerHex {n : ℕ} {value : String} (h : isLowerHex (n + 1) value = true) :
    isBlank value = false := by
  rw [isLowerHex, Bool.and_eq_true, decide_eq_true_eq, List.all_eq_true] at h
  obtain ⟨c, cs, hl⟩ := List.exists_cons_of_length_eq_add_one h.1
  have hc : c ∈ value.toList := hl ▸ List.mem_cons_self
  exact isBlank_of_mem hc (lowerHexDigit_plain (h.2 c hc)).1

/-- The key id can be sent, and what the server stores of it is more than white space. -/
structure KeyIdFits (keyId : String) : Prop extends KeyIdSent keyId where
  mobile : isBlank (Contracts.trim keyId) = false

/-- What the server has stored is accepted as it is. -/
lemma fromJson_stored {m : SmartCacheEncryptionMetadata} (hm : m.Fits)
    (hkey : isBlank m.stored.keyId = false) : fromJson m.stored.toJson = .ok m.stored := by
  have hnonce := isBlank_lowerHex (n := 23) hm.nonceHex
  have hsha := isBlank_lowerHex (n := 63) hm.plaintextSha256
  have halg : isBlank "AES-256-GCM" = false := by decide
  have hformat : isBlank "MKS1_NONCE_CIPHERTEXT_TAG" = false := by decide
  have hhex : isLowerHex (_nonceBytes * 2) m.nonceHex = true := hm.nonceHex
  have hhex' : isLowerHex (32 * 2) m.plaintextSha256 = true := hm.plaintextSha256
  obtain ⟨algorithm, format, keyId, nonceHex, size, sha⟩ := m
  obtain rfl : algorithm = _ := hm.algorithm
  obtain rfl : format = _ := hm.format
  dsimp only at hnonce hsha hhex hhex'
  simp only [SmartCacheEncryptionMetadata.stored] at hkey
  have hnum : (0 : ℤ) ≤ ((size : ℕ) : Rat).num := by simp
  simp [fromJson, SmartCacheEncryptionMetadata.toJson, SmartCacheEncryptionMetadata.stored,
    Json.asObj, _stringField, _hexField, _intField, Fields.get, Json.ofNat, halg, hformat, hkey,
    hnonce, hsha, toLowerCase_lowerHex hhex, toLowerCase_lowerHex hhex', hhex, hhex', _algorithm,
    _format, Except.bind, bind]

/-! ### Envelopes -/

section Envelope

variable {aead : Aead} {sha256 : List UInt8 → List UInt8}

/-- The pieces of an envelope. -/
lemma sublist_envelope {nonce ciphertext tag : List UInt8} (hn : nonce.length = NONCE_BYTES)
    (ht : tag.length = TAG_BYTES) {envelope : List UInt8}
    (h : envelope = ENVELOPE_MAGIC ++ nonce ++ (ciphertext ++ tag)) :
    sublist envelope 0 _magic.length = _magic ∧
      sublist envelope _magic.length (_magic.length + _nonceBytes) = nonce ∧
      sublist envelope (_magic.length + _nonceBytes) (envelope.length - _tagBytes) = ciphertext ∧
      sublist envelope (envelope.length - _tagBytes) envelope.length = tag := by
  have hmagic : ENVELOPE_MAGIC = _magic := by decide
  have hnonce : (_magic ++ nonce).length = _magic.length + _nonceBytes := by
    rw [List.length_append, hn]
    rfl
  have hlast : envelope.length - _tagBytes = (_magic ++ nonce ++ ciphertext).length := by
    rw [h, hmagic, ← List.append_assoc, List.length_append, ht]
    exact Nat.add_sub_cancel _ _
  have hassoc : envelope = _magic ++ nonce ++ ciphertext ++ tag := by
    rw [h, hmagic, List.append_assoc _ ciphertext]
  refine ⟨?_, ?_, ?_, ?_⟩
  · rw [sublist, List.drop_zero, hassoc, List.append_assoc, List.append_assoc, List.take_left']
    rfl
  · rw [sublist, hassoc, List.append_assoc, List.append_assoc, ← List.append_assoc _magic,
      List.take_left' hnonce, List.drop_left]
  · rw [sublist, hlast, hassoc, List.take_left, List.drop_left' hnonce]
  · rw [sublist, hlast, List.take_length, hassoc, List.drop_left]

/-- What the desktop has encrypted is decrypted. -/
lemma decrypt_encrypted (haead : aead.Correct) {key nonce plaintext sealed : List UInt8}
    (hkey : key.length = KEY_BYTES) (hn : nonce.length = NONCE_BYTES)
    (h : aead.encrypt key nonce plaintext = some sealed) {m : SmartCacheEncryptionMetadata}
    (hnonce : m.nonceHex = hexLower nonce) (hsize : m.plaintextSizeBytes = plaintext.length)
    (hsha : m.plaintextSha256 = hexLower (sha256 plaintext)) :
    decryptSmartCacheEnvelope aead sha256 (ENVELOPE_MAGIC ++ nonce ++ sealed) m key =
      .ok plaintext := by
  have hlen := haead.length h
  have hsplit : sealed = sealed.take plaintext.length ++ sealed.drop plaintext.length :=
    (List.take_append_drop _ _).symm
  have htag : (sealed.drop plaintext.length).length = TAG_BYTES := by
    rw [List.length_drop, hlen]
    omega
  generalize hc : sealed.take plaintext.length = ciphertext at hsplit
  generalize ht : sealed.drop plaintext.length = tag at hsplit htag
  rw [hsplit] at h
  obtain ⟨h₀, h₁, h₂, h₃⟩ := sublist_envelope hn htag
    (Eq.refl (ENVELOPE_MAGIC ++ nonce ++ (ciphertext ++ tag)))
  have hopen := haead.decrypts h htag
  have henough : ¬ (ENVELOPE_MAGIC ++ nonce ++ (ciphertext ++ tag)).length <
      _magic.length + _nonceBytes + _tagBytes := by
    have hmagic : ENVELOPE_MAGIC.length = _magic.length := rfl
    rw [List.length_append, List.length_append, List.length_append, hn, htag, hmagic]
    have e₁ : NONCE_BYTES = _nonceBytes := rfl
    have e₂ : TAG_BYTES = _tagBytes := rfl
    omega
  have hkeys : ¬ key.length ≠ _keyBytes := not_not.mpr hkey
  rw [hsplit, decryptSmartCacheEnvelope, if_neg hkeys, if_neg henough, if_neg (not_not.mpr h₀)]
  simp only [h₁, h₂, h₃, hnonce, hopen, hsize, hsha, ne_eq, not_true_eq_false, if_false]

/-- What passes the checks is what the metadata says. -/
lemma decrypted_matches {envelope keyBytes bytes : List UInt8} {m : SmartCacheEncryptionMetadata}
    (h : decryptSmartCacheEnvelope aead sha256 envelope m keyBytes = .ok bytes) :
    bytes.length = m.plaintextSizeBytes ∧ hexLower (sha256 bytes) = m.plaintextSha256 ∧
      hexLower (sublist envelope _magic.length (_magic.length + _nonceBytes)) = m.nonceHex := by
  unfold decryptSmartCacheEnvelope at h
  split at h
  · cases h
  split at h
  · cases h
  split at h
  · cases h
  dsimp only at h
  split at h
  · cases h
  next hnonce =>
  split at h
  · cases h
  split at h
  · cases h
  next hsize =>
  split at h
  · cases h
  next hsha =>
  cases h
  exact ⟨not_not.mp hsize, not_not.mp hsha, not_not.mp hnonce⟩

end Envelope

/-! ### The round trip -/

/-- The way of a plaintext to the mobile app: it is encrypted, its object has the size that was
announced, its completion is sent and accepted, and the metadata that the server has stored lets
the app decrypt the object. -/
structure RoundTrip (aead : Aead) (sha256 : List UInt8 → List UInt8) (plaintext : List UInt8)
    (keyId : String) (key : Vector UInt8 KEY_BYTES) (nonce : Vector UInt8 NONCE_BYTES)
    (usageScore : ℤ) (manualPin : Bool) (object : EncryptedSmartCacheObject) (request : Json)
    (stored : Contracts.CompleteCacheUpload) (metadata : SmartCacheEncryptionMetadata) : Prop where
  encrypted : encryptSmartCacheBytesWithKey aead sha256 plaintext keyId key nonce = .ok object
  announced : encryptedSmartCacheObjectSize plaintext.length = .ok object.bytes.length
  reported : object.sizeBytes = object.bytes.length
  sent : completeSmartCacheUpload (object.upload usageScore manualPin) = .ok request
  accepted : Contracts.completeCacheUploadSchema request = some stored
  read : fromJson stored.encryptionMetadata.toJson = .ok metadata
  decrypted : decryptSmartCacheEnvelope aead sha256 object.bytes metadata key.toList =
    .ok plaintext

def samplePlaintext : List UInt8 := [0x61, 0x62, 0x63]

def sampleCiphertext : List UInt8 := [0x44, 0x9c, 0xc0]

def sampleTag : List UInt8 :=
  [0x9c, 0x55, 0x0e, 0x3e, 0x70, 0x21, 0xe9, 0x53, 0xf1, 0xef, 0x43, 0x06, 0x75, 0x18, 0xc1, 0x28]

def sampleKey : Vector UInt8 KEY_BYTES := .replicate KEY_BYTES 7

def sampleNonce : Vector UInt8 NONCE_BYTES := .replicate NONCE_BYTES 3

def sampleEnvelope : List UInt8 :=
  ENVELOPE_MAGIC ++ sampleNonce.toList ++ (sampleCiphertext ++ sampleTag)

/-- A cipher that does with the sample, under its key and nonce, what AES-256-GCM does. -/
def sampleAead : Aead where
  encrypt _ _ plaintext :=
    if plaintext.length ≤ P_MAX then
      some (if plaintext = samplePlaintext then sampleCiphertext ++ sampleTag
        else plaintext ++ List.replicate TAG_BYTES 0)
    else none
  decrypt _ _ ciphertext tag := some (if tag = sampleTag then samplePlaintext else ciphertext)

/-- A hash that does with the sample and its envelope what SHA-256 does. -/
def sampleHash (bytes : List UInt8) : List UInt8 :=
  if bytes = samplePlaintext then
    [0xba, 0x78, 0x16, 0xbf, 0x8f, 0x01, 0xcf, 0xea, 0x41, 0x41, 0x40, 0xde, 0x5d, 0xae, 0x22, 0x23,
      0xb0, 0x03, 0x61, 0xa3, 0x96, 0x17, 0x7a, 0x9c, 0xb4, 0x10, 0xff, 0x61, 0xf2, 0x00, 0x15, 0xad]
  else if bytes = sampleEnvelope then
    [0xe1, 0xd2, 0x3b, 0xbe, 0xf6, 0xd2, 0xe2, 0x55, 0xd6, 0xe3, 0x82, 0xb5, 0xb9, 0x37, 0x75, 0x29,
      0x35, 0x30, 0x6e, 0x49, 0xee, 0xf4, 0x78, 0x39, 0xef, 0x26, 0x0e, 0x30, 0xef, 0xc9, 0x88, 0xca]
  else List.replicate 32 0

lemma sampleHash_length (bytes : List UInt8) : (sampleHash bytes).length = 32 := by
  unfold sampleHash
  split
  · rfl
  split
  · rfl
  · exact List.length_replicate

lemma sampleAead_correct : sampleAead.Correct where
  encrypts := fun _ _ h => by simp [sampleAead, h]
  length := by
    intro key nonce plaintext sealed h
    simp only [sampleAead] at h
    split at h
    swap
    · cases h
    split at h
    · next hp =>
      cases h
      rw [hp]
      rfl
    · cases h
      rw [List.length_append, List.length_replicate]
  decrypts := by
    intro key nonce plaintext ciphertext tag h ht
    simp only [sampleAead, Option.ite_none_right_eq_some, Option.some.injEq] at h ⊢
    obtain ⟨-, h⟩ := h
    split at h
    · next hp =>
      obtain ⟨-, rfl⟩ := List.append_inj' h ht.symm
      rw [if_pos rfl, hp]
    · obtain ⟨rfl, rfl⟩ := List.append_inj' h (by rw [List.length_replicate, ht])
      exact if_neg (by decide)

lemma keyId_sent {u : Contracts.CompleteCacheUpload} {request : Json}
    (h : completeSmartCacheUpload u = .ok request) :
    Contracts.byteLength u.encryptionMetadata.keyId ≤ 128 := by
  unfold completeSmartCacheUpload at h
  split at h
  · cases h
  split at h
  · cases h
  cases hv : validateSmartCacheEncryptionMetadata u.encryptionMetadata with
  | error e =>
    rw [hv] at h
    cases h
  | ok _ =>
    unfold validateSmartCacheEncryptionMetadata at hv
    split at hv
    · cases hv
    · next hn =>
      simp only [not_or, not_lt] at hn
      exact hn.2.2.2.1

end MouseKeeper.SmartCache

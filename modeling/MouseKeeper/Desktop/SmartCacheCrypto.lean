import MouseKeeper.Contracts.SmartCache
import MouseKeeper.FileEngine.FileIndex

/-!
Encryption of a file for the smart cache, and the report of its upload to the server.

The cipher and the hash come from other packages and are parameters, as is what they promise.
-/

namespace MouseKeeper.SmartCache

open MouseKeeper.Contracts (SmartCacheEncryptionMetadata CompleteCacheUpload byteLength hexLower
  isLowerHex)
open MouseKeeper.FileEngine (trim)

/-! ### The cipher -/

/-- AES-256-GCM: sealing a plaintext under a key and a nonce, with the tag after the ciphertext,
and opening a ciphertext with its tag. -/
structure Aead where
  encrypt : List UInt8 → List UInt8 → List UInt8 → Option (List UInt8)
  decrypt : List UInt8 → List UInt8 → List UInt8 → List UInt8 → Option (List UInt8)

def KEY_BYTES : ℕ := 32

def NONCE_BYTES : ℕ := 12

def TAG_BYTES : ℕ := 16

/-- The longest plaintext of the cipher. -/
def P_MAX : ℕ := 2 ^ 36

structure Aead.Correct (aead : Aead) : Prop where
  encrypts : ∀ {key nonce plaintext}, key.length = KEY_BYTES → nonce.length = NONCE_BYTES →
    plaintext.length ≤ P_MAX → (aead.encrypt key nonce plaintext).isSome
  length : ∀ {key nonce plaintext sealed}, aead.encrypt key nonce plaintext = some sealed →
    sealed.length = plaintext.length + TAG_BYTES
  decrypts : ∀ {key nonce plaintext ciphertext tag},
    aead.encrypt key nonce plaintext = some (ciphertext ++ tag) → tag.length = TAG_BYTES →
    aead.decrypt key nonce ciphertext tag = some plaintext

/-! ### Encryption -/

/-- `b"MKS1"`. -/
def ENVELOPE_MAGIC : List UInt8 := ['M', 'K', 'S', '1'].map fun c => UInt8.ofNat c.toNat

def SMART_CACHE_ENCRYPTION_ALGORITHM : String := "AES-256-GCM"

def SMART_CACHE_ENCRYPTION_FORMAT : String := "MKS1_NONCE_CIPHERTEXT_TAG"

structure EncryptedSmartCacheObject where
  bytes : List UInt8
  sizeBytes : ℕ
  sha256 : String
  metadata : SmartCacheEncryptionMetadata
  deriving DecidableEq

def checkedAdd (a b : ℕ) : Option ℕ := if a + b < 2 ^ 64 then some (a + b) else none

def encryptedSmartCacheObjectSize (plaintextSizeBytes : ℕ) : Except String ℕ :=
  match ((checkedAdd plaintextSizeBytes ENVELOPE_MAGIC.length).bind (checkedAdd · NONCE_BYTES)).bind
      (checkedAdd · TAG_BYTES) with
  | some size => .ok size
  | none => .error "smart cache object size overflow"

variable (aead : Aead) (sha256 : List UInt8 → List UInt8)

/-- The object around a ciphertext with its tag. -/
def objectOf (plaintext : List UInt8) (keyId : String) (nonce ciphertextAndTag : List UInt8) :
    EncryptedSmartCacheObject :=
  let bytes := ENVELOPE_MAGIC ++ nonce ++ ciphertextAndTag
  { bytes := bytes
    sizeBytes := bytes.length
    sha256 := hexLower (sha256 bytes)
    metadata := {
      algorithm := SMART_CACHE_ENCRYPTION_ALGORITHM
      format := SMART_CACHE_ENCRYPTION_FORMAT
      keyId := keyId
      nonceHex := hexLower nonce
      plaintextSizeBytes := plaintext.length
      plaintextSha256 := hexLower (sha256 plaintext) } }

def encryptSmartCacheBytesWithKey (plaintext : List UInt8) (keyId : String)
    (key : Vector UInt8 KEY_BYTES) (nonce : Vector UInt8 NONCE_BYTES) :
    Except String EncryptedSmartCacheObject :=
  if byteLength (trim keyId) < 16 then .error "smart cache encryption key id is too short"
  else
    match aead.encrypt key.toList nonce.toList plaintext with
    | none => .error "smart cache encryption failed"
    | some ciphertextAndTag => .ok (objectOf sha256 plaintext keyId nonce.toList ciphertextAndTag)

/-! ### The completion request -/

def isAsciiHexdigit (c : Char) : Bool :=
  c.isDigit || ('a' ≤ c && c ≤ 'f') || ('A' ≤ c && c ≤ 'F')

def isValidSha256 (value : String) : Bool :=
  byteLength value = 64 &&
    value.toList.all fun c => isAsciiHexdigit c && !('A' ≤ c && c ≤ 'Z')

def validateSmartCacheEncryptionMetadata (m : SmartCacheEncryptionMetadata) : Except String Unit :=
  if m.algorithm ≠ SMART_CACHE_ENCRYPTION_ALGORITHM ∨ m.format ≠ SMART_CACHE_ENCRYPTION_FORMAT ∨
      byteLength (trim m.keyId) < 16 ∨ 128 < byteLength m.keyId ∨ byteLength m.nonceHex ≠ 24 ∨
      ¬ m.nonceHex.toList.all isAsciiHexdigit ∨ m.plaintextSizeBytes = 0 ∨
      byteLength m.plaintextSha256 ≠ 64 ∨ ¬ m.plaintextSha256.toList.all isAsciiHexdigit then
    .error "smart cache encryption metadata failed response validation"
  else .ok ()

/-- The body that `complete_smart_cache_upload` sends. -/
def completeSmartCacheUpload (upload : CompleteCacheUpload) : Except String Contracts.Json :=
  if upload.sizeBytes = 0 then .error "completed smart cache upload sizeBytes must be positive"
  else if ¬ isValidSha256 upload.sha256 then
    .error "file transfer sha256 must be 64 lowercase hex characters"
  else do
    validateSmartCacheEncryptionMetadata upload.encryptionMetadata
    .ok upload.toJson

/-- The report of the object, with the score and the pin of its file. -/
def EncryptedSmartCacheObject.upload (object : EncryptedSmartCacheObject) (usageScore : ℤ)
    (manualPin : Bool) : CompleteCacheUpload :=
  ⟨object.sizeBytes, object.sha256, usageScore, manualPin, object.metadata⟩

/-! ### What is announced and sent -/

/-- The key id is long enough for the desktop and the server, and short enough to be sent. -/
structure KeyIdSent (keyId : String) : Prop where
  desktop : 16 ≤ byteLength (trim keyId)
  server : 16 ≤ Contracts.length (Contracts.trim keyId)
  max : byteLength keyId ≤ 128

lemma size_eq {n : ℕ} (h : n ≤ P_MAX) :
    encryptedSmartCacheObjectSize n = .ok (4 + 12 + (n + 16)) := by
  have hmax : P_MAX = 2 ^ 36 := rfl
  have hmagic : ENVELOPE_MAGIC.length = 4 := rfl
  have hnonce : NONCE_BYTES = 12 := rfl
  have htag : TAG_BYTES = 16 := rfl
  have h₁ : n + 4 < 2 ^ 64 := by omega
  have h₂ : n + 4 + 12 < 2 ^ 64 := by omega
  have hsum : n + 4 + 12 + 16 = 4 + 12 + (n + 16) := by omega
  have h₃ : 4 + 12 + (n + 16) < 2 ^ 64 := by omega
  simp only [encryptedSmartCacheObjectSize, hmagic, hnonce, htag, checkedAdd, if_pos h₁,
    Option.bind_some, if_pos h₂, hsum, if_pos h₃]

lemma lowerHexDigit_cases {c : Char} (h : Contracts.isLowerHexDigit c = true) :
    c ∈ "0123456789abcdef".toList := by
  have hall : ∀ n < 128, Contracts.isLowerHexDigit (Char.ofNat n) = true →
      Char.ofNat n ∈ "0123456789abcdef".toList := by decide +kernel
  have hlt : c.toNat < 128 := by
    have hle : ∀ d : Char, c ≤ d → c.toNat ≤ d.toNat := fun d hd => hd
    rw [Contracts.isLowerHexDigit, Bool.or_eq_true, Bool.and_eq_true, decide_eq_true_eq,
      decide_eq_true_eq, Char.isDigit, Bool.and_eq_true, decide_eq_true_eq, decide_eq_true_eq] at h
    rcases h with ⟨-, h⟩ | ⟨-, h⟩
    · exact lt_of_le_of_lt (hle '9' h) (by decide)
    · exact lt_of_le_of_lt (hle 'f' h) (by decide)
  have hc := hall c.toNat hlt
  rw [Char.ofNat_toNat] at hc
  exact hc h

/-- A digit of lower case takes one byte, and the desktop knows it. -/
lemma lowerHexDigit_ascii {c : Char} (h : Contracts.isLowerHexDigit c = true) :
    c.utf8Size = 1 ∧ isAsciiHexdigit c = true ∧ ('A' ≤ c && c ≤ 'Z') = false := by
  have hall : ("0123456789abcdef".toList.all fun c => decide (c.utf8Size = 1 ∧
      isAsciiHexdigit c = true ∧ ('A' ≤ c && c ≤ 'Z') = false)) = true := by decide +kernel
  exact of_decide_eq_true (List.all_eq_true.mp hall c (lowerHexDigit_cases h))

lemma byteLength_lowerHex {n : ℕ} {value : String} (h : isLowerHex n value = true) :
    byteLength value = n := by
  rw [isLowerHex, Bool.and_eq_true, decide_eq_true_eq, List.all_eq_true] at h
  rw [byteLength, List.map_congr_left fun c hc => (lowerHexDigit_ascii (h.2 c hc)).1]
  simp [h.1]

lemma hexdigits_lowerHex {n : ℕ} {value : String} (h : isLowerHex n value = true) :
    (value.toList.all isAsciiHexdigit = true) ∧
      value.toList.all (fun c => isAsciiHexdigit c && !('A' ≤ c && c ≤ 'Z')) = true := by
  rw [isLowerHex, Bool.and_eq_true, List.all_eq_true] at h
  constructor
  · exact List.all_eq_true.mpr fun c hc => (lowerHexDigit_ascii (h.2 c hc)).2.1
  · refine List.all_eq_true.mpr fun c hc => ?_
    obtain ⟨-, hhex, hupper⟩ := lowerHexDigit_ascii (h.2 c hc)
    rw [hhex, hupper]
    rfl

lemma max_safe : P_MAX ≤ Contracts.Json.MAX_SAFE_INTEGER := by
  unfold P_MAX Contracts.Json.MAX_SAFE_INTEGER
  omega

/-- The metadata of the desktop passes the schema. -/
lemma metadata_fits {plaintext sealed : List UInt8} {keyId : String} {nonce : Vector UInt8 NONCE_BYTES}
    (hhash : ∀ bytes, (sha256 bytes).length = 32) (hne : plaintext ≠ [])
    (hmax : plaintext.length ≤ P_MAX) (hkey : KeyIdSent keyId) :
    (objectOf sha256 plaintext keyId nonce.toList sealed).metadata.Fits where
  algorithm := rfl
  format := rfl
  keyId := by
    refine ⟨hkey.server, ?_⟩
    have hsub : (Contracts.trim keyId).toList.Sublist keyId.toList := by
      rw [Contracts.trim, String.toList_ofList]
      have h := (List.dropWhile_sublist Contracts.isWhiteSpace
        (l := (keyId.toList.dropWhile Contracts.isWhiteSpace).reverse)).reverse
      rw [List.reverse_reverse] at h
      exact h.trans (List.dropWhile_sublist _)
    have hlen : Contracts.length (Contracts.trim keyId) ≤ Contracts.length keyId :=
      (hsub.map _).sum_le_sum fun _ _ => Nat.zero_le _
    exact hlen.trans ((Contracts.length_le_byteLength keyId).trans hkey.max)
  nonceHex := Contracts.isLowerHex_hexLower nonce.length_toList
  size := ⟨List.length_pos_iff.mpr hne, hmax.trans max_safe⟩
  plaintextSha256 := Contracts.isLowerHex_hexLower (hhash plaintext)

lemma validate_metadata {m : SmartCacheEncryptionMetadata} (h : m.Fits) (hkey : KeyIdSent m.keyId) :
    validateSmartCacheEncryptionMetadata m = .ok () := by
  refine if_neg ?_
  have halg : m.algorithm = SMART_CACHE_ENCRYPTION_ALGORITHM := h.algorithm
  have hformat : m.format = SMART_CACHE_ENCRYPTION_FORMAT := h.format
  simp only [halg, hformat, not_lt.mpr hkey.desktop, not_lt.mpr hkey.max,
    byteLength_lowerHex h.nonceHex, byteLength_lowerHex h.plaintextSha256,
    (hexdigits_lowerHex h.nonceHex).1, (hexdigits_lowerHex h.plaintextSha256).1, h.size.1.ne',
    ne_eq, not_true_eq_false, or_self, not_false_eq_true]

/-- What the desktop sends when its metadata and its object are fine. -/
lemma complete_ok {u : CompleteCacheUpload} (hm : u.encryptionMetadata.Fits)
    (hkey : KeyIdSent u.encryptionMetadata.keyId) (hsize : 0 < u.sizeBytes)
    (hsha : isLowerHex 64 u.sha256 = true) : completeSmartCacheUpload u = .ok u.toJson := by
  have hvalid : isValidSha256 u.sha256 = true := by
    rw [isValidSha256, byteLength_lowerHex hsha, (hexdigits_lowerHex hsha).2]
    rfl
  rw [completeSmartCacheUpload, if_neg hsize.ne', if_neg (not_not.mpr hvalid),
    validate_metadata hm hkey]
  rfl

end MouseKeeper.SmartCache

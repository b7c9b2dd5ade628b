import Mathlib.Algebra.Order.BigOperators.Group.List
import Mathlib.Algebra.Order.Group.Nat
import MouseKeeper.Contracts.RuleDefinition

/-!
What the server accepts as the completion of an upload to the smart cache, and how bytes and
lengths are written on all sides.
-/

namespace MouseKeeper.Contracts

/-! ### Bytes as text -/

/-- `{byte:02x}`, and `toRadixString(16).padLeft(2, '0')`. -/
def hexByte (byte : UInt8) : List Char :=
  let digits := Nat.toDigits 16 byte.toNat
  List.replicate (2 - digits.length) '0' ++ digits

def hexLower (bytes : List UInt8) : String := String.ofList (bytes.flatMap hexByte)

/-- `len()` of a Rust string. -/
def byteLength (s : String) : ℕ := (s.toList.map Char.utf8Size).sum

def isLowerHexDigit (c : Char) : Bool := c.isDigit || ('a' ≤ c && c ≤ 'f')

/-- `/^[a-f0-9]{n}$/`. -/
def isLowerHex (n : ℕ) (value : String) : Bool :=
  value.toList.length = n && value.toList.all isLowerHexDigit

lemma hexByte_length (byte : UInt8) : (hexByte byte).length = 2 := by
  have hall : ∀ n < 256, (List.replicate (2 - (Nat.toDigits 16 n).length) '0' ++
      Nat.toDigits 16 n).length = 2 := by decide +kernel
  exact hall byte.toNat byte.toNat_lt

lemma hexByte_digits (byte : UInt8) : ∀ c ∈ hexByte byte, isLowerHexDigit c = true := by
  have hall : ((List.range 256).all fun n => (List.replicate (2 - (Nat.toDigits 16 n).length) '0' ++
      Nat.toDigits 16 n).all isLowerHexDigit) = true := by decide +kernel
  exact List.all_eq_true.mp
    (List.all_eq_true.mp hall byte.toNat (List.mem_range.mpr byte.toNat_lt))

/-- What bytes are written as. -/
lemma isLowerHex_hexLower {bytes : List UInt8} {n : ℕ} (h : bytes.length = n) :
    isLowerHex (2 * n) (hexLower bytes) = true := by
  have hlen : (bytes.flatMap hexByte).length = 2 * bytes.length := by
    rw [List.length_flatMap, List.map_congr_left fun b _ => hexByte_length b]
    simp [Nat.mul_comm]
  rw [isLowerHex, hexLower, String.toList_ofList, hlen, h, Bool.and_eq_true, List.all_eq_true]
  refine ⟨by simp, fun c hc => ?_⟩
  obtain ⟨b, -, hb⟩ := List.mem_flatMap.mp hc
  exact hexByte_digits b c hb

/-- Each code unit takes a byte at least. -/
lemma length_le_byteLength (s : String) : length s ≤ byteLength s := by
  refine List.sum_le_sum fun c _ => ?_
  have hpos := c.utf8Size_pos
  split
  · next hbig =>
    have hone : c.utf8Size ≠ 1 := by
      rw [Ne, Char.utf8Size_eq_one_iff, UInt32.le_iff_toNat_le]
      have hval : c.val.toNat = c.toNat := rfl
      simp only [hval]
      exact fun h => absurd (hbig.trans h) (by decide)
    omega
  · exact hpos

/-! ### The completion -/

structure SmartCacheEncryptionMetadata where
  algorithm : String
  format : String
  keyId : String
  nonceHex : String
  plaintextSizeBytes : ℕ
  plaintextSha256 : String
  deriving DecidableEq

def SmartCacheEncryptionMetadata.toJson (m : SmartCacheEncryptionMetadata) : Json :=
  .obj [("algorithm", .str m.algorithm), ("format", .str m.format), ("keyId", .str m.keyId),
    ("nonceHex", .str m.nonceHex), ("plaintextSizeBytes", .ofNat m.plaintextSizeBytes),
    ("plaintextSha256", .str m.plaintextSha256)]

structure CompleteCacheUpload where
  sizeBytes : ℕ
  sha256 : String
  usageScore : ℤ
  manualPin : Bool
  encryptionMetadata : SmartCacheEncryptionMetadata
  deriving DecidableEq

def CompleteCacheUpload.toJson (u : CompleteCacheUpload) : Json :=
  .obj [("sizeBytes", .ofNat u.sizeBytes), ("sha256", .str u.sha256),
    ("usageScore", .num u.usageScore), ("manualPin", .bool u.manualPin),
    ("encryptionMetadata", u.encryptionMetadata.toJson)]

namespace Json

def asBool : Json → Option Bool
  | .bool b => some b
  | _ => none

/-- `z.number().int()`. -/
def asInt : Json → Option ℤ
  | .num q => if q.den = 1 ∧ q.num.natAbs ≤ MAX_SAFE_INTEGER then some q.num else none
  | _ => none

/-- `z.number().int().positive()`. -/
def asPositive (j : Json) : Option ℕ := do
  let n ← j.asNat
  if 0 < n then some n else none

end Json

/-- `z.literal(value)`. -/
def literal (value : String) (j : Json) : Option String := asStrWith (· = value) j

/-- `z.string().trim().min(16).max(128)`. -/
def keyIdSchema (j : Json) : Option String := do
  let value := trim (← j.asStr)
  if 16 ≤ length value ∧ length value ≤ 128 then some value else none

def smartCacheEncryptionMetadataSchema (j : Json) : Option SmartCacheEncryptionMetadata := do
  let fields ← j.strict
    ["algorithm", "format", "keyId", "nonceHex", "plaintextSizeBytes", "plaintextSha256"]
  let algorithm ← literal "AES-256-GCM" (← fields.get "algorithm")
  let format ← literal "MKS1_NONCE_CIPHERTEXT_TAG" (← fields.get "format")
  let keyId ← keyIdSchema (← fields.get "keyId")
  let nonceHex ← asStrWith (isLowerHex 24) (← fields.get "nonceHex")
  let plaintextSizeBytes ← (← fields.get "plaintextSizeBytes").asPositive
  let plaintextSha256 ← asStrWith (isLowerHex 64) (← fields.get "plaintextSha256")
  some ⟨algorithm, format, keyId, nonceHex, plaintextSizeBytes, plaintextSha256⟩

def completeCacheUploadSchema (j : Json) : Option CompleteCacheUpload := do
  let fields ← j.strict ["sizeBytes", "sha256", "usageScore", "manualPin", "encryptionMetadata"]
  let sizeBytes ← (← fields.get "sizeBytes").asPositive
  let sha256 ← asStrWith (isLowerHex 64) (← fields.get "sha256")
  let usageScore ← (← fields.get "usageScore").asInt
  let manualPin ← (← fields.get "manualPin").asBool
  let metadata ← smartCacheEncryptionMetadataSchema (← fields.get "encryptionMetadata")
  some ⟨sizeBytes, sha256, usageScore, manualPin, metadata⟩

/-! ### What the server makes of a completion -/

/-- The metadata with the key id as the server stores it. -/
def SmartCacheEncryptionMetadata.stored (m : SmartCacheEncryptionMetadata) :
    SmartCacheEncryptionMetadata := { m with keyId := trim m.keyId }

/-- The metadata that passes the schema. -/
structure SmartCacheEncryptionMetadata.Fits (m : SmartCacheEncryptionMetadata) : Prop where
  algorithm : m.algorithm = "AES-256-GCM"
  format : m.format = "MKS1_NONCE_CIPHERTEXT_TAG"
  keyId : 16 ≤ length (trim m.keyId) ∧ length (trim m.keyId) ≤ 128
  nonceHex : isLowerHex 24 m.nonceHex = true
  size : 0 < m.plaintextSizeBytes ∧ m.plaintextSizeBytes ≤ Json.MAX_SAFE_INTEGER
  plaintextSha256 : isLowerHex 64 m.plaintextSha256 = true

lemma asPositive_ofNat {n : ℕ} (h : 0 < n ∧ n ≤ Json.MAX_SAFE_INTEGER) :
    (Json.ofNat n).asPositive = some n := by
  simp [Json.asPositive, Json.ofNat, Json.asNat, h.1, h.2]

lemma asInt_num {z : ℤ} (h : z.natAbs ≤ Json.MAX_SAFE_INTEGER) : (Json.num z).asInt = some z := by
  simp [Json.asInt, h]

lemma asStrWith_str {check : String → Bool} {s : String} (h : check s = true) :
    asStrWith check (.str s) = some s := if_pos h

lemma literal_str {value s : String} (h : s = value) : literal value (.str s) = some s := by
  simp [literal, asStrWith, Json.asStr, h]

lemma metadataSchema_toJson {m : SmartCacheEncryptionMetadata} (h : m.Fits) :
    smartCacheEncryptionMetadataSchema m.toJson = some m.stored := by
  have hstrict : m.toJson.strict ["algorithm", "format", "keyId", "nonceHex", "plaintextSizeBytes",
      "plaintextSha256"] = m.toJson.asObj := rfl
  have hkeyId : keyIdSchema (.str m.keyId) = some (trim m.keyId) := by
    simp only [keyIdSchema, Json.asStr, Option.bind_eq_bind, Option.bind_some, h.keyId, and_self,
      if_true]
  unfold smartCacheEncryptionMetadataSchema
  rw [hstrict]
  simp only [SmartCacheEncryptionMetadata.toJson, Json.asObj, Option.bind_eq_bind,
    Option.bind_some, Fields.get, List.find?_cons_of_pos, List.find?_cons_of_neg, String.reduceEq,
    decide_true, decide_false, not_false_eq_true, Bool.false_eq_true, Option.map_some,
    literal_str h.algorithm, literal_str h.format, hkeyId, asStrWith_str h.nonceHex,
    asPositive_ofNat h.size, asStrWith_str h.plaintextSha256]
  rfl

lemma completeSchema_toJson {u : CompleteCacheUpload} (hm : u.encryptionMetadata.Fits)
    (hsize : 0 < u.sizeBytes ∧ u.sizeBytes ≤ Json.MAX_SAFE_INTEGER)
    (hsha : isLowerHex 64 u.sha256 = true) (hscore : u.usageScore.natAbs ≤ Json.MAX_SAFE_INTEGER) :
    completeCacheUploadSchema u.toJson =
      some { u with encryptionMetadata := u.encryptionMetadata.stored } := by
  simp [completeCacheUploadSchema, CompleteCacheUpload.toJson, Json.strict, Json.asObj, Fields.only,
    Fields.get, asStrWith, Json.asStr, Json.asBool, asPositive_ofNat hsize, hsha, asInt_num hscore,
    metadataSchema_toJson hm]

end MouseKeeper.Contracts

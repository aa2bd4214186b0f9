import TaskScheduler.Lib.Base64
import TaskScheduler.Python.Reload

/-! `KmsEnvelope` of `app/crypto/kms_envelope.py`: bytes sealed with a data key, which KMS wraps, in
a JSON text with fields in Base64. -/

namespace TaskScheduler.Crypto

open Lib

/-! ### KMS and AES-GCM -/

/-- The calls of the boto3 client; a data key is drawn in the clear and wrapped.  Exceptions are
given by their texts. -/
structure Kms where
  generateDataKey : Nat → Except String (Bytes × Bytes)
  decrypt : Bytes → Except String Bytes

/-- `AESGCM`, by the key, the nonce and the data. -/
structure AesGcm where
  encrypt : Bytes → Bytes → Bytes → Except String Bytes
  decrypt : Bytes → Bytes → Bytes → Except String Bytes

/-- `KmsEnvelope`, with its interpreter and `os.urandom`; what is drawn is numbered. -/
structure KmsEnvelope where
  kms : Kms
  aes : AesGcm
  py : Interpreter
  urandom : Nat → Nat → Bytes

/-- KMS returns the data key that it wrapped, and AES-GCM decrypts what it encrypted. -/
structure KmsEnvelope.Lawful (envelope : KmsEnvelope) : Prop where
  unwraps : ∀ draw dek wrapped, envelope.kms.generateDataKey draw = .ok (dek, wrapped) →
    envelope.kms.decrypt wrapped = .ok dek
  opens : ∀ dek nonce plaintext ciphertext,
    envelope.aes.encrypt dek nonce plaintext = .ok ciphertext →
      envelope.aes.decrypt dek nonce ciphertext = .ok plaintext

/-- `DecryptionError`, by the message that it has: `Unknown blob version: {v!r}`,
`Malformed blob: {exc}`, `KMS decrypt failed: {exc}`, or `AES-GCM authentication failed: {exc}`. -/
inductive DecryptionError
  | unknownVersion (v : PyJson)
  | malformed (exc : PyException)
  | kmsDecrypt (exc : String)
  | authentication (exc : String)

/-- How `decrypt` ends: it returns, it raises `DecryptionError`, or another exception leaves it. -/
inductive Outcome
  | returned (plaintext : Bytes)
  | decryptionError (err : DecryptionError)
  | raised (e : PyException)

/-! ### The blob -/

/-- `_VERSION`. -/
def version : PyJson := .int ⟨1, Nat.one_lt_pow (by decide) (by decide)⟩

/-- `_NONCE_BYTES`. -/
def nonceBytes : Nat := 12

/-- `v == _VERSION`: the float is printed as `1.0`, and `True` is the integer, too. -/
def isVersion : PyJson → Bool
  | .int n => n.val == 1
  | .bool b => b
  | .float (.finite literal) => literal.val == "1.0".toList
  | _ => false

/-- `base64.b64encode(bs).decode()`. -/
def b64encode (bs : Bytes) : PyJson := .str ((Base64.encode bs).map codePoint)

/-- `base64.b64decode`: a string has to be ASCII, and nothing else that JSON has is accepted. -/
def b64decode : PyJson → Except PyException Bytes
  | .str s =>
    if s.all fun c => c.val < 0x80 then
      match Base64.decode (s.map fun c => Char.ofNat c.val) with
      | some bs => .ok bs
      | none => .error .valueError
    else .error .valueError
  | _ => .error .typeError

/-- The JSON of a blob. -/
def blobJson (wrappedDek nonce ciphertext : Bytes) : PyJson :=
  .dict [(PyStr.ofString "v", version), (PyStr.ofString "wrapped_dek", b64encode wrappedDek),
    (PyStr.ofString "nonce", b64encode nonce), (PyStr.ofString "ciphertext", b64encode ciphertext)]

/-- The fields of a blob, decoded. -/
def readFields (data : PyJson) : Except PyException (Bytes × Bytes × Bytes) := do
  let wrappedDek ← b64decode (← data.item "wrapped_dek")
  let nonce ← b64decode (← data.item "nonce")
  let ciphertext ← b64decode (← data.item "ciphertext")
  return (wrappedDek, nonce, ciphertext)

/-- The first `try` of `decrypt`: the fields, or the version that is unknown. -/
def readBlob (py : Interpreter) (blob : Bytes) :
    Except PyException (Except PyJson (Bytes × Bytes × Bytes)) := do
  let data ← loads py blob
  let v ← data.get "v" .none
  if isVersion v then (readFields data).map .ok else return .error v

/-- `except (KeyError, ValueError, TypeError)`. -/
def caught : PyException → Bool
  | .keyError | .valueError | .typeError => true
  | _ => false

namespace KmsEnvelope

variable (envelope : KmsEnvelope)

/-- `KmsEnvelope.encrypt`. -/
def encrypt (draw : Nat) (plaintext : Bytes) : Except String Bytes := do
  let (plaintextDek, wrappedDek) ← envelope.kms.generateDataKey draw
  let nonce := envelope.urandom draw nonceBytes
  let ciphertext ← envelope.aes.encrypt plaintextDek nonce plaintext
  return asciiBytes (blobJson wrappedDek nonce ciphertext).dumps

/-- `KmsEnvelope.decrypt`. -/
def decrypt (blob : Bytes) : Outcome :=
  match readBlob envelope.py blob with
  | .error e => if caught e then .decryptionError (.malformed e) else .raised e
  | .ok (.error v) => .decryptionError (.unknownVersion v)
  | .ok (.ok (wrappedDek, nonce, ciphertext)) =>
    match envelope.kms.decrypt wrappedDek with
    | .error exc => .decryptionError (.kmsDecrypt exc)
    | .ok plaintextDek =>
      match envelope.aes.decrypt plaintextDek nonce ciphertext with
      | .error exc => .decryptionError (.authentication exc)
      | .ok plaintext => .returned plaintext

end KmsEnvelope

/-! ### The fields of a blob -/

theorem b64decode_b64encode (bs : Bytes) : b64decode (b64encode bs) = .ok bs := by
  have hascii : (((Base64.encode bs).map codePoint).all fun c => c.val < 0x80) = true := by
    rw [List.all_eq_true]
    intro c hc
    obtain ⟨d, hd, rfl⟩ := List.mem_map.mp hc
    exact decide_eq_true (Base64.encode_ascii bs d hd)
  have hchars : ((Base64.encode bs).map codePoint).map (fun c => Char.ofNat c.val) =
      Base64.encode bs := by
    rw [List.map_map]
    exact (List.map_congr_left fun c _ => Char.ofNat_toNat c).trans (List.map_id _)
  rw [b64encode, b64decode, if_pos hascii, hchars, Base64.decode_encode]

theorem whole_b64encode (bs : Bytes) : (b64encode bs).whole = true := by
  refine whole_of_not_surrogate fun c hc => ?_
  obtain ⟨d, hd, rfl⟩ := List.mem_map.mp hc
  have hlt : (codePoint d).val < 0x80 := Base64.encode_ascii bs d hd
  simp only [surrogate, Bool.and_eq_false_iff, decide_eq_false_iff_not]
  omega

section Blob

variable {py : Interpreter} {wrappedDek nonce ciphertext : Bytes}

/-- The JSON of a blob comes back as it was. -/
theorem loads_blobJson : loads py (asciiBytes (blobJson wrappedDek nonce ciphertext).dumps) =
    .ok (blobJson wrappedDek nonce ciphertext) := by
  have hread : (blobJson wrappedDek nonce ciphertext).FloatsRead py :=
    ⟨trivial, trivial, trivial, trivial, trivial⟩
  have hdepth : (blobJson wrappedDek nonce ciphertext).depth ≤ py.decodeDepth := py.decodeDepth_pos
  have hkeys : ([PyStr.ofString "v", PyStr.ofString "wrapped_dek", PyStr.ofString "nonce",
      PyStr.ofString "ciphertext"] : List PyStr).Nodup := by
    decide
  have hdistinct : (blobJson wrappedDek nonce ciphertext).Distinct :=
    ⟨hkeys, trivial, trivial, trivial, trivial, trivial⟩
  have hwhole : (blobJson wrappedDek nonce ciphertext).whole = true := by
    rw [blobJson, PyJson.whole]
    simp only [wholeFields, whole_b64encode, Bool.and_true]
    decide
  rw [loads_dumps py _ hread hdepth, (reload_eq_iff _ hdistinct).mpr hwhole]

theorem readFields_blobJson : readFields (blobJson wrappedDek nonce ciphertext) =
    .ok (wrappedDek, nonce, ciphertext) := by
  have hwrapped : (blobJson wrappedDek nonce ciphertext).item "wrapped_dek" =
      .ok (b64encode wrappedDek) := rfl
  have hnonce : (blobJson wrappedDek nonce ciphertext).item "nonce" = .ok (b64encode nonce) := rfl
  have hciphertext : (blobJson wrappedDek nonce ciphertext).item "ciphertext" =
      .ok (b64encode ciphertext) := rfl
  simp only [readFields, hwrapped, hnonce, hciphertext, bind, Except.bind, b64decode_b64encode]
  rfl

theorem readBlob_blobJson :
    readBlob py (asciiBytes (blobJson wrappedDek nonce ciphertext).dumps) =
      .ok (.ok (wrappedDek, nonce, ciphertext)) := by
  have hversion : (blobJson wrappedDek nonce ciphertext).get "v" .none = .ok version := rfl
  have hcurrent : isVersion version = true := rfl
  simp only [readBlob, loads_blobJson, bind, Except.bind, hversion, hcurrent, if_true,
    readFields_blobJson]
  rfl

end Blob

/-! ### What leaves the first `try` -/

/-- A computation raises only what is caught. -/
def AllCaught {α : Type} (res : Except PyException α) : Prop :=
  RaisesOnly (fun e => caught e = true) res

theorem b64decode_allCaught (v : PyJson) : AllCaught (b64decode v) := by
  cases v with
  | str s =>
    rw [b64decode]
    split_ifs
    · split
      · exact raisesOnly_ok _
      · exact raisesOnly_error rfl
    · exact raisesOnly_error rfl
  | _ => exact raisesOnly_error rfl

theorem item_allCaught (v : PyJson) (key : String) : AllCaught (v.item key) := by
  unfold PyJson.item
  split
  · split
    · exact raisesOnly_ok _
    · exact raisesOnly_error rfl
  · exact raisesOnly_error rfl

theorem readFields_allCaught (data : PyJson) : AllCaught (readFields data) := by
  unfold readFields
  refine RaisesOnly.bind (item_allCaught _ _) fun v => ?_
  refine RaisesOnly.bind (b64decode_allCaught v) fun wrappedDek => ?_
  refine RaisesOnly.bind (item_allCaught _ _) fun v => ?_
  refine RaisesOnly.bind (b64decode_allCaught v) fun nonce => ?_
  refine RaisesOnly.bind (item_allCaught _ _) fun v => ?_
  exact RaisesOnly.bind (b64decode_allCaught v) fun ciphertext => raisesOnly_ok _

/-- The text is no JSON, or one of an object, and it is not nested too deeply. -/
def Readable (py : Interpreter) (blob : Bytes) : Prop :=
  loads py blob ≠ .error .recursionError ∧
    ∀ data, loads py blob = .ok data → ∃ fields, data = .dict fields

theorem readBlob_allCaught (py : Interpreter) (blob : Bytes) :
    AllCaught (readBlob py blob) ↔ Readable py blob := by
  unfold readBlob Readable
  cases hloads : loads py blob with
  | error e =>
    have hall : AllCaught (.error e : Except PyException (Except PyJson (Bytes × Bytes × Bytes))) ↔
        caught e = true := ⟨fun h => h e rfl, fun h => raisesOnly_error h⟩
    refine hall.trans ?_
    rcases ofLoads_loads py blob e hloads with rfl | rfl <;> simp [caught]
  | ok data =>
    simp only [ne_eq, reduceCtorEq, not_false_eq_true, true_and, Except.ok.injEq, forall_eq']
    constructor
    · intro h
      cases data with
      | dict fields => exact ⟨fields, rfl⟩
      | _ => exact absurd (h .attributeError rfl) (by decide)
    · rintro ⟨fields, rfl⟩
      show AllCaught (if isVersion _ then _ else _)
      split_ifs
      · exact RaisesOnly.map (readFields_allCaught _)
      · exact raisesOnly_ok _

/-! ### The envelope -/

namespace KmsEnvelope

variable {envelope : KmsEnvelope}

/-- What is sealed is opened again. -/
theorem decrypt_encrypt (hlawful : envelope.Lawful) {draw : Nat} {plaintext blob : Bytes}
    (h : envelope.encrypt draw plaintext = .ok blob) :
    envelope.decrypt blob = .returned plaintext := by
  unfold encrypt at h
  cases hkey : envelope.kms.generateDataKey draw with
  | error exc => rw [hkey] at h; cases h
  | ok key =>
    obtain ⟨dek, wrapped⟩ := key
    simp only [hkey, bind, Except.bind] at h
    cases hseal : envelope.aes.encrypt dek (envelope.urandom draw nonceBytes) plaintext with
    | error exc => rw [hseal] at h; cases h
    | ok ciphertext =>
      rw [hseal] at h
      obtain rfl := Except.ok.inj h
      simp only [decrypt, readBlob_blobJson, hlawful.unwraps draw dek wrapped hkey,
        hlawful.opens _ _ _ _ hseal]

/-- What leaves `decrypt` besides `DecryptionError` is what the first `try` does not catch. -/
theorem decrypt_raised (blob : Bytes) :
    (∀ e, envelope.decrypt blob ≠ .raised e) ↔ AllCaught (readBlob envelope.py blob) := by
  unfold decrypt
  cases hread : readBlob envelope.py blob with
  | error e =>
    by_cases he : caught e = true
    · simp only [he, if_true]
      exact iff_of_true nofun (raisesOnly_error he)
    · simp only [he, Bool.false_eq_true, if_false]
      exact ⟨fun h => absurd rfl (h e), fun h => absurd (h e rfl) he⟩
  | ok res =>
    refine iff_of_true ?_ (raisesOnly_ok _)
    cases res with
    | error v => exact nofun
    | ok parts =>
      obtain ⟨wrappedDek, nonce, ciphertext⟩ := parts
      dsimp only
      split
      · exact nofun
      · split <;> exact nofun

/-- `decrypt` returns or raises `DecryptionError` exactly on the readable blobs, whatever KMS and
AES-GCM do; and where these do as they should, it inverts `encrypt`. -/
theorem decrypt_oneFailureMode_iff (envelope : KmsEnvelope) :
    (∀ blob, (∀ e, envelope.decrypt blob ≠ .raised e) ↔ Readable envelope.py blob) ∧
      (envelope.Lawful → ∀ draw plaintext blob, envelope.encrypt draw plaintext = .ok blob →
        envelope.decrypt blob = .returned plaintext) :=
  ⟨fun blob => (decrypt_raised blob).trans (readBlob_allCaught envelope.py blob),
    fun hlawful _ _ _ h => decrypt_encrypt hlawful h⟩

end KmsEnvelope

/-- An envelope that wraps and seals by reversing. -/
def reversingEnvelope : KmsEnvelope where
  kms := ⟨fun draw => .ok ([UInt8.ofNat draw, 7], [7, UInt8.ofNat draw]), fun bs => .ok bs.reverse⟩
  aes := ⟨fun _ _ bs => .ok bs.reverse, fun _ _ bs => .ok bs.reverse⟩
  py := plainInterpreter
  urandom draw n := List.replicate n (UInt8.ofNat draw)

theorem reversingEnvelope_lawful : reversingEnvelope.Lawful where
  unwraps draw dek wrapped h := by
    cases h
    rfl
  opens dek nonce plaintext ciphertext h := by
    obtain rfl := Except.ok.inj h
    exact congrArg Except.ok plaintext.reverse_reverse

/-- A blob that is no JSON, and one that was sealed. -/
theorem reversingEnvelope_oneFailureMode :
    (∀ e, reversingEnvelope.decrypt [0x7b] ≠ .raised e) ∧
      ∀ blob, reversingEnvelope.encrypt 5 [104, 105] = .ok blob →
        reversingEnvelope.decrypt blob = .returned [104, 105] := by
  obtain ⟨honly, hinverse⟩ := KmsEnvelope.decrypt_oneFailureMode_iff reversingEnvelope
  have hbrace : loads plainInterpreter [0x7b] = .error .valueError := rfl
  refine ⟨(honly [0x7b]).mpr ⟨?_, ?_⟩, fun blob h =>
    hinverse reversingEnvelope_lawful 5 [104, 105] blob h⟩
  · show loads plainInterpreter [0x7b] ≠ _
    rw [hbrace]
    exact nofun
  · show ∀ data, loads plainInterpreter [0x7b] = .ok data → _
    rw [hbrace]
    exact nofun

/-- A blob that is a JSON list lets `AttributeError` out. -/
theorem listBlob_raises : reversingEnvelope.decrypt [0x5b, 0x5d] = .raised .attributeError ∧
    ¬∀ blob e, reversingEnvelope.decrypt blob ≠ .raised e := by
  have hlist : loads plainInterpreter [0x5b, 0x5d] = .ok (.list []) := rfl
  have hraised : reversingEnvelope.decrypt [0x5b, 0x5d] = .raised .attributeError := by
    unfold KmsEnvelope.decrypt readBlob
    rw [show reversingEnvelope.py = plainInterpreter from rfl, hlist]
    rfl
  exact ⟨hraised, fun h => h _ _ hraised⟩

end TaskScheduler.Crypto

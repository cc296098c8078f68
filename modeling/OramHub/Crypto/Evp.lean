import OramHub.Crypto.AesCtr

/-! # The AES-CTR wrapper over libcrypto

The wrapper hands buffers of any `size_t` length to functions that take an `int`. libcrypto is
outside the repository and a parameter here.
-/
namespace OramHub.Crypto
open OramHub.Core
set_option autoImplicit false

def kKeySize256 : Nat := 32

/-- `EVP_aes_128_ctr()` and `EVP_aes_256_ctr()`. -/
inductive EvpCipher
  | aes128Ctr
  | aes256Ctr
  deriving DecidableEq, Repr

def EvpCipher.keySize : EvpCipher → Nat
  | .aes128Ctr => kKeySize128
  | .aes256Ctr => kKeySize256

/-- The functions that the wrapper calls. `none` and `false` stand for a result other than 1, and
`encryptUpdate` gives the bytes that are written to the front of the output buffer. -/
structure Evp where
  Context : Type
  encryptInit : EvpCipher → Bytes → Bytes → Option Context
  encryptUpdate : Context → Bytes → Int32 → Option Bytes
  encryptFinal : Context → Bool

/-- `EVP_EncryptUpdate` in counter mode. That a negative length fails is assumed: not every version
of the library rejects it. -/
structure Evp.CounterMode (evp : Evp) (keystream : Bytes → Bytes → Nat → UInt8) : Prop where
  update : ∀ cipher key iv context, evp.encryptInit cipher key iv = some context →
    ∀ (input : Bytes) (inl : Int32), 0 ≤ inl.toInt → inl.toInt ≤ input.length →
      evp.encryptUpdate context input inl =
        some (AesCtr.cipherOperation ⟨key, keystream⟩ (input.take inl.toInt.toNat) iv)
  negative : ∀ context input (inl : Int32), inl.toInt < 0 →
    evp.encryptUpdate context input inl = none

/-- `AES_CTR`: the cipher fits the key. -/
structure CtrCipher where
  key : Bytes
  cipher : EvpCipher
  sized : key.length = cipher.keySize

/-- `static_cast<int>(len)`. -/
def narrow (len : UInt64) : Int32 := len.toUInt32.toInt32

namespace CtrCipher

def construct (key : Bytes) : Except Exception CtrCipher :=
  if h : key.length = kKeySize128 then .ok ⟨key, .aes128Ctr, h⟩
  else if h : key.length = kKeySize256 then .ok ⟨key, .aes256Ctr, h⟩
  else .error (.invalidArgument "Key size must be 16 (AES-128) or 32 (AES-256) bytes")

variable (evp : Evp) (aes : CtrCipher)

/-- The new contents of `output`. In counter mode `EVP_EncryptFinal_ex` has nothing left to write.
-/
def cipherOperation (output input iv : Bytes) : Except Exception Bytes :=
  match evp.encryptInit aes.cipher aes.key iv with
  | none => .error (.runtimeError "Failed to initialize cipher")
  | some context =>
    match evp.encryptUpdate context input (narrow (UInt64.ofNat input.length)) with
    | none => .error (.runtimeError "Failed in cipher operation")
    | some written =>
      if evp.encryptFinal context then .ok (written ++ output.drop written.length)
      else .error (.runtimeError "Failed to finalize cipher")

def encrypt (plaintext iv : Bytes) : Except Exception Bytes :=
  if iv.length ≠ kIVSize then .error (.invalidArgument "IV must be 16 bytes")
  else aes.cipherOperation evp (List.replicate plaintext.length 0) plaintext iv

/-- CTR mode: decrypting is encrypting. -/
def decrypt (ciphertext iv : Bytes) : Except Exception Bytes := aes.encrypt evp ciphertext iv

/-- The buffer is input and output. -/
def encryptInPlace (data iv : Bytes) : Except Exception Bytes :=
  aes.cipherOperation evp data data iv

end CtrCipher

/-- libcrypto accepts the key and the IV, and finishes what it has begun. -/
def Evp.Completes (evp : Evp) (aes : CtrCipher) (iv : Bytes) : Prop :=
  ∃ context, evp.encryptInit aes.cipher aes.key iv = some context ∧ evp.encryptFinal context = true

/-- What `Encrypt` and `EncryptInPlace` return for a plaintext, if they return. -/
structure Lossless (evp : Evp) (keystream : Bytes → Bytes → Nat → UInt8) (aes : CtrCipher)
    (plaintext iv : Bytes) : Prop where
  encrypt : ∀ ciphertext, aes.encrypt evp plaintext iv = .ok ciphertext →
    aes.decrypt evp ciphertext iv = .ok plaintext ∧
    ciphertext = AesCtr.cipherOperation ⟨aes.key, keystream⟩ plaintext iv
  encryptInPlace : ∀ data, aes.encryptInPlace evp plaintext iv = .ok data →
    data = AesCtr.cipherOperation ⟨aes.key, keystream⟩ plaintext iv

/-- The length survives the conversion to `int` or turns negative, or else there is nothing to
encrypt behind the bytes that are left of it. -/
def Covered (evp : Evp) (keystream : Bytes → Bytes → Nat → UInt8) (aes : CtrCipher)
    (plaintext iv : Bytes) : Prop :=
  plaintext.length < 2 ^ 31 ∨ 2 ^ 31 ≤ plaintext.length % 2 ^ 32 ∨ ¬ evp.Completes aes iv ∨
    ∀ i (hi : i < plaintext.length), plaintext.length % 2 ^ 32 ≤ i → plaintext[i] = 0 ∧
    keystream aes.key iv i = 0

section Results

variable {evp : Evp} {keystream : Bytes → Bytes → Nat → UInt8} {aes : CtrCipher}
  {output input plaintext iv : Bytes}

/-- There are no other ciphers than those that the constructor builds. -/
theorem CtrCipher.construct_key : CtrCipher.construct aes.key = .ok aes := by
  obtain ⟨key, cipher, hSized⟩ := aes
  cases cipher with
  | aes128Ctr => exact dif_pos hSized
  | aes256Ctr =>
    have hNe : key.length ≠ kKeySize128 := by rw [hSized]; decide
    exact (dif_neg hNe).trans (dif_pos hSized)

theorem toInt_narrow (len : UInt64) : (narrow len).toInt = (len.toNat : Int).bmod (2 ^ 32) := by
  rw [narrow, Int32.toInt, UInt32.toBitVec_toInt32, BitVec.toInt_eq_toNat_bmod]
  simp [Int.bmod]

theorem toInt_narrow_length (hSize : input.length < 2 ^ 64) :
    (narrow (UInt64.ofNat input.length)).toInt = (input.length : Int).bmod (2 ^ 32) := by
  rw [toInt_narrow, UInt64.toNat_ofNat_of_lt' hSize]

theorem AesCtr.cipherOperation_take (cipher : AesCtr) (input iv : Bytes) (count : Nat) :
    cipher.cipherOperation (input.take count) iv =
      (cipher.cipherOperation input iv).take count := by
  apply List.ext_getElem?
  intro i
  simp only [cipherOperation, List.getElem?_mapIdx, List.getElem?_take]
  split <;> rfl

theorem cipherOperation_throws (hEvp : evp.CounterMode keystream) (hSize : input.length < 2 ^ 64)
    (h : 2 ^ 31 ≤ input.length % 2 ^ 32 ∨ ¬ evp.Completes aes iv) :
    ∃ e, aes.cipherOperation evp output input iv = .error e := by
  rw [CtrCipher.cipherOperation]
  split
  case h_1 => exact ⟨_, rfl⟩
  case h_2 context hInit =>
    split
    case h_1 => exact ⟨_, rfl⟩
    case h_2 written hUpdate =>
      split
      case isFalse => exact ⟨_, rfl⟩
      case isTrue hFinal =>
        obtain hNegative | hStops := h
        · have hInt := @toInt_narrow_length input hSize
          rw [hEvp.negative context input _ (by rw [hInt, Int.bmod]; omega)] at hUpdate
          cases hUpdate
        · exact absurd ⟨context, hInit, hFinal⟩ hStops

/-- Only as many bytes are encrypted as are left of the length. -/
theorem cipherOperation_eq_ok (hEvp : evp.CounterMode keystream) (hSize : input.length < 2 ^ 64)
    (hShort : input.length % 2 ^ 32 < 2 ^ 31) (hCompletes : evp.Completes aes iv) :
    aes.cipherOperation evp output input iv =
      .ok ((AesCtr.cipherOperation ⟨aes.key, keystream⟩ input iv).take (input.length % 2 ^ 32) ++
        output.drop (input.length % 2 ^ 32)) := by
  obtain ⟨context, hInit, hFinal⟩ := hCompletes
  have hInt : (narrow (UInt64.ofNat input.length)).toInt = (input.length % 2 ^ 32 : Nat) := by
    rw [toInt_narrow_length hSize, Int.bmod]
    omega
  have hLe : input.length % 2 ^ 32 ≤ input.length := Nat.mod_le _ _
  have hUpdate := hEvp.update _ _ _ _ hInit input _
    (by omega : 0 ≤ (narrow (UInt64.ofNat input.length)).toInt) (by omega)
  rw [hInt, Int.toNat_natCast, AesCtr.cipherOperation_take] at hUpdate
  have hWritten : ((AesCtr.cipherOperation ⟨aes.key, keystream⟩ input iv).take
      (input.length % 2 ^ 32)).length =
      input.length % 2 ^ 32 := by
    rw [List.length_take, AesCtr.length_cipherOperation, Nat.min_eq_left hLe]
  rw [CtrCipher.cipherOperation, hInit]
  dsimp only
  rw [hUpdate]
  dsimp only
  rw [if_pos hFinal, hWritten]

theorem drop_eq_zeros_iff {bytes : Bytes} {size : Nat}
    (hLength : bytes.length = size) {count : Nat} :
    (List.replicate size 0).drop count = bytes.drop count ↔ ∀ i (hi : i < bytes.length),
    count ≤ i → bytes[i] = 0 := by
  subst hLength
  rw [List.drop_replicate, eq_comm, List.eq_replicate_iff]
  constructor
  · rintro ⟨_, hZero⟩ i hi hCount
    apply hZero
    rw [List.mem_drop_iff_getElem]
    exact ⟨i - count, by omega, by simp [Nat.add_sub_cancel' hCount]⟩
  · intro hZero
    refine ⟨List.length_drop, fun byte hByte => ?_⟩
    obtain ⟨i, hi, rfl⟩ := List.mem_drop_iff_getElem.mp hByte
    exact hZero _ _ (Nat.le_add_right _ _)

theorem take_append_eq_iff {bytes rest : Bytes} {count : Nat} :
    bytes.take count ++ rest = bytes ↔ rest = bytes.drop count := by
  constructor
  · intro h
    exact List.append_cancel_left (h.trans (List.take_append_drop count bytes).symm)
  · rintro rfl
    exact List.take_append_drop count bytes

theorem getElem_cipherOperation (cipher : AesCtr) {i : Nat} (hi : i < input.length)
    (hSealed : i < (cipher.cipherOperation input iv).length) :
    (cipher.cipherOperation input iv)[i] = input[i] ^^^ cipher.keystream cipher.key iv i :=
  List.getElem_mapIdx

theorem zeros_iff {cipher : AesCtr} {count : Nat} :
    ((List.replicate plaintext.length 0).drop count =
      (cipher.cipherOperation plaintext iv).drop count ∧
        (List.replicate plaintext.length 0).drop count = plaintext.drop count) ↔
      ∀ i (hi : i < plaintext.length), count ≤ i → plaintext[i] = 0 ∧
      cipher.keystream cipher.key iv i = 0 := by
  rw [drop_eq_zeros_iff (AesCtr.length_cipherOperation cipher plaintext iv), drop_eq_zeros_iff rfl]
  constructor
  · rintro ⟨hSealed, hPlain⟩ i hi hCount
    have hByte := hSealed i (by simpa using hi) hCount
    rw [getElem_cipherOperation cipher hi, hPlain i hi hCount] at hByte
    exact ⟨hPlain i hi hCount, by simpa using hByte⟩
  · intro hZero
    refine ⟨fun i hi hCount => ?_, fun i hi hCount => (hZero i hi hCount).1⟩
    rw [AesCtr.length_cipherOperation] at hi
    obtain ⟨hPlain, hStream⟩ := hZero i hi hCount
    rw [getElem_cipherOperation cipher hi, hPlain, hStream, UInt8.xor_self]

theorem encrypt_eq_cipherOperation (hIv : iv.length = kIVSize) :
    aes.encrypt evp plaintext iv =
      aes.cipherOperation evp (List.replicate plaintext.length 0) plaintext iv :=
  if_neg (not_not.mpr hIv)

theorem lossless_of_throws (hEvp : evp.CounterMode keystream) (hIv : iv.length = kIVSize)
    (hSize : plaintext.length < 2 ^ 64)
    (h : 2 ^ 31 ≤ plaintext.length % 2 ^ 32 ∨ ¬ evp.Completes aes iv) :
    Lossless evp keystream aes plaintext iv := by
  constructor
  case encrypt =>
    intro ciphertext hRun
    obtain ⟨e, hThrows⟩ := cipherOperation_throws hEvp hSize h
    rw [encrypt_eq_cipherOperation hIv, hThrows] at hRun
    cases hRun
  case encryptInPlace =>
    intro data hRun
    obtain ⟨e, hThrows⟩ := cipherOperation_throws hEvp hSize h
    rw [CtrCipher.encryptInPlace, hThrows] at hRun
    cases hRun

/-- Where the length has not turned negative, nothing is lost exactly if there is nothing behind
what is left of it. -/
theorem lossless_iff_zeros (hEvp : evp.CounterMode keystream) (hIv : iv.length = kIVSize)
    (hSize : plaintext.length < 2 ^ 64)
    (hShort : plaintext.length % 2 ^ 32 < 2 ^ 31) (hCompletes : evp.Completes aes iv) :
    Lossless evp keystream aes plaintext iv ↔
      ∀ i (hi : i < plaintext.length), plaintext.length % 2 ^ 32 ≤ i → plaintext[i] = 0 ∧
      keystream aes.key iv i = 0 := by
  have hZeros := @zeros_iff plaintext iv ⟨aes.key, keystream⟩ (plaintext.length % 2 ^ 32)
  have hLength := AesCtr.length_cipherOperation ⟨aes.key, keystream⟩ plaintext iv
  have hSealed := @AesCtr.cipherOperation_twice ⟨aes.key, keystream⟩ plaintext iv
  have hEncrypt :=
    @cipherOperation_eq_ok _ _ aes (List.replicate plaintext.length 0) _ iv hEvp
      hSize hShort hCompletes
  rw [← encrypt_eq_cipherOperation hIv] at hEncrypt
  rw [← hZeros]
  constructor
  · rintro ⟨hReturned, _⟩
    obtain ⟨hDecrypt, hCiphertext⟩ := hReturned _ hEncrypt
    have hDecrypt' := @cipherOperation_eq_ok _ _ aes (List.replicate plaintext.length 0)
      (AesCtr.cipherOperation ⟨aes.key, keystream⟩ plaintext iv) iv hEvp (hLength ▸ hSize)
        (hLength ▸ hShort) hCompletes
    rw [hCiphertext, CtrCipher.decrypt, encrypt_eq_cipherOperation hIv, hLength,
      hDecrypt', hSealed, hLength, Except.ok.injEq] at hDecrypt
    exact ⟨take_append_eq_iff.mp hCiphertext, take_append_eq_iff.mp hDecrypt⟩
  · rintro ⟨hCipherZeros, hPlainZeros⟩
    rw [take_append_eq_iff.mpr hCipherZeros] at hEncrypt
    constructor
    case encrypt =>
      intro ciphertext hRun
      rw [hEncrypt] at hRun
      cases hRun
      have hDecrypt := @cipherOperation_eq_ok _ _ aes (List.replicate plaintext.length 0)
        (AesCtr.cipherOperation ⟨aes.key, keystream⟩ plaintext iv) iv hEvp (hLength ▸ hSize)
          (hLength ▸ hShort) hCompletes
      rw [CtrCipher.decrypt, encrypt_eq_cipherOperation hIv, hLength, hDecrypt, hSealed, hLength,
        take_append_eq_iff.mpr hPlainZeros]
      exact ⟨rfl, rfl⟩
    case encryptInPlace =>
      intro data hRun
      rw [CtrCipher.encryptInPlace, cipherOperation_eq_ok hEvp hSize hShort hCompletes,
        ← hPlainZeros, take_append_eq_iff.mpr hCipherZeros] at hRun
      cases hRun
      rfl

/-- Below 2 GiB the wrapper is the cipher that clients and servers rely on. -/
theorem encrypt_eq_aesCtr (hEvp : evp.CounterMode keystream) (hShort : plaintext.length < 2 ^ 31)
    (hCompletes : evp.Completes aes iv) :
    aes.encrypt evp plaintext iv = AesCtr.encrypt ⟨aes.key, keystream⟩ plaintext iv := by
  have hMod : plaintext.length % 2 ^ 32 = plaintext.length := Nat.mod_eq_of_lt (by omega)
  have hRun := @cipherOperation_eq_ok _ _ aes (List.replicate plaintext.length 0) plaintext iv hEvp
    (by omega) (by omega) hCompletes
  rw [hMod, List.take_of_length_le (by simp), List.drop_of_length_le (by simp),
    List.append_nil] at hRun
  rw [CtrCipher.encrypt, AesCtr.encrypt, hRun]

/-- The conversion of the length to `int` loses bytes unless the length is short or turns negative.
-/
theorem lossless_iff (hEvp : evp.CounterMode keystream) (hIv : iv.length = kIVSize)
    (hSize : plaintext.length < 2 ^ 64) :
    Lossless evp keystream aes plaintext iv ↔ Covered evp keystream aes plaintext iv := by
  by_cases hThrows : 2 ^ 31 ≤ plaintext.length % 2 ^ 32 ∨ ¬ evp.Completes aes iv
  · have hCovered : Covered evp keystream aes plaintext iv := by
      obtain hNegative | hStops := hThrows
      · exact Or.inr (Or.inl hNegative)
      · exact Or.inr (Or.inr (Or.inl hStops))
    exact iff_of_true (lossless_of_throws hEvp hIv hSize hThrows) hCovered
  · obtain ⟨hShort, hCompletes⟩ := not_or.mp hThrows
    rw [lossless_iff_zeros hEvp hIv hSize (Nat.not_le.mp hShort) (not_not.mp hCompletes)]
    constructor
    · exact fun hZero => Or.inr (Or.inr (Or.inr hZero))
    · rintro (hSmall | hNegative | hStops | hZero)
      · intro i hi hBehind
        omega
      · exact absurd hNegative hShort
      · exact absurd hStops hCompletes
      · exact hZero

end Results

section Examples

/-- A library that XORs with a given keystream. -/
def Evp.xorWith (keystream : Bytes → Bytes → Nat → UInt8) : Evp where
  Context := Bytes × Bytes
  encryptInit _ key iv := some (key, iv)
  encryptUpdate context input inl :=
    if inl.toInt < 0 then none
    else some (AesCtr.cipherOperation ⟨context.1, keystream⟩ (input.take inl.toInt.toNat) context.2)
  encryptFinal _ := true

theorem counterMode_xorWith (keystream : Bytes → Bytes → Nat → UInt8) :
    (Evp.xorWith keystream).CounterMode keystream := by
  constructor
  case update =>
    intro _ key iv _ hInit input inl hNonneg _
    cases hInit
    exact if_neg (Int.not_lt.mpr hNonneg)
  case negative => exact fun _ _ _ hNegative => if_pos hNegative

def CtrCipher.zeroKey : CtrCipher := ⟨List.replicate kKeySize128 0, .aes128Ctr, rfl⟩

theorem lossless_iff_threeBytes :
    Lossless (.xorWith fun _ _ _ => 1) (fun _ _ _ => 1) .zeroKey [1, 2, 3]
      (List.replicate kIVSize 0) ↔
    Covered (.xorWith fun _ _ _ => 1) (fun _ _ _ => 1) .zeroKey [1, 2, 3]
      (List.replicate kIVSize 0) :=
  lossless_iff (counterMode_xorWith _) rfl (by decide)

/-- No byte of 2^32 zero bytes is encrypted. -/
theorem fourGiB_not_lossless : (Evp.xorWith fun _ _ _ => 1).CounterMode (fun _ _ _ => 1) ∧
    ¬ Lossless (.xorWith fun _ _ _ => 1) (fun _ _ _ => 1) .zeroKey (List.replicate (2 ^ 32) 0)
      (List.replicate kIVSize 0) := by
  refine ⟨counterMode_xorWith _, fun hLossless => ?_⟩
  have hLength : (List.replicate (2 ^ 32) (0 : UInt8)).length = 2 ^ 32 := List.length_replicate
  have hZero := (lossless_iff_zeros (counterMode_xorWith _) rfl (by rw [hLength]; decide)
    (by rw [hLength]; decide)
    ⟨_, rfl, rfl⟩).mp hLossless
  obtain ⟨_, hStream⟩ := hZero 0 (by rw [hLength]; decide) (by rw [hLength]; decide)
  cases hStream

end Examples
end OramHub.Crypto

import Mathlib.Data.Nat.Basic
import Mathlib.Tactic.Ring

/-! # Fixed-width little-endian encodings of natural numbers and 64-bit words -/
namespace OramHub.LittleEndian
set_option autoImplicit false

def encode : Nat → Nat → List UInt8
  | 0, _ => []
  | width + 1, n => UInt8.ofNat n :: encode width (n / 256)

def decode (bytes : List UInt8) : Nat := bytes.foldr (fun byte rest => byte.toNat + 256 * rest) 0

@[simp] theorem decode_nil : decode [] = 0 := rfl

@[simp] theorem decode_cons (byte : UInt8) (bytes : List UInt8) :
    decode (byte :: bytes) = byte.toNat + 256 * decode bytes := rfl

@[simp] theorem length_encode (width n : Nat) : (encode width n).length = width := by
  induction width generalizing n with
  | zero => rfl
  | succ width ih => rw [encode, List.length_cons, ih]

theorem decode_encode (width n : Nat) : decode (encode width n) = n % 256 ^ width := by
  induction width generalizing n with
  | zero => simp [encode, Nat.mod_one]
  | succ width ih =>
    have hByte : (UInt8.ofNat n).toNat = n % 256 := by simp
    rw [encode, decode_cons, ih, hByte, Nat.pow_succ', Nat.mod_mul]

theorem decode_lt (bytes : List UInt8) : decode bytes < 256 ^ bytes.length := by
  induction bytes with
  | nil => decide
  | cons byte bytes ih =>
    have hByte : byte.toNat < 256 := byte.toNat_lt
    rw [decode_cons, List.length_cons, Nat.pow_succ]
    omega

theorem encode_decode (bytes : List UInt8) : encode bytes.length (decode bytes) = bytes := by
  induction bytes with
  | nil => rfl
  | cons byte bytes ih =>
    have hByte : byte.toNat < 256 := byte.toNat_lt
    have hDiv : (byte.toNat + 256 * decode bytes) / 256 = decode bytes := by omega
    have hHead : UInt8.ofNat (byte.toNat + 256 * decode bytes) = byte := by
      apply UInt8.toNat_inj.mp
      rw [UInt8.toNat_ofNat']
      omega
    rw [List.length_cons, decode_cons, encode, hDiv, ih, hHead]

def encodeWord (value : UInt64) : List UInt8 := encode 8 value.toNat

def decodeWord (bytes : List UInt8) : UInt64 := UInt64.ofNat (decode bytes)

@[simp] theorem length_encodeWord (value : UInt64) : (encodeWord value).length = 8 :=
  length_encode 8 value.toNat

@[simp] theorem decodeWord_encodeWord (value : UInt64) : decodeWord (encodeWord value) = value := by
  have hLt : value.toNat < 256 ^ 8 := value.toNat_lt
  rw [decodeWord, encodeWord, decode_encode, Nat.mod_eq_of_lt hLt, UInt64.ofNat_toNat]

theorem encodeWord_decodeWord {bytes : List UInt8} (h : bytes.length = 8) :
    encodeWord (decodeWord bytes) = bytes := by
  have hLt : decode bytes < 2 ^ 64 := by
    have := decode_lt bytes
    rw [h] at this
    exact this
  rw [decodeWord, encodeWord, UInt64.toNat_ofNat_of_lt' hLt, ← h, encode_decode]

end OramHub.LittleEndian

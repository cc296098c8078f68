import OramHub.Core.Ram

/-! # AES in counter mode as the XOR with a keystream

The block cipher itself is outside the repository. Its keystream is an arbitrary function of
key, IV and byte position.
-/
namespace OramHub.Crypto
open OramHub.Core
set_option autoImplicit false

def kKeySize128 : Nat := 16
def kIVSize : Nat := 16

structure AesCtr where
  key : Bytes
  keystream : Bytes → Bytes → Nat → UInt8

namespace AesCtr

def cipherOperation (cipher : AesCtr) (input iv : Bytes) : Bytes :=
  input.mapIdx fun position byte => byte ^^^ cipher.keystream cipher.key iv position

/-- For data of any length. The conversion of the length to `int` in the wrapper, which matters from
2^31 bytes on, is left out here. -/
def encrypt (cipher : AesCtr) (plaintext iv : Bytes) : Except Exception Bytes :=
  if iv.length ≠ kIVSize then .error (.invalidArgument "IV must be 16 bytes")
  else .ok (cipher.cipherOperation plaintext iv)

/-- CTR mode: decrypting is encrypting. -/
def decrypt (cipher : AesCtr) (ciphertext iv : Bytes) : Except Exception Bytes :=
  cipher.encrypt ciphertext iv

@[simp] theorem length_cipherOperation (cipher : AesCtr) (input iv : Bytes) :
    (cipher.cipherOperation input iv).length = input.length := List.length_mapIdx

@[simp] theorem cipherOperation_twice (cipher : AesCtr) (input iv : Bytes) :
    cipher.cipherOperation (cipher.cipherOperation input iv) iv = input := by
  apply List.ext_getElem?
  intro position
  simp only [cipherOperation, List.getElem?_mapIdx, Option.map_map]
  cases input[position]? with
  | none => rfl
  | some byte =>
    apply congrArg some
    rw [Function.comp_apply, UInt8.xor_assoc, UInt8.xor_self, UInt8.xor_zero]

theorem encrypt_eq_ok (cipher : AesCtr) (plaintext : Bytes) {iv : Bytes} (h : iv.length = kIVSize) :
    cipher.encrypt plaintext iv = .ok (cipher.cipherOperation plaintext iv) :=
  if_neg (not_not.mpr h)

theorem decrypt_cipherOperation (cipher : AesCtr) (plaintext : Bytes) {iv : Bytes}
    (h : iv.length = kIVSize) :
    cipher.decrypt (cipher.cipherOperation plaintext iv) iv = .ok plaintext := by
  rw [decrypt, encrypt_eq_ok cipher _ h, cipherOperation_twice]

end AesCtr
end OramHub.Crypto

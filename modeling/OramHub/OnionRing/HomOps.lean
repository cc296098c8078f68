import OramHub.OnionRing.TfheAdapter

/-! # TGSW ciphertexts of bits and the homomorphic multiplexer -/
namespace OramHub.OnionRing
open OramHub.Core
set_option autoImplicit false

variable {n : Nat} {tfhe : Tfhe n}

/-- The functions of TFHE on TGSW samples under the key of the client, and the subtraction of TLWE
samples. -/
structure Tgsw {n : Nat} (tfhe : Tfhe n) where
  Ciphertext : Type
  tGswSymEncryptInt : Nat → Int → Ciphertext
  tGswExternProduct : Ciphertext → tfhe.Ciphertext → tfhe.Ciphertext
  tLweSubTo : tfhe.Ciphertext → tfhe.Ciphertext → tfhe.Ciphertext
  exportSample : Ciphertext → Bytes
  importSample : Bytes → Ciphertext

def encryptBit (tgsw : Tgsw tfhe) (noise : Nat) (bit : Bool) : tgsw.Ciphertext :=
  tgsw.tGswSymEncryptInt noise (if bit then 1 else 0)

structure Tgsw.Exact (tgsw : Tgsw tfhe) : Prop where
  decrypt_subTo : ∀ x y, tfhe.tLweSymDecrypt (tgsw.tLweSubTo x y) = tfhe.tLweSymDecrypt x -
    tfhe.tLweSymDecrypt y
  decrypt_externProduct : ∀ noise bit x,
    tfhe.tLweSymDecrypt (tgsw.tGswExternProduct (encryptBit tgsw noise bit) x) =
      if bit then tfhe.tLweSymDecrypt x else 0
  import_export : ∀ x, tgsw.importSample (tgsw.exportSample x) = x

def cMux (tgsw : Tgsw tfhe) (control : tgsw.Ciphertext)
    (d1 d0 : tfhe.Ciphertext) : tfhe.Ciphertext :=
  let diff := tgsw.tLweSubTo (tfhe.tLweCopy d1) d0
  tfhe.tLweAddTo (tgsw.tGswExternProduct control diff) d0

theorem decrypt_cMux (hExact : tfhe.Exact) {tgsw : Tgsw tfhe} (hTgsw : tgsw.Exact)
    (noise : Nat) (bit : Bool) (d1 d0 : tfhe.Ciphertext) :
    tfhe.tLweSymDecrypt (cMux tgsw (encryptBit tgsw noise bit) d1 d0) =
      if bit then tfhe.tLweSymDecrypt d1 else tfhe.tLweSymDecrypt d0 := by
  rw [cMux, hExact.decrypt_addTo, hTgsw.decrypt_externProduct,
    hTgsw.decrypt_subTo, hExact.decrypt_copy]
  cases bit with
  | false => simp
  | true => simp

/-- A scheme without encryption. -/
def Tgsw.plain (n : Nat) : Tgsw (Tfhe.plain n) where
  Ciphertext := Bool
  tGswSymEncryptInt := fun _ value => value ≠ 0
  tGswExternProduct := fun bit x => if bit then x else (Tfhe.plain n).tLweClear
  tLweSubTo := fun (x y : Message n) => x - y
  exportSample := fun bit => [if bit then 1 else 0]
  importSample := fun bytes => bytes ≠ [0]

theorem Tgsw.plain_exact (n : Nat) : (Tgsw.plain n).Exact := by
  constructor
  case decrypt_subTo => exact fun _ _ => rfl
  case decrypt_externProduct =>
    intro _ bit _
    cases bit with
    | false => rfl
    | true => rfl
  case import_export =>
    intro bit
    cases bit with
    | false => rfl
    | true => rfl

end OramHub.OnionRing

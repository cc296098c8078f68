import Mathlib.Algebra.BigOperators.Group.List.Basic
import Mathlib.Data.List.GetD
import Mathlib.Data.ZMod.Basic
import OramHub.Core.Ram
import OramHub.Lib.Program

/-! # TLWE ciphertexts of blocks

The TFHE library is outside the repository. Messages are polynomials with coefficients modulo 256,
given by their coefficients. `Exact` is what the scheme promises when noise is ignored.
-/
namespace OramHub.OnionRing
open OramHub.Core OramHub.Program
set_option autoImplicit false

abbrev Message (n : Nat) := Fin n → ZMod 256

/-- The functions of TFHE under the key of the client; the first argument of `tLweSymEncrypt` counts
the draws from its noise generator. -/
structure Tfhe (n : Nat) where
  Ciphertext : Type
  tLweSymEncrypt : Nat → Message n → Ciphertext
  tLweSymDecrypt : Ciphertext → Message n
  tLweClear : Ciphertext
  tLweCopy : Ciphertext → Ciphertext
  tLweAddTo : Ciphertext → Ciphertext → Ciphertext
  exportSample : Ciphertext → Bytes
  importSample : Bytes → Ciphertext

structure Tfhe.Exact {n : Nat} (tfhe : Tfhe n) : Prop where
  decrypt_encrypt :
    ∀ noise message, tfhe.tLweSymDecrypt (tfhe.tLweSymEncrypt noise message) = message
  decrypt_clear : tfhe.tLweSymDecrypt tfhe.tLweClear = 0
  decrypt_copy : ∀ x, tfhe.tLweSymDecrypt (tfhe.tLweCopy x) = tfhe.tLweSymDecrypt x
  decrypt_addTo : ∀ x y, tfhe.tLweSymDecrypt (tfhe.tLweAddTo x y) = tfhe.tLweSymDecrypt x +
    tfhe.tLweSymDecrypt y
  import_export : ∀ x, tfhe.importSample (tfhe.exportSample x) = x

variable {n : Nat}

/-- The polynomial of a block that fits. -/
def message (n : Nat) (block : Bytes) : Message n := fun i => (block.getD i 0).toNat

def encodeBlock (n : Nat) (block : Bytes) : Except Exception (Message n) :=
  if n < block.length then .error (.invalidArgument "Block size exceeds TLWE polynomial dimension")
  else .ok (message n block)

def decodeBlock (poly : Message n) (blockSize : Nat) : Bytes :=
  (List.range blockSize).map fun i => if h : i < n then UInt8.ofNat (poly ⟨i, h⟩).val else 0

def decryptBlock (tfhe : Tfhe n) (ciphertext : tfhe.Ciphertext)
    (blockSize : UInt64) : Except Exception Bytes :=
  if n < blockSize.toNat then .error
    (.invalidArgument "Requested block size exceeds TLWE polynomial dimension")
  else .ok (decodeBlock (tfhe.tLweSymDecrypt ciphertext) blockSize.toNat)

theorem length_decodeBlock (poly : Message n) (size : Nat) :
    (decodeBlock poly size).length = size := by
  rw [decodeBlock, List.length_map, List.length_range]

theorem decodeBlock_message {block : Bytes} {size : Nat}
    (hLength : block.length = size) (hSize : size ≤ n) :
    decodeBlock (message n block) size = block := by
  apply List.ext_getElem ((length_decodeBlock _ _).trans hLength.symm)
  intro i hi hi'
  have hLt : i < n := (hLength ▸ hi').trans_le hSize
  have hByte : block[i].toNat < 256 := UInt8.toNat_lt _
  simp only [decodeBlock, List.getElem_map, List.getElem_range, dif_pos hLt, message,
    List.getD_eq_getElem?_getD,
    List.getElem?_eq_getElem hi', Option.getD_some, ZMod.val_natCast,
    Nat.mod_eq_of_lt hByte, UInt8.ofNat_toNat]

theorem message_decodeBlock {block : Bytes} {size : Nat}
    (hLength : block.length = size) (hSize : size ≤ n) :
    message n (decodeBlock (message n block) size) = message n block :=
  congrArg (message n) (decodeBlock_message hLength hSize)

theorem message_zeros (n count : Nat) : message n (List.replicate count 0) = 0 := by
  funext i
  have hZero : (List.replicate count (0 : UInt8)).getD i 0 = 0 := by
    rw [List.getD_eq_getElem?_getD, List.getElem?_replicate]
    split <;> rfl
  rw [message, hZero]
  rfl

theorem encodeBlock_eq_ok {block : Bytes} (h : block.length ≤ n) :
    encodeBlock n block = .ok (message n block) :=
  if_neg (Nat.not_lt.mpr h)

theorem decryptBlock_eq_ok {tfhe : Tfhe n} {ciphertext : tfhe.Ciphertext} {blockSize : UInt64}
    (h : blockSize.toNat ≤ n) :
    decryptBlock tfhe ciphertext blockSize =
      .ok (decodeBlock (tfhe.tLweSymDecrypt ciphertext) blockSize.toNat) :=
  if_neg (Nat.not_lt.mpr h)

/-- A ciphertext as it arrives on the other side. -/
def Tfhe.transmit (tfhe : Tfhe n) (x : tfhe.Ciphertext) : tfhe.Ciphertext :=
  tfhe.importSample (tfhe.exportSample x)

namespace Tfhe.Exact

variable {tfhe : Tfhe n}

theorem transmit_eq (h : tfhe.Exact) (x : tfhe.Ciphertext) : tfhe.transmit x = x :=
  h.import_export x

theorem decrypt_foldl (h : tfhe.Exact) (start : tfhe.Ciphertext)
    (ciphertexts : List tfhe.Ciphertext) :
    tfhe.tLweSymDecrypt (ciphertexts.foldl tfhe.tLweAddTo start) =
      tfhe.tLweSymDecrypt start + (ciphertexts.map tfhe.tLweSymDecrypt).sum := by
  induction ciphertexts generalizing start with
  | nil => exact (add_zero _).symm
  | cons ciphertext ciphertexts ih =>
    rw [List.foldl_cons, ih, h.decrypt_addTo, List.map_cons, List.sum_cons, add_assoc]

end Tfhe.Exact

section Plain

/-- A scheme without encryption. -/
def Tfhe.plain (n : Nat) : Tfhe n where
  Ciphertext := Message n
  tLweSymEncrypt := fun _ message => message
  tLweSymDecrypt := id
  tLweClear := 0
  tLweCopy := id
  tLweAddTo := fun x y => x + y
  exportSample := fun x => List.ofFn fun i => UInt8.ofNat (x i).val
  importSample := message n

theorem Tfhe.plain_exact (n : Nat) : (Tfhe.plain n).Exact := by
  refine ⟨fun _ _ => rfl, rfl, fun _ => rfl, fun _ _ => rfl, fun x => ?_⟩
  funext i
  have hByte : (List.ofFn fun i => UInt8.ofNat (x i).val).getD i 0 = UInt8.ofNat (x i).val := by
    rw [List.getD_eq_getElem _ _ (by rw [List.length_ofFn]; exact i.isLt), List.getElem_ofFn]
  have hVal : (x i).val < 256 := (x i).val_lt
  change ((((List.ofFn fun i => UInt8.ofNat (x i).val).getD i 0).toNat : Nat) : ZMod 256) = x i
  rw [hByte, UInt8.toNat_ofNat_of_lt' hVal, ZMod.natCast_zmod_val]

end Plain
end OramHub.OnionRing

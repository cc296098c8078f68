import Mathlib.Data.List.GetD
import OramHub.Crypto.AesCtr
import OramHub.Lib.BigEndian

/-! # The counter of AES-CTR

`IncrementCounter` adds from the last byte of the IV to the first and carries into the rest of the
increment.
-/
namespace OramHub.Crypto
open OramHub.Core
set_option autoImplicit false

/-- The loop of `IncrementCounter` with the bytes below index `i` still to come. -/
def incrementLoop : Nat → Bytes → UInt64 → Bytes
  | 0, iv, _ => iv
  | i + 1, iv, increment =>
    if 0 < increment then
      let sum := (iv.getD i 0).toUInt64 + (increment &&& 0xFF)
      incrementLoop i (iv.set i (sum &&& 0xFF).toUInt8) ((increment >>> 8) + (sum >>> 8))
    else iv

def incrementCounter (iv : Bytes) (increment : UInt64) : Bytes := incrementLoop kIVSize iv increment

/-- The sums that the loop asks for, as numbers. -/
def incrementSums : Nat → Bytes → UInt64 → List Nat
  | 0, _, _ => []
  | i + 1, iv, increment =>
    if 0 < increment then
      let sum := (iv.getD i 0).toUInt64 + (increment &&& 0xFF)
      ((iv.getD i 0).toUInt64.toNat + (increment &&& 0xFF).toNat) ::
        ((increment >>> 8).toNat + (sum >>> 8).toNat) ::
        incrementSums i (iv.set i (sum &&& 0xFF).toUInt8) ((increment >>> 8) + (sum >>> 8))
    else []

section Rounds

variable (byte : UInt8) (increment : UInt64)

theorem toNat_lowByte : (increment &&& 0xFF).toNat = increment.toNat % 256 := by
  rw [UInt64.toNat_and]
  exact Nat.and_two_pow_sub_one_eq_mod increment.toNat 8

theorem toNat_shiftByte : (increment >>> 8).toNat = increment.toNat / 256 := by
  rw [UInt64.toNat_shiftRight]
  exact Nat.shiftRight_eq_div_pow increment.toNat 8

theorem toNat_sum :
    (byte.toUInt64 + (increment &&& 0xFF)).toNat = byte.toNat + increment.toNat % 256 := by
  have hByte := byte.toNat_lt
  rw [UInt64.toNat_add, toNat_lowByte, UInt8.toNat_toUInt64]
  omega

/-- What is left of the increment includes the carry. -/
theorem toNat_carry : ((increment >>> 8) + ((byte.toUInt64 + (increment &&& 0xFF)) >>> 8)).toNat =
    (byte.toNat + increment.toNat) / 256 := by
  have hByte := byte.toNat_lt
  have hIncrement := increment.toNat_lt
  rw [UInt64.toNat_add, toNat_shiftByte, toNat_shiftByte, toNat_sum]
  omega

theorem toUInt8_sum :
    ((byte.toUInt64 + (increment &&& 0xFF)) &&& 0xFF).toUInt8 =
      UInt8.ofNat (byte.toNat + increment.toNat) := by
  apply UInt8.toNat_inj.mp
  rw [UInt64.toNat_toUInt8, toNat_lowByte, toNat_sum, UInt8.toNat_ofNat']
  omega

end Rounds

/-- The first `i` bytes are the sum, read as a number of that width, and the others are as before.
-/
theorem incrementLoop_eq {i : Nat} {iv : Bytes} (hLength : i ≤ iv.length) (increment : UInt64) :
    incrementLoop i iv increment =
      BigEndian.encode i (BigEndian.decode (iv.take i) + increment.toNat) ++ iv.drop i := by
  induction i generalizing iv increment with
  | zero => rfl
  | succ i ih =>
    have hTake : iv.take (i + 1) = iv.take i ++ [iv[i]] := (List.take_append_getElem hLength).symm
    have hByte : iv.getD i 0 = iv[i] := List.getD_eq_getElem iv 0 hLength
    rw [incrementLoop]
    split
    case isTrue =>
      have hDrop : ∀ byte, (iv.set i byte).drop i = byte :: iv.drop (i + 1) := by
        intro byte
        rw [List.drop_eq_getElem_cons (by rw [List.length_set]; exact hLength),
          List.getElem_set_self, List.drop_set_of_lt (Nat.lt_succ_self i)]
      have hQuotient : (iv[i].toNat + 256 * BigEndian.decode (iv.take i) + increment.toNat) / 256 =
          BigEndian.decode (iv.take i) + (iv[i].toNat + increment.toNat) / 256 := by omega
      have hLow : UInt8.ofNat (iv[i].toNat + 256 * BigEndian.decode (iv.take i) + increment.toNat) =
          UInt8.ofNat (iv[i].toNat + increment.toNat) := by
        apply UInt8.toNat_inj.mp
        simp only [UInt8.toNat_ofNat']
        omega
      rw [ih (by simpa using Nat.le_of_succ_le hLength), hByte, toNat_carry, toUInt8_sum,
        List.take_set_of_le (Nat.le_refl i),
        hDrop, hTake, BigEndian.decode_concat, BigEndian.encode_succ, hQuotient, hLow,
        List.append_assoc, List.singleton_append]
    case isFalse hStop =>
      have hZero : increment.toNat = 0 := by
        rw [UInt64.lt_iff_toNat_lt] at hStop
        exact Nat.eq_zero_of_not_pos hStop
      have hEncode := BigEndian.encode_decode (iv.take (i + 1))
      rw [List.length_take, Nat.min_eq_left hLength] at hEncode
      rw [show BigEndian.decode (iv.take (i + 1)) + increment.toNat =
        BigEndian.decode (iv.take (i + 1)) by omega, hEncode, List.take_append_drop]

theorem incrementSums_lt (i : Nat) (iv : Bytes) (increment : UInt64) :
    ∀ sum ∈ incrementSums i iv increment, sum < 2 ^ 64 := by
  induction i generalizing iv increment with
  | zero => simp [incrementSums]
  | succ i ih =>
    have hByte := (iv.getD i 0).toNat_lt
    have hIncrement := increment.toNat_lt
    rw [incrementSums]
    split
    case isTrue =>
      dsimp only
      rw [toNat_shiftByte, toNat_shiftByte, toNat_lowByte, toNat_sum, UInt8.toNat_toUInt64]
      intro sum hSum
      rw [List.mem_cons, List.mem_cons] at hSum
      rcases hSum with rfl | rfl | hLater
      · omega
      · omega
      · exact ih _ _ sum hLater
    case isFalse => simp

section Results

variable {iv : Bytes}

theorem incrementCounter_eq (hIv : iv.length = kIVSize) (increment : UInt64) :
    incrementCounter iv increment =
      BigEndian.encode kIVSize (BigEndian.decode iv + increment.toNat) := by
  rw [incrementCounter, incrementLoop_eq hIv.ge, List.take_of_length_le hIv.le,
    List.drop_of_length_le hIv.le, List.append_nil]

theorem incrementCounter_add (hIv : iv.length = kIVSize) {first second : UInt64}
    (hSum : first.toNat + second.toNat < 2 ^ 64) :
    incrementCounter (incrementCounter iv first) second = incrementCounter iv (first + second) := by
  rw [incrementCounter_eq hIv, incrementCounter_eq (BigEndian.length_encode _ _),
    incrementCounter_eq hIv,
    BigEndian.decode_encode, UInt64.toNat_add, Nat.mod_eq_of_lt hSum,
    ← BigEndian.encode_mod, Nat.mod_add_mod, BigEndian.encode_mod, Nat.add_assoc]

/-- Incrementing the counter is adding modulo 2^128, without an overflow on the way. -/
theorem incrementCounter_adds (hIv : iv.length = kIVSize) (increment : UInt64) :
    incrementCounter iv increment =
      BigEndian.encode kIVSize ((BigEndian.decode iv + increment.toNat) % 2 ^ 128) ∧
      (∀ sum ∈ incrementSums kIVSize iv increment, sum < 2 ^ 64) ∧
      ∀ other : UInt64, increment.toNat + other.toNat < 2 ^ 64 →
        incrementCounter (incrementCounter iv increment) other =
          incrementCounter iv (increment + other) ∧
        incrementCounter (incrementCounter iv other) increment =
          incrementCounter iv (increment + other) := by
  refine ⟨?_, incrementSums_lt _ _ _, fun other hSum => ⟨incrementCounter_add hIv hSum, ?_⟩⟩
  · have hMod := BigEndian.encode_mod kIVSize (BigEndian.decode iv + increment.toNat)
    rw [incrementCounter_eq hIv, ← hMod]
    rfl
  · rw [UInt64.add_comm]
    apply incrementCounter_add hIv
    rwa [Nat.add_comm]

theorem incrementCounter_adds_one : incrementCounter (List.replicate 16 0xFF) 1 =
      BigEndian.encode kIVSize ((BigEndian.decode (List.replicate 16 0xFF) + 1) % 2 ^ 128) ∧
    incrementCounter (incrementCounter (List.replicate 16 0xFF) 1) 2 =
      incrementCounter (List.replicate 16 0xFF) 3 := by
  obtain ⟨hValue, _, hAdd⟩ := @incrementCounter_adds (List.replicate 16 0xFF) rfl 1
  exact ⟨hValue, (hAdd 2 (by decide)).1⟩

example : incrementCounter (List.replicate 15 0 ++ [0xFF]) 1 = List.replicate 14 0 ++ [1, 0] := by
  decide

end Results
end OramHub.Crypto

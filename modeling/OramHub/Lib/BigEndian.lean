import OramHub.Lib.LittleEndian

/-! # Fixed-width big-endian encodings of natural numbers -/
namespace OramHub.BigEndian
set_option autoImplicit false

def encode (width n : Nat) : List UInt8 := (LittleEndian.encode width n).reverse

def decode (bytes : List UInt8) : Nat := LittleEndian.decode bytes.reverse

@[simp] theorem length_encode (width n : Nat) : (encode width n).length = width := by
  simp [encode]

theorem encode_succ (width n : Nat) :
    encode (width + 1) n = encode width (n / 256) ++ [UInt8.ofNat n] := by
  simp [encode, LittleEndian.encode]

@[simp] theorem decode_concat (bytes : List UInt8) (byte : UInt8) :
    decode (bytes ++ [byte]) = byte.toNat + 256 * decode bytes := by
  simp [decode]

theorem decode_encode (width n : Nat) : decode (encode width n) = n % 256 ^ width := by
  simp [decode, encode, LittleEndian.decode_encode]

theorem encode_decode (bytes : List UInt8) : encode bytes.length (decode bytes) = bytes := by
  have hEncode := LittleEndian.encode_decode bytes.reverse
  rw [List.length_reverse] at hEncode
  rw [encode, decode, hEncode, List.reverse_reverse]

/-- Only the number modulo the range of the width is encoded. -/
theorem encode_mod (width n : Nat) : encode width (n % 256 ^ width) = encode width n := by
  have hBytes := encode_decode (encode width n)
  rwa [length_encode, decode_encode] at hBytes

end OramHub.BigEndian

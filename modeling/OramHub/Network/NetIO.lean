import OramHub.Core.Ram
import OramHub.Lib.LittleEndian
import OramHub.Lib.Streams

/-! # The byte stream of a connection

`NetIO` sends bytes and waits until as many bytes as were asked for have arrived.
-/
namespace OramHub.Network
open OramHub.Core OramHub.Program OramHub.LittleEndian OramHub.Streams
set_option autoImplicit false

/-- `NetIO::SendVec`. -/
def sendVec (data : Bytes) : Bytes := encodeWord (UInt64.ofNat data.length) ++ data

abbrev RecvM := EStateM Exception Bytes

/-- `NetIO::RecvData`. A stream that ends early is a connection that was closed. -/
def recvData (size : Nat) : RecvM Bytes := Streams.take (.runtimeError "NetIO recv failed") size

def recvUint64 : RecvM UInt64 := do
  let bytes ← recvData 8
  return decodeWord bytes

/-- `NetIO::RecvVec`. -/
def recvVec : RecvM Bytes := do
  let size ← recvUint64
  throwIf (vectorMaxSize < size.toNat) (.lengthError "vector::_M_default_append")
  recvData size.toNat

theorem takes_recvUint64 (value : UInt64) : Takes recvUint64 (encodeWord value) value := by
  have hTake := (Takes.take (Exception.runtimeError "NetIO recv failed") (encodeWord value)).map
    decodeWord
  rw [decodeWord_encodeWord, length_encodeWord] at hTake
  exact hTake

theorem takes_recvVec {data : Bytes} (hSize : data.length ≤ vectorMaxSize) :
    Takes recvVec (sendVec data) data := by
  have hLength : (UInt64.ofNat data.length).toNat = data.length := toNat_ofNat_of_le hSize
  apply (takes_recvUint64 _).bind
  rw [hLength]
  exact Takes.check_bind (Nat.not_lt.mpr hSize) (Takes.take _ data)

theorem parses_recvData (size : Nat) :
    Parses (recvData size) (fun chunk bytes => bytes = chunk ∧ chunk.length = size)
      Exception.Defined := by
  apply Parses.take
  simp [Exception.Defined]

theorem parses_recvUint64 :
    Parses recvUint64 (fun chunk value => chunk = encodeWord value) Exception.Defined := by
  apply ((parses_recvData 8).map decodeWord).mono
  rintro chunk _ ⟨_, ⟨rfl, hLength⟩, rfl⟩
  exact (encodeWord_decodeWord hLength).symm

/-- The bytes of a vector whose size has been read. -/
theorem parses_sized (size : UInt64) (what : String) :
    Parses (throwIf (vectorMaxSize < size.toNat) (.lengthError what) >>=
      fun _ => recvData size.toNat)
      (fun chunk data => data = chunk ∧ chunk.length = size.toNat ∧ size.toNat ≤ vectorMaxSize)
        Exception.Defined := by
  apply Parses.check_bind
  · simp [Exception.Defined]
  · intro hFits
    apply (parses_recvData size.toNat).mono
    rintro chunk _ ⟨rfl, hLength⟩
    exact ⟨rfl, hLength, Nat.le_of_not_lt hFits⟩

theorem parses_vector (what : String) :
    Parses (recvUint64 >>= fun size => throwIf (vectorMaxSize < size.toNat) (.lengthError what) >>=
      fun _ => recvData size.toNat)
      (fun chunk data => chunk = sendVec data ∧ data.length ≤ vectorMaxSize) Exception.Defined := by
  apply (parses_recvUint64.bind fun size => parses_sized size what).mono
  rintro _ data ⟨_, size, _, rfl, rfl, rfl, hLength, hFits⟩
  simp [sendVec, hLength, hFits]

theorem parses_recvVec :
    Parses recvVec (fun chunk data => chunk = sendVec data ∧ data.length ≤ vectorMaxSize)
      Exception.Defined := parses_vector _

end OramHub.Network

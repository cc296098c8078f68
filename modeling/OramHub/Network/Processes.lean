import OramHub.Lib.Dialogue
import OramHub.Network.NetIO

/-! # `NetIO` in a program that runs beside another one

The reading functions wait for one byte after another. On a stream that is there as a whole they
return what the readers of whole streams return.
-/
namespace OramHub.Network.Process
open OramHub.Core OramHub.Program OramHub.LittleEndian OramHub.Dialogue OramHub.Dialogue.TalkM
set_option autoImplicit false

variable {σ : Type}

/-- `NetIO::RecvData`. -/
def recvData (size : Nat) : TalkM Exception σ UInt8 Bytes :=
  receive (.runtimeError "NetIO recv failed") size

def recvUint64 : TalkM Exception σ UInt8 UInt64 := do
  let bytes ← recvData 8
  return decodeWord bytes

/-- `NetIO::RecvVec`. -/
def recvVec : TalkM Exception σ UInt8 Bytes := do
  let size ← recvUint64
  locally (throwIf (vectorMaxSize < size.toNat) (.lengthError "vector::_M_default_append"))
  recvData size.toNat

theorem reads_recvData (size : Nat) :
    Reads (recvData size : TalkM Exception σ UInt8 Bytes) (Network.recvData size) :=
  Reads.take _ size

theorem reads_recvUint64 : Reads (recvUint64 : TalkM Exception σ UInt8 UInt64) Network.recvUint64 :=
  (reads_recvData 8).bind fun bytes => Reads.pure (decodeWord bytes)

theorem reads_recvVec : Reads (recvVec : TalkM Exception σ UInt8 Bytes) Network.recvVec :=
  reads_recvUint64.bind fun size => (Reads.check _ _).bind fun _ => reads_recvData size.toNat

theorem listens_recvData (size : Nat) : Listens (recvData size : TalkM Exception σ UInt8 Bytes) :=
  listens_receive _ size

theorem listens_recvUint64 : Listens (recvUint64 : TalkM Exception σ UInt8 UInt64) :=
  (listens_recvData 8).bind fun bytes => listens_pure (decodeWord bytes)

theorem listens_recvVec : Listens (recvVec : TalkM Exception σ UInt8 Bytes) :=
  listens_recvUint64.bind fun size => (listens_locally _).bind fun _ => listens_recvData size.toNat

end OramHub.Network.Process

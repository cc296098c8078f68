import OramHub.Lib.Fragments
import OramHub.Network.NetIO

/-! # System calls that move part of a buffer

`SendDataInternal` and `RecvDataInternal` call `send` and `recv` until the whole buffer has been
moved. The kernel decides how much each call moves and which calls a signal interrupts.
-/
namespace OramHub.Network
open OramHub.Core OramHub.Program OramHub.LittleEndian OramHub.Streams OramHub.Fragments
set_option autoImplicit false

/-- The result of `send` or `recv`, with the meaning of `errno`. -/
inductive SysResult
  | moved (count : Nat)
  | zero
  | interrupted
  | failed (what : String)
  deriving DecidableEq, Repr

/-- What a call for `request` bytes may return while the connection works. -/
def SysResult.Allowed (request : Nat) : SysResult → Prop
  | .moved count => 0 < count ∧ count ≤ request
  | .zero => False
  | .interrupted => True
  | .failed _ => False

theorem SysResult.Allowed.cases {request : Nat} {result : SysResult} (h : result.Allowed request) :
    (∃ count, result = .moved count ∧ 0 < count ∧ count ≤ request) ∨ result = .interrupted := by
  cases result with
  | moved count => exact Or.inl ⟨count, rfl, h⟩
  | zero => exact h.elim
  | interrupted => exact Or.inr rfl
  | failed what => exact h.elim

/-- One round of the loop of `SendDataInternal`: the new value of `sent`. -/
def sendRound (sent : Nat) : SysResult → Except Exception Nat
  | .moved count => .ok (sent + count)
  | .zero => .error (.runtimeError "NetIO send failed")
  | .interrupted => .ok sent
  | .failed what => .error (.runtimeError ("NetIO send failed: " ++ what))

/-- One round of the loop of `RecvDataInternal`: the new value of `received`. -/
def recvRound (received : Nat) : SysResult → Except Exception Nat
  | .moved count => .ok (received + count)
  | .zero => .error (.runtimeError "NetIO recv failed")
  | .interrupted => .ok received
  | .failed what => .error (.runtimeError ("NetIO recv failed: " ++ what))

inductive Message
  | vec (vector : ByteVector)
  | data (bytes : Bytes)

namespace Message

/-- The calls of `SendData` for a message. -/
def writes : Message → List Bytes
  | .vec vector =>
    let size := UInt64.ofNat vector.bytes.length
    encodeWord size :: if 0 < size then [vector.bytes] else []
  | .data bytes => [bytes]

/-- The matching calls of `RecvData`. -/
def reader : Message → Reader Exception UInt8 Bytes
  | .vec _ => .read 8 fun bytes =>
    let size := decodeWord bytes
    if vectorMaxSize < size.toNat then .raise (.lengthError "vector::_M_default_append")
    else if 0 < size then .read size.toNat .done
    else .done []
  | .data bytes => .read bytes.length .done

def value : Message → Bytes
  | .vec vector => vector.bytes
  | .data bytes => bytes

end Message

abbrev Connected := Link Exception UInt8 Bytes

def connect (messages : List Message) : Connected where
  writes := messages.flatMap Message.writes
  readers := messages.map Message.reader

/-- A system call with its result, or a call that returns. -/
inductive Round (link : Connected) : Option SysResult → Connected → Prop
  | send {write : Bytes} {writes : List Bytes} {result : SysResult} {sent : Nat} :
      link.writes = write :: writes → link.sent < write.length →
      result.Allowed (write.length - link.sent) → sendRound link.sent result = .ok sent →
      Round link (some result) { link with
        sent := sent
        wire := link.wire ++ (write.drop link.sent).take (sent - link.sent) }
  | sendReturns {write : Bytes} {writes : List Bytes} :
      link.writes = write :: writes → write.length ≤ link.sent →
      Round link none { link with writes := writes, sent := 0 }
  | recv {size received : Nat} {next : Bytes → Reader Exception UInt8 Bytes}
      {readers : List (Reader Exception UInt8 Bytes)} {result : SysResult} :
      link.readers = .read size next :: readers → link.buffer.length < size →
      result.Allowed (min (size - link.buffer.length) link.wire.length) →
      recvRound link.buffer.length result = .ok received →
      Round link (some result) { link with
        wire := link.wire.drop (received - link.buffer.length)
        buffer := link.buffer ++ link.wire.take (received - link.buffer.length) }
  | recvReturns {size : Nat} {next : Bytes → Reader Exception UInt8 Bytes}
      {readers : List (Reader Exception UInt8 Bytes)} :
      link.readers = .read size next :: readers → size ≤ link.buffer.length →
      Round link none { link with readers := next link.buffer :: readers, buffer := [] }
  | returns {value : Bytes} {readers : List (Reader Exception UInt8 Bytes)} :
      link.readers = .done value :: readers →
      Round link none { link with
        readers := readers
        buffer := []
        returned := link.returned ++ [value] }

/-- A run with `rounds` rounds, those not counted in which a call was interrupted. -/
inductive Run (start : Connected) : Nat → Connected → Prop
  | nil : Run start 0 start
  | round {rounds : Nat} {link link' : Connected} {result : Option SysResult} :
    Run start rounds link → Round link result link' →
      result ≠ some .interrupted → Run start (rounds + 1) link'
  | interrupted {rounds : Nat} {link link' : Connected} :
    Run start rounds link → Round link (some .interrupted) link' →
      Run start rounds link'

section Calls

/-- The writes of a message are the bytes that `NetIO` puts on the stream. -/
theorem flatten_writes (vector : ByteVector) :
    (Message.vec vector).writes.flatten = sendVec vector.bytes := by
  have hSize := toNat_ofNat_of_le vector.fits
  by_cases hPos : 0 < UInt64.ofNat vector.bytes.length
  · simp [Message.writes, sendVec, hPos]
  · have hNil : vector.bytes = [] := by
      rw [UInt64.lt_iff_toNat_lt, hSize] at hPos
      exact List.length_eq_zero_iff.mp (Nat.eq_zero_of_not_pos hPos)
    simp [Message.writes, sendVec, hNil]

def closed : Exception := .runtimeError "NetIO recv failed"

/-- On a stream that is there as a whole, the calls are the `RecvVec` of the protocols. -/
theorem run_reader_vec (vector : ByteVector) :
    (Message.vec vector).reader.run closed = recvVec := by
  rw [Message.reader, Reader.run, recvVec, recvUint64, bind_assoc]
  apply bind_congr
  intro bytes
  rw [pure_bind]
  by_cases hLong : vectorMaxSize < (decodeWord bytes).toNat
  · simp only [if_pos hLong, throwIf]
    rfl
  · by_cases hPos : 0 < decodeWord bytes
    · simp only [if_neg hLong, if_pos hPos, throwIf, pure_bind, Reader.run, bind_pure]
      rfl
    · have hZero : (decodeWord bytes).toNat = 0 := by
        rw [UInt64.lt_iff_toNat_lt] at hPos
        exact Nat.eq_zero_of_not_pos hPos
      simp only [if_neg hPos, throwIf, recvData, hZero]
      exact (take_zero closed).symm

theorem takes_reader (message : Message) :
    Takes (message.reader.run closed) message.writes.flatten message.value := by
  cases message with
  | vec vector =>
    rw [flatten_writes, run_reader_vec]
    exact takes_recvVec vector.fits
  | data bytes =>
    have hTake := (Takes.take closed bytes).bind (Takes.pure bytes)
    rw [List.append_nil] at hTake
    rw [Message.writes, List.flatten_singleton]
    exact hTake

theorem takes_readers (messages : List Message) :
    Takes (readAll closed (connect messages).readers) (connect messages).writes.flatten
      (messages.map Message.value) := by
  induction messages with
  | nil => exact Takes.pure []
  | cons message messages ih =>
    simp only [connect, List.map_cons, List.flatMap_cons, List.flatten_append, readAll_cons] at ih ⊢
    exact (takes_reader message).bind (ih.map (List.cons message.value))

theorem coherent_connect (messages : List Message) :
    Coherent closed (messages.map Message.value) (connect messages) :=
  coherent_start (takes_readers messages)

end Calls

section Rounds

variable {link link' : Connected} {result : Option SysResult}

/-- An interrupted call changes nothing, any other round is a step of the link. -/
theorem Round.step (h : Round link result link') :
    (result = some .interrupted ∧ link' = link) ∨ Step link link' := by
  cases h with
  | @send write _ result _ hWrites hMore hAllowed hRound =>
    obtain ⟨count, rfl, hPos, hLe⟩ | rfl := hAllowed.cases
    · cases hRound
      right
      rw [Nat.add_sub_cancel_left]
      exact .send count hWrites hPos (by omega)
    · cases hRound
      left
      simp
  | sendReturns hWrites hAll => exact Or.inr (.written hWrites hAll)
  | @recv size _ _ _ result hReaders hMore hAllowed hRound =>
    obtain ⟨count, rfl, hPos, hLe⟩ | rfl := hAllowed.cases
    · cases hRound
      right
      rw [Nat.add_sub_cancel_left]
      exact .receive count hReaders hPos (by omega) (by omega)
    · cases hRound
      left
      simp
  | recvReturns hReaders hAll => exact Or.inr (.received hReaders hAll)
  | returns hReaders => exact Or.inr (.returned hReaders)

end Rounds

section Runs

variable {messages : List Message} {rounds : Nat} {link : Connected}

theorem Run.coherent (h : Run (connect messages) rounds link) :
    Coherent closed (messages.map Message.value) link ∧
    rounds + link.measure ≤ (connect messages).measure := by
  induction h with
  | nil => exact ⟨coherent_connect messages, by omega⟩
  | round _ hRound hProper ih =>
    obtain ⟨hCoherent, hMeasure⟩ := ih
    obtain ⟨hInterrupted, _⟩ | hStep := hRound.step
    · exact absurd hInterrupted hProper
    · have hLt := hCoherent.measure_lt hStep
      exact ⟨hCoherent.step hStep, by omega⟩
  | interrupted _ hRound ih =>
    obtain ⟨hCoherent, hMeasure⟩ := ih
    obtain ⟨_, rfl⟩ | hStep := hRound.step
    · exact ⟨hCoherent, hMeasure⟩
    · have hLt := hCoherent.measure_lt hStep
      exact ⟨hCoherent.step hStep, by omega⟩

/-- What is known of a state between the first call and the last one. -/
structure Framed (messages : List Message) (link : Connected) : Prop where
  inOrder : link.returned <+: messages.map Message.value
  live : link.Finished ∨ ∃ result link', Round link result link' ∧ result ≠ some .interrupted
  complete : link.readers = [] → link.returned = messages.map Message.value ∧ link.buffer = [] ∧
    link.wire = [] ∧ link.unsent = []

end Runs
end OramHub.Network

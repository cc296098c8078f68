import OramHub.Lib.Streams

/-! # Streams that are moved in fragments

One end of a connection writes chunks, the other runs programs that read chunks. Either end moves
any positive number of items at a time. Whatever the fragments are, the programs return what they
return on the whole stream.
-/
namespace OramHub.Fragments
open OramHub.Program
set_option autoImplicit false

variable {ε τ α : Type}

/-- A program that reads chunks, as its first request. -/
inductive Reader (ε τ α : Type)
  | done (a : α)
  | raise (e : ε)
  | read (size : Nat) (next : List τ → Reader ε τ α)

namespace Reader

/-- The program on a stream that is there as a whole. -/
def run (short : ε) : Reader ε τ α → EStateM ε (List τ) α
  | .done a => return a
  | .raise e => throw e
  | .read size next => do
    let chunk ← Streams.take short size
    (next chunk).run short

/-- The number of steps that the program takes. -/
def rounds : Reader ε τ α → List τ → Nat
  | .done _, _ => 1
  | .raise _, _ => 0
  | .read size next, stream => (next (stream.take size)).rounds (stream.drop size) + 1

/-- What the program leaves of the stream. -/
def rest : Reader ε τ α → List τ → List τ
  | .done _, stream => stream
  | .raise _, stream => stream
  | .read size next, stream => (next (stream.take size)).rest (stream.drop size)

end Reader

/-- The programs one after the other. -/
def readAll (short : ε) (readers : List (Reader ε τ α)) : EStateM ε (List τ) (List α) :=
  readers.mapM (Reader.run short)

def rounds : List (Reader ε τ α) → List τ → Nat
  | [], _ => 0
  | reader :: readers, stream => reader.rounds stream + rounds readers (reader.rest stream)

/-- `writes` and `readers` have not returned yet. Of the first write, `sent` items have been handed
over; `buffer` is what has arrived of the first reader's request. -/
structure Link (ε τ α : Type) where
  writes : List (List τ)
  sent : Nat := 0
  wire : List τ := []
  readers : List (Reader ε τ α)
  buffer : List τ := []
  returned : List α := []

namespace Link

def unsent (link : Link ε τ α) : List τ := link.writes.flatten.drop link.sent

/-- What the readers have not consumed. -/
def stream (link : Link ε τ α) : List τ := link.buffer ++ (link.wire ++ link.unsent)

def Finished (link : Link ε τ α) : Prop := link.writes = [] ∧ link.readers = []

def measure (link : Link ε τ α) : Nat :=
  2 * link.unsent.length + link.wire.length + link.writes.length + rounds link.readers link.stream

end Link

inductive Step (link : Link ε τ α) : Link ε τ α → Prop
  | send {write : List τ} {writes : List (List τ)} (count : Nat) :
      link.writes = write :: writes → 0 < count → link.sent + count ≤ write.length →
      Step link { link with
        sent := link.sent + count
        wire := link.wire ++ (write.drop link.sent).take count }
  | written {write : List τ} {writes : List (List τ)} :
      link.writes = write :: writes → write.length ≤ link.sent →
      Step link { link with writes := writes, sent := 0 }
  | receive {size : Nat} {next : List τ → Reader ε τ α} {readers : List (Reader ε τ α)}
      (count : Nat) :
      link.readers = .read size next :: readers → 0 < count → link.buffer.length + count ≤ size →
      count ≤ link.wire.length →
      Step link { link with
        wire := link.wire.drop count
        buffer := link.buffer ++ link.wire.take count }
  | received {size : Nat} {next : List τ → Reader ε τ α} {readers : List (Reader ε τ α)} :
      link.readers = .read size next :: readers → size ≤ link.buffer.length →
      Step link { link with readers := next link.buffer :: readers, buffer := [] }
  | returned {a : α} {readers : List (Reader ε τ α)} : link.readers = .done a :: readers →
      Step link { link with readers := readers, buffer := [], returned := link.returned ++ [a] }

/-- No request has been exceeded, and on the rest of the stream the readers return the rest of
`values`. -/
structure Coherent (short : ε) (values : List α) (link : Link ε τ α) : Prop where
  sent : ∀ write ∈ link.writes.head?, link.sent ≤ write.length
  idle : link.writes = [] → link.sent = 0
  reading : ∀ size next readers, link.readers = .read size next :: readers →
    link.buffer.length ≤ size
  resting : (∀ size next readers, link.readers ≠ .read size next :: readers) → link.buffer = []
  remaining : ∃ rest, (readAll short link.readers).run link.stream = .ok rest [] ∧
    link.returned ++ rest = values

section Streams

variable {short : ε} {reader : Reader ε τ α} {readers : List (Reader ε τ α)} {stream : List τ}

theorem readAll_cons (short : ε) (reader : Reader ε τ α) (readers : List (Reader ε τ α)) :
    readAll short (reader :: readers) = (do
      let a ← reader.run short
      let rest ← readAll short readers
      return a :: rest) := List.mapM_cons

theorem run_take {size : Nat} (short : ε) (chunk rest : List τ) (hSize : chunk.length = size) :
    (Streams.take short size).run (chunk ++ rest) = .ok chunk rest := by
  subst hSize
  exact Streams.Takes.take short chunk rest

theorem readAll_read (size : Nat) (next : List τ → Reader ε τ α) {chunk rest : List τ}
    (hSize : chunk.length = size) :
    (readAll short (.read size next :: readers)).run (chunk ++ rest) =
      (readAll short (next chunk :: readers)).run rest := by
  rw [readAll_cons, readAll_cons, EStateM.run_bind, EStateM.run_bind, Reader.run, EStateM.run_bind,
    run_take short chunk rest hSize]

theorem readAll_done (a : α) :
    (readAll short (.done a :: readers)).run stream = (do
      let rest ← readAll short readers
      return a :: rest).run stream := by
  rw [readAll_cons]
  rfl

end Streams

section Steps

variable {short : ε} {values : List α} {link link' : Link ε τ α}

/-- Handing items over to the wire does not change the stream. -/
theorem stream_send {write : List τ} {writes : List (List τ)} {count : Nat}
    (hWrites : link.writes = write :: writes)
    (hRoom : link.sent + count ≤ write.length) :
    link.wire ++ (write.drop link.sent).take count ++ link.writes.flatten.drop (link.sent + count) =
      link.wire ++ link.unsent := by
  have hDrop : link.unsent = write.drop link.sent ++ writes.flatten := by
    rw [Link.unsent, hWrites, List.flatten_cons, List.drop_append_of_le_length (by omega)]
  rw [hDrop, hWrites, List.flatten_cons, List.drop_append_of_le_length hRoom,
    ← List.drop_drop, List.append_assoc, ← List.append_assoc (List.take _ _), List.take_append_drop]

theorem stream_written {write : List τ} {writes : List (List τ)}
    (hWrites : link.writes = write :: writes)
    (hSent : link.sent = write.length) : writes.flatten.drop 0 = link.unsent := by
  rw [Link.unsent, hWrites, hSent, List.flatten_cons, List.drop_left, List.drop_zero]

/-- Nor does taking items off the wire. -/
theorem stream_receive (link : Link ε τ α) (count : Nat) :
    link.buffer ++ link.wire.take count ++ (link.wire.drop count ++ link.unsent) = link.stream := by
  rw [List.append_assoc, ← List.append_assoc (List.take _ _), List.take_append_drop]
  rfl

theorem Coherent.sent_eq {write : List τ} {writes : List (List τ)} (h : Coherent short values link)
    (hWrites : link.writes = write :: writes)
    (hAll : write.length ≤ link.sent) : link.sent = write.length :=
  Nat.le_antisymm (h.sent write (by rw [hWrites]; rfl)) hAll

theorem Coherent.length_buffer {size : Nat} {next : List τ → Reader ε τ α}
    {readers : List (Reader ε τ α)} (h : Coherent short values link)
    (hReaders : link.readers = .read size next :: readers) (hAll : size ≤ link.buffer.length) :
    link.buffer.length = size :=
  Nat.le_antisymm (h.reading size next readers hReaders) hAll

theorem Coherent.step (h : Coherent short values link) (hStep : Step link link') :
    Coherent short values link' := by
  obtain ⟨rest, hRun, hValues⟩ := h.remaining
  cases hStep with
  | send count hWrites hPos hRoom =>
    constructor
    case sent => simpa [hWrites] using hRoom
    case idle => exact fun hNone => absurd (hWrites ▸ hNone) (List.cons_ne_nil _ _)
    case reading => exact h.reading
    case resting => exact h.resting
    case remaining =>
      refine ⟨rest, ?_, hValues⟩
      rw [Link.stream, Link.unsent, stream_send hWrites hRoom]
      exact hRun
  | written hWrites hAll =>
    have hSent := h.sent_eq hWrites hAll
    constructor
    case sent => exact fun _ _ => Nat.zero_le _
    case idle => exact fun _ => rfl
    case reading => exact h.reading
    case resting => exact h.resting
    case remaining =>
      refine ⟨rest, ?_, hValues⟩
      rw [Link.stream, Link.unsent, stream_written hWrites hSent]
      exact hRun
  | receive count hReaders hPos hRoom hThere =>
    constructor
    case sent => exact h.sent
    case idle => exact h.idle
    case reading =>
      intro size next readers hEq
      rw [hReaders] at hEq
      cases hEq
      rw [List.length_append, List.length_take, Nat.min_eq_left hThere]
      exact hRoom
    case resting => exact fun hNone => absurd hReaders (hNone _ _ _)
    case remaining =>
      refine ⟨rest, ?_, hValues⟩
      rw [← stream_receive link count] at hRun
      exact hRun
  | received hReaders hAll =>
    have hSize := h.length_buffer hReaders hAll
    rw [hReaders, Link.stream, readAll_read _ _ hSize] at hRun
    constructor
    case sent => exact h.sent
    case idle => exact h.idle
    case reading => exact fun _ _ _ _ => Nat.zero_le _
    case resting => exact fun _ => rfl
    case remaining => exact ⟨rest, hRun, hValues⟩
  | returned hReaders =>
    have hBuffer := h.resting (by simp [hReaders])
    rw [hReaders, Link.stream, hBuffer, readAll_done] at hRun
    obtain ⟨later, _, hLater, hReturn⟩ := run_bind_eq_ok hRun
    cases hReturn
    constructor
    case sent => exact h.sent
    case idle => exact h.idle
    case reading => exact fun _ _ _ _ => Nat.zero_le _
    case resting => exact fun _ => rfl
    case remaining => exact ⟨later, hLater, by rw [List.append_assoc]; exact hValues⟩

theorem Coherent.measure_lt (h : Coherent short values link) (hStep : Step link link') :
    link'.measure < link.measure := by
  cases hStep with
  | @send write _ count hWrites hPos hRoom =>
    have hStream : Link.stream { link with
        sent := link.sent + count
        wire := link.wire ++ (write.drop link.sent).take count } = link.stream :=
      congrArg (link.buffer ++ ·) (stream_send hWrites hRoom)
    have hFlatten := congrArg (fun writes => writes.flatten.length) hWrites
    simp only [List.flatten_cons, List.length_append] at hFlatten
    rw [Link.measure, Link.measure, hStream]
    simp only [Link.unsent, List.length_append, List.length_take, List.length_drop]
    omega
  | written hWrites hAll =>
    have hSent := h.sent_eq hWrites hAll
    have hStream := stream_written hWrites hSent
    rw [Link.measure, Link.measure, Link.stream, Link.unsent, hStream, hWrites]
    simp [Link.stream]
  | receive count hReaders hPos hRoom hThere =>
    have hStream := stream_receive link count
    simp only [Link.measure, Link.stream, Link.unsent] at hStream ⊢
    rw [hStream]
    simp only [List.length_drop]
    omega
  | received hReaders hAll =>
    have hSize := h.length_buffer hReaders hAll
    simp only [Link.measure, Link.stream, Link.unsent, hReaders, rounds, Reader.rounds,
      Reader.rest, List.nil_append]
    rw [← hSize, List.take_left, List.drop_left]
    omega
  | returned hReaders =>
    have hBuffer := h.resting (by simp [hReaders])
    simp only [Link.measure, Link.stream, Link.unsent, hReaders, hBuffer, rounds, Reader.rounds,
      Reader.rest, List.nil_append]
    omega

theorem coherent_start {writes : List (List τ)} {readers : List (Reader ε τ α)}
    (h : Streams.Takes (readAll short readers) writes.flatten values) :
    Coherent short values { writes := writes, readers := readers } := by
  have hRun := h []
  rw [List.append_nil] at hRun
  constructor
  case sent => exact fun _ _ => Nat.zero_le _
  case idle => exact fun _ => rfl
  case reading => exact fun _ _ _ _ => Nat.zero_le _
  case resting => exact fun _ => rfl
  case remaining => exact ⟨values, hRun, rfl⟩

end Steps

end OramHub.Fragments

import OramHub.Lib.Layout
import OramHub.RingOram.Codec

/-! # What the readers do on arbitrary bytes

A reader follows the scan of its layout: it returns where the scan is done, and throws where the
input is too short. After a dishonest length prefix it has asked for memory or bytes that are not
there, or for a vector larger than there is.
-/
namespace OramHub.RingOram
open OramHub.Core OramHub.Program OramHub.LittleEndian OramHub.Layouts
set_option autoImplicit false

/-- Every slice lay inside the input, no offset moved backwards, and no vector was asked for more
elements than there were bytes left. -/
structure Cursor.Sound (total : Nat) (cursor : Cursor) : Prop where
  slices : ∀ slice ∈ cursor.slices,
    slice.start.toNat + slice.size.toNat ≤ total ∧ slice.start ≤ slice.start + slice.size
  allocations : ∀ allocation ∈ cursor.allocations, allocation.elements ≤ allocation.bytesLeft

variable {α β : Type} {before rest : Bytes} {cursor : Cursor} {outcome : Scan}

/-- Where a reader may return, by the outcome of the scan of `rest`. -/
def Returned (before rest : Bytes) (outcome : Scan) (cursor : Cursor) : Prop :=
  match outcome with
  | .done rest' => cursor.Sound (before ++ rest).length ∧
      ∃ chunk, rest = chunk ++ rest' ∧ cursor.offset = UInt64.ofNat (before ++ chunk).length
  | .short => False
  | .dishonest => ¬ cursor.Sound (before ++ rest).length

/-- How a reader may throw. -/
def Threw (before rest : Bytes) (outcome : Scan) (e : Exception) (cursor : Cursor) : Prop :=
  match outcome with
  | .done _ => False
  | .short => cursor.Sound (before ++ rest).length ∧ ∃ what, e = .invalidArgument what
  | .dishonest => ¬ cursor.Sound (before ++ rest).length ∨ ∀ what, e ≠ .invalidArgument what

/-- Nothing makes up for a bad step. -/
def Spoils (total : Nat) (reader : Reader α) : Prop :=
  ∀ cursor, ¬ cursor.Sound total →
    wp reader cursor (fun _ cursor' => ¬ cursor'.Sound total) fun _ cursor' => ¬ cursor'.Sound total

structure Follows (reader : Bytes → Reader α) (layout : Layout) : Prop where
  spoils : ∀ bytes, Spoils bytes.length (reader bytes)
  reads : ∀ before rest cursor, (before ++ rest).length ≤ vectorMaxSize →
    cursor.offset = UInt64.ofNat before.length →
    cursor.Sound (before ++ rest).length → wp (reader (before ++ rest)) cursor
      (fun _ => Returned before rest (scan (before ++ rest).length layout rest))
      (Threw before rest (scan (before ++ rest).length layout rest))

section Cursors

variable {total : Nat}

theorem Cursor.Sound.advance (h : cursor.Sound total) {size : UInt64}
    (hInside : cursor.offset.toNat + size.toNat ≤ total) (hTotal : total ≤ vectorMaxSize) :
    (cursor.advance size).Sound total := by
  have hSmall : total < 2 ^ 64 := hTotal.trans_lt (by decide)
  constructor
  case slices =>
    intro slice hSlice
    obtain hOld | hNew := List.mem_append.mp hSlice
    · exact h.slices slice hOld
    · obtain rfl := List.mem_singleton.mp hNew
      refine ⟨hInside, UInt64.le_iff_toNat_le.mpr ?_⟩
      rw [UInt64.toNat_add, Nat.mod_eq_of_lt (hInside.trans_lt hSmall)]
      exact Nat.le_add_right _ _
  case allocations => exact h.allocations

theorem not_sound_advance (h : ¬ cursor.Sound total) (size : UInt64) :
    ¬ (cursor.advance size).Sound total := by
  intro hSound
  exact h ⟨fun slice hSlice => hSound.slices slice (List.mem_append_left _ hSlice),
    hSound.allocations⟩

theorem Cursor.sound_request {bytes : Bytes} {size : UInt64} :
    (cursor.request bytes size).Sound total ↔ cursor.Sound total ∧
    size.toNat ≤ bytes.length - cursor.offset.toNat := by
  constructor
  · intro h
    refine ⟨⟨h.slices, fun allocation hAllocation => ?_⟩, ?_⟩
    · exact h.allocations allocation (List.mem_append_left _ hAllocation)
    · exact h.allocations ⟨size.toNat, bytes.length - cursor.offset.toNat⟩
        (by simp [Cursor.request])
  · rintro ⟨h, hSize⟩
    refine ⟨h.slices, fun allocation hAllocation => ?_⟩
    obtain hOld | hNew := List.mem_append.mp hAllocation
    · exact h.allocations allocation hOld
    · obtain rfl := List.mem_singleton.mp hNew
      exact hSize

end Cursors

section Sequences

theorem Spoils.bind {total : Nat} {reader : Reader α} {next : α → Reader β}
    (h : Spoils total reader)
    (hNext : ∀ a, Spoils total (next a)) : Spoils total (reader >>= next) :=
  fun cursor hCursor => wp.bind (h cursor hCursor) fun a cursor' hCursor' =>
    hNext a cursor' hCursor'

theorem Spoils.pure {total : Nat} (value : α) : Spoils total (Pure.pure value : Reader α) :=
  fun _ hCursor => wp.pure hCursor

theorem reads_bind {reader : Reader α} {next : α → Reader β}
    {onward : Bytes → Scan} {shaped : α → Prop}
    (h : wp reader cursor (fun a cursor' => Returned before rest outcome cursor' ∧ shaped a)
      (Threw before rest outcome))
    (hSpoils : ∀ a, Spoils (before ++ rest).length (next a))
    (hNext : ∀ a chunk rest' cursor', rest = chunk ++ rest' → shaped a →
      cursor'.Sound (before ++ rest).length →
      cursor'.offset = UInt64.ofNat (before ++ chunk).length →
      wp (next a) cursor' (fun _ => Returned (before ++ chunk) rest' (onward rest'))
        (Threw (before ++ chunk) rest' (onward rest'))) :
    wp (reader >>= next) cursor (fun _ => Returned before rest (outcome.andThen onward))
      (Threw before rest (outcome.andThen onward)) := by
  cases outcome with
  | done rest' =>
    refine wp.bind (wp_mono h (fun _ _ => id) fun _ _ => False.elim) ?_
    rintro a cursor' ⟨⟨hSound, chunk, rfl, hOffset⟩, hShaped⟩
    refine wp_mono (hNext a chunk rest' cursor' rfl hShaped hSound hOffset) ?_ ?_
    · intro _ cursor'' hReturned
      cases hScan : onward rest' with
      | done rest'' =>
        rw [hScan] at hReturned
        obtain ⟨hSound', chunk', hRest, hOffset'⟩ := hReturned
        rw [List.append_assoc] at hSound' hOffset'
        simp only [Scan.andThen, hScan]
        exact ⟨hSound', chunk ++ chunk', by rw [hRest, List.append_assoc], hOffset'⟩
      | short =>
        rw [hScan] at hReturned
        exact hReturned.elim
      | dishonest =>
        rw [hScan, Returned, List.append_assoc] at hReturned
        simp only [Scan.andThen, hScan]
        exact hReturned
    · intro e cursor'' hThrew
      cases hScan : onward rest' with
      | done rest'' =>
        rw [hScan] at hThrew
        exact hThrew.elim
      | short =>
        rw [hScan, Threw, List.append_assoc] at hThrew
        simp only [Scan.andThen, hScan]
        exact hThrew
      | dishonest =>
        rw [hScan, Threw, List.append_assoc] at hThrew
        simp only [Scan.andThen, hScan]
        exact hThrew
  | short => exact wp.bind (wp_mono h (fun _ _ h => h.1) fun _ _ => id) fun _ _ => False.elim
  | dishonest =>
    apply wp.bind h
    intro a cursor' hReturned
    exact wp_mono (hSpoils a cursor' hReturned.1) (fun _ _ => id) fun _ _ => Or.inl

theorem Follows.bind {reader : Bytes → Reader α} {next : α → Bytes → Reader β}
    {layout layout' : Layout} (h : Follows reader layout) (hNext : ∀ a, Follows (next a) layout') :
    Follows (fun bytes => reader bytes >>= fun a => next a bytes) (.seq layout layout') := by
  constructor
  case spoils => exact fun bytes => (h.spoils bytes).bind fun a => (hNext a).spoils bytes
  case reads =>
    intro before rest cursor hSize hOffset hSound
    have hFirst := wp_mono (h.reads before rest cursor hSize hOffset hSound)
      (fun _ _ hReturned => And.intro hReturned trivial) fun _ _ => id
    apply reads_bind hFirst (fun a => (hNext a).spoils _)
    rintro a chunk rest' cursor' rfl _ hSound' hOffset'
    rw [← List.append_assoc] at hSize hSound' ⊢
    exact (hNext a).reads (before ++ chunk) rest' cursor' hSize hOffset' hSound'

theorem Follows.returning {reader : Bytes → Reader α} {layout : Layout}
    (h : Follows reader layout) (f : α → β) :
    Follows (fun bytes => reader bytes >>= fun a => Pure.pure (f a)) layout := by
  constructor
  case spoils => exact fun bytes => (h.spoils bytes).bind fun a => Spoils.pure (f a)
  case reads =>
    intro before rest cursor hSize hOffset hSound
    apply wp.bind (h.reads before rest cursor hSize hOffset hSound)
    intro a cursor' hReturned
    exact wp.pure hReturned

end Sequences

section Words

variable {bytes : Bytes}

theorem spoils_readUint64 (bytes : Bytes) : Spoils bytes.length (readUint64 bytes) := by
  intro cursor hCursor
  refine wp.get_bind (wp.check_bind (fun _ => hCursor) fun _ => ?_)
  exact Returns.outcome (Returns.set_bind (Returns.pure (not_sound_advance hCursor 8)))

theorem not_sound_request {total : Nat} (h : ¬ cursor.Sound total) (bytes : Bytes) (size : UInt64) :
    ¬ (cursor.request bytes size).Sound total := fun hSound => h (Cursor.sound_request.mp hSound).1

theorem allocate_outcome (bytes : Bytes) (elementSize : Nat) (size : UInt64)
    (what : String) (cursor : Cursor) :
    wp (allocate bytes elementSize size what) cursor
      (fun _ cursor' => cursor' = cursor.request bytes size ∧
        size.toNat ≤ vectorMaxSize / elementSize)
      fun e cursor' => e = .lengthError what ∧ cursor' = cursor.request bytes size ∧
        vectorMaxSize / elementSize < size.toNat := by
  simp only [allocate, wp_bind, wp_modify, wp_throwIf]
  exact ⟨fun hLarge => ⟨trivial, trivial, hLarge⟩, fun hSmall => ⟨trivial, Nat.not_lt.mp hSmall⟩⟩

theorem spoils_allocate (bytes : Bytes) (elementSize : Nat) (size : UInt64) (what : String) :
    Spoils bytes.length (allocate bytes elementSize size what) := by
  intro cursor hCursor
  refine wp_mono (allocate_outcome bytes elementSize size what cursor) ?_ ?_
  · rintro _ _ ⟨rfl, _⟩
    exact not_sound_request hCursor bytes size
  · rintro _ _ ⟨_, rfl, _⟩
    exact not_sound_request hCursor bytes size

theorem spoils_readRange (bytes : Bytes) (size : UInt64) (what : String) :
    Spoils bytes.length (readRange bytes size what) := by
  intro cursor hCursor
  refine wp.get_bind (wp.check_bind (fun _ => hCursor) fun _ => ?_)
  apply wp.bind (spoils_allocate bytes 1 size _ cursor hCursor)
  intro _ cursor' hCursor'
  exact wp.modify_bind (wp.pure (not_sound_advance hCursor' size))

theorem spoils_readFlags (bytes : Bytes) (size : UInt64) :
    Spoils bytes.length (readFlags bytes size) := by
  intro cursor hCursor
  have hAfter := not_sound_request hCursor bytes size
  refine wp.get_bind (wp.check_bind (fun _ => hCursor) fun _ => ?_)
  refine wp.modify_bind (wp.check_bind (fun _ => hAfter) fun _ =>
    wp.check_bind (fun _ => hAfter) fun _ => ?_)
  exact wp.modify_bind (wp.pure (not_sound_advance hAfter size))

theorem toNat_total (hSize : (before ++ rest).length ≤ vectorMaxSize) :
    (UInt64.ofNat (before ++ rest).length).toNat = before.length + rest.length := by
  rw [toNat_ofNat_of_le hSize, List.length_append]

/-- What the check of a range of `size` bytes compares. -/
theorem toNat_checked (hSize : (before ++ rest).length ≤ vectorMaxSize)
    (hOffset : cursor.offset = UInt64.ofNat before.length) (size : UInt64) :
    (cursor.offset + size).toNat = (before.length + size.toNat) % 2 ^ 64 := by
  rw [List.length_append] at hSize
  rw [UInt64.toNat_add, hOffset, toNat_ofNat_of_le (by omega)]

/-- The cursor of a reader that has cut out the next `size` bytes. -/
theorem returned_advance (hSize : (before ++ rest).length ≤ vectorMaxSize)
    (hOffset : cursor.offset = UInt64.ofNat before.length)
    (hSound : cursor.Sound (before ++ rest).length)
    (size : UInt64) (hFits : size.toNat ≤ rest.length) :
    Returned before rest (.done (rest.drop size.toNat)) (cursor.advance size) := by
  have hStart : cursor.offset.toNat = before.length := by
    rw [List.length_append] at hSize
    rw [hOffset, toNat_ofNat_of_le (by omega)]
  refine ⟨hSound.advance ?_ hSize, rest.take size.toNat, (List.take_append_drop _ rest).symm, ?_⟩
  · rw [hStart, List.length_append]
    omega
  · change cursor.offset + size = _
    rw [List.length_append, List.length_take, Nat.min_eq_left hFits, UInt64.ofNat_add,
      hOffset, UInt64.ofNat_toNat]

theorem reads_word (hSize : (before ++ rest).length ≤ vectorMaxSize)
    (hOffset : cursor.offset = UInt64.ofNat before.length)
    (hSound : cursor.Sound (before ++ rest).length) :
    wp (readUint64 (before ++ rest)) cursor
      (fun value cursor' => Returned before rest (scanWord rest) cursor' ∧
        value = decodeWord (rest.take 8))
      (Threw before rest (scanWord rest)) := by
  have hTotal := toNat_total hSize
  have hLength : before.length ≤ vectorMaxSize := by
    rw [List.length_append] at hSize
    omega
  have hNext : (cursor.offset + 8).toNat = before.length + 8 := by
    rw [toNat_checked hSize hOffset]
    apply Nat.mod_eq_of_lt
    rw [vectorMaxSize] at hLength
    exact Nat.lt_of_le_of_lt (Nat.add_le_add_right hLength 8) (by decide)
  refine wp.get_bind (wp.check_bind (fun hShort => ?_) fun hLong => ?_)
  · rw [UInt64.lt_iff_toNat_lt, hTotal, hNext] at hShort
    rw [scanWord, if_pos (by omega)]
    exact ⟨hSound, _, rfl⟩
  · rw [UInt64.lt_iff_toNat_lt, hTotal, hNext] at hLong
    refine Returns.outcome (Returns.set_bind (Returns.pure ?_))
    rw [scanWord, if_neg (by omega)]
    refine ⟨returned_advance hSize hOffset hSound 8 (by change 8 ≤ _; omega), ?_⟩
    rw [hOffset, toNat_ofNat_of_le hLength, List.drop_left]

theorem follows_readUint64 : Follows readUint64 .word := by
  constructor
  case spoils => exact spoils_readUint64
  case reads =>
    intro before rest cursor hSize hOffset hSound
    exact wp_mono (reads_word hSize hOffset hSound) (fun _ _ h => h.1) fun _ _ => id

/-- What has been asked for is not there. -/
theorem not_sound_overrun (hSize : (before ++ rest).length ≤ vectorMaxSize)
    (hOffset : cursor.offset = UInt64.ofNat before.length) {size : UInt64}
    (hMore : rest.length < size.toNat) :
    ¬ (cursor.request (before ++ rest) size).Sound (before ++ rest).length := by
  rw [List.length_append] at hSize
  rw [Cursor.sound_request, hOffset, toNat_ofNat_of_le (by omega), List.length_append]
  omega

theorem sound_request (hSize : (before ++ rest).length ≤ vectorMaxSize)
    (hOffset : cursor.offset = UInt64.ofNat before.length)
    (hSound : cursor.Sound (before ++ rest).length)
    {size : UInt64} (hFits : size.toNat ≤ rest.length) :
    (cursor.request (before ++ rest) size).Sound (before ++ rest).length := by
  rw [List.length_append] at hSize
  refine Cursor.sound_request.mpr ⟨hSound, ?_⟩
  rw [hOffset, toNat_ofNat_of_le (by omega), List.length_append]
  omega

/-- A range of a given length. If the sum with the offset wraps around, the check passes and there
is less than has been asked for. -/
theorem reads_checked {next : Cursor → Reader α} {size : UInt64} {what : String}
    (hSize : (before ++ rest).length ≤ vectorMaxSize)
    (hOffset : cursor.offset = UInt64.ofNat before.length)
    (hSound : cursor.Sound (before ++ rest).length)
    (hOverrun : rest.length < size.toNat →
      wp (next cursor) cursor (fun _ => Returned before rest .dishonest)
        (Threw before rest .dishonest))
    (hFits : size.toNat ≤ rest.length → wp (next cursor) cursor
      (fun _ => Returned before rest (.done (rest.drop size.toNat))) fun _ _ => False) :
    wp (get >>= fun cursor => throwIf (UInt64.ofNat (before ++ rest).length < cursor.offset + size)
        (.invalidArgument what) >>= fun _ => next cursor) cursor
      (fun _ => Returned before rest (scanRange (before ++ rest).length size.toNat rest))
      (Threw before rest (scanRange (before ++ rest).length size.toNat rest)) := by
  have hTotal := toNat_total hSize
  have hSum : (before ++ rest).length - rest.length = before.length := by
    rw [List.length_append]
    omega
  have hLength : before.length + rest.length ≤ vectorMaxSize := by rwa [List.length_append] at hSize
  have hSmall := UInt64.toNat_lt size
  have hMax : vectorMaxSize = 2 ^ 63 - 1 := rfl
  refine wp.get_bind (wp.check_bind (fun hShort => ?_) fun hLong => ?_)
  · rw [UInt64.lt_iff_toNat_lt, hTotal, toNat_checked hSize hOffset] at hShort
    rw [scanRange, hSum, if_neg (by omega), if_pos (by omega)]
    exact ⟨hSound, _, rfl⟩
  · rw [UInt64.lt_iff_toNat_lt, hTotal, toNat_checked hSize hOffset] at hLong
    by_cases hWrap : 2 ^ 64 ≤ before.length + size.toNat
    · rw [scanRange, hSum, if_pos hWrap]
      exact hOverrun (by omega)
    · rw [scanRange, hSum, if_neg hWrap, if_neg (by omega)]
      exact hFits (by omega)

theorem reads_range (hSize : (before ++ rest).length ≤ vectorMaxSize)
    (hOffset : cursor.offset = UInt64.ofNat before.length)
    (hSound : cursor.Sound (before ++ rest).length)
    (size : UInt64) (what : String) :
    wp (readRange (before ++ rest) size what) cursor
      (fun _ => Returned before rest (scanRange (before ++ rest).length size.toNat rest))
      (Threw before rest (scanRange (before ++ rest).length size.toNat rest)) := by
  have hAllocate :=
    allocate_outcome (before ++ rest) 1 size
      "cannot create std::vector larger than max_size()" cursor
  apply reads_checked hSize hOffset hSound
  · intro hMore
    have hAfter := not_sound_overrun hSize hOffset hMore
    refine wp.bind (wp_mono hAllocate (fun _ _ => id) ?_) ?_
    · rintro _ _ ⟨_, rfl, _⟩
      exact Or.inl hAfter
    · rintro _ _ ⟨rfl, _⟩
      exact wp.modify_bind (wp.pure (not_sound_advance hAfter size))
  · intro hFits
    rw [List.length_append] at hSize
    refine wp.bind (wp_mono hAllocate (fun _ _ => id) ?_) ?_
    · rintro _ _ ⟨_, _, hLarge⟩
      rw [Nat.div_one] at hLarge
      omega
    · rintro _ _ ⟨rfl, _⟩
      rw [← List.length_append] at hSize
      have hAfter := sound_request hSize hOffset hSound hFits
      exact wp.modify_bind
        (wp.pure (@returned_advance _ _ (cursor.request _ size) hSize hOffset hAfter size hFits))

/-- Flags that are not there are asked for and then copied from behind the input. -/
theorem reads_flags (hSize : (before ++ rest).length ≤ vectorMaxSize)
    (hOffset : cursor.offset = UInt64.ofNat before.length)
    (hSound : cursor.Sound (before ++ rest).length)
    (size : UInt64) :
    wp (readFlags (before ++ rest) size) cursor
      (fun _ => Returned before rest (scanRange (before ++ rest).length size.toNat rest))
      (Threw before rest (scanRange (before ++ rest).length size.toNat rest)) := by
  apply reads_checked hSize hOffset hSound
  · intro hMore
    have hAfter := not_sound_overrun hSize hOffset hMore
    refine wp.modify_bind (wp.check_bind (fun _ => Or.inl hAfter) fun _ => ?_)
    exact wp.check_bind (fun _ => Or.inl hAfter) fun _ =>
      wp.modify_bind (wp.pure (not_sound_advance hAfter size))
  · intro hFits
    rw [List.length_append] at hSize
    refine wp.modify_bind (wp.check_bind (le_wordCount (by omega)) fun _ => ?_)
    refine wp.check_bind (fun hShort => ?_) fun _ => ?_
    · rw [hOffset, toNat_ofNat_of_le (by omega), List.length_append] at hShort
      omega
    · rw [← List.length_append] at hSize
      have hAfter := sound_request hSize hOffset hSound hFits
      exact wp.modify_bind
        (wp.pure (@returned_advance _ _ (cursor.request _ size) hSize hOffset hAfter size hFits))

end Words

section Prefixed

variable {layout : Layout}

theorem reads_before {next : UInt64 → Reader α} {onward : Nat → Bytes → Scan}
    (hSize : (before ++ rest).length ≤ vectorMaxSize)
    (hOffset : cursor.offset = UInt64.ofNat before.length)
    (hSound : cursor.Sound (before ++ rest).length)
    (hSpoils : ∀ size, Spoils (before ++ rest).length (next size))
    (hNext : ∀ size chunk rest' cursor', rest = chunk ++ rest' →
      cursor'.offset = UInt64.ofNat (before ++ chunk).length →
      cursor'.Sound (before ++ rest).length →
      wp (next size) cursor' (fun _ => Returned (before ++ chunk) rest' (onward size.toNat rest'))
        (Threw (before ++ chunk) rest' (onward size.toNat rest'))) :
    wp (readUint64 (before ++ rest) >>= next) cursor
      (fun _ => Returned before rest ((scanWord rest).andThen (onward (lengthPrefix rest))))
      (Threw before rest ((scanWord rest).andThen (onward (lengthPrefix rest)))) := by
  apply reads_bind (reads_word hSize hOffset hSound) hSpoils
  rintro _ chunk rest' cursor' hRest rfl hSound' hOffset'
  exact hNext _ chunk rest' cursor' hRest hOffset' hSound'

/-- A length and as much of what `range` reads. -/
theorem follows_blob {range : Bytes → UInt64 → Reader α}
    (hSpoils : ∀ bytes size, Spoils bytes.length (range bytes size))
    (hReads : ∀ before rest cursor size, (before ++ rest).length ≤ vectorMaxSize →
      cursor.offset = UInt64.ofNat before.length → cursor.Sound (before ++ rest).length →
      wp (range (before ++ rest) size) cursor
        (fun _ => Returned before rest (scanRange (before ++ rest).length size.toNat rest))
        (Threw before rest (scanRange (before ++ rest).length size.toNat rest))) :
    Follows (fun bytes => readUint64 bytes >>= range bytes) .blob := by
  constructor
  case spoils => exact fun bytes => (spoils_readUint64 bytes).bind (hSpoils bytes)
  case reads =>
    intro before rest cursor hSize hOffset hSound
    apply reads_before hSize hOffset hSound (hSpoils _)
    rintro size chunk rest' cursor' rfl hOffset' hSound'
    rw [← List.append_assoc] at hSize hSound' ⊢
    exact hReads (before ++ chunk) rest' cursor' size hSize hOffset' hSound'

theorem follows_readBytes : Follows readBytes .blob :=
  follows_blob (fun bytes size => spoils_readRange bytes size _)
    fun _ _ _ size hSize hOffset hSound =>
    reads_range hSize hOffset hSound size _

theorem follows_readBoolVector : Follows readBoolVector .blob :=
  follows_blob spoils_readFlags fun _ _ _ size hSize hOffset hSound =>
    reads_flags hSize hOffset hSound size

theorem spoils_readMany {item : Reader α} {total : Nat} (h : Spoils total item) (count : Nat) :
    Spoils total (readMany item count) := by
  induction count with
  | zero => exact Spoils.pure []
  | succ count ih => exact h.bind fun head => ih.bind fun tail => Spoils.pure (head :: tail)

theorem reads_many {item : Bytes → Reader α} (h : Follows item layout) (count : Nat)
    (hSize : (before ++ rest).length ≤ vectorMaxSize)
    (hOffset : cursor.offset = UInt64.ofNat before.length)
    (hSound : cursor.Sound (before ++ rest).length) :
    wp (readMany (item (before ++ rest)) count) cursor
      (fun _ => Returned before rest (scanMany (scan (before ++ rest).length layout) count rest))
      (Threw before rest (scanMany (scan (before ++ rest).length layout) count rest)) := by
  induction count generalizing before rest cursor with
  | zero =>
    refine wp.pure ⟨hSound, [], rfl, ?_⟩
    rw [List.append_nil, hOffset]
  | succ count ih =>
    have hTail : ∀ head, Spoils (before ++ rest).length
        (readMany (item (before ++ rest)) count >>= fun tail => Pure.pure (head :: tail)) :=
      fun head => (spoils_readMany (h.spoils _) count).bind fun tail => Spoils.pure (head :: tail)
    have hFirst := wp_mono (h.reads before rest cursor hSize hOffset hSound)
      (fun _ _ hReturned => And.intro hReturned trivial) fun _ _ => id
    apply reads_bind hFirst hTail
    rintro head chunk rest' cursor' rfl _ hSound' hOffset'
    rw [← List.append_assoc] at hSize hSound' ⊢
    exact wp.bind (ih hSize hOffset' hSound') fun tail cursor'' hReturned => wp.pure hReturned

/-- A number and as many items. If there are not even as many bytes left, memory for the items has
been asked for; if there are, but no vector can hold the items, the reader throws. -/
theorem follows_readCounted {item : Bytes → Reader α} (h : Follows item layout)
    (elementSize : Nat) :
    Follows (fun bytes => readCounted bytes elementSize (item bytes))
      (.counted (vectorMaxSize / elementSize) layout) := by
  have hSpoils : ∀ (bytes : Bytes) (size : UInt64), Spoils bytes.length
      (allocate bytes elementSize size "vector::reserve" >>= fun _ =>
        readMany (item bytes) size.toNat) :=
    fun bytes size => (spoils_allocate bytes elementSize size _).bind fun _ =>
      spoils_readMany (h.spoils bytes) size.toNat
  constructor
  case spoils => exact fun bytes => (spoils_readUint64 bytes).bind (hSpoils bytes)
  case reads =>
    intro before rest cursor hSize hOffset hSound
    refine @reads_before _ before rest cursor _ (fun count =>
      scanCount (vectorMaxSize / elementSize) count (scan (before ++ rest).length layout))
      hSize hOffset hSound (hSpoils _) ?_
    rintro size chunk rest' cursor' rfl hOffset' hSound'
    rw [← List.append_assoc] at hSize hSound' ⊢
    have hAllocate :=
      allocate_outcome (before ++ chunk ++ rest') elementSize size "vector::reserve" cursor'
    by_cases hMore : rest'.length < size.toNat
    · rw [scanCount, if_pos (Or.inl hMore)]
      have hAfter := not_sound_overrun hSize hOffset' hMore
      refine wp.bind (wp_mono hAllocate (fun _ _ => id) ?_) ?_
      · rintro _ _ ⟨_, rfl, _⟩
        exact Or.inl hAfter
      · rintro _ _ ⟨rfl, _⟩
        exact wp_mono (spoils_readMany (h.spoils _) size.toNat _ hAfter) (fun _ _ => id)
          fun _ _ => Or.inl
    · by_cases hLarge : vectorMaxSize / elementSize < size.toNat
      · rw [scanCount, if_pos (Or.inr hLarge)]
        refine wp.bind (wp_mono hAllocate (fun _ _ => id) ?_) ?_
        · rintro _ _ ⟨rfl, _⟩
          exact Or.inr fun what => nofun
        · rintro _ _ ⟨_, hSmall⟩
          exact absurd hLarge (Nat.not_lt.mpr hSmall)
      · rw [scanCount, if_neg (not_or.mpr ⟨hMore, hLarge⟩)]
        have hAfter := sound_request hSize hOffset' hSound' (Nat.not_lt.mp hMore)
        refine wp.bind (wp_mono hAllocate (fun _ _ => id) ?_) ?_
        · rintro _ _ ⟨_, _, hLarge'⟩
          exact absurd hLarge' hLarge
        · rintro _ _ ⟨rfl, _⟩
          exact reads_many h size.toNat hSize hOffset' hAfter

end Prefixed

section Formats

/-- Two byte vectors. -/
def fieldLayout : Layout := .seq .blob .blob

def ringBlockLayout : Layout := .seq .word (.seq .word .blob)

def stashLayout : Layout := .counted (vectorMaxSize / ringBlockSize) ringBlockLayout

def fieldsLayout : Layout := .counted (vectorMaxSize / encryptedFieldSize) fieldLayout

def metadataLayout : Layout :=
  .seq .word (.seq .blob (.seq fieldsLayout (.seq fieldsLayout fieldsLayout)))

def encryptedBucketLayout : Layout :=
  .seq .word (.seq .blob (.seq fieldsLayout (.seq fieldsLayout (.seq fieldsLayout fieldsLayout))))

theorem follows_readField : Follows readField fieldLayout :=
  follows_readBytes.bind fun iv => follows_readBytes.returning fun ciphertext =>
    EncryptedField.mk iv ciphertext

theorem follows_readFields : Follows readFields fieldsLayout :=
  follows_readCounted follows_readField encryptedFieldSize

theorem follows_readRingBlockPayload : Follows readRingBlockPayload ringBlockLayout :=
  follows_readUint64.bind fun addr => follows_readUint64.bind fun leaf =>
    follows_readBytes.returning fun data => RingBlock.mk addr leaf data

theorem follows_readRingBlocks : Follows readRingBlocks stashLayout :=
  follows_readCounted follows_readRingBlockPayload ringBlockSize

theorem follows_readMetadata : Follows readMetadata metadataLayout :=
  follows_readUint64.bind fun count => follows_readBoolVector.bind fun valids =>
    follows_readFields.bind fun addrs =>
    follows_readFields.bind fun leaves => follows_readFields.returning fun ptrs =>
      RingBucketMetadata.mk count valids addrs leaves ptrs

theorem follows_readEncryptedBucket : Follows readEncryptedBucket encryptedBucketLayout :=
  follows_readUint64.bind fun count => follows_readBoolVector.bind fun valids =>
    follows_readFields.bind fun addrs =>
    follows_readFields.bind fun leaves => follows_readFields.bind fun ptrs =>
      follows_readFields.returning fun data =>
      EncryptedRingBucket.mk count valids addrs leaves ptrs data

/-- The cursor with which a reader ends. -/
def finalCursor {α : Type} (reader : Reader α) : Cursor :=
  match reader.run {} with
  | .ok _ cursor => cursor
  | .error _ cursor => cursor

/-- What a deserializer owes every input: a value or `std::invalid_argument`, and a sound reading.
-/
structure SafeOn {α : Type} (bytes : Bytes) (reader : Reader α)
    (result : Except Exception α) : Prop where
  outcome : (∃ value, result = .ok value) ∨ ∃ what, result = .error (.invalidArgument what)
  sound : (finalCursor reader).Sound bytes.length

theorem Follows.safeOn_iff {reader : Bytes → Reader α} {layout : Layout}
    (h : Follows reader layout) (input : ByteVector) (trailing : String) :
    SafeOn input.bytes (reader input.bytes) (readWhole input.bytes (reader input.bytes) trailing) ↔
      Honest layout input.bytes := by
  have hReads := h.reads [] input.bytes {} input.fits rfl ⟨by simp, by simp⟩
  rw [List.nil_append] at hReads
  obtain ⟨hReturned, hThrew⟩ := wp_iff.mp hReads
  unfold Honest
  cases hRun : (reader input.bytes).run {} with
  | ok value cursor =>
    have hEnd := hReturned value cursor hRun
    have hFinal : finalCursor (reader input.bytes) = cursor := by rw [finalCursor, hRun]
    constructor
    · rintro ⟨_, hSound⟩ hScan
      rw [hFinal] at hSound
      rw [hScan] at hEnd
      exact hEnd hSound
    · intro hHonest
      constructor
      case outcome =>
        simp only [readWhole, hRun]
        split
        · exact Or.inr ⟨trailing, rfl⟩
        · exact Or.inl ⟨value, rfl⟩
      case sound =>
        rw [hFinal]
        cases hScan : scan input.bytes.length layout input.bytes with
        | done rest' =>
          rw [hScan] at hEnd
          exact hEnd.1
        | short =>
          rw [hScan] at hEnd
          exact hEnd.elim
        | dishonest => exact absurd hScan hHonest
  | error e cursor =>
    have hEnd := hThrew e cursor hRun
    have hFinal : finalCursor (reader input.bytes) = cursor := by rw [finalCursor, hRun]
    constructor
    · rintro ⟨hOutcome, hSound⟩ hScan
      rw [hFinal] at hSound
      rw [hScan] at hEnd
      simp only [readWhole, hRun] at hOutcome
      obtain ⟨value, hValue⟩ | ⟨what, hWhat⟩ := hOutcome
      · cases hValue
      · obtain hBad | hOther := hEnd
        · exact hBad hSound
        · exact hOther what (Except.error.inj hWhat)
    · intro hHonest
      cases hScan : scan input.bytes.length layout input.bytes with
      | done rest' =>
        rw [hScan] at hEnd
        exact hEnd.elim
      | short =>
        rw [hScan] at hEnd
        obtain ⟨hSound, what, rfl⟩ := hEnd
        constructor
        case outcome =>
          simp only [readWhole, hRun]
          exact Or.inr ⟨what, rfl⟩
        case sound => rwa [hFinal]
      | dishonest => exact absurd hScan hHonest

/-- Each deserializer is safe on exactly the inputs whose length prefixes are honest. -/
theorem deserializers_safe_iff (input : ByteVector) :
    (SafeOn input.bytes (readRingBlockPayload input.bytes) (deserializeRingBlock input.bytes) ↔
      Honest ringBlockLayout input.bytes) ∧
    (SafeOn input.bytes (readRingBlocks input.bytes) (deserializeRingBlocks input.bytes) ↔
      Honest stashLayout input.bytes) ∧
    (SafeOn input.bytes (readEncryptedBucket input.bytes)
      (deserializeEncryptedRingBucket input.bytes) ↔
      Honest encryptedBucketLayout input.bytes) ∧
    (SafeOn input.bytes (readMetadata input.bytes) (deserializeRingBucketMetadata input.bytes) ↔
      Honest metadataLayout input.bytes) :=
  ⟨follows_readRingBlockPayload.safeOn_iff input _, follows_readRingBlocks.safeOn_iff input _,
    follows_readEncryptedBucket.safeOn_iff input _, follows_readMetadata.safeOn_iff input _⟩

/-- A stash file of eight bytes that promises 2 ^ 64 - 1 blocks. -/
def boastfulStash : Bytes := List.replicate 8 255

theorem boastfulStash_unsafe : ¬ SafeOn boastfulStash (readRingBlocks boastfulStash)
    (deserializeRingBlocks boastfulStash) := by
  have hResult : deserializeRingBlocks boastfulStash =
      .error (.lengthError "vector::reserve") := rfl
  rintro ⟨⟨value, hValue⟩ | ⟨what, hWhat⟩, _⟩
  · rw [hResult] at hValue
    cases hValue
  · rw [hResult] at hWhat
    cases hWhat

end Formats

/-! ## Undefined behaviour -/

section Definedness

variable {bytes : Bytes}

/-- The reader throws nothing but exceptions of the language. -/
def Tame (reader : Reader α) : Prop :=
  ∀ cursor, wp reader cursor (fun _ _ => True) fun e _ => e.Defined

theorem Tame.bind {reader : Reader α} {next : α → Reader β} (h : Tame reader)
    (hNext : ∀ a, Tame (next a)) :
    Tame (reader >>= next) := fun cursor => wp.bind (h cursor) fun a cursor' _ => hNext a cursor'

theorem Tame.pure (value : α) : Tame (Pure.pure value : Reader α) := fun _ => wp.pure trivial

theorem tame_readUint64 (bytes : Bytes) : Tame (readUint64 bytes) :=
  fun _ => wp.get_bind (wp.check_bind (fun _ => by simp [Exception.Defined]) fun _ =>
    wp.modify_bind (wp.pure trivial))

theorem tame_allocate (bytes : Bytes) (elementSize : Nat) (size : UInt64) (what : String) :
    Tame (allocate bytes elementSize size what) := by
  intro cursor
  apply wp_mono (allocate_outcome bytes elementSize size what cursor)
  · exact fun _ _ _ => trivial
  · rintro e _ ⟨rfl, _⟩
    simp [Exception.Defined]

theorem tame_readBytes (bytes : Bytes) : Tame (readBytes bytes) := by
  refine (tame_readUint64 bytes).bind fun size cursor => ?_
  refine wp.get_bind (wp.check_bind (fun _ => by simp [Exception.Defined]) fun _ => ?_)
  exact wp.bind (tame_allocate bytes 1 size _ cursor) fun _ _ _ => wp.modify_bind (wp.pure trivial)

theorem tame_readMany {item : Reader α} (h : Tame item) (count : Nat) :
    Tame (readMany item count) := by
  induction count with
  | zero => exact Tame.pure []
  | succ count ih => exact h.bind fun head => ih.bind fun tail => Tame.pure (head :: tail)

theorem tame_readFields (bytes : Bytes) : Tame (readFields bytes) := by
  have hField : Tame (readField bytes) :=
    (tame_readBytes bytes).bind fun iv => (tame_readBytes bytes).bind fun ciphertext =>
      Tame.pure (EncryptedField.mk iv ciphertext)
  refine (tame_readUint64 bytes).bind fun size =>
    (tame_allocate bytes encryptedFieldSize size _).bind fun _ => ?_
  exact tame_readMany hField size.toNat

theorem readUint64_outcome (hSize : bytes.length ≤ vectorMaxSize)
    (hOffset : cursor.offset.toNat ≤ bytes.length) :
    wp (readUint64 bytes) cursor
      (fun value cursor' => cursor'.offset.toNat = cursor.offset.toNat + 8 ∧
        cursor'.offset.toNat ≤ bytes.length ∧
        value = decodeWord ((bytes.drop cursor.offset.toNat).take 8))
      fun e _ => e.Defined ∧ bytes.length < cursor.offset.toNat + 8 := by
  have hTotal := toNat_ofNat_of_le hSize
  have hNext : (cursor.offset + 8).toNat = cursor.offset.toNat + 8 := by
    rw [UInt64.toNat_add]
    apply Nat.mod_eq_of_lt
    rw [vectorMaxSize] at hSize
    exact Nat.lt_of_le_of_lt (Nat.add_le_add_right (hOffset.trans hSize) 8) (by decide)
  refine wp.get_bind (wp.check_bind (fun hShort => ?_) fun hLong => ?_)
  · rw [UInt64.lt_iff_toNat_lt, hTotal, hNext] at hShort
    exact ⟨by simp [Exception.Defined], hShort⟩
  · rw [UInt64.lt_iff_toNat_lt, hTotal, hNext] at hLong
    exact Returns.outcome
      (Returns.set_bind (Returns.pure ⟨hNext, hNext.trans_le (Nat.not_lt.mp hLong), rfl⟩))

/-- The copy of the flags leaves a vector or the input exactly if the sum with the offset wraps
around. -/
theorem readFlags_outcome (hSize : bytes.length ≤ vectorMaxSize)
    (hOffset : cursor.offset.toNat ≤ bytes.length) (size : UInt64) :
    wp (readFlags bytes size) cursor (fun _ _ => ¬ 2 ^ 64 ≤ cursor.offset.toNat + size.toNat)
      fun e _ => e.Defined ↔ ¬ 2 ^ 64 ≤ cursor.offset.toNat + size.toNat := by
  have hTotal := toNat_ofNat_of_le hSize
  have hMax : vectorMaxSize = 2 ^ 63 - 1 := rfl
  have hSmall := UInt64.toNat_lt size
  have hUndefined (what : String) : ¬ (Exception.undefinedBehavior what).Defined :=
    fun h => h what rfl
  refine wp.get_bind (wp.check_bind (fun hShort => ?_) fun hLong => ?_)
  · rw [UInt64.lt_iff_toNat_lt, hTotal, UInt64.toNat_add] at hShort
    exact iff_of_true (by simp [Exception.Defined]) (by omega)
  rw [UInt64.lt_iff_toNat_lt, hTotal, UInt64.toNat_add] at hLong
  refine wp.modify_bind (wp.check_bind (fun hWords => ?_) fun _ =>
    wp.check_bind (fun hShort => ?_) fun hFits => ?_)
  · have hLarge : vectorMaxSize < size.toNat := Nat.not_le.mp fun hLe => le_wordCount hLe hWords
    exact iff_of_false (hUndefined _) (by omega)
  · exact iff_of_false (hUndefined _) (by omega)
  · exact wp.modify_bind (wp.pure (by omega))

/-- The serialized bucket says that there are so many flags that their end wraps around. -/
def FlagsWrap (bytes : Bytes) : Prop :=
  16 ≤ bytes.length ∧ 2 ^ 64 ≤ 16 + lengthPrefix (bytes.drop 8)

theorem readEncryptedBucket_outcome (hSize : bytes.length ≤ vectorMaxSize) :
    wp (readEncryptedBucket bytes) {} (fun _ _ => ¬ FlagsWrap bytes) fun e _ => e.Defined ↔
      ¬ FlagsWrap bytes := by
  have hShort {e : Exception} {size : Nat} (h : e.Defined ∧ bytes.length < size)
      (hPrefix : size ≤ 16) :
      e.Defined ↔ ¬ FlagsWrap bytes := by
    apply iff_of_true h.1
    rintro ⟨hLong, _⟩
    omega
  refine wp.bind (wp_mono (readUint64_outcome hSize (Nat.zero_le _)) (fun _ _ => id) ?_) ?_
  · exact fun e _ h => hShort h (by decide)
  rintro count cursor ⟨hCount, hFirst, _⟩
  have hFlags : wp (readBoolVector bytes) cursor (fun _ _ => ¬ FlagsWrap bytes) fun e _ =>
      e.Defined ↔ ¬ FlagsWrap bytes := by
    refine wp.bind (wp_mono (readUint64_outcome hSize hFirst) (fun _ _ => id) ?_) ?_
    · intro e _ h
      exact hShort h (by rw [hCount]; decide)
    · rintro size cursor' ⟨hOffset, hSecond, hWord⟩
      have hEnd : cursor'.offset.toNat = 16 := by rw [hOffset, hCount]; rfl
      have hWraps : FlagsWrap bytes ↔ 2 ^ 64 ≤ cursor'.offset.toNat + size.toNat := by
        rw [FlagsWrap, lengthPrefix, hEnd, hWord, hCount]
        exact and_iff_right (hEnd ▸ hSecond)
      rw [hWraps]
      exact readFlags_outcome hSize hSecond size
  apply wp.bind hFlags
  intro valids cursor' hFits
  have hTame := (tame_readFields bytes).bind fun addrs => (tame_readFields bytes).bind fun leaves =>
    (tame_readFields bytes).bind fun ptrs => (tame_readFields bytes).bind fun data =>
      Tame.pure (EncryptedRingBucket.mk count valids addrs leaves ptrs data)
  exact wp_mono (hTame cursor') (fun _ _ _ => hFits) fun e _ hDefined => iff_of_true hDefined hFits

/-- A bucket that the deserializer accepts does not wrap, and what it throws is undefined only if
the bucket does. -/
theorem deserializeEncryptedRingBucket_outcome (hSize : bytes.length ≤ vectorMaxSize) :
    (∀ bucket, deserializeEncryptedRingBucket bytes = .ok bucket → ¬ FlagsWrap bytes) ∧
      ∀ e, deserializeEncryptedRingBucket bytes = .error e → (e.Defined ↔ ¬ FlagsWrap bytes) := by
  obtain ⟨hReturned, hThrew⟩ := wp_iff.mp (readEncryptedBucket_outcome hSize)
  unfold deserializeEncryptedRingBucket readWhole
  cases hRun : (readEncryptedBucket bytes).run {} with
  | error e cursor => simpa using hThrew e cursor hRun
  | ok value cursor =>
    have hFits := hReturned value cursor hRun
    refine ⟨fun _ _ => hFits, fun e hError => ?_⟩
    dsimp only at hError
    split at hError
    · obtain rfl := Except.error.inj hError
      exact iff_of_true (by simp [Exception.Defined]) hFits
    · cases hError

end Definedness

end OramHub.RingOram

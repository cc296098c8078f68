import OramHub.Lib.LittleEndian

/-! # Length-prefixed layouts

A scan walks through an input with exact arithmetic. A length prefix is dishonest if adding it to
the offset leaves 64 bits, if it promises more items than there are bytes left, or if it promises
more items than their container can hold.
-/
namespace OramHub.Layouts
open OramHub.LittleEndian
set_option autoImplicit false

inductive Layout
  | word
  | blob
  | counted (limit : Nat) (item : Layout)
  | seq (first second : Layout)

inductive Scan
  | done (rest : List UInt8)
  | short
  | dishonest
  deriving DecidableEq, Repr

def Scan.andThen (outcome : Scan) (next : List UInt8 → Scan) : Scan :=
  match outcome with
  | .done rest => next rest
  | .short => .short
  | .dishonest => .dishonest

def scanWord (rest : List UInt8) : Scan := if rest.length < 8 then .short else .done (rest.drop 8)

/-- The length prefix in front of an input that is long enough. -/
def lengthPrefix (rest : List UInt8) : Nat := (decodeWord (rest.take 8)).toNat

/-- `total` is the length of the whole input. -/
def scanRange (total size : Nat) (rest : List UInt8) : Scan :=
  if 2 ^ 64 ≤ total - rest.length + size then .dishonest
  else if rest.length < size then .short
  else .done (rest.drop size)

def scanMany (item : List UInt8 → Scan) : Nat → List UInt8 → Scan
  | 0, rest => .done rest
  | count + 1, rest => (item rest).andThen (scanMany item count)

/-- `limit` is the number of items that the container can hold. -/
def scanCount (limit count : Nat) (item : List UInt8 → Scan) (rest : List UInt8) : Scan :=
  if rest.length < count ∨ limit < count then .dishonest else scanMany item count rest

def scan (total : Nat) : Layout → List UInt8 → Scan
  | .word, rest => scanWord rest
  | .blob, rest => (scanWord rest).andThen (scanRange total (lengthPrefix rest))
  | .counted limit item, rest =>
    (scanWord rest).andThen (scanCount limit (lengthPrefix rest) (scan total item))
  | .seq first second, rest => (scan total first rest).andThen (scan total second)

/-- A left-to-right reading meets no dishonest length prefix. -/
def Honest (layout : Layout) (bytes : List UInt8) : Prop :=
  scan bytes.length layout bytes ≠ .dishonest

instance (layout : Layout) (bytes : List UInt8) : Decidable (Honest layout bytes) :=
  inferInstanceAs (Decidable (_ ≠ _))

end OramHub.Layouts

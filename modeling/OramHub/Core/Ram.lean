import Mathlib.Algebra.Order.Ring.Nat
import Mathlib.Logic.Function.Basic
import Mathlib.Logic.Equiv.Defs

/-! # The RAM interface shared by the three ORAM schemes

Byte vectors, the exceptions of the C++ code, the operations of `RAM.h` and the memory
that a correct implementation of the interface is observed to be.
-/
namespace OramHub.Core
set_option autoImplicit false

abbrev Bytes := List UInt8

/-- `what()` of the exceptions the code throws. `undefinedBehavior` stands for an access
outside a container that the code does not check. -/
inductive Exception
  | invalidArgument (what : String)
  | outOfRange (what : String)
  | runtimeError (what : String)
  | lengthError (what : String)
  | undefinedBehavior (what : String)
  deriving DecidableEq, Repr

/-- An exception that is really thrown. -/
def Exception.Defined (e : Exception) : Prop := ∀ what, e ≠ .undefinedBehavior what

/-- `std::vector<uint8_t>::max_size()`. -/
def vectorMaxSize : Nat := 2 ^ 63 - 1

/-- A `std::vector<uint8_t>`. -/
structure ByteVector where
  bytes : Bytes
  fits : bytes.length ≤ vectorMaxSize

theorem toNat_ofNat_of_le {n : Nat} (h : n ≤ vectorMaxSize) : (UInt64.ofNat n).toNat = n :=
  UInt64.toNat_ofNat_of_lt' (Nat.lt_of_le_of_lt h (by decide))

inductive Op
  | read
  | write
  deriving DecidableEq, Repr

/-- The outcomes of every random choice, as fixed in advance for a whole run.
`draw` is reduced to the range a `uniform_int_distribution` asks for. -/
structure Entropy where
  draw : Nat → Nat
  shuffle : Nat → (size : Nat) → Equiv.Perm (Fin size)
  iv : Nat → Vector UInt8 16

/-- What a RAM holds at every address. -/
abbrev Memory := UInt64 → Bytes

def Memory.zero (blockSize : Nat) : Memory := fun _ => List.replicate blockSize 0

def Memory.store (memory : Memory) (op : Op) (addr : UInt64) (data : Bytes) : Memory :=
  match op with
  | .read => memory
  | .write => Function.update memory addr data

/-- The value an access returns: the stored data for a read, the new data for a write. -/
def Memory.result (memory : Memory) (op : Op) (addr : UInt64) (data : Bytes) : Bytes :=
  memory.store op addr data addr

@[simp] theorem Memory.result_read (memory : Memory) (addr : UInt64) (data : Bytes) :
    memory.result .read addr data = memory addr := rfl

@[simp] theorem Memory.result_write (memory : Memory) (addr : UInt64) (data : Bytes) :
    memory.result .write addr data = data := by
  simp [Memory.result, Memory.store]

/-- The arguments of an access. -/
structure Call where
  op : Op
  addr : UInt64
  data : Bytes
  deriving DecidableEq, Repr

/-- The addresses of the calls, as indices of a position map. -/
def addresses (calls : List Call) : List Nat := calls.map fun call => call.addr.toNat

theorem addresses_cons (call : Call) (calls : List Call) :
    addresses (call :: calls) = call.addr.toNat :: addresses calls := rfl

/-- The results of the calls, made in order. -/
def Memory.results (memory : Memory) : List Call → List Bytes
  | [] => []
  | call :: calls =>
    memory.result call.op call.addr call.data ::
      (memory.store call.op call.addr call.data).results calls

/-- What the memory holds after the calls. -/
def Memory.after (memory : Memory) (calls : List Call) : Memory :=
  calls.foldl (fun memory call => memory.store call.op call.addr call.data) memory

theorem Memory.store_eq_update (memory : Memory) (op : Op) (addr : UInt64) (data : Bytes) :
    memory.store op addr data = Function.update memory addr (memory.result op addr data) := by
  cases op with
  | read => rw [store, result_read, Function.update_eq_self]
  | write => rw [store, result_write]

end OramHub.Core

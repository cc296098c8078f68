import Mathlib.Data.List.Basic

/-! # Byte strings of one length under XOR

`total size strings` is the XOR of all strings. Cancelling a part of a total leaves the total of
the rest.
-/
namespace OramHub.XorBytes
set_option autoImplicit false

def xor (left right : List UInt8) : List UInt8 := left.zipWith (· ^^^ ·) right

def zero (size : Nat) : List UInt8 := List.replicate size 0

def total (size : Nat) (strings : List (List UInt8)) : List UInt8 := strings.foldl xor (zero size)

@[simp] theorem length_zero (size : Nat) : (zero size).length = size := List.length_replicate

theorem length_xor {left right : List UInt8} {size : Nat} (hLeft : left.length = size)
    (hRight : right.length = size) : (xor left right).length = size := by
  rw [xor, List.length_zipWith, hLeft, hRight, Nat.min_self]

theorem xor_comm (left right : List UInt8) : xor left right = xor right left :=
  List.zipWith_comm_of_comm fun x y => UInt8.xor_comm x y

theorem xor_assoc (a b c : List UInt8) : xor (xor a b) c = xor a (xor b c) := by
  induction a generalizing b c with
  | nil => simp [xor]
  | cons x a ih =>
    cases b with
    | nil => simp [xor]
    | cons y b =>
      cases c with
      | nil => simp [xor]
      | cons w c =>
        have hTail := ih b c
        simp only [xor, List.zipWith_cons_cons, UInt8.xor_assoc] at hTail ⊢
        rw [hTail]

theorem xor_self (a : List UInt8) : xor a a = zero a.length := by
  induction a with
  | nil => rfl
  | cons x a ih =>
    simp only [xor, zero, List.zipWith_cons_cons, UInt8.xor_self, List.length_cons,
      List.replicate_succ] at ih ⊢
    rw [ih]

theorem xor_zero {a : List UInt8} {size : Nat} (h : a.length = size) : xor a (zero size) = a := by
  subst h
  induction a with
  | nil => rfl
  | cons x a ih =>
    simp only [xor, zero, List.length_cons, List.replicate_succ, List.zipWith_cons_cons,
      UInt8.xor_zero] at ih ⊢
    rw [ih]

theorem zero_xor {a : List UInt8} {size : Nat} (h : a.length = size) : xor (zero size) a = a := by
  rw [xor_comm, xor_zero h]

theorem xor_cancel_left {a b c : List UInt8} {size : Nat} (hLeft : a.length = size)
    (hRight : c.length = size) : xor (xor a b) (xor a c) = xor b c := by
  calc
    xor (xor a b) (xor a c) = xor b (xor (xor a a) c) := by
      rw [xor_comm a b, xor_assoc, ← xor_assoc a a c]
    _ = xor b c := by rw [xor_self, hLeft, zero_xor hRight]

theorem foldl_xor {size : Nat} (strings : List (List UInt8)) {start : List UInt8}
    (hStart : start.length = size) (h : ∀ string ∈ strings, string.length = size) :
    strings.foldl xor start = xor start (total size strings) := by
  induction strings generalizing start with
  | nil => exact (xor_zero hStart).symm
  | cons string strings ih =>
    have hString := h string List.mem_cons_self
    have hRest := fun other hOther => h other (List.mem_cons_of_mem string hOther)
    have hTotal : total size (string :: strings) = xor string (total size strings) := by
      change strings.foldl xor (xor (zero size) string) = _
      rw [zero_xor hString, ih hString hRest]
    rw [List.foldl_cons, ih (length_xor hStart hString) hRest, hTotal, xor_assoc]

theorem total_cons {size : Nat} {string : List UInt8} {strings : List (List UInt8)}
    (hString : string.length = size) (h : ∀ other ∈ strings, other.length = size) :
    total size (string :: strings) = xor string (total size strings) := by
  rw [total, List.foldl_cons, zero_xor hString, foldl_xor strings hString h]

theorem length_total {size : Nat} {strings : List (List UInt8)}
    (h : ∀ string ∈ strings, string.length = size) : (total size strings).length = size := by
  induction strings with
  | nil => exact length_zero size
  | cons string strings ih =>
    have hString := h string List.mem_cons_self
    have hRest := fun other hOther => h other (List.mem_cons_of_mem string hOther)
    rw [total_cons hString hRest]
    exact length_xor hString (ih hRest)

/-- Cancelling from a total what does not satisfy `keep` leaves the total of what does. -/
theorem total_cancel {size : Nat} {α : Type} (keep : α → Bool)
    (string : α → List UInt8) (items : List α) (h : ∀ item ∈ items, (string item).length = size) :
    xor (total size (items.map string))
      (total size ((items.filter fun item => !keep item).map string)) =
      total size ((items.filter keep).map string) := by
  induction items with
  | nil => exact xor_zero (length_zero size)
  | cons item items ih =>
    have hItem := h item List.mem_cons_self
    have hRest := fun other hOther => h other (List.mem_cons_of_mem item hOther)
    have hLengths : ∀ (p : α → Bool), ∀ other ∈ (items.filter p).map string,
        other.length = size := by
      intro p other hOther
      obtain ⟨x, hx, rfl⟩ := List.mem_map.mp hOther
      exact hRest x (List.mem_of_mem_filter hx)
    have hAll : ∀ other ∈ items.map string, other.length = size := by
      intro other hOther
      obtain ⟨x, hx, rfl⟩ := List.mem_map.mp hOther
      exact hRest x hx
    rw [List.map_cons, total_cons hItem hAll]
    cases hKeep : keep item with
    | true =>
      simp only [List.filter_cons, hKeep, Bool.not_true, Bool.false_eq_true,
        ↓reduceIte, List.map_cons]
      rw [total_cons hItem (hLengths keep), xor_assoc, ih hRest]
    | false =>
      simp only [List.filter_cons, hKeep, Bool.not_false, Bool.false_eq_true,
        ↓reduceIte, List.map_cons]
      rw [total_cons hItem (hLengths _),
        xor_cancel_left hItem (length_total (hLengths _)), ih hRest]

end OramHub.XorBytes

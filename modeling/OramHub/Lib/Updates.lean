import Mathlib.Data.List.Nodup
import Mathlib.Logic.Function.Basic

/-! # Updating a function at a list of places

The changes are made one after the other. At distinct places they do not interfere.
-/
namespace OramHub.Updates
set_option autoImplicit false

variable {ι α β γ : Type} [DecidableEq ι]

def updateAll (change : α → β → α) (f : ι → α) (changes : List (ι × β)) : ι → α :=
  changes.foldl (fun f step => Function.update f step.1 (change (f step.1) step.2)) f

variable {change : α → β → α} {f : ι → α} {changes : List (ι × β)} {i : ι}

theorem updateAll_of_not_mem (h : i ∉ changes.map Prod.fst) :
    updateAll change f changes i = f i := by
  induction changes generalizing f with
  | nil => rfl
  | cons step changes ih =>
    rw [List.map_cons, List.mem_cons, not_or] at h
    exact (ih h.2).trans (Function.update_of_ne h.1 _ _)

theorem updateAll_of_mem (hNodup : (changes.map Prod.fst).Nodup) {b : β} (h : (i, b) ∈ changes) :
    updateAll change f changes i = change (f i) b := by
  induction changes generalizing f with
  | nil => cases h
  | cons step changes ih =>
    rw [List.map_cons, List.nodup_cons] at hNodup
    obtain rfl | hRest := List.mem_cons.mp h
    · exact (updateAll_of_not_mem hNodup.1).trans (Function.update_self _ _ _)
    · have hNe : i ≠ step.1 := fun hEq => hNodup.1 (hEq ▸ List.mem_map_of_mem hRest)
      exact (ih hNodup.2 hRest).trans (congrArg (change · b) (Function.update_of_ne hNe _ _))

theorem updateAll_keeps {keeps : α → Prop} (h : ∀ a b, keeps a → keeps (change a b))
    (hStart : keeps (f i)) :
    keeps (updateAll change f changes i) := by
  induction changes generalizing f with
  | nil => exact hStart
  | cons step changes ih =>
    refine @ih (Function.update f step.1 (change (f step.1) step.2)) ?_
    rcases eq_or_ne i step.1 with rfl | hNe
    · rw [Function.update_self]
      exact h _ _ hStart
    · rwa [Function.update_of_ne hNe]

/-- A list that is overwritten from the front, one item later. -/
theorem set_take_append_drop {items row : List α} {i : Nat} (hi : i < items.length)
    (hRow : i < row.length) :
    (items.take i ++ row.drop i).set i items[i] = items.take (i + 1) ++ row.drop (i + 1) := by
  have hTake : (items.take i).length = i := List.length_take_of_le (Nat.le_of_lt hi)
  rw [List.set_append_right _ _ (Nat.le_of_eq hTake), hTake, Nat.sub_self,
    List.drop_eq_getElem_cons hRow, List.set_cons_zero,
    List.take_add_one, List.getElem?_eq_getElem hi, List.append_assoc]
  rfl

/-! ## The last write to a place wins -/

section LastWins

variable {κ : Type} {key : κ → ι} {stored : κ → α → Prop} {items : List κ} {f f' f'' : ι → α}

/-- Each place holds what the last item for it stores there, or what it held before. -/
structure LastWins (key : κ → ι) (stored : κ → α → Prop) (items : List κ)
    (f f' : ι → α) : Prop where
  listed : ∀ before item after, items = before ++ item :: after →
    (∀ other ∈ after, key other ≠ key item) →
    stored item (f' (key item))
  others : ∀ i, (∀ item ∈ items, key item ≠ i) → f' i = f i

theorem exists_last {i : ι} (h : ∃ item ∈ items, key item = i) :
    ∃ before item after, items = before ++ item :: after ∧ key item = i ∧
    ∀ other ∈ after, key other ≠ i := by
  induction items with
  | nil => simp at h
  | cons head items ih =>
    by_cases hRest : ∃ item ∈ items, key item = i
    case pos =>
      obtain ⟨before, item, after, rfl, hKey, hAfter⟩ := ih hRest
      exact ⟨head :: before, item, after, rfl, hKey, hAfter⟩
    case neg =>
      obtain ⟨item, hItem, hKey⟩ := h
      obtain rfl | hItem := List.mem_cons.mp hItem
      · exact ⟨[], item, items, rfl, hKey, by simpa using hRest⟩
      · exact absurd ⟨item, hItem, hKey⟩ hRest

namespace LastWins

omit [DecidableEq ι] in
theorem nil : LastWins key stored [] f f := by
  constructor
  case listed => simp
  case others => simp

theorem snoc {item : κ} {a : α} (h : LastWins key stored items f f') (hStored : stored item a) :
    LastWins key stored (items ++ [item]) f (Function.update f' (key item) a) := by
  constructor
  case listed =>
    intro before other after hItems hAfter
    obtain rfl | ⟨after, last, rfl⟩ := List.eq_nil_or_concat after
    · obtain ⟨rfl, hEq⟩ := List.append_inj' hItems rfl
      obtain rfl : item = other := by simpa using hEq
      simpa using hStored
    · rw [List.concat_eq_append, ← List.cons_append, ← List.append_assoc] at hItems
      obtain ⟨rfl, hEq⟩ := List.append_inj' hItems rfl
      obtain rfl : item = last := by simpa using hEq
      have hNe : key item ≠ key other := hAfter item (by simp)
      rw [Function.update_of_ne hNe.symm]
      exact h.listed before other after rfl fun later hLater => hAfter later (by simp [hLater])
  case others =>
    intro i hi
    have hNe : key item ≠ i := hi item (by simp)
    rw [Function.update_of_ne hNe.symm]
    exact h.others i fun other hOther => hi other (by simp [hOther])

theorem unique (hStored : ∀ item a a', stored item a → stored item a' → a = a')
    (h : LastWins key stored items f f') (h' : LastWins key stored items f f'') : f' = f'' := by
  funext i
  by_cases hListed : ∃ item ∈ items, key item = i
  case pos =>
    obtain ⟨before, item, after, rfl, rfl, hAfter⟩ := exists_last hListed
    exact hStored item _ _ (h.listed before item after rfl hAfter)
      (h'.listed before item after rfl hAfter)
  case neg =>
    have hOthers : ∀ item ∈ items, key item ≠ i := by simpa using hListed
    rw [h.others i hOthers, h'.others i hOthers]

end LastWins

end LastWins

end OramHub.Updates

import Mathlib.Data.List.Nodup
import Mathlib.Data.Set.Function

/-! # Sequences up to a renaming of their items

Items are numbered in the order in which they first occur. Two sequences have the same numbers if,
and only if, one is the other with its items renamed.
-/
namespace OramHub.Renaming
set_option autoImplicit false

variable {α β : Type}

/-- The second sequence is the first with its items renamed one to one. -/
def Renamed (items : List α) (items' : List β) : Prop :=
  ∃ f : α → β, Set.InjOn f {item | item ∈ items} ∧ items' = items.map f

theorem mem_map_iff {f : α → β} {seen : List α} {item : α}
    (hInj : Set.InjOn f {x | x ∈ seen ∨ x = item}) :
    f item ∈ seen.map f ↔ item ∈ seen := by
  constructor
  · intro h
    obtain ⟨x, hx, hEq⟩ := List.mem_map.mp h
    exact hInj (Or.inl hx) (Or.inr rfl) hEq ▸ hx
  · exact List.mem_map_of_mem

variable [DecidableEq α] [DecidableEq β]

/-- The distinct items seen, with one more item. -/
def visit (seen : List α) (item : α) : List α := if item ∈ seen then seen else seen ++ [item]

/-- The number of each item, if some items have been seen before. -/
def ranks (seen : List α) : List α → List Nat
  | [] => []
  | item :: items => seen.idxOf item :: ranks (visit seen item) items

variable {seen : List α} {seen' : List β} {items : List α} {items' : List β} {f : α → β} {item : α}

theorem nodup_visit (h : seen.Nodup) (item : α) : (visit seen item).Nodup := by
  rw [visit]
  split
  · exact h
  · rename_i hNew
    rw [List.nodup_append]
    refine ⟨h, List.nodup_singleton item, ?_⟩
    rintro x hx y hy rfl
    exact hNew (List.mem_singleton.mp hy ▸ hx)

theorem mem_visit {x : α} : x ∈ visit seen item ↔ x ∈ seen ∨ x = item := by
  rw [visit]
  split
  · rename_i hOld
    exact ⟨Or.inl, fun h => h.elim id fun hEq => hEq ▸ hOld⟩
  · rw [List.mem_append, List.mem_singleton]

theorem length_ranks (seen items : List α) : (ranks seen items).length = items.length := by
  induction items generalizing seen with
  | nil => rfl
  | cons item items ih => rw [ranks, List.length_cons, ih, List.length_cons]

theorem idxOf_map (hInj : Set.InjOn f {x | x ∈ seen ∨ x = item}) :
    (seen.map f).idxOf (f item) = seen.idxOf item := by
  induction seen with
  | nil => rfl
  | cons x seen ih =>
    have hTail : Set.InjOn f {y | y ∈ seen ∨ y = item} :=
      hInj.mono fun y hy => hy.imp_left (List.mem_cons_of_mem x)
    rw [List.map_cons]
    by_cases hEq : x = item
    · rw [hEq, List.idxOf_cons_self, List.idxOf_cons_self]
    · have hNe : f x ≠ f item :=
        fun hSame => hEq (hInj (Or.inl List.mem_cons_self) (Or.inr rfl) hSame)
      rw [List.idxOf_cons_ne _ hNe, List.idxOf_cons_ne _ hEq, ih hTail]

theorem visit_map (hInj : Set.InjOn f {x | x ∈ seen ∨ x = item}) :
    visit (seen.map f) (f item) = (visit seen item).map f := by
  rw [visit, visit]
  by_cases hMem : item ∈ seen
  · rw [if_pos hMem, if_pos ((mem_map_iff hInj).mpr hMem)]
  · rw [if_neg hMem, if_neg (mt (mem_map_iff hInj).mp hMem), List.map_append, List.map_singleton]

theorem ranks_map (hInj : Set.InjOn f {x | x ∈ seen ∨ x ∈ items}) :
    ranks (seen.map f) (items.map f) = ranks seen items := by
  induction items generalizing seen with
  | nil => rfl
  | cons item items ih =>
    have hHead : Set.InjOn f {x | x ∈ seen ∨ x = item} := by
      refine hInj.mono fun x hx => hx.imp_right ?_
      rintro rfl
      exact List.mem_cons_self
    have hTail : Set.InjOn f {x | x ∈ visit seen item ∨ x ∈ items} := by
      apply hInj.mono
      intro x hx
      obtain hx | hx := hx
      · obtain hOld | rfl := mem_visit.mp hx
        · exact Or.inl hOld
        · exact Or.inr List.mem_cons_self
      · exact Or.inr (List.mem_cons_of_mem _ hx)
    rw [List.map_cons, ranks, ranks, idxOf_map hHead, visit_map hHead, ih hTail]

omit [DecidableEq β] in
theorem exists_renaming [Nonempty β] (hNodup : seen.Nodup) (hNodup' : seen'.Nodup)
    (hLength : seen.length = seen'.length) :
    ∃ f : α → β, Set.InjOn f {x | x ∈ seen} ∧ seen' = seen.map f := by
  obtain ⟨default⟩ := ‹Nonempty β›
  have hValue : ∀ i (hi : i < seen.length),
      seen'[i]? = some (seen'.getD (seen.idxOf seen[i]) default) := by
    intro i hi
    rw [hNodup.idxOf_getElem, List.getD_eq_getElem?_getD, List.getElem?_eq_getElem (hLength ▸ hi),
      Option.getD_some]
  refine ⟨fun x => seen'.getD (seen.idxOf x) default, ?_, ?_⟩
  · intro x hx y hy hEq
    obtain ⟨i, hi, rfl⟩ := List.mem_iff_getElem.mp hx
    obtain ⟨j, hj, rfl⟩ := List.mem_iff_getElem.mp hy
    have hSame : seen'[i]? = seen'[j]? := by
      rw [hValue i hi, hValue j hj]
      exact congrArg some hEq
    obtain rfl := (List.getElem?_inj (hLength ▸ hi) hNodup').mp hSame
    rfl
  · apply List.ext_getElem (by rw [List.length_map, hLength])
    intro i hi hi'
    have hItem := hValue i (hLength ▸ hi)
    rw [List.getElem?_eq_getElem hi, Option.some_inj] at hItem
    rw [List.getElem_map, hItem]

theorem exists_renaming_of_ranks_eq [Nonempty β] (hNodup : seen.Nodup) (hNodup' : seen'.Nodup)
    (hLength : seen.length = seen'.length) (h : ranks seen items = ranks seen' items') :
    ∃ f : α → β, Set.InjOn f {x | x ∈ seen ∨ x ∈ items} ∧ seen' = seen.map f ∧
    items' = items.map f := by
  induction items generalizing seen seen' items' with
  | nil =>
    have hEmpty : items' = [] :=
      List.length_eq_zero_iff.mp (by rw [← length_ranks seen' items', ← h]; rfl)
    obtain ⟨f, hInj, hSeen⟩ := exists_renaming hNodup hNodup' hLength
    exact ⟨f, hInj.mono fun x hx => hx.resolve_right List.not_mem_nil, hSeen, hEmpty⟩
  | cons item items ih =>
    cases items' with
    | nil => cases h
    | cons item' items' =>
      rw [ranks, ranks, List.cons.injEq] at h
      have hMem : item ∈ seen ↔ item' ∈ seen' := by
        rw [← List.idxOf_lt_length_iff, ← List.idxOf_lt_length_iff, h.1, hLength]
      have hVisit : (visit seen item).length = (visit seen' item').length := by
        rw [visit, visit]
        by_cases hOld : item ∈ seen
        · rw [if_pos hOld, if_pos (hMem.mp hOld), hLength]
        · rw [if_neg hOld, if_neg (mt hMem.mpr hOld), List.length_append,
            List.length_append, hLength]
          rfl
      obtain ⟨f, hInj, hSeen, hItems⟩ :=
        ih (nodup_visit hNodup item) (nodup_visit hNodup' item') hVisit h.2
      have hHead : f item = item' ∧ seen' = seen.map f := by
        rw [visit, visit] at hSeen
        by_cases hOld : item ∈ seen
        · rw [if_pos hOld, if_pos (hMem.mp hOld)] at hSeen
          have hGet : seen'[seen.idxOf item]? = some (f item) := by
            rw [hSeen, List.getElem?_map, List.getElem?_idxOf hOld]
            rfl
          rw [h.1, List.getElem?_idxOf (hMem.mp hOld), Option.some_inj] at hGet
          exact ⟨hGet.symm, hSeen⟩
        · rw [if_neg hOld, if_neg (mt hMem.mpr hOld), List.map_append] at hSeen
          obtain ⟨hSeen, hLast⟩ := List.append_inj hSeen (by rw [List.length_map, hLength])
          exact ⟨(List.singleton_inj.mp hLast).symm, hSeen⟩
      refine ⟨f, hInj.mono ?_, hHead.2, by rw [hItems, List.map_cons, hHead.1]⟩
      rintro x (hx | hx)
      · exact Or.inl (mem_visit.mpr (Or.inl hx))
      · obtain rfl | hx := List.mem_cons.mp hx
        · exact Or.inl (mem_visit.mpr (Or.inr rfl))
        · exact Or.inr hx

theorem ranks_eq_iff [Nonempty β] : ranks ([] : List α) items = ranks ([] : List β) items' ↔
    Renamed items items' := by
  constructor
  · intro h
    obtain ⟨f, hInj, _, hItems⟩ :=
      @exists_renaming_of_ranks_eq α β _ _ [] [] items items' _ List.nodup_nil List.nodup_nil rfl h
    exact ⟨f, hInj.mono fun x hx => Or.inr hx, hItems⟩
  · rintro ⟨f, hInj, rfl⟩
    have hSame := @ranks_map α β _ _ [] items f (hInj.mono fun x hx =>
      hx.resolve_left List.not_mem_nil)
    exact hSame.symm

end OramHub.Renaming

import OramHub.Lib.Chance

/-! # Tables whose entries are replaced as they are read

An entry that is read is replaced by a fresh draw, so no draw is read twice. If the entries and the
draws are uniform and independent, then so are the entries that are read and those that are left,
whichever are read.
-/
namespace OramHub.Exchange
open OramHub.Chance
set_option autoImplicit false

variable {α β : Type}

/-- The entries that are read one after the other, each replaced by a draw, and the table that is
left. -/
def exchange (table : List α) : List (Nat × α) → List α × List α
  | [] => ([], table)
  | (i, draw) :: rest =>
    let (read, left) := exchange (table.set i draw) rest
    (table[i]?.toList ++ read, left)

variable {table table' : List α} {steps : List (Nat × α)} {i : Nat} {draw : α}

theorem exchange_cons {entry : α} (h : table[i]? = some entry) :
    exchange table ((i, draw) :: steps) =
      (entry :: (exchange (table.set i draw) steps).1, (exchange (table.set i draw) steps).2) := by
  rw [exchange, h]
  rfl

theorem length_left : (exchange table steps).2.length = table.length := by
  induction steps generalizing table with
  | nil => rfl
  | cons step steps ih => exact (@ih (table.set step.1 step.2)).trans List.length_set

theorem length_read (h : ∀ step ∈ steps, step.1 < table.length) :
    (exchange table steps).1.length = steps.length := by
  induction steps generalizing table with
  | nil => rfl
  | cons step steps ih =>
    rw [exchange_cons (List.getElem?_eq_getElem (h step List.mem_cons_self)),
      List.length_cons, List.length_cons]
    exact congrArg (· + 1) (ih fun other hOther =>
      List.length_set.symm ▸ h other (List.mem_cons_of_mem _ hOther))

theorem exchange_map (f : α → β) :
    exchange (table.map f) (steps.map (Prod.map id f)) =
      ((exchange table steps).1.map f, (exchange table steps).2.map f) := by
  induction steps generalizing table with
  | nil => rfl
  | cons step steps ih =>
    rw [List.map_cons, exchange, exchange]
    have hRest := @ih (table.set step.1 step.2)
    rw [List.map_set] at hRest
    simp only [Prod.map_fst, id_eq, Prod.map_snd, hRest, List.getElem?_map,
      List.map_append, ← Option.toList_map]

theorem set_inj (hLength : table.length = table'.length) (hi : i < table.length) {draw' : α}
    (hEntry : table[i]? = table'[i]?) (hSet : table.set i draw = table'.set i draw') :
    table = table' ∧ draw = draw' := by
  have hAt (j : Nat) : (table.set i draw)[j]? = (table'.set i draw')[j]? :=
    congrArg (fun list => list[j]?) hSet
  refine ⟨List.ext_getElem? fun j => ?_, ?_⟩
  · rcases eq_or_ne i j with rfl | hNe
    · exact hEntry
    · have hj := hAt j
      rwa [List.getElem?_set_ne hNe, List.getElem?_set_ne hNe] at hj
  · have hi' := hAt i
    rw [List.getElem?_set_self hi, List.getElem?_set_self (hLength ▸ hi)] at hi'
    exact Option.some_inj.mp hi'

/-- What is read and what is left tell what the table and the draws have been. -/
theorem exchange_injective {addresses : List Nat} {draws draws' : List α}
    (hLength : table.length = table'.length)
    (hBound : ∀ i ∈ addresses, i < table.length) (hDraws : draws.length = addresses.length)
    (hDraws' : draws'.length = addresses.length)
    (h : exchange table (addresses.zip draws) = exchange table' (addresses.zip draws')) :
    table = table' ∧ draws = draws' := by
  induction addresses generalizing table table' draws draws' with
  | nil =>
    rw [List.eq_nil_of_length_eq_zero hDraws, List.eq_nil_of_length_eq_zero hDraws']
    exact ⟨congrArg Prod.snd h, rfl⟩
  | cons i addresses ih =>
    obtain ⟨draw, draws, rfl⟩ := List.exists_cons_of_length_eq_add_one hDraws
    obtain ⟨draw', draws', rfl⟩ := List.exists_cons_of_length_eq_add_one hDraws'
    have hi := hBound i List.mem_cons_self
    have hi' := hLength ▸ hi
    rw [List.zip_cons_cons, List.zip_cons_cons, exchange_cons (List.getElem?_eq_getElem hi),
      exchange_cons (List.getElem?_eq_getElem hi'), Prod.mk.injEq, List.cons.injEq] at h
    obtain ⟨⟨hEntry, hRead⟩, hLeft⟩ := h
    obtain ⟨hSet, rfl⟩ := ih (by rw [List.length_set, List.length_set, hLength])
      (fun other hOther => List.length_set.symm ▸ hBound other (List.mem_cons_of_mem _ hOther))
      (Nat.succ_inj.mp hDraws) (Nat.succ_inj.mp hDraws') (Prod.ext hRead hLeft)
    obtain ⟨rfl, rfl⟩ := set_inj hLength hi
      (by rw [List.getElem?_eq_getElem hi, List.getElem?_eq_getElem hi', hEntry]) hSet
    exact ⟨rfl, rfl⟩

section Uniform

theorem map_equiv_uniformOfFintype [Fintype α] [Nonempty α] [Fintype β] [Nonempty β] (e : α ≃ β) :
    (PMF.uniformOfFintype α).map e = PMF.uniformOfFintype β := by
  ext b
  rw [← e.apply_symm_apply b, map_injective_apply e.injective, PMF.uniformOfFintype_apply,
    PMF.uniformOfFintype_apply, Fintype.card_congr e]

variable {m : Nat} {addresses : List Nat}

/-- The exchange as a function on tables and draws of fixed lengths. -/
def exchangeFn (h : ∀ i ∈ addresses, i < m) (x : (Fin m → α) × (Fin addresses.length → α)) :
    (Fin addresses.length → α) × (Fin m → α) :=
  have hSteps : ∀ step ∈ addresses.zip (List.ofFn x.2), step.1 < (List.ofFn x.1).length :=
    fun step hStep =>
    List.length_ofFn.symm ▸ h step.1 (List.of_mem_zip hStep).1
  (fun i => (exchange (List.ofFn x.1) (addresses.zip (List.ofFn x.2))).1.get
      (i.cast ((length_read hSteps).trans
        (by rw [List.length_zip, List.length_ofFn, Nat.min_self])).symm),
    fun i => (exchange (List.ofFn x.1) (addresses.zip (List.ofFn x.2))).2.get
      (i.cast (length_left.trans List.length_ofFn).symm))

theorem ofFn_get_cast {list : List α} {n : Nat} (h : n = list.length) :
    List.ofFn (fun i => list.get (Fin.cast h i)) = list := by
  subst h
  exact List.ofFn_get list

theorem ofFn_exchangeFn (h : ∀ i ∈ addresses, i < m)
    (x : (Fin m → α) × (Fin addresses.length → α)) :
    (List.ofFn (exchangeFn h x).1, List.ofFn (exchangeFn h x).2) =
      exchange (List.ofFn x.1) (addresses.zip (List.ofFn x.2)) :=
  Prod.ext (ofFn_get_cast _) (ofFn_get_cast _)

theorem exchangeFn_bijective [Fintype α] (h : ∀ i ∈ addresses, i < m) :
    Function.Bijective (@exchangeFn α m addresses h) := by
  classical
  rw [Fintype.bijective_iff_injective_and_card]
  constructor
  · intro x x' hEq
    have hLists := (ofFn_exchangeFn h x).symm.trans
      ((congrArg (fun y => (List.ofFn y.1, List.ofFn y.2)) hEq).trans
        (ofFn_exchangeFn h x'))
    obtain ⟨hTable, hDraws⟩ := exchange_injective (by rw [List.length_ofFn, List.length_ofFn])
      (fun i hi => List.length_ofFn.symm ▸ h i hi) List.length_ofFn List.length_ofFn hLists
    exact Prod.ext (List.ofFn_injective hTable) (List.ofFn_injective hDraws)
  · rw [Fintype.card_prod, Fintype.card_prod, Nat.mul_comm]

/-- Whichever entries are read: the entries that are read and the entries that are left are uniform
and independent. -/
theorem exchange_uniform [Fintype α] [Nonempty α] {n : Nat} (hLength : addresses.length = n)
    (h : ∀ i ∈ addresses, i < m) :
    (PMF.uniformOfFintype (Fin (m + n) → α)).map
        (fun draws => exchange ((List.ofFn draws).take m)
          (addresses.zip ((List.ofFn draws).drop m))) =
      (PMF.uniformOfFintype ((Fin n → α) × (Fin m → α))).map fun x =>
        (List.ofFn x.1, List.ofFn x.2) := by
  subst hLength
  rw [← map_equiv_uniformOfFintype (Fin.appendEquiv m addresses.length),
    ← map_equiv_uniformOfFintype (Equiv.ofBijective _ (@exchangeFn_bijective α m addresses _ h)),
    PMF.map_comp, PMF.map_comp]
  refine congrArg (fun f => PMF.map f _) (funext fun x => ?_)
  have hAppend : List.ofFn (Fin.append x.1 x.2) = List.ofFn x.1 ++ List.ofFn x.2 :=
    List.ofFn_fin_append x.1 x.2
  have hTake : (List.ofFn x.1 ++ List.ofFn x.2).take m = List.ofFn x.1 :=
    List.take_left' List.length_ofFn
  have hDrop : (List.ofFn x.1 ++ List.ofFn x.2).drop m = List.ofFn x.2 :=
    List.drop_left' List.length_ofFn
  change exchange ((List.ofFn (Fin.append x.1 x.2)).take m)
    (addresses.zip ((List.ofFn (Fin.append x.1 x.2)).drop m)) =
    (List.ofFn (exchangeFn h x).1, List.ofFn (exchangeFn h x).2)
  rw [hAppend, hTake, hDrop, ofFn_exchangeFn]

end Uniform
end OramHub.Exchange

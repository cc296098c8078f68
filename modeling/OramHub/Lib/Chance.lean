import Mathlib.Data.Fintype.CardEmbedding
import Mathlib.Data.List.GetD
import Mathlib.GroupTheory.GroupAction.MultipleTransitivity
import Mathlib.Probability.Distributions.Uniform

/-! # Programs that draw at random

A program that draws uniformly and may throw is a distribution over outcomes. A distribution on
sequences of distinct numbers that no relabelling of the numbers changes is uniform.
-/
namespace OramHub.Chance
set_option autoImplicit false

variable {ε α β : Type}

abbrev Random (ε α : Type) := ExceptT ε PMF α

/-- Every outcome is a value that satisfies `post`. -/
def Surely (x : Random ε α) (post : α → Prop) : Prop :=
  ∀ outcome ∈ PMF.support x.run, ∃ a, outcome = .ok a ∧ post a

/-- A computed outcome as a program that draws nothing. -/
noncomputable def settle (x : Except ε α) : Random ε α := ExceptT.mk (pure x)

theorem settle_ok_bind (a : α) (f : α → Random ε β) : settle (.ok a) >>= f = f a := by
  apply ExceptT.ext
  rw [settle, ExceptT.run_bind, ExceptT.run_mk, pure_bind]

theorem map_throw (f : α → β) (e : ε) : f <$> (throw e : Random ε α) = throw e := by
  apply ExceptT.ext
  rw [ExceptT.run_map, ExceptT.run_throw, ExceptT.run_throw, map_pure]
  rfl

theorem lift_bind_pure (x : PMF β) (f : β → α) :
    (ExceptT.lift x >>= fun b => pure (f b) : Random ε α) = ExceptT.lift (x.map f) := by
  rw [bind_pure_comp]
  apply ExceptT.ext
  rw [ExceptT.run_map, ExceptT.run_lift, ExceptT.run_lift, ← PMF.monad_map_eq_map,
    Functor.map_map, Functor.map_map]
  rfl

theorem map_lift (f : β → α) (x : PMF β) :
    f <$> (ExceptT.lift x : Random ε β) = ExceptT.lift (x.map f) := by
  rw [← lift_bind_pure, bind_pure_comp]

section Rules

variable {post post' : α → Prop}

theorem mem_support_bind {x : PMF α} {f : α → PMF β} {b : β} :
    b ∈ PMF.support (x >>= f) ↔ ∃ a ∈ PMF.support x, b ∈ PMF.support (f a) :=
  PMF.mem_support_bind_iff x f b

theorem Surely.mono {x : Random ε α} (h : Surely x post)
    (hPost : ∀ a, post a → post' a) : Surely x post' := by
  intro outcome hOutcome
  obtain ⟨a, hEq, ha⟩ := h outcome hOutcome
  exact ⟨a, hEq, hPost a ha⟩

theorem Surely.pure {a : α} (h : post a) : Surely (pure a : Random ε α) post := by
  intro outcome hOutcome
  exact ⟨a, (PMF.mem_support_pure_iff _ _).mp hOutcome, h⟩

theorem Surely.bind {x : Random ε β} {f : β → Random ε α} {mid : β → Prop} (h : Surely x mid)
    (hf : ∀ b, mid b → Surely (f b) post) : Surely (x >>= f) post := by
  intro outcome hOutcome
  rw [ExceptT.run_bind] at hOutcome
  obtain ⟨first, hFirst, hRest⟩ := mem_support_bind.mp hOutcome
  obtain ⟨b, rfl, hMid⟩ := h first hFirst
  exact hf b hMid outcome hRest

theorem Surely.lift {x : PMF α} (h : ∀ a ∈ x.support, post a) :
    Surely (ExceptT.lift x : Random ε α) post := by
  intro outcome hOutcome
  rw [ExceptT.run_lift, PMF.monad_map_eq_map, PMF.mem_support_map_iff] at hOutcome
  obtain ⟨a, ha, rfl⟩ := hOutcome
  exact ⟨a, rfl, h a ha⟩

end Rules

section Uniform

theorem eq_uniformOfFinset {p : PMF α} {s : Finset α} (hs : s.Nonempty)
    (hSupport : ∀ a ∈ p.support, a ∈ s)
    (hConstant : ∀ a ∈ s, ∀ b ∈ s, p a = p b) : p = PMF.uniformOfFinset s hs := by
  have hExists : ∃ a, a ∈ s := hs
  obtain ⟨a, ha⟩ := hExists
  have hOutside : ∀ b ∉ s, p b = 0 := fun b hb => by
    rw [PMF.apply_eq_zero_iff]
    exact fun hMem => hb (hSupport b hMem)
  have hSum : (s.card : ENNReal) * p a = 1 := by
    rw [← p.tsum_coe, tsum_eq_sum hOutside, Finset.sum_congr rfl fun b hb => hConstant b hb a ha,
      Finset.sum_const, nsmul_eq_mul]
  have hCard : (s.card : ENNReal) ≠ 0 := Nat.cast_ne_zero.mpr (Finset.card_ne_zero_of_mem ha)
  ext b
  by_cases hb : b ∈ s
  · rw [PMF.uniformOfFinset_apply_of_mem _ hb, hConstant b hb a ha]
    exact ENNReal.eq_inv_of_mul_eq_one_left (by rwa [mul_comm])
  · rw [PMF.uniformOfFinset_apply_of_notMem _ hb, hOutside b hb]

theorem map_injective_apply {f : α → β} (hf : Function.Injective f) (p : PMF α)
    (a : α) : p.map f (f a) = p a := by
  rw [PMF.map_apply, tsum_eq_single a fun b hb => if_neg fun hEq => hb (hf hEq).symm, if_pos rfl]

/-- A distribution is uniform when symmetries of it carry any value of a finite set to any other. -/
theorem eq_uniformOfFinset_of_symmetric {p : PMF α} {s : Finset α} (hs : s.Nonempty)
    (hSupport : ∀ a ∈ p.support, a ∈ s)
    (hSymmetric : ∀ a ∈ s, ∀ b ∈ s, ∃ f : α → α, Function.Injective f ∧ f a = b ∧ p.map f = p) :
    p = PMF.uniformOfFinset s hs := by
  apply eq_uniformOfFinset hs hSupport
  intro a ha b hb
  obtain ⟨f, hInjective, rfl, hMap⟩ := hSymmetric a ha b hb
  have hApply := map_injective_apply hInjective p a
  rw [hMap] at hApply
  exact hApply.symm

theorem uniformOfFintype_map_equiv [Fintype α] [Nonempty α] (e : Equiv.Perm α) :
    (PMF.uniformOfFintype α).map e = PMF.uniformOfFintype α := by
  ext a
  rw [← e.apply_symm_apply a, map_injective_apply e.injective, PMF.uniformOfFintype_apply,
    PMF.uniformOfFintype_apply]

/-- One draw of `0, …, size - 1`. -/
noncomputable def uniformIndex (size : Nat) : PMF Nat :=
  if h : 0 < size then
    haveI : Nonempty (Fin size) := ⟨⟨0, h⟩⟩
    (PMF.uniformOfFintype (Fin size)).map Fin.val
  else PMF.pure 0

theorem lt_of_mem_support_uniformIndex {size i : Nat} (hSize : 0 < size)
    (h : i ∈ (uniformIndex size).support) :
    i < size := by
  rw [uniformIndex, dif_pos hSize, PMF.mem_support_map_iff] at h
  obtain ⟨i, _, rfl⟩ := h
  exact i.isLt

theorem uniformIndex_getD [DecidableEq α] {l : List α} (hNodup : l.Nodup)
    (hs : l.toFinset.Nonempty) (d : α) :
    (uniformIndex l.length).map (fun i => l.getD i d) = PMF.uniformOfFinset l.toFinset hs := by
  have hPos : 0 < l.length := List.length_pos_iff.mpr (List.toFinset_nonempty_iff l |>.mp hs)
  have : Nonempty (Fin l.length) := ⟨⟨0, hPos⟩⟩
  have hMap : (uniformIndex l.length).map (fun i => l.getD i d) =
      (PMF.uniformOfFintype (Fin l.length)).map l.get := by
    rw [uniformIndex, dif_pos hPos, PMF.map_comp]
    exact congrArg (fun f => PMF.map f _) (funext fun i => List.getD_eq_getElem l d i.isLt)
  rw [hMap]
  refine eq_uniformOfFinset hs (fun a ha => ?_) fun a ha b hb => ?_
  · obtain ⟨i, _, rfl⟩ := (PMF.mem_support_map_iff _ _ _).mp ha
    exact List.mem_toFinset.mpr (List.get_mem l i)
  · obtain ⟨i, rfl⟩ := List.mem_iff_get.mp (List.mem_toFinset.mp ha)
    obtain ⟨j, rfl⟩ := List.mem_iff_get.mp (List.mem_toFinset.mp hb)
    have hInjective := List.nodup_iff_injective_get.mp hNodup
    rw [map_injective_apply hInjective, map_injective_apply hInjective, PMF.uniformOfFintype_apply,
      PMF.uniformOfFintype_apply]

theorem uniformIndex_getD_perm [DecidableEq α] {l l' : List α} (h : l.Perm l')
    (hNodup : l.Nodup) (hNe : l ≠ [])
    (d d' : α) :
    (uniformIndex l.length).map (fun i => l.getD i d) = (uniformIndex l'.length).map fun i =>
      l'.getD i d' := by
  have hs : l.toFinset.Nonempty := (List.toFinset_nonempty_iff l).mpr hNe
  have hEq : l.toFinset = l'.toFinset := List.toFinset_eq_of_perm _ _ h
  rw [uniformIndex_getD hNodup hs, uniformIndex_getD (h.nodup_iff.mp hNodup) (hEq ▸ hs)]
  simp only [hEq]

end Uniform

section Sequences

/-- The sequences of `length` distinct numbers below `bound`. -/
noncomputable def distinct (bound length : Nat) : Finset (List Nat) :=
  Finset.univ.image fun e : Fin length ↪ Fin bound => List.ofFn fun i => (e i).val

variable {bound length : Nat}

theorem mem_distinct {l : List Nat} :
    l ∈ distinct bound length ↔ l.length = length ∧ l.Nodup ∧ ∀ n ∈ l, n < bound := by
  rw [distinct, Finset.mem_image]
  constructor
  · rintro ⟨e, _, rfl⟩
    refine ⟨List.length_ofFn, List.nodup_ofFn.mpr fun i j hEq =>
      e.injective (Fin.val_injective hEq), fun n hn => ?_⟩
    obtain ⟨i, rfl⟩ := List.mem_ofFn.mp hn
    exact (e i).isLt
  · rintro ⟨rfl, hNodup, hBound⟩
    refine ⟨⟨fun i => ⟨l.get i, hBound _ (List.get_mem l i)⟩, fun i j hEq => ?_⟩,
      Finset.mem_univ _, List.ofFn_get l⟩
    exact List.nodup_iff_injective_get.mp hNodup (congrArg Fin.val hEq)

theorem distinct_nonempty (h : length ≤ bound) : (distinct bound length).Nonempty :=
  ⟨List.range length, mem_distinct.mpr ⟨List.length_range, List.nodup_range, fun _ hn =>
    (List.mem_range.mp hn).trans_le h⟩⟩

theorem card_distinct (bound length : Nat) :
    (distinct bound length).card = bound.descFactorial length := by
  rw [distinct, Finset.card_image_of_injective, Finset.card_univ,
    Fintype.card_embedding_eq, Fintype.card_fin, Fintype.card_fin]
  intro e e' hEq
  have hVal := List.ofFn_injective hEq
  exact Function.Embedding.ext fun i => Fin.val_injective (congrFun hVal i)

/-- A relabelling of the numbers below `bound`, extended to all numbers. -/
def relabel (σ : Equiv.Perm (Fin bound)) : Equiv.Perm Nat := σ.extendDomain Fin.equivSubtype

@[simp] theorem relabel_val (σ : Equiv.Perm (Fin bound)) (i : Fin bound) :
    relabel σ i.val = (σ i).val :=
  Equiv.Perm.extendDomain_apply_image σ Fin.equivSubtype i

theorem relabel_lt_iff (σ : Equiv.Perm (Fin bound)) {n : Nat} :
    relabel σ n < bound ↔ n < bound := by
  by_cases hn : n < bound
  · have hVal := relabel_val σ ⟨n, hn⟩
    exact iff_of_true (hVal ▸ (σ ⟨n, hn⟩).isLt) hn
  · rw [show relabel σ n = n from Equiv.Perm.extendDomain_apply_not_subtype _ _ hn]

theorem exists_relabel {l l' : List Nat} (h : l ∈ distinct bound length)
    (h' : l' ∈ distinct bound length) :
    ∃ σ : Equiv.Perm (Fin bound), l.map (relabel σ) = l' := by
  obtain ⟨e, _, rfl⟩ := Finset.mem_image.mp h
  obtain ⟨e', _, rfl⟩ := Finset.mem_image.mp h'
  obtain ⟨σ, hσ⟩ := Equiv.Perm.exists_extending_pair e e' e.injective e'.injective
  refine ⟨σ, ?_⟩
  rw [List.map_ofFn]
  exact congrArg List.ofFn (funext fun i => (relabel_val σ (e i)).trans (congrArg Fin.val (hσ i)))

/-- Sequences of distinct numbers whose distribution no relabelling changes are uniform. -/
theorem run_eq_uniform {x : Random ε (List Nat)} (hLength : length ≤ bound)
    (hSurely : Surely x fun l => l ∈ distinct bound length)
    (hRelabel : ∀ σ : Equiv.Perm (Fin bound), List.map (relabel σ) <$> x = x) :
    x.run = (PMF.uniformOfFinset (distinct bound length) (distinct_nonempty hLength)).map
      Except.ok := by
  classical
  have hImage : ((distinct bound length).image (@Except.ok ε (List Nat))).Nonempty :=
    (distinct_nonempty hLength).image _
  have hOk : Function.Injective (@Except.ok ε (List Nat)) := fun _ _ hEq => Except.ok.inj hEq
  have hTarget : (PMF.uniformOfFinset (distinct bound length) (distinct_nonempty hLength)).map
      (@Except.ok ε (List Nat)) =
      PMF.uniformOfFinset _ hImage := by
    refine eq_uniformOfFinset hImage (fun outcome hOutcome => ?_) fun a ha b hb => ?_
    · obtain ⟨l, hl, rfl⟩ := (PMF.mem_support_map_iff _ _ _).mp hOutcome
      exact Finset.mem_image_of_mem _ ((PMF.mem_support_uniformOfFinset_iff _ l).mp hl)
    · obtain ⟨l, hl, rfl⟩ := Finset.mem_image.mp ha
      obtain ⟨l', hl', rfl⟩ := Finset.mem_image.mp hb
      rw [map_injective_apply hOk, map_injective_apply hOk, PMF.uniformOfFinset_apply_of_mem _ hl,
        PMF.uniformOfFinset_apply_of_mem _ hl']
  rw [hTarget]
  refine eq_uniformOfFinset_of_symmetric hImage (fun outcome hOutcome => ?_) fun a ha b hb => ?_
  · obtain ⟨l, rfl, hl⟩ := hSurely outcome hOutcome
    exact Finset.mem_image_of_mem _ hl
  · obtain ⟨l, hl, rfl⟩ := Finset.mem_image.mp ha
    obtain ⟨l', hl', rfl⟩ := Finset.mem_image.mp hb
    obtain ⟨σ, rfl⟩ := exists_relabel hl hl'
    refine ⟨Except.map (List.map (relabel σ)), ?_, rfl, ?_⟩
    · rintro (e | l) (e' | l') hEq
      · exact hEq
      · cases hEq
      · cases hEq
      · exact congrArg Except.ok ((relabel σ).injective.list_map (Except.ok.inj hEq))
    · rw [← PMF.monad_map_eq_map, ← ExceptT.run_map, hRelabel σ]

end Sequences
end OramHub.Chance

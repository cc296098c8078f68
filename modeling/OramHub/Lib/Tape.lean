import OramHub.Lib.Exchange
import OramHub.Lib.Program

/-! # Programs that read a tape of draws

A program reads its draws from a tape, from its position on. Where it reads next may depend on
everything it has read before; what it reads at such places is uniform and independent all the same.
-/
namespace OramHub.Tape
open OramHub.Program OramHub.Chance
set_option autoImplicit false

section Places

variable {D L : Type} {size count : Nat} {tape tape' : Fin size → D}
  {place : (Fin size → D) → Fin count → Fin size}
  {label : D → L} {labels labels' : Fin count → L} {i j : Fin count}

/-- Places of a tape that are read one after the other, each chosen from what stands before it. -/
structure Adaptive (place : (Fin size → D) → Fin count → Fin size) : Prop where
  increasing : ∀ tape i j, i < j → place tape i < place tape j
  decided : ∀ tape tape' j, (∀ t < place tape j, tape' t = tape t) → place tape' j = place tape j

/-- A rearrangement of the draws carries any label to any other. -/
def Balanced (label : D → L) : Prop := ∀ a b, ∃ π : Equiv.Perm D, ∀ d, label d = a → label (π d) = b

theorem Adaptive.update (h : Adaptive place) (hLe : i ≤ j) (d : D) :
    place (Function.update tape (place tape j) d) i = place tape i := by
  obtain rfl | hLt := hLe.eq_or_lt
  · exact h.decided _ _ _ fun t ht => Function.update_of_ne ht.ne _ _
  · refine h.decided _ _ _ fun t ht => Function.update_of_ne (ne_of_lt ?_) _ _
    exact ht.trans (h.increasing tape i j hLt)

variable [Fintype D]

/-- The tapes on which the labels of the first places are given. -/
noncomputable def matching (label : D → L) (place : (Fin size → D) → Fin count → Fin size)
    (labels : Fin count → L)
    (n : Nat) : Finset (Fin size → D) := by
  classical
  exact Finset.univ.filter fun tape => ∀ i : Fin count, i.val < n →
    label (tape (place tape i)) = labels i

theorem mem_matching {n : Nat} :
    tape ∈ matching label place labels n ↔ ∀ i : Fin count, i.val < n →
    label (tape (place tape i)) = labels i := by
  classical
  exact Finset.mem_filter.trans (and_iff_right (Finset.mem_univ _))

/-- The next label does not change how many tapes there are. -/
theorem card_matching_succ_le (h : Adaptive place) (hBalanced : Balanced label)
    (hSame : ∀ i < j, labels i = labels' i) :
    (matching label place labels (j + 1)).card ≤ (matching label place labels' (j + 1)).card := by
  obtain ⟨π, hTo⟩ := hBalanced (labels j) (labels' j)
  refine Finset.card_le_card_of_injOn
    (fun tape => Function.update tape (place tape j) (π (tape (place tape j))))
      (fun tape hTape => ?_) ?_
  · have hLabels := mem_matching.mp (Finset.mem_coe.mp hTape)
    refine Finset.mem_coe.mpr (mem_matching.mpr fun i hi => ?_)
    have hLe : i ≤ j := Nat.lt_succ_iff.mp hi
    simp only [h.update hLe]
    obtain rfl | hLt := hLe.eq_or_lt
    · rw [Function.update_self]
      exact hTo _ (hLabels i hi)
    · rw [Function.update_of_ne (h.increasing tape i j hLt).ne, hLabels i hi, hSame i hLt]
  · intro tape _ tape' _ hEq
    have hPlace : place tape j = place tape' j := by
      have hPlaces := congrArg (fun tape => place tape j) hEq
      simpa only [h.update le_rfl] using hPlaces
    funext t
    rcases eq_or_ne t (place tape j) with rfl | hNe
    · have hAt := congrFun hEq (place tape j)
      simp only [Function.update_self, hPlace] at hAt
      rw [hPlace]
      exact π.injective hAt
    · have hAt := congrFun hEq t
      simpa only [Function.update_of_ne hNe, Function.update_of_ne (hPlace ▸ hNe)] using hAt

theorem card_matching_succ [Fintype L] (h : Adaptive place) (hBalanced : Balanced label)
    (labels : Fin count → L) (j : Fin count) :
    (matching label place labels j).card = Fintype.card L *
      (matching label place labels (j + 1)).card := by
  classical
  have hFiber (a : L) :
      ((matching label place labels j).filter fun tape => label (tape (place tape j)) = a).card =
      (matching label place labels (j + 1)).card := by
    have hLabels (i : Fin count) (hi : i < j) : Function.update labels j a i = labels i :=
      Function.update_of_ne hi.ne _ _
    have hSame : (matching label place labels j).filter
        (fun tape => label (tape (place tape j)) = a) =
        matching label place (Function.update labels j a) (j + 1) := by
      ext tape
      rw [Finset.mem_filter, mem_matching, mem_matching]
      constructor
      · rintro ⟨hBefore, hAt⟩ i hi
        have hLe : i ≤ j := Nat.lt_succ_iff.mp hi
        obtain rfl | hLt := hLe.eq_or_lt
        · rw [hAt, Function.update_self]
        · rw [hBefore i hLt, hLabels i hLt]
      · intro hAll
        refine ⟨fun i hi => (hAll i (hi.trans (Nat.lt_succ_self _))).trans (hLabels i hi), ?_⟩
        exact (hAll j (Nat.lt_succ_self _)).trans (Function.update_self _ _ _)
    rw [hSame]
    exact le_antisymm (card_matching_succ_le h hBalanced hLabels)
      (card_matching_succ_le h hBalanced fun i hi => (hLabels i hi).symm)
  rw [Finset.card_eq_sum_card_fiberwise (f := fun tape => label (tape (place tape j)))
    (t := Finset.univ)
    fun _ _ => Finset.mem_coe.mpr (Finset.mem_univ _), Finset.sum_congr rfl fun a _ =>
      hFiber a, Finset.sum_const,
    Finset.card_univ, smul_eq_mul]

/-- As many tapes show one sequence of labels as any other. -/
theorem card_matching_eq [Fintype L] [Nonempty L] (h : Adaptive place) (hBalanced : Balanced label)
    (labels labels' : Fin count → L) {n : Nat} (hn : n ≤ count) :
    (matching label place labels n).card = (matching label place labels' n).card := by
  induction n with
  | zero =>
    refine congrArg Finset.card (Finset.ext fun tape => iff_of_true ?_ ?_)
    · exact mem_matching.mpr fun i hi => absurd hi (Nat.not_lt_zero i)
    · exact mem_matching.mpr fun i hi => absurd hi (Nat.not_lt_zero i)
  | succ n ih =>
    have hBefore := ih (Nat.le_of_succ_le hn)
    rw [card_matching_succ h hBalanced labels ⟨n, hn⟩,
      card_matching_succ h hBalanced labels' ⟨n, hn⟩] at hBefore
    exact Nat.eq_of_mul_eq_mul_left Fintype.card_pos hBefore

theorem map_uniformOfFintype_apply {A B : Type} [Fintype A] [Nonempty A] [DecidableEq B]
    (f : A → B) (b : B) :
    (PMF.uniformOfFintype A).map f b = (Finset.univ.filter fun a => f a = b).card *
    (Fintype.card A : ENNReal)⁻¹ := by
  rw [PMF.map_apply, tsum_fintype]
  simp only [PMF.uniformOfFintype_apply, eq_comm (a := b)]
  rw [← Finset.sum_filter, Finset.sum_const, nsmul_eq_mul]

/-- The labels of the places that are read are uniform and independent. -/
theorem labels_uniform [Fintype L] [Nonempty L] [Nonempty D] (h : Adaptive place)
    (hBalanced : Balanced label) :
    (PMF.uniformOfFintype (Fin size → D)).map (fun tape i => label (tape (place tape i))) =
      PMF.uniformOfFintype (Fin count → L) := by
  classical
  have hMatching (labels : Fin count → L) :
      (Finset.univ.filter fun tape : Fin size → D =>
        (fun i => label (tape (place tape i))) = labels) =
        matching label place labels count := by
    ext tape
    rw [Finset.mem_filter, and_iff_right (Finset.mem_univ _), mem_matching, funext_iff]
    exact forall_congr' fun i => ⟨fun hAt _ => hAt, fun hAll => hAll i.isLt⟩
  refine eq_uniformOfFinset Finset.univ_nonempty (fun _ _ => Finset.mem_univ _)
    fun labels _ labels' _ => ?_
  rw [map_uniformOfFintype_apply, map_uniformOfFintype_apply, hMatching, hMatching,
    card_matching_eq h hBalanced _ _ le_rfl]

/-- The remainder of a draw. -/
def remainder {total bound : Nat} [NeZero bound] (draw : Fin total) : Fin bound :=
  Fin.ofNat bound draw.val

theorem balanced_remainder {total bound : Nat} [NeZero bound] (h : bound ∣ total) :
    Balanced (remainder : Fin total → Fin bound) := by
  obtain ⟨factor, rfl⟩ := h
  rw [Nat.mul_comm]
  have hRemainder (q : Fin factor) (r : Fin bound) : remainder (finProdFinEquiv (q, r)) = r := by
    apply Fin.ext
    change (r.val + bound * q.val) % bound = r.val
    rw [Nat.add_mul_mod_self_left, Nat.mod_eq_of_lt r.isLt]
  intro a b
  refine ⟨finProdFinEquiv.symm.trans
    (((Equiv.refl _).prodCongr (Equiv.swap a b)).trans finProdFinEquiv), fun d hd => ?_⟩
  obtain ⟨⟨q, r⟩, rfl⟩ := finProdFinEquiv.surjective d
  rw [hRemainder] at hd
  subst hd
  simp only [Equiv.trans_apply, Equiv.symm_apply_apply, Equiv.prodCongr_apply, Prod.map_apply,
    Equiv.coe_refl, id_eq, Equiv.swap_apply_left]
  exact hRemainder _ _

/-- A tape that ends, continued with zeros. -/
def extend {total : Nat} (tape : Fin size → Fin total) (t : Nat) : Nat := if h :
    t < size then (tape ⟨t, h⟩).val else 0

theorem extend_of_lt {total : Nat} {tape : Fin size → Fin total} (t : Fin size) :
    extend tape t = (tape t).val :=
  dif_pos t.isLt

end Places

section Programs

variable {ε σ τ α β γ υ D : Type} {pos : σ → Nat} {view : σ → υ} {budget budget' : Nat}

/-- The state in which a program ends, whether it returns or throws. -/
def finalState : EStateM.Result ε σ α → σ
  | .ok _ s => s
  | .error _ s => s

/-- A program that starts to read at the position of its state, reads at most `budget` draws and
leaves `view` alone. -/
structure Reads (pos : σ → Nat) (view : σ → υ) (budget : Nat)
    (x : (Nat → D) → EStateM ε σ α) : Prop where
  forward : ∀ tape s, pos s ≤ pos (finalState ((x tape).run s))
  bounded : ∀ tape s, pos (finalState ((x tape).run s)) ≤ pos s + budget
  kept : ∀ tape s, view (finalState ((x tape).run s)) = view s
  decided : ∀ tape tape' s, (∀ t < pos (finalState ((x tape).run s)), tape' t = tape t) →
    (x tape').run s = (x tape).run s

/-- A program that reads nothing. -/
def Blind (pos : σ → Nat) (view : σ → υ) (x : EStateM ε σ α) : Prop :=
  ∀ s, pos (finalState (x.run s)) = pos s ∧ view (finalState (x.run s)) = view s

theorem Blind.reads {x : EStateM ε σ α} (h : Blind pos view x) :
    Reads pos view budget fun _ : Nat → D => x where
  forward _ s := (h s).1.ge
  bounded _ s := (h s).1.trans_le (Nat.le_add_right _ _)
  kept _ s := (h s).2
  decided _ _ _ _ := rfl

theorem blind_pure (a : α) : Blind pos view (pure a : EStateM ε σ α) := fun _ => ⟨rfl, rfl⟩

theorem blind_throw (e : ε) : Blind pos view (throw e : EStateM ε σ α) := fun _ => ⟨rfl, rfl⟩

theorem blind_fromExcept (x : Except ε α) : Blind pos view (fromExcept x : EStateM ε σ α) := by
  cases x with
  | ok a => exact blind_pure a
  | error e => exact blind_throw e

theorem blind_throwIf (condition : Prop) [Decidable condition] (e : ε) :
    Blind pos view (throwIf condition e : EStateM ε σ Unit) := by
  rw [throwIf]
  split
  · exact blind_throw e
  · exact blind_pure ()

theorem blind_modify {g : σ → σ} (hPos : ∀ s, pos (g s) = pos s)
    (hView : ∀ s, view (g s) = view s) :
    Blind pos view (modify g : EStateM ε σ PUnit) := fun s => ⟨hPos s, hView s⟩

theorem blind_zoom {part : σ → τ} {update : σ → τ → σ} (hPos : ∀ s t, pos (update s t) = pos s)
    (hView : ∀ s t, view (update s t) = view s) (x : EStateM ε τ α) :
    Blind pos view (zoom part update x) := by
  intro s
  rw [run_zoom]
  cases x.run (part s) with
  | ok a t => exact ⟨hPos s t, hView s t⟩
  | error e t => exact ⟨hPos s t, hView s t⟩

namespace Reads

theorem mono {x : (Nat → D) → EStateM ε σ α} (h : Reads pos view budget x)
    (hLe : budget ≤ budget') :
    Reads pos view budget' x where
  forward := h.forward
  bounded tape s := (h.bounded tape s).trans (Nat.add_le_add_left hLe _)
  kept := h.kept
  decided := h.decided

theorem wp_kept {x : (Nat → D) → EStateM ε σ α} (h : Reads pos view budget x)
    (tape : Nat → D) (s : σ) :
    wp (x tape) s (fun _ s' => pos s ≤ pos s' ∧ view s' = view s) fun _ _ => True := by
  rw [wp_iff]
  refine ⟨fun a s' hRun => ?_, fun _ _ _ => trivial⟩
  have hForward := h.forward tape s
  have hKept := h.kept tape s
  rw [hRun] at hForward hKept
  exact ⟨hForward, hKept⟩

theorem bind {x : (Nat → D) → EStateM ε σ α} {f : (Nat → D) → α → EStateM ε σ β}
    (h : Reads pos view budget x)
    (hf : ∀ a, Reads pos view budget' fun tape => f tape a) :
    Reads pos view (budget + budget') fun tape => x tape >>= f tape where
  forward tape s := by
    have hFirst := h.forward tape s
    rw [EStateM.run_bind]
    cases hRun : (x tape).run s with
    | ok a s' =>
      rw [hRun] at hFirst
      exact hFirst.trans ((hf a).forward tape s')
    | error e s' =>
      rw [hRun] at hFirst
      exact hFirst
  bounded tape s := by
    have hFirst := h.bounded tape s
    rw [EStateM.run_bind]
    cases hRun : (x tape).run s with
    | ok a s' =>
      rw [hRun] at hFirst
      have hSecond := (hf a).bounded tape s'
      exact hSecond.trans ((Nat.add_le_add_right hFirst _).trans_eq (Nat.add_assoc _ _ _))
    | error e s' =>
      rw [hRun] at hFirst
      exact hFirst.trans (Nat.add_le_add_left (Nat.le_add_right _ _) _)
  kept tape s := by
    have hFirst := h.kept tape s
    rw [EStateM.run_bind]
    cases hRun : (x tape).run s with
    | ok a s' =>
      rw [hRun] at hFirst
      exact ((hf a).kept tape s').trans hFirst
    | error e s' =>
      rw [hRun] at hFirst
      exact hFirst
  decided tape tape' s hSame := by
    have hFirst := h.decided tape tape' s
    rw [EStateM.run_bind] at hSame ⊢
    cases hRun : (x tape).run s with
    | ok a s' =>
      rw [hRun] at hSame hFirst
      have hForward : pos s' ≤ pos (finalState ((f tape a).run s')) := (hf a).forward tape s'
      rw [EStateM.run_bind, hFirst fun t ht => hSame t (ht.trans_le hForward), hRun]
      exact (hf a).decided tape tape' s' hSame
    | error e s' =>
      rw [hRun] at hSame hFirst
      rw [EStateM.run_bind, hFirst hSame, hRun]

theorem blind_bind {x : EStateM ε σ α} {f : (Nat → D) → α → EStateM ε σ β} (h : Blind pos view x)
    (hf : ∀ a, Reads pos view budget fun tape => f tape a) :
    Reads pos view budget fun tape => x >>= f tape :=
  Nat.zero_add budget ▸ (@Blind.reads _ _ _ _ _ pos view 0 x h).bind hf

theorem map {x : (Nat → D) → EStateM ε σ α} (h : Reads pos view budget x) (f : α → β) :
    Reads pos view budget fun tape => x tape >>= fun a => pure (f a) := by
  change Reads pos view (budget + 0) fun tape => x tape >>= fun a => pure (f a)
  exact h.bind fun a => (blind_pure (f a)).reads

theorem get_bind {f : (Nat → D) → σ → EStateM ε σ α}
    (hf : ∀ s, Reads pos view budget fun tape => f tape s) :
    Reads pos view budget fun tape => get >>= f tape := blind_bind (fun _ => ⟨rfl, rfl⟩) hf

theorem modify_bind {g : σ → σ} {f : (Nat → D) → PUnit → EStateM ε σ α}
    (hPos : ∀ s, pos (g s) = pos s)
    (hView : ∀ s, view (g s) = view s) (hf : Reads pos view budget fun tape => f tape ⟨⟩) :
    Reads pos view budget fun tape => modify g >>= f tape :=
  blind_bind (blind_modify hPos hView) fun _ => hf

theorem fromExcept_bind {x : Except ε α} {f : (Nat → D) → α → EStateM ε σ β}
    (hf : ∀ a, x = .ok a → Reads pos view budget fun tape => f tape a) :
    Reads pos view budget fun tape => fromExcept x >>= f tape := by
  cases x with
  | ok a => exact hf a rfl
  | error e => exact (blind_throw e).reads

/-- The condition must not depend on the tape, but its decision procedure may mention it. -/
theorem check_bind {condition : Prop} {decided : (Nat → D) → Decidable condition} {e : ε}
    {f : (Nat → D) → Unit → EStateM ε σ α}
    (hf : ¬ condition → Reads pos view budget fun tape => f tape ()) :
    Reads pos view budget fun tape => @throwIf ε σ condition (decided tape) e >>= f tape := by
  by_cases h : condition
  · simp only [throwIf, if_pos h]
    exact (blind_throw e).reads
  · simp only [throwIf, if_neg h]
    exact hf h

theorem forM {items : List β} {body : (Nat → D) → β → EStateM ε σ PUnit}
    (h : ∀ item ∈ items, Reads pos view budget fun tape => body tape item) :
    Reads pos view (items.length * budget) fun tape => forM items (body tape) := by
  induction items with
  | nil => exact (blind_pure _).reads
  | cons item items ih =>
    simp only [List.forM_cons, List.length_cons, Nat.succ_mul, Nat.add_comm (items.length * budget)]
    exact (h item List.mem_cons_self).bind fun _ => ih fun other hOther =>
      h other (List.mem_cons_of_mem _ hOther)

theorem foldlM {items : List β} {body : (Nat → D) → γ → β → EStateM ε σ γ} {acc : γ}
    (h : ∀ acc, ∀ item ∈ items, Reads pos view budget fun tape => body tape acc item) :
    Reads pos view (items.length * budget) fun tape => items.foldlM (body tape) acc := by
  induction items generalizing acc with
  | nil => exact (blind_pure _).reads
  | cons item items ih =>
    simp only [List.foldlM_cons, List.length_cons, Nat.succ_mul,
      Nat.add_comm (items.length * budget)]
    exact (h acc item List.mem_cons_self).bind fun _ => ih fun acc other hOther =>
      h acc other (List.mem_cons_of_mem _ hOther)

theorem mapM {items : List β} {f : (Nat → D) → β → EStateM ε σ α}
    (h : ∀ item ∈ items, Reads pos view budget fun tape => f tape item) :
    Reads pos view (items.length * budget) fun tape => items.mapM (f tape) := by
  induction items with
  | nil => exact (blind_pure _).reads
  | cons item items ih =>
    simp only [List.mapM_cons, List.length_cons, Nat.succ_mul, Nat.add_comm (items.length * budget)]
    refine (h item List.mem_cons_self).bind fun a => ?_
    exact (ih fun other hOther => h other (List.mem_cons_of_mem _ hOther)).map _

/-- A program on the part of the state that carries the position. -/
theorem zoom {part : σ → τ} {update : σ → τ → σ} {pos' : τ → Nat} {x : (Nat → D) → EStateM ε τ α}
    (hPart : ∀ s, pos' (part s) = pos s) (hPos : ∀ s t, pos (update s t) = pos' t)
    (hView : ∀ s t, view (update s t) = view s) (h : Reads pos' (fun _ => ()) budget x) :
    Reads pos view budget fun tape => zoom part update (x tape) where
  forward tape s := by
    have hInner := h.forward tape (part s)
    rw [run_zoom]
    cases hRun : (x tape).run (part s) <;> rw [hRun] at hInner <;>
      exact (hPart s).symm.trans_le (hInner.trans (hPos s _).ge)
  bounded tape s := by
    have hInner := h.bounded tape (part s)
    rw [hPart] at hInner
    rw [run_zoom]
    cases hRun : (x tape).run (part s) <;> rw [hRun] at hInner <;> exact (hPos s _).trans_le hInner
  kept tape s := by
    rw [run_zoom]
    cases hRun : (x tape).run (part s) <;> exact hView s _
  decided tape tape' s hSame := by
    have hInner := h.decided tape tape' (part s)
    rw [run_zoom] at hSame
    rw [run_zoom, run_zoom]
    cases hRun : (x tape).run (part s) <;> rw [hRun] at hInner hSame <;>
      rw [hInner fun t ht => hSame t (ht.trans_le (hPos s _).ge)]

end Reads

/-- The positions from which the programs of a sequence start to read. -/
def marks (pos : σ → Nat) (tape : Nat → D) : List ((Nat → D) → EStateM ε σ α) → σ → List Nat
  | [], _ => []
  | x :: xs, s => pos s :: marks pos tape xs (finalState ((x tape).run s))

variable {xs : List ((Nat → D) → EStateM ε σ α)} {tape tape' : Nat → D} {s : σ} {j : Nat}

theorem length_marks : (marks pos tape xs s).length = xs.length := by
  induction xs generalizing s with
  | nil => rfl
  | cons x xs ih => exact congrArg (· + 1) ih

theorem marks_bounds (h : ∀ x ∈ xs, Reads pos view budget x) (hj : j < xs.length) :
    pos s ≤ (marks pos tape xs s).getD j 0 ∧
    (marks pos tape xs s).getD j 0 ≤ pos s + j * budget := by
  induction xs generalizing s j with
  | nil => cases hj
  | cons x xs ih =>
    cases j with
    | zero => exact ⟨le_rfl, Nat.le_add_right _ _⟩
    | succ j =>
      have hFirst := h x List.mem_cons_self
      have hForward := hFirst.forward tape s
      have hBounded := hFirst.bounded tape s
      obtain ⟨hLow, hHigh⟩ :=
        @ih (finalState ((x tape).run s)) j (fun y hy => h y (List.mem_cons_of_mem _ hy))
        (Nat.lt_of_succ_lt_succ hj)
      refine ⟨hForward.trans hLow, hHigh.trans ?_⟩
      rw [Nat.succ_mul, Nat.add_comm (j * budget), ← Nat.add_assoc]
      exact Nat.add_le_add_right hBounded _

/-- A mark is decided by what stands on the tape before it. -/
theorem marks_decided (h : ∀ x ∈ xs, Reads pos view budget x) (hj : j < xs.length)
    (hSame : ∀ t < (marks pos tape xs s).getD j 0, tape' t = tape t) :
    (marks pos tape' xs s).getD j 0 = (marks pos tape xs s).getD j 0 := by
  induction xs generalizing s j with
  | nil => cases hj
  | cons x xs ih =>
    cases j with
    | zero => rfl
    | succ j =>
      have hRest : ∀ y ∈ xs, Reads pos view budget y := fun y hy => h y (List.mem_cons_of_mem _ hy)
      have hj' := Nat.lt_of_succ_lt_succ hj
      have hLow := (@marks_bounds _ _ _ _ _ pos view budget xs tape
        (finalState ((x tape).run s)) j hRest hj').1
      have hRun := (h x List.mem_cons_self).decided tape tape' s fun t ht =>
        hSame t (ht.trans_le hLow)
      change (marks pos tape' xs (finalState ((x tape').run s))).getD j 0 = _
      rw [hRun]
      exact ih hRest hj' hSame

end Programs
end OramHub.Tape

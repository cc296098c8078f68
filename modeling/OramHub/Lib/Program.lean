import Mathlib.Data.List.Basic

/-! # Weakest preconditions of programs that keep their state when they throw

A program `EStateM ε σ α` ends in a state whether it returns or throws.
`wp` speaks about both ends; `Returns` is the total form, in which throwing is excluded, and
`ReturnsIf` excludes it under a condition.
-/
namespace OramHub.Program
set_option autoImplicit false

variable {ε σ τ α β γ : Type}

def wp (x : EStateM ε σ α) (s : σ) (post : α → σ → Prop) (raised : ε → σ → Prop) : Prop :=
  match x.run s with
  | .ok a s' => post a s'
  | .error e s' => raised e s'

/-- The program neither throws nor fails `post`. -/
def Returns (x : EStateM ε σ α) (s : σ) (post : α → σ → Prop) : Prop :=
  wp x s post fun _ _ => False

/-- The program throws only where `condition` fails, and whatever it returns satisfies `post`. -/
def ReturnsIf (condition : Prop) (x : EStateM ε σ α) (s : σ) (post : α → σ → Prop) : Prop :=
  wp x s post fun _ _ => ¬ condition

def throwIf (condition : Prop) [Decidable condition] (e : ε) : EStateM ε σ Unit :=
  if condition then throw e else pure ()

def fromExcept : Except ε α → EStateM ε σ α
  | .ok a => pure a
  | .error e => throw e

/-- Runs a program on the component of the state that `view` and `update` select. -/
def zoom (view : σ → τ) (update : σ → τ → σ) (x : EStateM ε τ α) : EStateM ε σ α := fun s =>
  match x.run (view s) with
  | .ok a t => .ok a (update s t)
  | .error e t => .error e (update s t)

section Rules

variable {s : σ} {post : α → σ → Prop} {raised : ε → σ → Prop}

@[simp] theorem wp_pure (a : α) : wp (pure a : EStateM ε σ α) s post raised ↔ post a s := Iff.rfl

@[simp] theorem wp_throw (e : ε) :
    wp (throw e : EStateM ε σ α) s post raised ↔ raised e s := Iff.rfl

@[simp] theorem wp_get {post : σ → σ → Prop} :
    wp (get : EStateM ε σ σ) s post raised ↔ post s s := Iff.rfl

@[simp] theorem wp_set (s' : σ) {post : PUnit → σ → Prop} :
    wp (set s' : EStateM ε σ PUnit) s post raised ↔ post ⟨⟩ s' := Iff.rfl

@[simp] theorem wp_modify (f : σ → σ) {post : PUnit → σ → Prop} :
    wp (modify f : EStateM ε σ PUnit) s post raised ↔ post ⟨⟩ (f s) := Iff.rfl

@[simp] theorem wp_bind (x : EStateM ε σ β) (f : β → EStateM ε σ α) :
    wp (x >>= f) s post raised ↔ wp x s (fun b s' => wp (f b) s' post raised) raised := by
  unfold wp
  rw [EStateM.run_bind]
  cases x.run s <;> rfl

@[simp] theorem wp_map (x : EStateM ε σ β) (f : β → α) :
    wp (f <$> x) s post raised ↔ wp x s (fun b s' => post (f b) s') raised := by
  rw [map_eq_pure_bind, wp_bind]
  rfl

@[simp] theorem wp_throwIf (condition : Prop) [Decidable condition] (e : ε)
    {post : Unit → σ → Prop} :
    wp (throwIf condition e) s post raised ↔
      (condition → raised e s) ∧ (¬ condition → post () s) := by
  by_cases h : condition <;> simp [throwIf, h]

@[simp] theorem wp_fromExcept_ok (a : α) :
    wp (fromExcept (.ok a : Except ε α)) s post raised ↔ post a s := Iff.rfl

@[simp] theorem wp_fromExcept_error (e : ε) :
    wp (fromExcept (.error e : Except ε α)) s post raised ↔ raised e s := Iff.rfl

theorem run_zoom (view : σ → τ) (update : σ → τ → σ) (x : EStateM ε τ α) :
    (zoom view update x).run s = match x.run (view s) with
      | .ok a t => .ok a (update s t)
      | .error e t => .error e (update s t) := rfl

theorem wp_zoom (view : σ → τ) (update : σ → τ → σ) (x : EStateM ε τ α) :
    wp (zoom view update x) s post raised ↔
      wp x (view s) (fun a t => post a (update s t)) fun e t => raised e (update s t) := by
  unfold wp
  rw [run_zoom]
  cases x.run (view s) <;> rfl

theorem wp_mono {x : EStateM ε σ α} {post' : α → σ → Prop} {raised' : ε → σ → Prop}
    (h : wp x s post raised) (hPost : ∀ a s', post a s' → post' a s')
    (hRaised : ∀ e s', raised e s' → raised' e s') : wp x s post' raised' := by
  unfold wp at *
  cases hx : x.run s with
  | ok a s' => rw [hx] at h; exact hPost a s' h
  | error e s' => rw [hx] at h; exact hRaised e s' h

end Rules

/-! Rules for programs whose end after a throw matters as well. -/
section Outcomes

variable {s : σ} {post : α → σ → Prop} {raised : ε → σ → Prop}

theorem Returns.outcome {x : EStateM ε σ α} (h : Returns x s post) : wp x s post raised :=
  wp_mono h (fun _ _ => id) fun _ _ => False.elim

theorem wp.bind {x : EStateM ε σ β} {f : β → EStateM ε σ α} {mid : β → σ → Prop}
    (h : wp x s mid raised)
    (hf : ∀ b s', mid b s' → wp (f b) s' post raised) : wp (x >>= f) s post raised :=
  (wp_bind x f).mpr (wp_mono h hf fun _ _ => id)

theorem Returns.outcome_bind {x : EStateM ε σ β} {f : β → EStateM ε σ α} {mid : β → σ → Prop}
    (h : Returns x s mid)
    (hf : ∀ b s', mid b s' → wp (f b) s' post raised) : wp (x >>= f) s post raised :=
  wp.bind h.outcome hf

theorem wp.check_bind {refused : Prop} [Decidable refused] {e : ε} {f : Unit → EStateM ε σ α}
    (hRefused : refused → raised e s) (hf : ¬ refused → wp (f ()) s post raised) :
    wp (throwIf refused e >>= f) s post raised :=
  (wp_bind _ f).mpr ((wp_throwIf refused e).mpr ⟨hRefused, hf⟩)

theorem wp.fromExcept_bind {x : Except ε β} {f : β → EStateM ε σ α}
    (hError : ∀ e, x = .error e → raised e s)
    (hf : ∀ b, x = .ok b → wp (f b) s post raised) : wp (fromExcept x >>= f) s post raised := by
  cases x with
  | ok b => exact hf b rfl
  | error e => exact hError e rfl

theorem wp.ok_bind {x : Except ε β} {b : β} {f : β → EStateM ε σ α} (h : x = .ok b)
    (hf : wp (f b) s post raised) :
    wp (fromExcept x >>= f) s post raised := by
  subst h
  exact hf

theorem wp.get_bind {f : σ → EStateM ε σ α} (hf : wp (f s) s post raised) :
    wp (get >>= f) s post raised := hf

theorem wp.modify_bind {g : σ → σ} {f : PUnit → EStateM ε σ α} (hf : wp (f ⟨⟩) (g s) post raised) :
    wp (modify g >>= f) s post raised := hf

theorem wp.pure {a : α} (h : post a s) : wp (pure a : EStateM ε σ α) s post raised := h

/-- A program on a part of the state. -/
theorem wp.zoom_bind {view : σ → τ} {update : σ → τ → σ} {x : EStateM ε τ β}
    {f : β → EStateM ε σ α} {mid : β → τ → Prop}
    {failed : ε → τ → Prop} (h : wp x (view s) mid failed)
    (hRaised : ∀ e t, failed e t → raised e (update s t))
    (hf : ∀ b t, mid b t → wp (f b) (update s t) post raised) :
    wp (zoom view update x >>= f) s post raised :=
  (wp_bind _ f).mpr ((wp_zoom view update x).mpr (wp_mono h hf hRaised))

theorem wp.forM_range {n : Nat} {body : Nat → EStateM ε σ PUnit}
    (inv : Nat → σ → Prop) (h : inv 0 s)
    (step : ∀ i < n, ∀ s, inv i s → wp (body i) s (fun _ s' => inv (i + 1) s') raised) :
    wp (forM (List.range n) body) s (fun _ s' => inv n s') raised := by
  induction n with
  | zero => exact h
  | succ n ih =>
    rw [List.range_succ, List.forM_append]
    refine wp.bind (ih fun i hi => step i (by omega)) fun _ s' h' => ?_
    change wp (body n >>= Pure.pure) s' _ _
    rw [bind_pure]
    exact step n (Nat.lt_succ_self n) s' h'

theorem wp.mapM {items : List β} {f : β → EStateM ε σ α} (inv : σ → Prop)
    (related : α → β → Prop) (h : inv s) (step : ∀ item ∈ items, ∀ s, inv s →
      wp (f item) s (fun a s' => related a item ∧ inv s') raised) :
    wp (items.mapM f) s (fun results s' => List.Forall₂ related results items ∧ inv s') raised := by
  induction items generalizing s with
  | nil => exact wp.pure ⟨.nil, h⟩
  | cons item rest ih =>
    rw [List.mapM_cons]
    apply wp.bind (step item List.mem_cons_self s h)
    intro a s' hHead
    refine wp.bind (ih hHead.2 fun other hOther => step other (List.mem_cons_of_mem _ hOther))
      fun results s'' hTail => ?_
    exact wp.pure ⟨.cons hHead.1 hTail.1, hTail.2⟩

theorem wp_iff {x : EStateM ε σ α} :
    wp x s post raised ↔ (∀ a s', x.run s = .ok a s' → post a s') ∧ ∀ e s', x.run s = .error e s' →
    raised e s' := by
  unfold wp
  cases x.run s <;> simp

/-- A program whose outcome is that of a value of `Except`. -/
theorem run_of_outcome {x : EStateM ε σ α} {value : Except ε α}
    (h : wp x s (fun a _ => value = .ok a) fun e _ => value = .error e) :
    (∀ a, value = .ok a → ∃ s', x.run s = .ok a s') ∧ ∀ e, value = .error e →
    ∃ s', x.run s = .error e s' := by
  unfold wp at h
  cases hRun : x.run s with
  | ok a s' =>
    rw [hRun] at h
    subst h
    simp
  | error e s' =>
    rw [hRun] at h
    subst h
    simp

/-- Whether the program returns. A run from a fixed state can be tested with it. -/
def succeeds (x : EStateM ε σ α) (s : σ) : Bool :=
  match x.run s with
  | .ok _ _ => true
  | .error _ _ => false

theorem succeeds_iff {x : EStateM ε σ α} : succeeds x s = true ↔ ∃ a s', x.run s = .ok a s' := by
  unfold succeeds
  cases x.run s <;> simp

theorem wp_trivial (x : EStateM ε σ α) (s : σ) : wp x s (fun _ _ => True) fun _ _ => True :=
  wp_iff.mpr ⟨fun _ _ _ => trivial, fun _ _ _ => trivial⟩

end Outcomes

section Total

variable {s : σ} {post post' : α → σ → Prop}

theorem returns_iff {x : EStateM ε σ α} :
    Returns x s post ↔ ∃ a s', x.run s = .ok a s' ∧ post a s' := by
  unfold Returns wp
  cases x.run s <;> simp

theorem Returns.post_of_run {x : EStateM ε σ α} (h : Returns x s post) {a : α} {s' : σ}
    (hRun : x.run s = .ok a s') : post a s' := by
  obtain ⟨b, t, hRun', hPost⟩ := returns_iff.mp h
  rw [hRun] at hRun'
  cases hRun'
  exact hPost

theorem ok_bind (a : α) (f : α → Except ε β) : (Except.ok a >>= f) = f a := rfl

theorem except_bind_eq_ok {x : Except ε β} {f : β → Except ε α} {a : α} (h : (x >>= f) = .ok a) :
    ∃ b, x = .ok b ∧ f b = .ok a := by
  cases x with
  | ok b => exact ⟨b, rfl, h⟩
  | error e => cases h

theorem except_bind_eq_error {x : Except ε β} {f : β → Except ε α} {e : ε}
    (h : (x >>= f) = .error e) :
    x = .error e ∨ ∃ b, x = .ok b ∧ f b = .error e := by
  cases x with
  | ok b => exact Or.inr ⟨b, rfl, h⟩
  | error e' =>
    cases h
    exact Or.inl rfl

theorem run_bind_of_ok {x : EStateM ε σ β} {f : β → EStateM ε σ α} {b : β} {s s' : σ}
    (h : x.run s = .ok b s') :
    (x >>= f).run s = (f b).run s' := by rw [EStateM.run_bind, h]

theorem run_check_bind {refused : Prop} [Decidable refused] {e : ε} {f : Unit → EStateM ε σ α}
    {s : σ} (h : ¬ refused) :
    (throwIf refused e >>= f).run s = (f ()).run s := by
  rw [throwIf, if_neg h]
  rfl

theorem run_fromExcept_bind {x : Except ε β} {f : β → EStateM ε σ α} {b : β}
    {s : σ} (h : x = .ok b) :
    (fromExcept x >>= f).run s = (f b).run s := by
  rw [h]
  rfl

theorem run_bind_eq_ok {x : EStateM ε σ β} {f : β → EStateM ε σ α} {a : α} {s s'' : σ}
    (h : (x >>= f).run s = .ok a s'') : ∃ b s', x.run s = .ok b s' ∧ (f b).run s' = .ok a s'' := by
  rw [EStateM.run_bind] at h
  cases hx : x.run s with
  | ok b s' => exact ⟨b, s', rfl, by rwa [hx] at h⟩
  | error e s' =>
    rw [hx] at h
    cases h

theorem run_throwIf_eq_ok {condition : Prop} [Decidable condition] {e : ε} {s s' : σ}
    (h : (throwIf condition e).run s = .ok () s') : ¬ condition ∧ s' = s := by
  by_cases hCondition : condition
  · rw [throwIf, if_pos hCondition] at h
    cases h
  · rw [throwIf, if_neg hCondition] at h
    cases h
    exact ⟨hCondition, rfl⟩

theorem run_fromExcept_eq_ok {x : Except ε α} {a : α} {s s' : σ}
    (h : (fromExcept x).run s = .ok a s') : x = .ok a ∧ s' = s := by
  cases x with
  | ok b =>
    cases h
    exact ⟨rfl, rfl⟩
  | error e => cases h

theorem run_zoom_eq_ok {view : σ → τ} {update : σ → τ → σ} {x : EStateM ε τ α} {a : α} {s s' : σ}
    (h : (zoom view update x).run s = .ok a s') :
    ∃ t, x.run (view s) = .ok a t ∧ s' = update s t := by
  change zoom view update x s = _ at h
  unfold zoom at h
  cases hx : x.run (view s) with
  | ok b t =>
    rw [hx] at h
    cases h
    exact ⟨t, rfl, rfl⟩
  | error e t =>
    rw [hx] at h
    cases h

theorem Returns.of_run {x : EStateM ε σ α} {a : α} {s' : σ} (h : x.run s = .ok a s')
    (hPost : post a s') : Returns x s post := returns_iff.mpr ⟨a, s', h, hPost⟩

theorem Returns.mono {x : EStateM ε σ α} (h : Returns x s post)
    (hPost : ∀ a s', post a s' → post' a s') : Returns x s post' :=
  wp_mono h hPost fun _ _ => id

theorem Returns.pure {a : α} (h : post a s) : Returns (pure a : EStateM ε σ α) s post := h

theorem Returns.bind {x : EStateM ε σ β} {f : β → EStateM ε σ α} {mid : β → σ → Prop}
    (h : Returns x s mid) (hf : ∀ b s', mid b s' → Returns (f b) s' post) :
    Returns (x >>= f) s post := by
  unfold Returns
  rw [wp_bind]
  exact h.mono hf

theorem Returns.throwIf {condition : Prop} [Decidable condition] {e : ε} {post : Unit → σ → Prop}
    (h : ¬ condition) (hPost : post () s) : Returns (throwIf condition e) s post :=
  (wp_throwIf condition e).mpr ⟨fun h' => h h', fun _ => hPost⟩

theorem Returns.zoom {view : σ → τ} {update : σ → τ → σ} {x : EStateM ε τ α}
    (h : Returns x (view s) fun a t => post a (update s t)) : Returns (zoom view update x) s post :=
  (wp_zoom view update x).mpr h

theorem Returns.fromExcept {x : Except ε α} {a : α} (h : x = .ok a) (hPost : post a s) :
    Returns (fromExcept x) s post := by
  subst h
  exact hPost

theorem Returns.ok_bind {x : Except ε β} {b : β} {f : β → EStateM ε σ α} (h : x = .ok b)
    (hf : Returns (f b) s post) : Returns (Program.fromExcept x >>= f) s post := by
  subst h
  exact hf

theorem Returns.check_bind {condition : Prop} [Decidable condition] {e : ε}
    {f : Unit → EStateM ε σ α} (h : ¬ condition) (hf : Returns (f ()) s post) :
    Returns (Program.throwIf condition e >>= f) s post := by
  rw [Program.throwIf, if_neg h]
  exact hf

theorem Returns.get_bind {f : σ → EStateM ε σ α} (hf : Returns (f s) s post) :
    Returns (get >>= f) s post := hf

theorem Returns.modify_bind {g : σ → σ} {f : PUnit → EStateM ε σ α}
    (hf : Returns (f ⟨⟩) (g s) post) :
    Returns (modify g >>= f) s post := hf

theorem Returns.modify {g : σ → σ} {post : PUnit → σ → Prop} (hPost : post ⟨⟩ (g s)) :
    Returns (modify g : EStateM ε σ PUnit) s post := hPost

theorem Returns.set_bind {s' : σ} {f : PUnit → EStateM ε σ α} (hf : Returns (f ⟨⟩) s' post) :
    Returns (set s' >>= f) s post := hf

theorem Returns.set {s' : σ} {post : PUnit → σ → Prop} (hPost : post ⟨⟩ s') :
    Returns (set s' : EStateM ε σ PUnit) s post := hPost

theorem Returns.zoom_bind {view : σ → τ} {update : σ → τ → σ} {x : EStateM ε τ β}
    {f : β → EStateM ε σ α} {mid : β → τ → Prop} (h : Returns x (view s) mid)
    (hf : ∀ b t, mid b t → Returns (f b) (update s t) post) :
    Returns (Program.zoom view update x >>= f) s post :=
  Returns.bind (Returns.zoom (h.mono fun b t hMid => hf b t hMid)) fun _ _ => id

end Total

section Partial

variable {s : σ} {post post' : α → σ → Prop} {condition : Prop}

theorem ReturnsIf.post_of_run {x : EStateM ε σ α}
    (h : ReturnsIf condition x s post) {a : α} {s' : σ}
    (hRun : x.run s = .ok a s') : post a s' := by
  unfold ReturnsIf wp at h
  rwa [hRun] at h

theorem ReturnsIf.returns {x : EStateM ε σ α} (h : ReturnsIf condition x s post)
    (hCondition : condition) :
    Returns x s post :=
  wp_mono h (fun _ _ => id) fun _ _ hNot => hNot hCondition

theorem Returns.returnsIf {x : EStateM ε σ α} (h : Returns x s post) :
    ReturnsIf condition x s post :=
  wp_mono h (fun _ _ => id) fun _ _ => False.elim

theorem ReturnsIf.mono {x : EStateM ε σ α} (h : ReturnsIf condition x s post)
    (hPost : ∀ a s', post a s' → post' a s') : ReturnsIf condition x s post' :=
  wp_mono h hPost fun _ _ => id

theorem ReturnsIf.weaken {x : EStateM ε σ α} {condition' : Prop} (h : ReturnsIf condition x s post)
    (hCondition : condition' → condition) : ReturnsIf condition' x s post :=
  wp_mono h (fun _ _ => id) fun _ _ hNot hCondition' => hNot (hCondition hCondition')

theorem ReturnsIf.pure {a : α} (h : post a s) :
    ReturnsIf condition (pure a : EStateM ε σ α) s post := h

theorem ReturnsIf.bind {x : EStateM ε σ β} {f : β → EStateM ε σ α} {mid : β → σ → Prop}
    (h : ReturnsIf condition x s mid) (hf : ∀ b s', mid b s' → ReturnsIf condition (f b) s' post) :
    ReturnsIf condition (x >>= f) s post := by
  unfold ReturnsIf
  rw [wp_bind]
  exact h.mono hf

theorem ReturnsIf.check_bind {refused : Prop} [Decidable refused] {e : ε} {f : Unit → EStateM ε σ α}
    (hRefused : refused → ¬ condition) (hf : ¬ refused → ReturnsIf condition (f ()) s post) :
    ReturnsIf condition (throwIf refused e >>= f) s post :=
  (wp_bind _ _).mpr ((wp_throwIf refused e).mpr ⟨hRefused, hf⟩)

theorem ReturnsIf.fromExcept_bind {x : Except ε β} {f : β → EStateM ε σ α}
    (hError : ∀ e, x = .error e → ¬ condition)
    (hf : ∀ b, x = .ok b → ReturnsIf condition (f b) s post) :
    ReturnsIf condition (fromExcept x >>= f) s post := by
  cases x with
  | ok b => exact hf b rfl
  | error e => exact hError e rfl

theorem ReturnsIf.get_bind {f : σ → EStateM ε σ α} (hf : ReturnsIf condition (f s) s post) :
    ReturnsIf condition (get >>= f) s post := hf

theorem ReturnsIf.modify_bind {g : σ → σ} {f : PUnit → EStateM ε σ α}
    (hf : ReturnsIf condition (f ⟨⟩) (g s) post) : ReturnsIf condition (modify g >>= f) s post := hf

theorem ReturnsIf.modify {g : σ → σ} {post : PUnit → σ → Prop} (hPost : post ⟨⟩ (g s)) :
    ReturnsIf condition (modify g : EStateM ε σ PUnit) s post := hPost

theorem ReturnsIf.set_bind {s' : σ} {f : PUnit → EStateM ε σ α}
    (hf : ReturnsIf condition (f ⟨⟩) s' post) :
    ReturnsIf condition (set s' >>= f) s post := hf

theorem ReturnsIf.zoom_bind {view : σ → τ} {update : σ → τ → σ} {x : EStateM ε τ β}
    {f : β → EStateM ε σ α} {mid : β → τ → Prop} (h : ReturnsIf condition x (view s) mid)
    (hf : ∀ b t, mid b t → ReturnsIf condition (f b) (update s t) post) :
    ReturnsIf condition (zoom view update x >>= f) s post :=
  (wp_bind _ _).mpr ((wp_zoom view update x).mpr (h.mono hf))

end Partial

section Loops

variable {s : σ}

/-- Loop rule for a counter: the invariant speaks about the rounds that are over. -/
theorem Returns.forM_range {n : Nat} {body : Nat → EStateM ε σ PUnit}
    (inv : Nat → σ → Prop) (h : inv 0 s)
    (step : ∀ i < n, ∀ s, inv i s → Returns (body i) s fun _ s' => inv (i + 1) s') :
    Returns (forM (List.range n) body) s fun _ s' => inv n s' := by
  induction n with
  | zero => exact h
  | succ n ih =>
    rw [List.range_succ, List.forM_append]
    refine (ih fun i hi => step i (by omega)).bind fun _ s' h' => ?_
    change Returns (body n >>= Pure.pure) s' _
    rw [bind_pure]
    exact step n (Nat.lt_succ_self n) s' h'

/-- Loop rule: the invariant speaks about the items still to be visited. -/
theorem Returns.forM {items : List β} {body : β → EStateM ε σ PUnit}
    (inv : List β → σ → Prop) (h : inv items s)
    (step : ∀ item rest s, inv (item :: rest) s →
      Returns (body item) s fun _ s' => inv rest s') :
    Returns (forM items body) s fun _ s' => inv [] s' := by
  induction items generalizing s with
  | nil => exact h
  | cons item rest ih =>
    rw [List.forM_cons]
    exact (step item rest s h).bind fun _ s' h' => ih h'

theorem Returns.foldlM {items : List β} {body : γ → β → EStateM ε σ γ} {acc : γ}
    (inv : γ → List β → σ → Prop) (h : inv acc items s)
    (step : ∀ acc item rest s, inv acc (item :: rest) s →
      Returns (body acc item) s fun acc' s' => inv acc' rest s') :
    Returns (items.foldlM body acc) s fun acc' s' => inv acc' [] s' := by
  induction items generalizing s acc with
  | nil => exact h
  | cons item rest ih =>
    rw [List.foldlM_cons]
    exact (step acc item rest s h).bind fun acc' s' h' => ih h'

theorem Returns.mapM {items : List β} {f : β → EStateM ε σ α} (inv : σ → Prop)
    (related : α → β → Prop) (h : inv s)
    (step : ∀ item ∈ items, ∀ s, inv s → Returns (f item) s fun a s' => related a item ∧ inv s') :
    Returns (items.mapM f) s fun results s' => List.Forall₂ related results items ∧ inv s' :=
  wp.mapM inv related h step

theorem mapM_eq_ok {items : List β} {results : List α} {f : β → Except ε α}
    (h : List.Forall₂ (fun item a => f item = .ok a) items results) :
    items.mapM f = .ok results := by
  induction h with
  | nil => rfl
  | cons hHead _ ih =>
    rw [List.mapM_cons, hHead, ih]
    rfl

theorem exists_mapM_eq_ok {items : List β} {f : β → Except ε α}
    (h : ∀ item ∈ items, ∃ a, f item = .ok a) :
    ∃ results, items.mapM f = .ok results := by
  induction items with
  | nil => exact ⟨[], rfl⟩
  | cons item items ih =>
    obtain ⟨a, hHead⟩ := h item List.mem_cons_self
    obtain ⟨results, hTail⟩ := ih fun other hOther => h other (List.mem_cons_of_mem _ hOther)
    refine ⟨a :: results, ?_⟩
    rw [List.mapM_cons, hHead, hTail]
    rfl

theorem forall₂_of_mapM {items : List β} {results : List α} {f : β → Except ε α}
    (h : items.mapM f = .ok results) :
    List.Forall₂ (fun item a => f item = .ok a) items results := by
  induction items generalizing results with
  | nil =>
    cases h
    exact .nil
  | cons item items ih =>
    rw [List.mapM_cons] at h
    cases hHead : f item with
    | error e =>
      rw [hHead] at h
      cases h
    | ok a =>
      rw [hHead, ok_bind] at h
      cases hTail : items.mapM f with
      | error e =>
        rw [hTail] at h
        cases h
      | ok rest =>
        rw [hTail] at h
        cases h
        exact .cons hHead (ih hTail)

end Loops

attribute [irreducible] wp

end OramHub.Program

import OramHub.Lib.Program

/-! # What a program preserves

`Preserves inv x returned`: from a state with the invariant, `x` ends in a state with the invariant
whether it returns or throws, and what it returns satisfies `returned`.
-/
namespace OramHub.Program
set_option autoImplicit false

variable {ε σ τ α β γ : Type}

def Preserves (inv : σ → Prop) (x : EStateM ε σ α) (returned : α → Prop) : Prop :=
  ∀ s, inv s → wp x s (fun a s' => returned a ∧ inv s') fun _ s' => inv s'

namespace Preserves

variable {inv : σ → Prop} {returned : α → Prop} {returned' : β → Prop}

theorem mono {x : EStateM ε σ α} {weaker : α → Prop} (h : Preserves inv x returned)
    (hWeaker : ∀ a, returned a → weaker a) :
    Preserves inv x weaker :=
  fun s hInv => wp_mono (h s hInv) (fun a _ hReturned => ⟨hWeaker a hReturned.1, hReturned.2⟩)
    fun _ _ => id

theorem of_run {x : EStateM ε σ α} (h : Preserves inv x returned) {s s' : σ} (hInv : inv s)
    (hRun : (∃ a, x.run s = .ok a s') ∨ ∃ e, x.run s = .error e s') : inv s' := by
  obtain ⟨hReturned, hThrew⟩ := wp_iff.mp (h s hInv)
  obtain ⟨a, hRun⟩ | ⟨e, hRun⟩ := hRun
  · exact (hReturned a s' hRun).2
  · exact hThrew e s' hRun

theorem pure {a : α} (h : returned a) : Preserves inv (Pure.pure a : EStateM ε σ α) returned :=
  fun _ hInv => wp.pure ⟨h, hInv⟩

theorem throw (e : ε) : Preserves inv (MonadExcept.throw e : EStateM ε σ α) returned :=
  fun s hInv => (wp_throw e (s := s)).mpr hInv

theorem bind {x : EStateM ε σ α} {f : α → EStateM ε σ β} (h : Preserves inv x returned)
    (hNext : ∀ a, returned a → Preserves inv (f a) returned') : Preserves inv (x >>= f) returned' :=
  fun s hInv => wp.bind (h s hInv) fun a s' hReturned => hNext a hReturned.1 s' hReturned.2

theorem map {x : EStateM ε σ α} (h : Preserves inv x returned) (f : α → β)
    (hMap : ∀ a, returned a → returned' (f a)) :
    Preserves inv (x >>= fun a => Pure.pure (f a)) returned' :=
  h.bind fun a hReturned => pure (hMap a hReturned)

theorem check {refused : Prop} [Decidable refused] (e : ε) :
    Preserves inv (throwIf refused e : EStateM ε σ Unit) fun _ => ¬ refused :=
  fun _ hInv => (wp_throwIf refused e).mpr ⟨fun _ => hInv, fun hPassed => ⟨hPassed, hInv⟩⟩

theorem fromExcept (x : Except ε α) :
    Preserves inv (Program.fromExcept x : EStateM ε σ α) fun a => x = .ok a := by
  intro s hInv
  cases x with
  | ok a => exact wp.pure ⟨rfl, hInv⟩
  | error e => exact (wp_throw e (s := s)).mpr hInv

theorem get_bind {f : σ → EStateM ε σ α} (h : ∀ s, Preserves inv (f s) returned) :
    Preserves inv (get >>= f) returned :=
  fun s hInv => wp.get_bind (h s s hInv)

theorem modify_bind {g : σ → σ} {f : PUnit → EStateM ε σ α} (h : ∀ s, inv s → inv (g s))
    (hNext : Preserves inv (f ⟨⟩) returned) : Preserves inv (modify g >>= f) returned :=
  fun s hInv => wp.modify_bind (hNext _ (h s hInv))

theorem modify {g : σ → σ} (h : ∀ s, inv s → inv (g s)) :
    Preserves inv (modify g : EStateM ε σ PUnit) fun _ => True :=
  fun s hInv => (wp_modify g (s := s)).mpr ⟨trivial, h s hInv⟩

theorem zoom {view : σ → τ} {update : σ → τ → σ} {x : EStateM ε τ α}
    (hBlind : ∀ s t, inv s → inv (update s t))
    (h : ∀ t, wp x t (fun a _ => returned a) fun _ _ => True) :
    Preserves inv (Program.zoom view update x) returned := by
  intro s hInv
  rw [wp_zoom]
  exact wp_mono (h (view s)) (fun a t hReturned => ⟨hReturned, hBlind s t hInv⟩) fun _ t _ =>
    hBlind s t hInv

theorem zoom' {view : σ → τ} {update : σ → τ → σ} (x : EStateM ε τ α)
    (hBlind : ∀ s t, inv s → inv (update s t)) :
    Preserves inv (Program.zoom view update x) fun _ => True :=
  zoom hBlind fun t => wp_trivial x t

/-- An invariant of the part that the program works on. -/
theorem zoom_view {view : σ → τ} {update : σ → τ → σ} {x : EStateM ε τ α} {inv : τ → Prop}
    (hUpdate : ∀ s t, view (update s t) = t) (h : Preserves inv x returned) :
    Preserves (fun s => inv (view s)) (Program.zoom view update x) returned := by
  intro s hInv
  simp only [wp_zoom, hUpdate]
  exact h (view s) hInv

theorem forM {items : List β} {body : β → EStateM ε σ PUnit}
    (h : ∀ item ∈ items, Preserves inv (body item) fun _ => True) :
    Preserves inv (forM items body) fun _ => True := by
  induction items with
  | nil => exact pure trivial
  | cons item items ih =>
    rw [List.forM_cons]
    exact (h item List.mem_cons_self).bind fun _ _ => ih fun other hOther =>
      h other (List.mem_cons_of_mem _ hOther)

/-- `reached` speaks about the accumulator and the items still to come. -/
theorem foldlM {items : List β} {body : γ → β → EStateM ε σ γ} {acc : γ}
    (reached : γ → List β → Prop) (hStart : reached acc items)
    (h : ∀ acc item rest, reached acc (item :: rest) →
      Preserves inv (body acc item) fun acc' => reached acc' rest) :
    Preserves inv (items.foldlM body acc) fun acc' => reached acc' [] := by
  induction items generalizing acc with
  | nil => exact pure hStart
  | cons item items ih =>
    rw [List.foldlM_cons]
    exact (h acc item items hStart).bind fun acc' hReached => ih hReached

theorem mapM {items : List β} {f : β → EStateM ε σ α} {related : α → β → Prop}
    (h : ∀ item ∈ items, Preserves inv (f item) fun a => related a item) :
    Preserves inv (items.mapM f) fun results => List.Forall₂ related results items :=
  fun _ hInv => wp.mapM inv related hInv fun item hItem s' hInv' => h item hItem s' hInv'

end Preserves
end OramHub.Program

import Mathlib.Tactic.Common

/-! # Runs whose order does not matter

Where two different steps from a state can always be joined by one step each, every run from a state
can be completed to the same end in the same number of steps, if one run can.
-/
namespace OramHub.Confluence
set_option autoImplicit false

variable {α : Type} {R : α → α → Prop} {a b c : α}

/-- `count` steps one after another. -/
inductive Run (R : α → α → Prop) : Nat → α → α → Prop
  | nil {a : α} : Run R 0 a a
  | cons {count : Nat} {a b c : α} : R a b → Run R count b c → Run R (count + 1) a c

def Diamond (R : α → α → Prop) : Prop := ∀ a b c, R a b → R a c → b = c ∨ ∃ d, R b d ∧ R c d

namespace Run

theorem single (h : R a b) : Run R 1 a b := cons h nil

theorem append {count count' : Nat} (h : Run R count a b) (hNext : Run R count' b c) :
    Run R (count + count') a c := by
  induction h with
  | nil => rwa [Nat.zero_add]
  | cons hStep _ ih =>
    rw [Nat.add_right_comm]
    exact cons hStep (ih hNext)

end Run

/-- What can be reached in any number of steps. -/
def Reaches (R : α → α → Prop) (a b : α) : Prop := ∃ count, Run R count a b

namespace Reaches

theorem refl (a : α) : Reaches R a a := ⟨0, Run.nil⟩

theorem single (h : R a b) : Reaches R a b := ⟨1, Run.single h⟩

theorem trans (h : Reaches R a b) (hNext : Reaches R b c) : Reaches R a c := by
  obtain ⟨count, hRun⟩ := h
  obtain ⟨count', hRun'⟩ := hNext
  exact ⟨count + count', hRun.append hRun'⟩

theorem head (h : R a b) (hNext : Reaches R b c) : Reaches R a c := (single h).trans hNext

end Reaches

/-- The induction is on the length of the run that is known to end: a first step of the other run
that is not its own first step is joined with it, and what is left of both runs is shorter. -/
theorem Diamond.complete (h : Diamond R) {total count : Nat} {last : α} (hRun : Run R total a last)
    (hLast : ∀ b, ¬ R last b)
    (hOther : Run R count a b) : ∃ missing, count + missing = total ∧ Run R missing b last := by
  induction total generalizing a b count with
  | zero =>
    cases hRun
    cases hOther with
    | nil => exact ⟨0, rfl, Run.nil⟩
    | cons hStep _ => exact absurd hStep (hLast _)
  | succ total ih =>
    cases hOther with
    | nil => exact ⟨total + 1, Nat.zero_add _, hRun⟩
    | @cons count _ second _ hStep hRest =>
      cases hRun with
      | @cons _ _ first _ hFirst hTail =>
        obtain ⟨missing, hCount, hMissing⟩ :
            ∃ missing, count + missing = total ∧ Run R missing b last := by
          obtain rfl | ⟨joined, hJoined, hJoined'⟩ := h a first second hFirst hStep
          · exact ih hTail hRest
          · obtain ⟨left, hLeft, hEnd⟩ := ih hTail (Run.single hJoined)
            have hSecond : Run R total second last := by
              rw [← hLeft, Nat.add_comm]
              exact Run.cons hJoined' hEnd
            exact ih hSecond hRest
        exact ⟨missing, by omega, hMissing⟩

end OramHub.Confluence

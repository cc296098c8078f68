import OramHub.RingOram.History

/-! # How fast the stash can grow

A bucket that is emptied into the stash and filled from it again takes at least as many blocks as it
gave. So maintenance never adds to the stash, and the stash of a run is bounded by the number of its
accesses.
-/
namespace OramHub.RingOram
open OramHub.Core OramHub.Program
set_option autoImplicit false

variable {env : Env} {w : World}

/-- The state that a call leaves behind, whether it returns or throws. -/
def World.after (env : Env) (w : World) (action : Action) : World :=
  match (perform env action).run w with
  | .ok _ w' => w'
  | .error _ w' => w'

theorem after_of_invalid {action : Action} (hInvalid : ¬ action.Valid env.cfg)
    (w : World) : w.after env action = w := by
  obtain ⟨hReturned, hThrew⟩ := wp_iff.mp (perform_invalid hInvalid w)
  rw [World.after]
  cases hRun : (perform env action).run w with
  | ok result w' => exact (hReturned _ _ hRun).elim
  | error e w' => exact hThrew _ _ hRun

/-- What one call can do to the stash. -/
theorem Reachable.after (h : Reachable env w) (action : Action) :
    Reachable env (w.after env action) ∧
    (w.after env action).stash.stash.length ≤ w.stash.stash.length + action.accesses := by
  by_cases hValid : action.Valid env.cfg
  case pos =>
    obtain ⟨hAccepted, v, memory, hConsistent⟩ := h.consistent
    obtain ⟨result, w', hRun, _, v', hNext, hLength⟩ :=
      returns_iff.mp (perform_spec hAccepted hConsistent hValid)
    have hAfter : w.after env action = w' := by
      rw [World.after, hRun]
    rw [← hNext.stored.stash, ← hConsistent.stored.stash] at hLength
    rw [hAfter]
    exact ⟨.step h hValid hRun, hLength⟩
  case neg =>
    rw [after_of_invalid hValid]
    exact ⟨h, Nat.le_add_right _ _⟩

theorem Reachable.afterAll (h : Reachable env w) (actions : List Action) :
    (actions.foldl (World.after env) w).stash.stash.length ≤
      w.stash.stash.length + (actions.map Action.accesses).sum := by
  induction actions generalizing w with
  | nil => exact le_rfl
  | cons action actions ih =>
    obtain ⟨hNext, hLength⟩ := h.after action
    have hRest := ih hNext
    rw [List.foldl_cons, List.map_cons, List.sum_cons]
    omega

/-- Maintenance never makes the stash larger and an access adds at most one block to it, so a run
adds at most as many blocks as it has accesses. -/
theorem stash_growth :
    (∀ w, Reachable env w →
      (w.after env .evictPath).stash.stash.length ≤ w.stash.stash.length ∧
      (∀ leaf, (w.after env (.earlyReshuffle leaf)).stash.stash.length ≤ w.stash.stash.length) ∧
      ∀ op addr data, (w.after env (.access op addr data)).stash.stash.length ≤
        w.stash.stash.length + 1) ∧
    ∀ stashFile bucketFiles w, (construct env).run (World.start stashFile bucketFiles) = .ok () w →
      ∀ actions : List Action, (actions.foldl (World.after env) w).stash.stash.length ≤
        w.stash.stash.length + (actions.map Action.accesses).sum := by
  constructor
  · intro w h
    exact ⟨(h.after .evictPath).2, fun leaf => (h.after (.earlyReshuffle leaf)).2,
      fun op addr data => (h.after (.access op addr data)).2⟩
  · intro stashFile bucketFiles w hConstruct actions
    exact (Reachable.start hConstruct).afterAll actions

theorem stash_growth_small :
    ∃ w, (construct .small).run (World.start none fun _ => none) = .ok () w ∧
    (w.after .small .evictPath).stash.stash.length ≤ w.stash.stash.length ∧
    ([.access .write 1 [7], .evictPath, .access .read 5 [], .earlyReshuffle 1,
      .access .read 0 []].foldl
      (World.after .small) w).stash.stash.length ≤ w.stash.stash.length + 3 := by
  obtain ⟨_, w, hConstruct, _⟩ := returns_iff.mp (construct_spec accepted_small none fun _ => none)
  exact ⟨w, hConstruct, ((@stash_growth .small).1 w (.start hConstruct)).1,
    (@stash_growth .small).2 _ _ w hConstruct _⟩

end OramHub.RingOram

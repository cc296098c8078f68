import OramHub.Lib.Streams

/-! # Programs between two streams

A server takes requests off one stream and puts its answers on another. `link` makes the state of
the program out of the server's own state, the stream that is still to be read and the stream that
has been sent.
-/
namespace OramHub.Streams
open OramHub.Program
set_option autoImplicit false

variable {ε σ τ κ α β : Type}

/-- `view` and `update` select the stream that is still to be read. -/
structure Incoming (link : σ → List τ → List τ → κ) (view : κ → List τ)
    (update : κ → List τ → κ) : Prop where
  view_link : ∀ s stream sent, view (link s stream sent) = stream
  update_link : ∀ s stream sent rest, update (link s stream sent) rest = link s rest sent

/-- `view` and `update` select the server's own state. -/
structure Own (link : σ → List τ → List τ → κ) (view : κ → σ) (update : κ → σ → κ) : Prop where
  view_link : ∀ s stream sent, view (link s stream sent) = s
  update_link : ∀ s stream sent s', update (link s stream sent) s' = link s' stream sent

section Outcomes

variable {link : σ → List τ → List τ → κ} {f : α → EStateM ε κ β} {s : σ} {stream sent : List τ}
  {post : β → κ → Prop}
  {raised : ε → κ → Prop}

theorem Incoming.parses_bind {view : κ → List τ} {update : κ → List τ → κ}
    {y : EStateM ε (List τ) α} {encodes : List τ → α → Prop}
    {thrown : ε → Prop} (hIncoming : Incoming link view update) (h : Parses y encodes thrown)
    (hRaised : ∀ e rest, thrown e → raised e (link s rest sent))
    (hNext : ∀ a chunk rest, stream = chunk ++ rest → encodes chunk a →
      wp (f a) (link s rest sent) post raised) :
    wp (zoom view update y >>= f) (link s stream sent) post raised := by
  apply h.zoom_bind
  · intro e rest hThrown
    rw [hIncoming.update_link]
    exact hRaised e rest hThrown
  · intro a chunk rest hStream hChunk
    rw [hIncoming.view_link] at hStream
    rw [hIncoming.update_link]
    exact hNext a chunk rest hStream hChunk

theorem Incoming.takes_bind {view : κ → List τ} {update : κ → List τ → κ} {y : EStateM ε (List τ) α}
    {chunk rest : List τ} {a : α}
    (hIncoming : Incoming link view update) (h : Takes y chunk a)
    (hNext : wp (f a) (link s rest sent) post raised) :
    wp (zoom view update y >>= f) (link s (chunk ++ rest) sent) post raised := by
  apply h.zoom_bind (hIncoming.view_link s (chunk ++ rest) sent)
  rw [hIncoming.update_link]
  exact hNext

theorem Own.bind {view : κ → σ} {update : κ → σ → κ} {y : EStateM ε σ α} {mid : α → σ → Prop}
    {failed : ε → σ → Prop} (hOwn : Own link view update) (h : wp y s mid failed)
    (hRaised : ∀ e s', failed e s' → raised e (link s' stream sent))
    (hNext : ∀ a s', mid a s' → wp (f a) (link s' stream sent) post raised) :
    wp (zoom view update y >>= f) (link s stream sent) post raised := by
  rw [← hOwn.view_link s stream sent] at h
  apply wp.zoom_bind h
  · intro e s' hFailed
    rw [hOwn.update_link]
    exact hRaised e s' hFailed
  · intro a s' hMid
    rw [hOwn.update_link]
    exact hNext a s' hMid

/-- A step that leaves the server's state as it is. -/
theorem Own.same_bind {view : κ → σ} {update : κ → σ → κ} {y : EStateM ε σ α}
    (hOwn : Own link view update)
    (h : Returns y s fun _ s' => s' = s) (hNext : ∀ a, wp (f a) (link s stream sent) post raised) :
    wp (zoom view update y >>= f) (link s stream sent) post raised := by
  apply hOwn.bind h.outcome (fun _ _ => False.elim)
  rintro a _ rfl
  exact hNext a

end Outcomes

/-- The program takes `chunk` off the stream, whatever follows it, answers `reply` and returns `a`.
-/
def Serves (link : σ → List τ → List τ → κ) (x : EStateM ε κ α) (s : σ) (chunk reply : List τ)
    (a : α) (s' : σ) : Prop :=
  ∀ later sent, x.run (link s (chunk ++ later) sent) = .ok a (link s' later (sent ++ reply))

namespace Serves

variable {link : σ → List τ → List τ → κ} {x : EStateM ε κ α} {f : α → EStateM ε κ β} {s s' s'' : σ}
  {chunk chunk' reply reply' : List τ} {a : α} {b : β}

theorem iff_returns : Serves link x s chunk reply a s' ↔ ∀ later sent,
    Returns x (link s (chunk ++ later) sent) fun result k => result = a ∧
    k = link s' later (sent ++ reply) := by
  constructor
  · intro h later sent
    exact Returns.of_run (h later sent) ⟨rfl, rfl⟩
  · intro h later sent
    obtain ⟨_, _, hRun, rfl, rfl⟩ := returns_iff.mp (h later sent)
    exact hRun

theorem bind (h : Serves link x s chunk reply a s')
    (hNext : Serves link (f a) s' chunk' reply' b s'') :
    Serves link (x >>= f) s (chunk ++ chunk') (reply ++ reply') b s'' := by
  rw [iff_returns] at h hNext ⊢
  intro later sent
  rw [List.append_assoc, ← List.append_assoc sent]
  apply (h (chunk' ++ later) sent).bind
  rintro _ _ ⟨rfl, rfl⟩
  exact hNext later (sent ++ reply)

theorem pure (link : σ → List τ → List τ → κ) (a : α) (s : σ) :
    Serves link (Pure.pure a : EStateM ε κ α) s [] [] a s := by
  intro later sent
  rw [List.append_nil, List.nil_append]
  rfl

theorem check_bind {refused : Prop} [Decidable refused] {e : ε}
    {f : Unit → EStateM ε κ β} (h : ¬ refused) (hNext : Serves link (f ()) s chunk reply b s') :
    Serves link (throwIf refused e >>= f) s chunk reply b s' :=
  iff_returns.mpr fun later sent => Returns.check_bind h (iff_returns.mp hNext later sent)

theorem fromExcept_bind {y : Except ε α} (h : y = .ok a)
    (hNext : Serves link (f a) s chunk reply b s') :
    Serves link (fromExcept y >>= f) s chunk reply b s' :=
  iff_returns.mpr fun later sent => Returns.ok_bind h (iff_returns.mp hNext later sent)

theorem of_takes {view : κ → List τ} {update : κ → List τ → κ} {y : EStateM ε (List τ) α}
    (hIncoming : Incoming link view update) (h : Takes y chunk a) :
    Serves link (zoom view update y) s chunk [] a s := by
  refine iff_returns.mpr fun later sent => Returns.zoom ?_
  rw [hIncoming.view_link, List.append_nil]
  apply (Takes.iff_returns.mp h later).mono
  rintro _ _ ⟨rfl, rfl⟩
  exact ⟨rfl, hIncoming.update_link _ _ _ _⟩

theorem of_run {view : κ → σ} {update : κ → σ → κ} {y : EStateM ε σ α} (hOwn : Own link view update)
    (h : y.run s = .ok a s') :
    Serves link (zoom view update y) s [] [] a s' := by
  refine iff_returns.mpr fun later sent => Returns.zoom ?_
  rw [hOwn.view_link, List.append_nil]
  exact Returns.of_run h ⟨rfl, hOwn.update_link _ _ _ _⟩

theorem loop {items : List α} {body : α → EStateM ε κ PUnit} {replyOf : α → List τ}
    (h : ∀ item ∈ items, Serves link (body item) s [] (replyOf item) PUnit.unit s) :
    Serves link (forM items body) s [] (items.flatMap replyOf) PUnit.unit s := by
  induction items with
  | nil => exact pure link PUnit.unit s
  | cons item items ih =>
    rw [List.forM_cons]
    exact (h item List.mem_cons_self).bind (ih fun other hOther =>
      h other (List.mem_cons_of_mem _ hOther))

/-- A loop that takes a chunk off the stream in each round, where `rounds` gets the item itself. -/
theorem forM_range {items : List α} {chunkOf : α → List τ} {rounds : Nat → EStateM ε σ PUnit}
    {body : Nat → EStateM ε κ PUnit}
    (h : ∀ i item s s', items[i]? = some item → (rounds i).run s = .ok PUnit.unit s' →
      Serves link (body i) s (chunkOf item) [] PUnit.unit s')
    {count : Nat} (hCount : count ≤ items.length)
    (hRun : (forM (List.range count) rounds).run s = .ok PUnit.unit s') :
    Serves link (forM (List.range count) body) s ((items.take count).flatMap chunkOf)
      [] PUnit.unit s' := by
  induction count generalizing s' with
  | zero =>
    cases hRun
    exact pure link PUnit.unit s
  | succ count ih =>
    rw [List.range_succ, List.forM_append] at hRun ⊢
    obtain ⟨_, s'', hFirst, hLast⟩ := run_bind_eq_ok hRun
    have hGet : items[count]? = some items[count] := List.getElem?_eq_getElem hCount
    rw [List.take_add_one, hGet, List.flatMap_append]
    obtain ⟨_, _, hOne, hNil⟩ := run_bind_eq_ok hLast
    cases hNil
    apply (ih (Nat.le_of_succ_le hCount) hFirst).bind
    exact (h count items[count] s'' _ hGet hOne).bind (pure link PUnit.unit _)

end Serves
end OramHub.Streams

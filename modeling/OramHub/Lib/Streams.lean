import OramHub.Lib.Program

/-! # Programs that take items off a stream

`Takes x chunk a`: wherever `chunk` stands at the front, `x` takes exactly `chunk` and returns `a`.
-/
namespace OramHub.Streams
open OramHub.Program
set_option autoImplicit false

variable {ε τ α β : Type}

/-- The next `size` items, or `short` if there are not as many. -/
def take (short : ε) (size : Nat) : EStateM ε (List τ) (List τ) := do
  let stream ← get
  throwIf (stream.length < size) short
  set (stream.drop size)
  return stream.take size

theorem take_zero (short : ε) : take short 0 = (pure [] : EStateM ε (List τ) (List τ)) := by
  funext stream
  simp [take, throwIf]

/-- `count` results in sequence. -/
def many (item : EStateM ε (List τ) α) : Nat → EStateM ε (List τ) (List α)
  | 0 => return []
  | count + 1 => do
    let head ← item
    let tail ← many item count
    return head :: tail

def Takes (x : EStateM ε (List τ) α) (chunk : List τ) (a : α) : Prop :=
  ∀ rest, x.run (chunk ++ rest) = .ok a rest

namespace Takes

variable {chunk chunk' : List τ} {a : α} {b : β}

theorem iff_returns {x : EStateM ε (List τ) α} :
    Takes x chunk a ↔ ∀ rest, Returns x (chunk ++ rest) fun result rest' =>
      result = a ∧ rest' = rest := by
  constructor
  · intro h rest
    exact Returns.of_run (h rest) ⟨rfl, rfl⟩
  · intro h rest
    obtain ⟨_, _, hRun, rfl, rfl⟩ := returns_iff.mp (h rest)
    exact hRun

theorem pure (a : α) : Takes (Pure.pure a : EStateM ε (List τ) α) [] a := fun _ => rfl

theorem bind {x : EStateM ε (List τ) α} {f : α → EStateM ε (List τ) β} (h : Takes x chunk a)
    (hNext : Takes (f a) chunk' b) :
    Takes (x >>= f) (chunk ++ chunk') b := by
  rw [iff_returns] at h hNext ⊢
  intro rest
  rw [List.append_assoc]
  refine (h (chunk' ++ rest)).bind ?_
  rintro _ _ ⟨rfl, rfl⟩
  exact hNext rest

theorem map {x : EStateM ε (List τ) α} (h : Takes x chunk a) (f : α → β) :
    Takes (x >>= fun a => Pure.pure (f a)) chunk (f a) := by
  rw [← List.append_nil chunk]
  exact h.bind (pure (f a))

theorem check_bind {refused : Prop} [Decidable refused] {e : ε}
    {f : Unit → EStateM ε (List τ) β} (h : ¬ refused)
    (hNext : Takes (f ()) chunk b) : Takes (throwIf refused e >>= f) chunk b :=
  iff_returns.mpr fun rest => Returns.check_bind h (iff_returns.mp hNext rest)

theorem fromExcept_bind {x : Except ε α} {f : α → EStateM ε (List τ) β} (h : x = .ok a)
    (hNext : Takes (f a) chunk b) :
    Takes (Program.fromExcept x >>= f) chunk b :=
  iff_returns.mpr fun rest => Returns.ok_bind h (iff_returns.mp hNext rest)

theorem take (short : ε) (chunk : List τ) :
    Takes (Streams.take short chunk.length) chunk chunk := by
  refine iff_returns.mpr fun rest =>
    Returns.get_bind (Returns.check_bind ?_ (Returns.set_bind (Returns.pure ⟨?_, ?_⟩)))
  · rw [List.length_append]
    exact Nat.not_lt.mpr (Nat.le_add_right _ _)
  · exact List.take_left
  · exact List.drop_left

theorem many {item : EStateM ε (List τ) α} {chunkOf : α → List τ} {items : List α}
    (h : ∀ a ∈ items, Takes item (chunkOf a) a) :
    Takes (Streams.many item items.length) (items.flatMap chunkOf) items := by
  induction items with
  | nil => exact pure []
  | cons head items ih =>
    have hTail := ih fun other hOther => h other (List.mem_cons_of_mem _ hOther)
    exact (h head List.mem_cons_self).bind (hTail.map (List.cons head))

/-- What stands at the front of a stream is unambiguous. -/
theorem unique {x : EStateM ε (List τ) α} {a' : α} {rest rest' : List τ} (h : Takes x chunk a)
    (h' : Takes x chunk' a')
    (hStream : chunk ++ rest = chunk' ++ rest') : a = a' ∧ rest = rest' := by
  have hRun := (h rest).symm.trans (hStream ▸ h' rest')
  cases hRun
  exact ⟨rfl, rfl⟩

/-- A reader on a part of the state, with its chunk at the front. -/
theorem zoom_bind {κ : Type} {x : EStateM ε (List τ) α} {view : κ → List τ}
    {update : κ → List τ → κ} {f : α → EStateM ε κ β} {s : κ}
    {rest : List τ} {post : β → κ → Prop} {raised : ε → κ → Prop} (h : Takes x chunk a)
    (hView : view s = chunk ++ rest)
    (hNext : wp (f a) (update s rest) post raised) :
    wp (Program.zoom view update x >>= f) s post raised := by
  apply (wp_bind _ f).mpr
  apply (wp_zoom view update x).mpr
  rw [hView]
  apply Returns.outcome
  exact Returns.of_run (h rest) hNext

end Takes

/-- What the reader returns is encoded by the chunk that it has taken off the stream, and what it
throws is `thrown`. -/
def Parses (x : EStateM ε (List τ) α) (encodes : List τ → α → Prop) (thrown : ε → Prop) : Prop :=
  ∀ stream, wp x stream (fun a rest => ∃ chunk, stream = chunk ++ rest ∧ encodes chunk a) fun e _ =>
    thrown e

namespace Parses

variable {x : EStateM ε (List τ) α} {encodes encodes' : List τ → α → Prop} {thrown : ε → Prop}

theorem mono (h : Parses x encodes thrown)
    (hEncodes : ∀ chunk a, encodes chunk a → encodes' chunk a) : Parses x encodes' thrown := by
  intro stream
  apply wp_mono (h stream)
  · rintro a rest ⟨chunk, hStream, hChunk⟩
    exact ⟨chunk, hStream, hEncodes chunk a hChunk⟩
  · exact fun _ _ => id

theorem pure (a : α) :
    Parses (Pure.pure a : EStateM ε (List τ) α) (fun chunk b => chunk = [] ∧ b = a) thrown :=
  fun _ => wp.pure ⟨[], rfl, rfl, rfl⟩

theorem bind {f : α → EStateM ε (List τ) β} {encodesNext : α → List τ → β → Prop}
    (h : Parses x encodes thrown)
    (hNext : ∀ a, Parses (f a) (encodesNext a) thrown) :
    Parses (x >>= f) (fun chunk b => ∃ first a second, chunk = first ++ second ∧ encodes first a ∧
      encodesNext a second b) thrown := by
  intro stream
  apply wp.bind (h stream)
  rintro a rest ⟨first, rfl, hFirst⟩
  apply wp_mono (hNext a rest)
  · rintro b rest' ⟨second, rfl, hSecond⟩
    exact ⟨first ++ second, by simp, first, a, second, rfl, hFirst, hSecond⟩
  · exact fun _ _ => id

theorem map (h : Parses x encodes thrown) (f : α → β) :
    Parses (x >>= fun a => Pure.pure (f a)) (fun chunk b => ∃ a, encodes chunk a ∧
      b = f a) thrown := by
  apply (h.bind fun a => pure (f a)).mono
  rintro chunk b ⟨first, a, second, rfl, hFirst, rfl, rfl⟩
  rw [List.append_nil]
  exact ⟨a, hFirst, rfl⟩

theorem check_bind {refused : Prop} [Decidable refused] {e : ε}
    {f : Unit → EStateM ε (List τ) α} (hThrown : thrown e)
    (h : ¬ refused → Parses (f ()) encodes thrown) :
    Parses (throwIf refused e >>= f) encodes thrown :=
  fun stream => wp.check_bind (fun _ => hThrown) fun hAccepted => h hAccepted stream

theorem take {short : ε} (hThrown : thrown short) (size : Nat) :
    Parses (Streams.take short size : EStateM ε (List τ) (List τ)) (fun chunk a => a = chunk ∧
      chunk.length = size) thrown := by
  intro stream
  apply wp.get_bind
  apply wp.check_bind (fun _ => hThrown)
  intro hSize
  apply Returns.outcome
  apply Returns.set_bind
  exact Returns.pure ⟨stream.take size, by simp, rfl,
    List.length_take_of_le (Nat.le_of_not_lt hSize)⟩

theorem many {chunkOf : α → List τ} (h : Parses x (fun chunk a => chunk = chunkOf a) thrown)
    (count : Nat) :
    Parses (Streams.many x count) (fun chunk items => chunk = items.flatMap chunkOf ∧
      items.length = count) thrown := by
  induction count with
  | zero =>
    apply (pure []).mono
    rintro _ _ ⟨rfl, rfl⟩
    simp
  | succ count ih =>
    apply (h.bind fun head => ih.map (List.cons head)).mono
    rintro _ _ ⟨_, head, _, rfl, rfl, items, ⟨rfl, rfl⟩, rfl⟩
    simp

/-- A reader on a part of the state. Where it fails, only that part has changed. -/
theorem zoom_bind {κ : Type} {view : κ → List τ} {update : κ → List τ → κ}
    {f : α → EStateM ε κ β} {s : κ}
    {post : β → κ → Prop} {raised : ε → κ → Prop} (h : Parses x encodes thrown)
    (hRaised : ∀ e rest, thrown e → raised e (update s rest))
    (hNext : ∀ a chunk rest, view s = chunk ++ rest → encodes chunk a →
      wp (f a) (update s rest) post raised) :
    wp (Program.zoom view update x >>= f) s post raised := by
  apply (wp_bind _ f).mpr
  apply (wp_zoom view update x).mpr
  apply wp_mono (h (view s))
  · rintro a rest ⟨chunk, hStream, hChunk⟩
    exact hNext a chunk rest hStream hChunk
  · exact fun e rest => hRaised e rest

end Parses
end OramHub.Streams

import OramHub.Lib.Dialogue

/-! # A program that talks, alone with its streams

`alone` runs such a program on a stream that is there as a whole. It takes a sequence of steps to
the sequence of what they do, so that what each of them takes off the stream and answers adds up.
-/
namespace OramHub.Dialogue
open OramHub.Program
set_option autoImplicit false

variable {ε σ τ α β : Type}

/-- One side of a connection, with what it has not read yet and what it has sent. -/
structure Endpoint (σ τ : Type) where
  state : σ
  incoming : List τ
  outgoing : List τ

namespace TalkM

/-- A result with what is left of the two streams. -/
def settle : EStateM.Result ε σ α × List τ × List τ → EStateM.Result ε (Endpoint σ τ) α
  | (.ok a s, incoming, outgoing) => .ok a ⟨s, incoming, outgoing⟩
  | (.error e s, incoming, outgoing) => .error e ⟨s, incoming, outgoing⟩

/-- The program on a stream that is there as a whole. -/
def alone (x : TalkM ε σ τ α) : EStateM ε (Endpoint σ τ) α := fun endpoint =>
  settle ((x endpoint.state).onStreams endpoint.incoming endpoint.outgoing)

theorem alone_bind (x : TalkM ε σ τ α) (f : α → TalkM ε σ τ β) :
    alone (x >>= f) = alone x >>= fun a => alone (f a) := by
  funext endpoint
  change settle (((x >>= f) endpoint.state).onStreams _ _) =
    EStateM.bind (alone x) (fun a => alone (f a)) endpoint
  rw [bind_apply, Talk.onStreams_bind, EStateM.bind, alone]
  generalize (x endpoint.state).onStreams endpoint.incoming endpoint.outgoing = ending
  obtain ⟨⟨a, s⟩ | ⟨e, s⟩, incoming, outgoing⟩ := ending
  · rfl
  · rfl

theorem alone_locally (y : EStateM ε σ α) :
    alone (locally y : TalkM ε σ τ α) =
      zoom Endpoint.state (fun endpoint s => { endpoint with state := s }) y := by
  funext endpoint
  change settle (y.run endpoint.state, endpoint.incoming, endpoint.outgoing) = _
  rw [zoom]
  cases y.run endpoint.state with
  | ok a s => rfl
  | error e s => rfl

theorem run_alone {x : TalkM ε σ τ α} {s s' : σ}
    {incoming outgoing incoming' outgoing' : List τ} {a : α}
    (h : (alone x).run ⟨s, incoming, outgoing⟩ = .ok a ⟨s', incoming', outgoing'⟩) :
    (x s).onStreams incoming outgoing = (.ok a s', incoming', outgoing') := by
  change settle ((x s).onStreams incoming outgoing) = _ at h
  generalize (x s).onStreams incoming outgoing = ending at h
  obtain ⟨⟨a', s''⟩ | ⟨e, s''⟩, incoming'', outgoing''⟩ := ending
  · cases h
    rfl
  · cases h

theorem alone_forM {items : List β} {body : β → TalkM ε σ τ PUnit} :
    alone (forM items body) = forM items fun item => alone (body item) := by
  induction items with
  | nil => rfl
  | cons item items ih =>
    rw [List.forM_cons, List.forM_cons, alone_bind, ih]

/-! ## What a program answers -/

/-- The program takes `chunk` off the stream, whatever follows it, sends `reply` and returns `a`. -/
def Answers (x : TalkM ε σ τ α) (s : σ) (chunk reply : List τ) (a : α) (s' : σ) : Prop :=
  Streams.Serves Endpoint.mk (alone x) s chunk reply a s'

namespace Answers

variable {x : TalkM ε σ τ α} {f : α → TalkM ε σ τ β} {s s' s'' : σ}
  {chunk chunk' reply reply' : List τ} {a : α} {b : β}

theorem bind (h : Answers x s chunk reply a s') (hNext : Answers (f a) s' chunk' reply' b s'') :
    Answers (x >>= f) s (chunk ++ chunk') (reply ++ reply') b s'' := by
  rw [Answers, alone_bind]
  exact Streams.Serves.bind h hNext

theorem pure (a : α) (s : σ) : Answers (Pure.pure a : TalkM ε σ τ α) s [] [] a s :=
  Streams.Serves.pure Endpoint.mk a s

theorem send (chunk : List τ) (s : σ) :
    Answers (TalkM.send chunk : TalkM ε σ τ Unit) s [] chunk () s := by
  intro later sent
  change settle ((Talk.sending chunk (.done (.ok () s))).onStreams ([] ++ later) sent) = _
  rw [Talk.onStreams_sending]
  rfl

theorem of_run {y : EStateM ε σ α} (h : y.run s = .ok a s') :
    Answers (locally y : TalkM ε σ τ α) s [] [] a s' := by
  rw [Answers, alone_locally]
  exact Streams.Serves.of_run ⟨fun _ _ _ => rfl, fun _ _ _ _ => rfl⟩ h

theorem of_takes {y : EStateM ε (List τ) α} (h : Reads x y) (hTakes : Streams.Takes y chunk a) :
    Answers x s chunk [] a s := by
  intro later sent
  change settle ((x s).onStreams (chunk ++ later) sent) = _
  rw [h s (chunk ++ later) sent a later (hTakes later), List.append_nil]
  rfl

/-- A step that sends nothing. -/
theorem silent_bind (h : Answers x s chunk [] a s') (hNext : Answers (f a) s' chunk' reply b s'') :
    Answers (x >>= f) s (chunk ++ chunk') reply b s'' := h.bind hNext

/-- A step that takes nothing off the stream. -/
theorem speaking_bind (h : Answers x s [] reply a s')
    (hNext : Answers (f a) s' chunk reply' b s'') :
    Answers (x >>= f) s chunk (reply ++ reply') b s'' := h.bind hNext

theorem reads_bind {y : EStateM ε (List τ) α} (h : Reads x y) (hTakes : Streams.Takes y chunk a)
    (hNext : Answers (f a) s chunk' reply b s') :
    Answers (x >>= f) s (chunk ++ chunk') reply b s' :=
  (of_takes h hTakes).bind hNext

theorem local_bind {y : EStateM ε σ α} (h : y.run s = .ok a s')
    (hNext : Answers (f a) s' chunk reply b s'') :
    Answers (locally y >>= f) s chunk reply b s'' := (of_run h).bind hNext

theorem get_bind {f : σ → TalkM ε σ τ β} (hNext : Answers (f s) s chunk reply b s') :
    Answers (locally get >>= f) s chunk reply b s' := local_bind rfl hNext

theorem check_bind {refused : Prop} [Decidable refused] {e : ε}
    {f : Unit → TalkM ε σ τ β} (h : ¬ refused) (hNext : Answers (f ()) s chunk reply b s') :
    Answers (locally (throwIf refused e) >>= f) s chunk reply b s' := by
  refine local_bind ?_ hNext
  rw [throwIf, if_neg h]
  rfl

theorem fromExcept_bind {y : Except ε α} (h : y = .ok a)
    (hNext : Answers (f a) s chunk reply b s') :
    Answers (locally (fromExcept y) >>= f) s chunk reply b s' := by
  subst h
  exact local_bind rfl hNext

theorem send_bind (bytes : List τ) {f : Unit → TalkM ε σ τ β}
    (hNext : Answers (f ()) s chunk reply b s') :
    Answers (TalkM.send bytes >>= f) s chunk (bytes ++ reply) b s' := (send bytes s).bind hNext

theorem forM_send {items : List α} (chunkOf : α → List τ) (s : σ) :
    Answers (forM items fun item => (TalkM.send (chunkOf item) : TalkM ε σ τ PUnit)) s []
      (items.flatMap chunkOf) PUnit.unit s := by
  induction items with
  | nil => exact pure PUnit.unit s
  | cons item items ih =>
    rw [List.forM_cons]
    exact (send (chunkOf item) s).bind ih

theorem many {chunkOf : α → List τ} {items : List α}
    (h : ∀ a ∈ items, Answers x s (chunkOf a) [] a s) :
    Answers (TalkM.many x items.length) s (items.flatMap chunkOf) [] items s := by
  induction items with
  | nil => exact pure [] s
  | cons head items ih =>
    have hTail := ih fun other hOther => h other (List.mem_cons_of_mem _ hOther)
    rw [List.flatMap_cons, ← List.append_nil (items.flatMap chunkOf)]
    exact (h head List.mem_cons_self).bind (hTail.bind (pure (head :: items) s))

/-- A loop that takes a chunk off the stream in each round, where `rounds` gets the item itself. -/
theorem forM_range {items : List α} {chunkOf : α → List τ} {rounds : Nat → EStateM ε σ PUnit}
    {body : Nat → TalkM ε σ τ PUnit}
    (h : ∀ i item s s', items[i]? = some item → (rounds i).run s = .ok PUnit.unit s' →
      Answers (body i) s (chunkOf item) [] PUnit.unit s')
    {count : Nat} (hCount : count ≤ items.length)
    (hRun : (forM (List.range count) rounds).run s = .ok PUnit.unit s') :
    Answers (forM (List.range count) body) s ((items.take count).flatMap chunkOf)
      [] PUnit.unit s' := by
  rw [Answers, alone_forM]
  exact Streams.Serves.forM_range h hCount hRun

/-- A program that first listens and then speaks receives what it takes and sends what it answers.
-/
theorem feeds [Nonempty τ] (h : Answers x s chunk reply a s') (hPolite : (x s).Polite) :
    Talk.Feeds (x s) chunk (.sending reply (.done (.ok a s'))) :=
  hPolite.feeds fun later => run_alone (h later [])

/-- The first item may decide whether the program listens first and then speaks. -/
theorem feeds_receive [Nonempty τ] {item : τ} {next : Option τ → Talk τ (EStateM.Result ε σ α)}
    (h : Answers x s (item :: chunk) reply a s') (hReceives : x s = .receive next)
    (hPolite : (next (some item)).Polite) :
    Talk.Feeds (x s) (item :: chunk) (.sending reply (.done (.ok a s'))) := by
  rw [hReceives]
  refine .cons (hPolite.feeds fun later => ?_)
  have hStreams := run_alone (h later [])
  rwa [hReceives] at hStreams

end Answers

end TalkM
end OramHub.Dialogue

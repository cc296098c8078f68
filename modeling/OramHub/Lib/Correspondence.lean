import OramHub.Lib.Dialogue

/-! # Clients that exchange messages

A client program that sees its server exchanges whole messages with it and keeps a log of them. A
process knows of the server only the items that arrive. It mirrors the program if it exchanges the
same messages and returns the same.
-/
namespace OramHub.Correspondence
open OramHub.Program OramHub.Dialogue OramHub.Dialogue.TalkM OramHub.Confluence
set_option autoImplicit false

variable {ε σ τ κ ω η ρ γ α β : Type}

/-- How the messages of an exchange are written, which exchanges can be written, and which ones the
server makes. -/
structure Protocol (τ σ η : Type) where
  request : η → List τ
  response : η → List τ
  fits : η → Prop
  handles : σ → η → σ → Prop

/-- What client and server have of a state that comprises both. `alone` is the state of a client
that has not met its server. -/
structure View (ω κ σ η : Type) where
  own : ω → κ
  server : ω → σ
  log : ω → List η
  alone : κ → ω
  own_alone : ∀ k, own (alone k) = k

/-- A part of the client that does not use the connection. -/
def onClient (view : View ω κ σ η) (x : EStateM ε ω α) : TalkM ε κ τ α :=
  locally (zoom view.alone (fun _ w => view.own w) x)

/-- A client exchanges these messages with a server. -/
inductive Talks (protocol : Protocol τ σ η) {ρ : Type} : Talk τ ρ → σ → List η → Talk τ ρ → σ → Prop
  | nil {t : Talk τ ρ} {server : σ} : Talks protocol t server [] t server
  | cons {t t' u : Talk τ ρ} {server middle final : σ} {event : η} {events : List η} :
    protocol.handles server event middle →
      Talk.Feeds u (protocol.response event) t → Talks protocol t middle events t' final →
      Talks protocol (.sending (protocol.request event) u) server (event :: events) t' final

/-- Wherever the program returns, the process has exchanged the same messages and returns the same.
-/
def Mirrors (view : View ω κ σ η) (protocol : Protocol τ σ η) (x : TalkM ε κ τ α)
    (y : EStateM ε ω α) : Prop :=
  ∀ w a w', y.run w = .ok a w' → ∃ events, view.log w' = view.log w ++ events ∧
    ((∀ event ∈ events, protocol.fits event) →
      Talks protocol (x (view.own w)) (view.server w) events
        (.done (.ok a (view.own w'))) (view.server w'))

/-- The program neither uses the connection nor knows what the server has seen. -/
def Private (view : View ω κ σ η) (y : EStateM ε ω α) : Prop :=
  ∀ w a w', y.run w = .ok a w' → view.server w' = view.server w ∧ view.log w' = view.log w ∧
    y.run (view.alone (view.own w)) = .ok a (view.alone (view.own w'))

section Talks

variable {protocol : Protocol τ σ η} {t t' t'' : Talk τ ρ} {server middle final : σ}
  {events events' : List η}

theorem Talks.bind (h : Talks protocol t server events t' final) (f : ρ → Talk τ γ) :
    Talks protocol (t.bind f) server events (t'.bind f) final := by
  induction h with
  | nil => exact .nil
  | cons hHandles hFeeds _ ih =>
    rw [Talk.bind_sending]
    exact .cons hHandles (hFeeds.bind f) ih

theorem Talks.append (h : Talks protocol t server events t' middle)
    (hNext : Talks protocol t' middle events' t'' final) :
    Talks protocol t server (events ++ events') t'' final := by
  induction h with
  | nil => exact hNext
  | cons hHandles hFeeds _ ih => exact .cons hHandles hFeeds (ih hNext)

/-- A message that is not answered. -/
theorem talks_send {event : η} (hHandles : protocol.handles server event final)
    (hSilent : protocol.response event = []) (t : Talk τ ρ) :
    Talks protocol (.sending (protocol.request event) t) server [event] t final := by
  refine .cons hHandles ?_ .nil
  rw [hSilent]
  exact .nil

/-- A server that goes on after every message takes part in the whole conversation. -/
theorem Talks.reaches {setting : Setting τ ρ (EStateM.Result ε σ Unit)}
    {serve : σ → Talk τ (EStateM.Result ε σ Unit)}
    (hCapacity : 0 < setting.capacity)
    (hServe : ∀ server event server', protocol.handles server event server' →
      setting.server (.ok () server) = some (serve server) ∧
        Talk.Feeds (serve server) (protocol.request event)
          (.sending (protocol.response event) (.done (.ok () server'))))
    (h : Talks protocol t server events t' final) :
    Reaches (Connection.Moves setting) ⟨t, .done (.ok () server), [], []⟩
      ⟨t', .done (.ok () final), [], []⟩ := by
  induction h with
  | nil => exact .refl _
  | cons hHandles hFeeds _ ih =>
    obtain ⟨hAgain, hServer⟩ := hServe _ _ _ hHandles
    exact (Connection.reaches_exchange hCapacity hAgain hServer hFeeds).trans ih

/-- Where both sides have ended, every order of the steps ends there, after the same number of
steps. -/
theorem complete {setting : Setting τ ρ (EStateM.Result ε σ Unit)}
    {c : Connection τ ρ (EStateM.Result ε σ Unit)} {result : ρ}
    (hClient : setting.client result = none) (hServer : setting.server (.ok () final) = none)
    (h : Reaches (Connection.Moves setting) c ⟨.done result, .done (.ok () final), [], []⟩) :
    ∃ total, ∀ count c',
      Run (Connection.Moves setting) count c c' → ∃ missing, count + missing = total ∧
        Run (Connection.Moves setting) missing c' ⟨.done result, .done (.ok () final), [], []⟩ := by
  obtain ⟨total, hRun⟩ := h
  refine ⟨total, fun count c' hOther => (Connection.diamond_moves setting).complete hRun ?_ hOther⟩
  rintro _ ⟨side, hStep⟩
  cases side
  case client =>
    rw [Connection.step, advance, hClient] at hStep
    cases hStep
  case server =>
    rw [Connection.step, advance, hServer] at hStep
    cases hStep

end Talks

namespace Private

variable {view : View ω κ σ η} {y : EStateM ε ω α}

theorem pure (a : α) : Private view (Pure.pure a : EStateM ε ω α) := by
  rintro w _ _ ⟨⟩
  exact ⟨rfl, rfl, rfl⟩

theorem bind {g : α → EStateM ε ω β} (h : Private view y)
    (hNext : ∀ a, Private view (g a)) : Private view (y >>= g) := by
  intro w b w' hRun
  obtain ⟨a, middle, hFirst, hSecond⟩ := run_bind_eq_ok hRun
  obtain ⟨hServer, hLog, hOwn⟩ := h w a middle hFirst
  obtain ⟨hServer', hLog', hOwn'⟩ := hNext a middle b w' hSecond
  refine ⟨hServer'.trans hServer, hLog'.trans hLog, ?_⟩
  rw [EStateM.run_bind, hOwn]
  exact hOwn'

theorem fromExcept (z : Except ε α) : Private view (Program.fromExcept z : EStateM ε ω α) := by
  intro w a w' hRun
  obtain ⟨rfl, rfl⟩ := run_fromExcept_eq_ok hRun
  exact ⟨rfl, rfl, rfl⟩

theorem check (refused : Prop) [Decidable refused] (e : ε) :
    Private view (throwIf refused e : EStateM ε ω Unit) := by
  intro w _ w' hRun
  obtain ⟨hAccepted, rfl⟩ := run_throwIf_eq_ok hRun
  refine ⟨rfl, rfl, ?_⟩
  rw [throwIf, if_neg hAccepted]
  rfl

theorem throw (e : ε) : Private view (MonadExcept.throw e : EStateM ε ω α) := by
  rintro w a w' ⟨⟩

theorem mapM {items : List β} {g : β → EStateM ε ω α} (h : ∀ item, Private view (g item)) :
    Private view (items.mapM g) := by
  induction items with
  | nil => exact pure []
  | cons item items ih =>
    rw [List.mapM_cons]
    exact (h item).bind fun a => ih.bind fun rest => pure (a :: rest)

theorem forM {items : List β} {g : β → EStateM ε ω PUnit} (h : ∀ item, Private view (g item)) :
    Private view (forM items g) := by
  induction items with
  | nil => exact pure PUnit.unit
  | cons item items ih =>
    rw [List.forM_cons]
    exact (h item).bind fun _ => ih

theorem foldlM {items : List β} {g : α → β → EStateM ε ω α}
    (h : ∀ a item, Private view (g a item)) (a : α) :
    Private view (items.foldlM g a) := by
  induction items generalizing a with
  | nil => exact pure a
  | cons item items ih =>
    rw [List.foldlM_cons]
    exact (h a item).bind fun b => ih b

theorem of_modify {g : ω → ω} (hServer : ∀ w, view.server (g w) = view.server w)
    (hLog : ∀ w, view.log (g w) = view.log w)
    (hOwn : ∀ w, g (view.alone (view.own w)) = view.alone (view.own (g w))) :
    Private view (modify g : EStateM ε ω PUnit) := by
  rintro w _ _ ⟨⟩
  refine ⟨hServer w, hLog w, ?_⟩
  rw [← hOwn w]
  rfl

/-- A part of the client that works on a field that is the client's own. -/
theorem zoom {φ : Type} {get : ω → φ} {put : ω → φ → ω} {z : EStateM ε φ α}
    (hGet : ∀ w, get (view.alone (view.own w)) = get w)
    (hServer : ∀ w field, view.server (put w field) = view.server w)
    (hLog : ∀ w field, view.log (put w field) = view.log w)
    (hOwn : ∀ w field, put (view.alone (view.own w)) field = view.alone (view.own (put w field))) :
    Private view (Program.zoom get put z) := by
  intro w a w' hRun
  obtain ⟨field, hField, rfl⟩ := run_zoom_eq_ok hRun
  refine ⟨hServer w field, hLog w field, ?_⟩
  rw [run_zoom, hGet, hField]
  exact congrArg (EStateM.Result.ok a) (hOwn w field)

/-- The state is read for what is the client's own in it. -/
theorem get_bind {g : ω → EStateM ε ω α} (hSame : ∀ w, g (view.alone (view.own w)) = g w)
    (h : ∀ w, Private view (g w)) :
    Private view (get >>= g) := by
  intro w a w' hRun
  obtain ⟨hServer, hLog, hOwn⟩ := h w w a w' hRun
  refine ⟨hServer, hLog, ?_⟩
  rw [← hSame w] at hOwn
  exact hOwn

theorem run_onClient (h : Private view y) {w w' : ω} {a : α} (hRun : y.run w = .ok a w') :
    (onClient view y : TalkM ε κ τ α) (view.own w) = .done (.ok a (view.own w')) := by
  rw [onClient, locally, run_zoom, (h w a w' hRun).2.2]
  exact congrArg (fun own => Talk.done (EStateM.Result.ok a own)) (view.own_alone _)

theorem bind_apply (h : Private view y) {w w' : ω} {a : α} (hRun : y.run w = .ok a w')
    (f : α → TalkM ε κ τ β) :
    (onClient view y >>= f) (view.own w) = f a (view.own w') := by
  rw [TalkM.bind_apply, h.run_onClient hRun]
  rfl

theorem mirrors {protocol : Protocol τ σ η} (h : Private view y) :
    Mirrors view protocol (onClient view y) y := by
  intro w a w' hRun
  obtain ⟨hServer, hLog, _⟩ := h w a w' hRun
  refine ⟨[], by rw [hLog, List.append_nil], fun _ => ?_⟩
  rw [h.run_onClient hRun, hServer]
  exact .nil

end Private

namespace Mirrors

variable {view : View ω κ σ η} {protocol : Protocol τ σ η} {x : TalkM ε κ τ α} {y : EStateM ε ω α}

theorem pure (a : α) : Mirrors view protocol (Pure.pure a : TalkM ε κ τ α) (Pure.pure a) := by
  rintro w _ _ ⟨⟩
  exact ⟨[], (List.append_nil _).symm, fun _ => .nil⟩

theorem throw (x : TalkM ε κ τ α) (e : ε) : Mirrors view protocol x (MonadExcept.throw e) := by
  rintro w a w' ⟨⟩

theorem bind {f : α → TalkM ε κ τ β} {g : α → EStateM ε ω β} (h : Mirrors view protocol x y)
    (hNext : ∀ a, Mirrors view protocol (f a) (g a)) :
    Mirrors view protocol (x >>= f) (y >>= g) := by
  intro w b w' hRun
  obtain ⟨a, middle, hFirst, hSecond⟩ := run_bind_eq_ok hRun
  obtain ⟨events, hLog, hTalks⟩ := h w a middle hFirst
  obtain ⟨events', hLog', hTalks'⟩ := hNext a middle b w' hSecond
  refine ⟨events ++ events', by rw [hLog', hLog, List.append_assoc], fun hFits => ?_⟩
  have hHead := (hTalks fun event hEvent =>
    hFits event (List.mem_append_left _ hEvent)).bind (resume f)
  exact hHead.append (hTalks' fun event hEvent => hFits event (List.mem_append_right _ hEvent))

theorem get_bind {f : κ → TalkM ε κ τ α} {g : ω → EStateM ε ω α}
    (h : ∀ w, Mirrors view protocol (f (view.own w)) (g w)) :
    Mirrors view protocol (locally get >>= f) (get >>= g) := fun w a w' hRun => h w w a w' hRun

theorem mapM {items : List β} {f : β → TalkM ε κ τ α} {g : β → EStateM ε ω α}
    (h : ∀ item, Mirrors view protocol (f item) (g item)) :
    Mirrors view protocol (items.mapM f) (items.mapM g) := by
  induction items with
  | nil => exact pure []
  | cons item items ih =>
    rw [List.mapM_cons, List.mapM_cons]
    exact (h item).bind fun a => ih.bind fun rest => pure (a :: rest)

theorem forM {items : List β} {f : β → TalkM ε κ τ PUnit} {g : β → EStateM ε ω PUnit}
    (h : ∀ item, Mirrors view protocol (f item) (g item)) :
    Mirrors view protocol (forM items f) (forM items g) := by
  induction items with
  | nil => exact pure PUnit.unit
  | cons item items ih =>
    rw [List.forM_cons, List.forM_cons]
    exact (h item).bind fun _ => ih

theorem ite {refused : Prop} [Decidable refused] {x' : TalkM ε κ τ α} {y' : EStateM ε ω α}
    (h : Mirrors view protocol x y) (h' : Mirrors view protocol x' y') :
    Mirrors view protocol (if refused then x else x') (if refused then y else y') := by
  split
  · exact h
  · exact h'

/-- A request, and a process that waits for its answer. -/
theorem exchange {x : TalkM ε κ τ α}
    (h : ∀ w a w', y.run w = .ok a w' → ∃ event rest, view.own w' = view.own w ∧
      view.log w' = view.log w ++ [event] ∧
      x (view.own w) = .sending (protocol.request event) rest ∧
      (protocol.fits event → protocol.handles (view.server w) event (view.server w') ∧
        Talk.Feeds rest (protocol.response event) (.done (.ok a (view.own w))))) :
        Mirrors view protocol x y := by
  intro w a w' hRun
  obtain ⟨event, rest, hOwn, hLog, hSends, hAnswers⟩ := h w a w' hRun
  refine ⟨[event], hLog, fun hFits => ?_⟩
  obtain ⟨hHandles, hFeeds⟩ := hAnswers (hFits event List.mem_cons_self)
  rw [hSends, hOwn]
  exact .cons hHandles hFeeds .nil

/-- A process that sends a last message, which is not answered, after all others of the program
could be written. -/
theorem talks_last (h : Mirrors view protocol x y) {w w' : ω} {a : α} {final : σ} {event : η}
    (hRun : y.run w = .ok a w') (hFits : ∀ event ∈ view.log w', protocol.fits event)
    (hHandles : protocol.handles (view.server w') event final)
    (hSilent : protocol.response event = []) :
    ∃ events, Talks protocol ((x >>= fun a => send (protocol.request event) >>= fun _ =>
      Pure.pure a) (view.own w)) (view.server w) events (.done (.ok a (view.own w'))) final := by
  obtain ⟨events, hLog, hTalks⟩ := h w a w' hRun
  have hAll : ∀ event ∈ events, protocol.fits event := by
    intro event hEvent
    apply hFits
    rw [hLog]
    exact List.mem_append_right _ hEvent
  have hRest := (hTalks hAll).bind (resume fun a =>
    (send (protocol.request event) >>= fun _ => Pure.pure a : TalkM ε κ τ α))
  refine ⟨events ++ [event], hRest.append ?_⟩
  rw [Talk.bind, resume, TalkM.bind_apply, send, Talk.bind_sending]
  exact talks_send hHandles hSilent _

end Mirrors
end OramHub.Correspondence

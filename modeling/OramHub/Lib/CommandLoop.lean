import Mathlib.Data.List.Induction
import OramHub.Lib.Duplex
import OramHub.Lib.Preservation

/-! # Command loops

A server takes commands off a stream for as long as it runs, and leaves its loop where a command
throws. `Interprets` relates the commands to a machine that handles whole messages. Whatever bytes
arrive, the loop then does what that machine does for the messages that they spell, up to the first
bytes that spell none which the machine handles.
-/
namespace OramHub.Streams
open OramHub.Program
set_option autoImplicit false

variable {ε σ τ κ μ ρ α β : Type}

/-- Where the program returns, `taken` holds of the chunk that it has taken off the stream. What it
has sent before stays. -/
def Accepts (link : σ → List τ → List τ → κ) (x : EStateM ε κ α) (s : σ)
    (taken : List τ → α → σ → Prop) : Prop :=
  ∀ stream sent, wp x (link s stream sent)
    (fun a k => ∃ chunk reply s' rest, stream = chunk ++ rest ∧
      k = link s' rest (sent ++ reply) ∧ taken chunk a s')
    fun _ k => ∃ reply s' rest, k = link s' rest (sent ++ reply)

namespace Accepts

variable {link : σ → List τ → List τ → κ} {x : EStateM ε κ α} {f : α → EStateM ε κ β} {s : σ}
  {mid : List τ → α → σ → Prop} {taken : List τ → β → σ → Prop}

theorem mono {mid' : List τ → α → σ → Prop} (h : Accepts link x s mid)
    (hMid : ∀ chunk a s', mid chunk a s' → mid' chunk a s') :
    Accepts link x s mid' := by
  intro stream sent
  apply wp_mono (h stream sent)
  · rintro a k ⟨chunk, reply, s', rest, hStream, hLink, hTaken⟩
    exact ⟨chunk, reply, s', rest, hStream, hLink, hMid chunk a s' hTaken⟩
  · exact fun _ _ => id

theorem pure {b : β} (h : taken [] b s) : Accepts link (Pure.pure b : EStateM ε κ β) s taken :=
  fun stream sent => wp.pure ⟨[], [], s, stream, rfl, by rw [List.append_nil], h⟩

theorem throw (e : ε) : Accepts link (MonadExcept.throw e : EStateM ε κ β) s taken := by
  intro stream sent
  apply (wp_throw e).mpr
  exact ⟨[], s, stream, by rw [List.append_nil]⟩

theorem bind (h : Accepts link x s mid)
    (hNext : ∀ chunk a s', mid chunk a s' → Accepts link (f a) s' fun chunk' b s'' =>
      taken (chunk ++ chunk') b s'') :
    Accepts link (x >>= f) s taken := by
  intro stream sent
  apply (wp_bind x f).mpr
  apply wp_mono (h stream sent)
  · rintro a k ⟨chunk, reply, s', rest, rfl, rfl, hMid⟩
    apply wp_mono (hNext chunk a s' hMid rest (sent ++ reply))
    · rintro b k' ⟨chunk', reply', s'', rest', rfl, rfl, hTaken⟩
      exact ⟨chunk ++ chunk', reply ++ reply', s'', rest', by rw [List.append_assoc],
        by rw [List.append_assoc], hTaken⟩
    · rintro e k' ⟨reply', s'', rest', rfl⟩
      exact ⟨reply ++ reply', s'', rest', by rw [List.append_assoc]⟩
  · exact fun _ _ => id

theorem check_bind {refused : Prop} [Decidable refused] {e : ε} {g : Unit → EStateM ε κ β}
    (h : ¬ refused → Accepts link (g ()) s taken) :
    Accepts link (throwIf refused e >>= g) s taken := by
  intro stream sent
  refine wp.check_bind (fun _ => ⟨[], s, stream, ?_⟩) fun hAccepted => h hAccepted stream sent
  rw [List.append_nil]

theorem fromExcept_bind {y : Except ε α} (h : ∀ a, y = .ok a → Accepts link (f a) s taken) :
    Accepts link (fromExcept y >>= f) s taken := by
  intro stream sent
  refine wp.fromExcept_bind (fun _ _ => ⟨[], s, stream, ?_⟩) fun a hOk => h a hOk stream sent
  rw [List.append_nil]

/-- A reader of the stream. -/
theorem of_parses {view : κ → List τ} {update : κ → List τ → κ} {y : EStateM ε (List τ) α}
    {encodes : List τ → α → Prop}
    {thrown : ε → Prop} (hIncoming : Incoming link view update) (h : Parses y encodes thrown) :
    Accepts link (zoom view update y) s fun chunk a s' => encodes chunk a ∧ s' = s := by
  intro stream sent
  apply (wp_zoom view update y).mpr
  rw [hIncoming.view_link]
  apply wp_mono (h stream)
  · rintro a rest ⟨chunk, rfl, hChunk⟩
    exact ⟨chunk, [], s, rest, rfl, by rw [hIncoming.update_link, List.append_nil], hChunk, rfl⟩
  · intro _ rest _
    exact ⟨[], s, rest, by rw [hIncoming.update_link, List.append_nil]⟩

/-- A step that works on the server's own state. -/
theorem of_zoom {view : κ → σ} {update : κ → σ → κ} {y : EStateM ε σ α}
    (hOwn : Own link view update) :
    Accepts link (zoom view update y) s fun chunk a s' => chunk = [] ∧ y.run s = .ok a s' := by
  intro stream sent
  apply (wp_zoom view update y).mpr
  rw [hOwn.view_link]
  apply wp_iff.mpr
  constructor
  · intro a s' hRun
    exact ⟨[], [], s', stream, rfl, by rw [hOwn.update_link, List.append_nil], rfl, hRun⟩
  · intro _ s' _
    exact ⟨[], s', stream, by rw [hOwn.update_link, List.append_nil]⟩

theorem of_serves {s' : σ} {reply : List τ} {a : α} (h : Serves link x s [] reply a s') :
    Accepts link x s fun chunk b s'' => chunk = [] ∧ b = a ∧ s'' = s' := by
  intro stream sent
  have hRun := h stream sent
  rw [List.nil_append] at hRun
  apply Returns.outcome
  exact Returns.of_run hRun ⟨[], reply, s', stream, rfl, rfl, rfl, rfl, rfl⟩

/-- A loop over a counter, with what its first rounds have taken. -/
theorem forM_range {body : Nat → EStateM ε κ PUnit} (inv : Nat → List τ → σ → Prop)
    (hStart : inv 0 [] s)
    (h : ∀ i chunk s', inv i chunk s' → Accepts link (body i) s' fun chunk' _ s'' =>
      inv (i + 1) (chunk ++ chunk') s'')
    (count : Nat) : Accepts link (forM (List.range count) body) s fun chunk _ s' =>
      inv count chunk s' := by
  induction count with
  | zero => exact pure hStart
  | succ count ih =>
    rw [List.range_succ, List.forM_append]
    apply ih.bind
    intro chunk _ s' hInv
    apply (h count chunk s' hInv).bind
    intro chunk' _ s'' hNext
    apply pure
    rwa [List.append_nil]

/-- A loop over a list that takes nothing off the stream, with what it has done for the items so
far. -/
theorem forM {items : List α} {body : α → EStateM ε κ PUnit}
    (inv : List α → σ → Prop) (hStart : inv [] s)
    (h : ∀ done item s', inv done s' → Accepts link (body item) s' fun chunk _ s'' => chunk = [] ∧
      inv (done ++ [item]) s'') :
    Accepts link (ForM.forM items body) s fun chunk _ s' => chunk = [] ∧ inv items s' := by
  induction items using List.reverseRecOn with
  | nil => exact pure ⟨rfl, hStart⟩
  | append_singleton items item ih =>
    rw [List.forM_append]
    apply ih.bind
    rintro _ _ s' ⟨rfl, hInv⟩
    apply (h items item s' hInv).bind
    rintro _ _ s'' ⟨rfl, hNext⟩
    exact pure ⟨rfl, hNext⟩

end Accepts

/-! ## The loop -/

/-- `while (running)` around a command. Where the command throws, the loop is left. -/
def commandLoop (command : EStateM ε κ PUnit) (running : κ → Bool)
    (stop : κ → κ) : Nat → κ → Option κ
  | 0, _ => none
  | fuel + 1, k =>
    match command.run k with
    | .ok _ k' => if running k' then commandLoop command running stop fuel k' else some (stop k')
    | .error _ k' => some (stop k')

/-- What every command keeps, whether it returns or throws, the loop keeps. -/
theorem commandLoop_preserves {command : EStateM ε κ PUnit} {running : κ → Bool}
    {stop : κ → κ} {inv : κ → Prop}
    (h : Preserves inv command fun _ => True) (hStop : ∀ k, inv k → inv (stop k)) {fuel : Nat}
    {k final : κ} (hStart : inv k)
    (hLoop : commandLoop command running stop fuel k = some final) : inv final := by
  induction fuel generalizing k with
  | zero => cases hLoop
  | succ fuel ih =>
    rw [commandLoop] at hLoop
    cases hRun : command.run k with
    | error e k' =>
      simp only [hRun, Option.some.injEq] at hLoop
      exact hLoop ▸ hStop k' (h.of_run hStart (.inr ⟨e, hRun⟩))
    | ok _ k' =>
      have hKept := h.of_run hStart (.inl ⟨_, hRun⟩)
      simp only [hRun] at hLoop
      split_ifs at hLoop
      · exact ih hKept hLoop
      · exact Option.some.inj hLoop ▸ hStop k' hKept

/-- The messages that a stream spells, with chunks in between that mean nothing. -/
inductive Spells (encode : μ → List τ) (skipped : List τ → Prop) : List μ → List τ → Prop
  | nil : Spells encode skipped [] []
  | skip {messages : List μ} {chunk stream : List τ} :
      skipped chunk → Spells encode skipped messages stream →
      Spells encode skipped messages (chunk ++ stream)
  | message {messages : List μ} {stream : List τ} (message : μ) :
      Spells encode skipped messages stream →
      Spells encode skipped (message :: messages) (encode message ++ stream)

/-- Messages handled one after another, each with its answer. -/
inductive Handles (handle : μ → EStateM ε σ ρ) : σ → List (μ × ρ) → σ → Prop
  | nil {s : σ} : Handles handle s [] s
  | cons {s s' s'' : σ} {message : μ} {response : ρ} {exchanges : List (μ × ρ)} :
      (handle message).run s = .ok response s' → Handles handle s' exchanges s'' →
        Handles handle s ((message, response) :: exchanges) s''

/-- How messages look on a stream: the well formed ones and their answers, chunks that a server
skips, and its dismissal. -/
structure Language (μ ρ τ : Type) where
  wellFormed : μ → Prop
  encode : μ → List τ
  reply : ρ → List τ
  skipped : List τ → Prop
  farewell : List τ

/-- The bytes of a command are a well formed message that `handle` answers, or are skipped, or
dismiss the server. -/
structure Interprets (language : Language μ ρ τ) (link : σ → List τ → List τ → κ)
    (running : κ → Bool) (handle : μ → EStateM ε σ ρ)
    (dismiss : σ → σ) (command : EStateM ε κ PUnit) : Prop where
  serves : ∀ {message response s s'}, language.wellFormed message →
    (handle message).run s = .ok response s' →
    Serves link command s (language.encode message) (language.reply response) PUnit.unit s'
  skips : ∀ {chunk} s, language.skipped chunk → Serves link command s chunk [] PUnit.unit s
  quits : ∀ s, Serves link command s language.farewell [] PUnit.unit (dismiss s)
  accepts : ∀ s, Accepts link command s fun chunk _ _ => language.skipped chunk ∨
    chunk = language.farewell ∨
    ∃ message response s', language.wellFormed message ∧ chunk = language.encode message ∧
    (handle message).run s = .ok response s'
  encode_ne : ∀ {message}, language.encode message ≠ []
  skipped_ne : ∀ {chunk}, language.skipped chunk → chunk ≠ []
  goesOn : ∀ {message response s s'} stream sent stream' sent', language.wellFormed message →
    (handle message).run s = .ok response s' → running (link s stream sent) = true →
    running (link s' stream' sent') = true
  keepsRunning : ∀ s stream sent stream' sent',
    running (link s stream sent) = running (link s stream' sent')
  ends : ∀ s stream sent, running (link (dismiss s) stream sent) = false

/-- The exchanges that turn the stream into `rest` and the server's state into `s'`. -/
structure Transcript (language : Language μ ρ τ) (handle : μ → EStateM ε σ ρ) (s : σ)
    (stream sent : List τ) (exchanges : List (μ × ρ)) (s' : σ) (rest sent' : List τ) : Prop where
  received : ∃ chunk, stream = chunk ++ rest ∧
    Spells language.encode language.skipped (exchanges.map Prod.fst) chunk
  wellFormed : ∀ exchange ∈ exchanges, language.wellFormed exchange.1
  handled : Handles handle s exchanges s'
  answered : sent' = sent ++ exchanges.flatMap fun exchange => language.reply exchange.2

/-- The stream starts with no message that `handle` answers. -/
def Unanswered (language : Language μ ρ τ) (handle : μ → EStateM ε σ ρ) (s : σ)
    (stream : List τ) : Prop :=
  ∀ message rest response s', language.wellFormed message →
    stream = language.encode message ++ rest →
    (handle message).run s ≠ .ok response s'

/-- How the loop ends: dismissed, or at bytes for which the command throws. -/
inductive LastCommand (language : Language μ ρ τ) (link : σ → List τ → List τ → κ)
    (handle : μ → EStateM ε σ ρ) (dismiss : σ → σ)
    (command : EStateM ε κ PUnit) (s : σ) (stream sent : List τ) (final : κ) : Prop
  | dismissed (rest : List τ) :
    stream = language.farewell ++ rest → final = link (dismiss s) rest sent →
      LastCommand language link handle dismiss command s stream sent final
  | failed (e : ε) (reply : List τ) (s' : σ) (rest : List τ) :
    command.run (link s stream sent) = .error e final →
      final = link s' rest (sent ++ reply) → Unanswered language handle s stream →
      LastCommand language link handle dismiss command s stream sent final

namespace Interprets

variable {language : Language μ ρ τ} {link : σ → List τ → List τ → κ} {running : κ → Bool}
  {handle : μ → EStateM ε σ ρ}
  {dismiss : σ → σ} {command : EStateM ε κ PUnit} {s : σ} {stream sent : List τ}

theorem unanswered (h : Interprets language link running handle dismiss command) {e : ε} {k : κ}
    (hRun : command.run (link s stream sent) = .error e k) :
    Unanswered language handle s stream := by
  rintro message rest response s' hWellFormed rfl hHandled
  have hServed := h.serves hWellFormed hHandled rest sent
  rw [hRun] at hServed
  cases hServed

/-- One round that returns has taken a message, something to skip or the dismissal. -/
theorem round (h : Interprets language link running handle dismiss command) {k : κ}
    (hRun : command.run (link s stream sent) = .ok PUnit.unit k) :
    (∃ chunk rest, language.skipped chunk ∧ stream = chunk ++ rest ∧ k = link s rest sent) ∨
      (∃ rest, stream = language.farewell ++ rest ∧ k = link (dismiss s) rest sent) ∨
      ∃ message response s' rest, language.wellFormed message ∧
      stream = language.encode message ++ rest ∧
        (handle message).run s = .ok response s' ∧
        k = link s' rest (sent ++ language.reply response) := by
  have same {chunk reply rest : List τ} {s' : σ}
      (hServes : Serves link command s chunk reply PUnit.unit s')
      (hStream : stream = chunk ++ rest) : k = link s' rest (sent ++ reply) := by
    have hOther := hServes rest sent
    rw [← hStream, hRun] at hOther
    cases hOther
    rfl
  obtain ⟨chunk, _, _, rest, hStream, _, hTaken⟩ := (wp_iff.mp (h.accepts s stream sent)).1 _ k hRun
  obtain hSkipped | rfl | ⟨message, response, s', hWellFormed, rfl, hHandled⟩ := hTaken
  · have hSame := same (h.skips s hSkipped) hStream
    rw [List.append_nil] at hSame
    exact .inl ⟨chunk, rest, hSkipped, hStream, hSame⟩
  · have hSame := same (h.quits s) hStream
    rw [List.append_nil] at hSame
    exact .inr (.inl ⟨rest, hStream, hSame⟩)
  · exact .inr (.inr ⟨message, response, s', rest, hWellFormed, hStream, hHandled,
      same (h.serves hWellFormed hHandled) hStream⟩)

/-- Whatever bytes arrive, the loop ends after at most one round for each of them and one more, and
it has done what the machine does for the messages that they spell. -/
theorem loop_ends (h : Interprets language link running handle dismiss command) (stop : κ → κ)
    (s : σ) (stream sent : List τ)
    {fuel : Nat} (hFuel : stream.length < fuel) (hRunning : running (link s stream sent) = true) :
    ∃ exchanges s' rest sent' final,
    Transcript language handle s stream sent exchanges s' rest sent' ∧
      LastCommand language link handle dismiss command s' rest sent' final ∧
      commandLoop command running stop fuel (link s stream sent) = some (stop final) := by
  induction fuel generalizing s stream sent with
  | zero => exact absurd hFuel (Nat.not_lt_zero _)
  | succ fuel ih =>
    cases hRun : command.run (link s stream sent) with
    | error e k =>
      obtain ⟨reply, s', rest, hLink⟩ := (wp_iff.mp (h.accepts s stream sent)).2 e k hRun
      refine ⟨[], s, stream, sent, k, ⟨⟨[], rfl, .nil⟩, by simp, .nil, by simp⟩, ?_,
        by rw [commandLoop, hRun]⟩
      exact .failed e reply s' rest hRun hLink (h.unanswered hRun)
    | ok _ k =>
      obtain ⟨chunk, rest, hSkipped, rfl, rfl⟩ | ⟨rest, rfl, rfl⟩ |
          ⟨message, response, s₁, rest, hWellFormed, rfl, hHandled, rfl⟩ :=
        h.round hRun
      · have hPos := List.length_pos_iff.mpr (h.skipped_ne hSkipped)
        have hGoes : running (link s rest sent) = true :=
          (h.keepsRunning s rest sent _ sent).trans hRunning
        rw [List.length_append] at hFuel
        obtain ⟨exchanges, s', rest', sent', final, hTranscript, hLast, hLoop⟩ :=
          ih _ _ _ (by omega) hGoes
        refine ⟨exchanges, s', rest', sent', final, ?_, hLast,
          by rw [commandLoop, hRun]; simp [hGoes, hLoop]⟩
        obtain ⟨⟨spelled, rfl, hSpells⟩, hAll, hHandles, hSent⟩ := hTranscript
        exact ⟨⟨chunk ++ spelled, by rw [List.append_assoc], .skip hSkipped hSpells⟩,
          hAll, hHandles, hSent⟩
      · refine ⟨[], s, _, sent, _, ⟨⟨[], rfl, .nil⟩, by simp, .nil, by simp⟩,
          .dismissed rest rfl rfl, ?_⟩
        rw [commandLoop, hRun]
        simp [h.ends]
      · have hPos := List.length_pos_iff.mpr (@encode_ne _ _ _ _ _ _ _ _ _ _ _ _ h message)
        have hGoes := h.goesOn _ _ rest (sent ++ language.reply response)
          hWellFormed hHandled hRunning
        rw [List.length_append] at hFuel
        obtain ⟨exchanges, s', rest', sent', final, hTranscript, hLast, hLoop⟩ :=
          ih _ _ _ (by omega) hGoes
        refine ⟨(message, response) :: exchanges, s', rest', sent', final, ?_, hLast,
          by rw [commandLoop, hRun]; simp [hGoes, hLoop]⟩
        obtain ⟨⟨spelled, rfl, hSpells⟩, hAll, hHandles, hSent⟩ := hTranscript
        constructor
        case received =>
          exact ⟨language.encode message ++ spelled, by rw [List.append_assoc],
            .message message hSpells⟩
        case wellFormed => exact List.forall_mem_cons.mpr ⟨hWellFormed, hAll⟩
        case handled => exact .cons hHandled hHandles
        case answered => rw [hSent, List.flatMap_cons, List.append_assoc]

end Interprets

end OramHub.Streams

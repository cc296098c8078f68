import OramHub.Lib.Confluence
import OramHub.Lib.Duplex

/-! # Two programs that run side by side and talk over two streams

A program is cut where it sends or receives an item. Two of them take turns in any order, over
streams that hold a bounded number of items. What they end with does not depend on the order.
-/
namespace OramHub.Dialogue
open OramHub.Program OramHub.Confluence
set_option autoImplicit false

variable {ε σ τ ρ ρ' κ α β : Type}

/-- A program up to the next item that it sends or waits for. `none` stands for the end of the
stream. -/
inductive Talk (τ ρ : Type)
  | done (result : ρ)
  | send (item : τ) (rest : Talk τ ρ)
  | receive (next : Option τ → Talk τ ρ)

namespace Talk

def bind : Talk τ ρ → (ρ → Talk τ κ) → Talk τ κ
  | .done result, f => f result
  | .send item rest, f => .send item (rest.bind f)
  | .receive next, f => .receive fun item => (next item).bind f

/-- All items of a chunk are sent. -/
def sending : List τ → Talk τ ρ → Talk τ ρ
  | [], t => t
  | item :: chunk, t => .send item (sending chunk t)

/-- Once it has received the chunk, the program goes on as the last argument says. -/
inductive Feeds : Talk τ ρ → List τ → Talk τ ρ → Prop
  | nil {t : Talk τ ρ} : Feeds t [] t
  | cons {next : Option τ → Talk τ ρ} {item : τ} {chunk : List τ} {t : Talk τ ρ} :
    Feeds (next (some item)) chunk t →
      Feeds (.receive next) (item :: chunk) t

/-- The program alone, on an input that is there as a whole: its result, what it leaves of the input
and its output. -/
def onStreams : Talk τ ρ → List τ → List τ → ρ × List τ × List τ
  | .done result, incoming, outgoing => (result, incoming, outgoing)
  | .send item rest, incoming, outgoing => rest.onStreams incoming (outgoing ++ [item])
  | .receive next, [], outgoing => (next none).onStreams [] outgoing
  | .receive next, item :: incoming, outgoing => (next (some item)).onStreams incoming outgoing

/-- The program does not send. -/
def Listening : Talk τ ρ → Prop
  | .done _ => True
  | .send _ _ => False
  | .receive next => ∀ item, (next item).Listening

/-- The program does not receive. -/
def Speaking : Talk τ ρ → Prop
  | .done _ => True
  | .send _ rest => rest.Speaking
  | .receive _ => False

/-- Once it has begun to send, the program receives no more. -/
def Polite : Talk τ ρ → Prop
  | .done _ => True
  | .send _ rest => rest.Speaking
  | .receive next => ∀ item, (next item).Polite

theorem bind_done (t : Talk τ ρ) : t.bind Talk.done = t := by
  induction t with
  | done result => rfl
  | send item rest ih => exact congrArg (Talk.send item) ih
  | receive next ih => exact congrArg Talk.receive (funext ih)

theorem bind_assoc (t : Talk τ ρ) (f : ρ → Talk τ ρ') (g : ρ' → Talk τ κ) :
    (t.bind f).bind g = t.bind fun result => (f result).bind g := by
  induction t with
  | done result => rfl
  | send item rest ih => exact congrArg (Talk.send item) ih
  | receive next ih => exact congrArg Talk.receive (funext ih)

theorem bind_sending (chunk : List τ) (t : Talk τ ρ) (f : ρ → Talk τ κ) :
    (sending chunk t).bind f = sending chunk (t.bind f) := by
  induction chunk with
  | nil => rfl
  | cons item chunk ih => exact congrArg (Talk.send item) ih

theorem Feeds.bind {t t' : Talk τ ρ} {chunk : List τ} (h : Feeds t chunk t') (f : ρ → Talk τ κ) :
    Feeds (t.bind f) chunk (t'.bind f) := by
  induction h with
  | nil => exact .nil
  | cons _ ih => exact .cons ih

theorem onStreams_bind (t : Talk τ ρ) (f : ρ → Talk τ κ) (incoming outgoing : List τ) :
    (t.bind f).onStreams incoming outgoing =
      (f (t.onStreams incoming outgoing).1).onStreams (t.onStreams incoming outgoing).2.1
        (t.onStreams incoming outgoing).2.2 := by
  induction t generalizing incoming outgoing with
  | done result => rfl
  | send item rest ih => exact ih incoming (outgoing ++ [item])
  | receive next ih =>
    cases incoming with
    | nil => exact ih none [] outgoing
    | cons item incoming => exact ih (some item) incoming outgoing

theorem onStreams_sending (chunk : List τ) (t : Talk τ ρ) (incoming outgoing : List τ) :
    (sending chunk t).onStreams incoming outgoing = t.onStreams incoming (outgoing ++ chunk) := by
  induction chunk generalizing outgoing with
  | nil => rw [List.append_nil]; rfl
  | cons item chunk ih =>
    rw [List.append_cons]
    exact ih (outgoing ++ [item])

theorem length_onStreams_le (t : Talk τ ρ) (incoming outgoing : List τ) :
    (t.onStreams incoming outgoing).2.1.length ≤ incoming.length := by
  induction t generalizing incoming outgoing with
  | done result => exact Nat.le_refl _
  | send item rest ih => exact ih incoming _
  | receive next ih =>
    cases incoming with
    | nil => exact ih none [] outgoing
    | cons item incoming => exact Nat.le_trans (ih (some item) incoming outgoing) (Nat.le_succ _)

theorem Listening.polite {t : Talk τ ρ} (h : t.Listening) : t.Polite := by
  induction t with
  | done result => trivial
  | send item rest => exact h.elim
  | receive next ih => exact fun item => ih item (h item)

theorem Speaking.polite {t : Talk τ ρ} (h : t.Speaking) : t.Polite := by
  cases t with
  | done result => trivial
  | send item rest => exact h
  | receive next => exact h.elim

theorem Listening.bind {t : Talk τ ρ} {f : ρ → Talk τ κ} (h : t.Listening)
    (hNext : ∀ result, (f result).Listening) :
    (t.bind f).Listening := by
  induction t with
  | done result => exact hNext result
  | send item rest => exact h.elim
  | receive next ih => exact fun item => ih item (h item)

theorem Speaking.bind {t : Talk τ ρ} {f : ρ → Talk τ κ} (h : t.Speaking)
    (hNext : ∀ result, (f result).Speaking) :
    (t.bind f).Speaking := by
  induction t with
  | done result => exact hNext result
  | send item rest ih => exact ih h
  | receive next => exact h.elim

theorem Listening.bind_polite {t : Talk τ ρ} {f : ρ → Talk τ κ} (h : t.Listening)
    (hNext : ∀ result, (f result).Polite) :
    (t.bind f).Polite := by
  induction t with
  | done result => exact hNext result
  | send item rest => exact h.elim
  | receive next ih => exact fun item => ih item (h item)

theorem Speaking.exists_sending {t : Talk τ ρ} (h : t.Speaking) :
    ∃ reply result, t = sending reply (.done result) := by
  induction t with
  | done result => exact ⟨[], result, rfl⟩
  | send item rest ih =>
    obtain ⟨reply, result, hRest⟩ := ih h
    exact ⟨item :: reply, result, congrArg (Talk.send item) hRest⟩
  | receive next => exact h.elim

theorem speaking_sending (reply : List τ) (result : ρ) :
    (sending reply (.done result) : Talk τ ρ).Speaking := by
  induction reply with
  | nil => trivial
  | cons item reply ih => exact ih

/-- A polite program that takes exactly `chunk` off every input first receives the chunk and then
sends its reply. -/
theorem Polite.feeds [Nonempty τ] {t : Talk τ ρ} (h : t.Polite) {chunk reply : List τ} {result : ρ}
    (hRun : ∀ later, t.onStreams (chunk ++ later) [] = (result, later, reply)) :
    Feeds t chunk (sending reply (.done result)) := by
  induction t generalizing chunk with
  | done result' =>
    have hEnd := hRun []
    rw [List.append_nil, onStreams, Prod.mk.injEq, Prod.mk.injEq] at hEnd
    obtain ⟨rfl, rfl, rfl⟩ := hEnd
    exact .nil
  | send item rest =>
    obtain ⟨sent, result', hSending⟩ :=
      Speaking.exists_sending (show (Talk.send item rest).Speaking from h)
    have hEnd := hRun []
    rw [List.append_nil, hSending, onStreams_sending, onStreams, Prod.mk.injEq,
      Prod.mk.injEq] at hEnd
    obtain ⟨rfl, rfl, rfl⟩ := hEnd
    rw [hSending, List.nil_append]
    exact .nil
  | receive next ih =>
    cases chunk with
    | nil =>
      obtain ⟨item⟩ := ‹Nonempty τ›
      have hLeft := length_onStreams_le (next (some item)) [] []
      have hEnd := hRun [item]
      rw [List.nil_append, onStreams] at hEnd
      rw [hEnd] at hLeft
      exact absurd hLeft (Nat.not_succ_le_zero 0)
    | cons item chunk => exact .cons (ih (some item) (h (some item)) hRun)

end Talk

/-! ## Programs with a state -/

/-- Programs that work on a state of their own between two items. -/
def TalkM (ε σ τ α : Type) := σ → Talk τ (EStateM.Result ε σ α)

namespace TalkM

/-- Goes on with a result that is not an exception. -/
def resume (f : α → TalkM ε σ τ β) : EStateM.Result ε σ α → Talk τ (EStateM.Result ε σ β)
  | .ok a s => f a s
  | .error e s => .done (.error e s)

instance : Monad (TalkM ε σ τ) where
  pure a := fun s => .done (.ok a s)
  bind x f := fun s => (x s).bind (resume f)

theorem bind_apply (x : TalkM ε σ τ α) (f : α → TalkM ε σ τ β) (s : σ) :
    (x >>= f) s = (x s).bind (resume f) := rfl

instance : LawfulMonad (TalkM ε σ τ) := LawfulMonad.mk' _
  (fun x => by
    funext s
    refine Eq.trans (congrArg (Talk.bind (x s)) (funext fun result => ?_)) (Talk.bind_done (x s))
    cases result <;> rfl)
  (fun a f => rfl)
  (fun x f g => by
    funext s
    refine Eq.trans (Talk.bind_assoc (x s) (resume f) (resume g))
      (congrArg (Talk.bind (x s)) (funext fun result => ?_))
    cases result <;> rfl)

/-- A program that neither sends nor receives. -/
def locally (x : EStateM ε σ α) : TalkM ε σ τ α := fun s => .done (x.run s)

def send (chunk : List τ) : TalkM ε σ τ Unit := fun s => .sending chunk (.done (.ok () s))

/-- The next `size` items, or `short` if the stream ends before. -/
def receive (short : ε) : Nat → TalkM ε σ τ (List τ)
  | 0 => pure []
  | size + 1 => fun s => .receive fun
    | none => .done (.error short s)
    | some item => (receive short size s).bind (resume fun chunk => pure (item :: chunk))

/-- `count` results in sequence. -/
def many (x : TalkM ε σ τ α) : Nat → TalkM ε σ τ (List α)
  | 0 => return []
  | count + 1 => do
    let head ← x
    let tail ← many x count
    return head :: tail

/-- What the reader returns on a whole stream, the program returns as well, with the same items
left, and it sends nothing. -/
def Reads (x : TalkM ε σ τ α) (y : EStateM ε (List τ) α) : Prop :=
  ∀ s stream outgoing a rest, y.run stream = .ok a rest →
    (x s).onStreams stream outgoing = (.ok a s, rest, outgoing)

/-- What the server returns between two streams, the program returns as well, with the same streams
left. -/
def Refines (link : σ → List τ → List τ → κ) (x : TalkM ε σ τ α) (y : EStateM ε κ α) : Prop :=
  ∀ s incoming outgoing a k, y.run (link s incoming outgoing) = .ok a k → ∃ s' incoming' outgoing',
    k = link s' incoming' outgoing' ∧
    (x s).onStreams incoming outgoing = (.ok a s', incoming', outgoing')

theorem onStreams_bind_ok {x : TalkM ε σ τ α} {s s' : σ}
    {incoming outgoing incoming' outgoing' : List τ} {a : α}
    (h : (x s).onStreams incoming outgoing = (.ok a s', incoming', outgoing'))
    (f : α → TalkM ε σ τ β) :
    ((x >>= f) s).onStreams incoming outgoing = (f a s').onStreams incoming' outgoing' := by
  rw [bind_apply, Talk.onStreams_bind, h, resume]

theorem onStreams_receive (short : ε) (s : σ) {size : Nat} {stream : List τ} (outgoing : List τ)
    (hRoom : size ≤ stream.length) :
    (receive short size s).onStreams stream outgoing =
      (.ok (stream.take size) s, stream.drop size, outgoing) := by
  induction size generalizing stream with
  | zero => rfl
  | succ size ih =>
    cases stream with
    | nil => exact absurd hRoom (Nat.not_succ_le_zero size)
    | cons item stream =>
      rw [receive, Talk.onStreams, Talk.onStreams_bind, ih (Nat.le_of_succ_le_succ hRoom)]
      rfl

namespace Reads

variable {x : TalkM ε σ τ α} {y : EStateM ε (List τ) α}

theorem pure (a : α) : Reads (Pure.pure a : TalkM ε σ τ α) (Pure.pure a) := by
  rintro s stream outgoing _ _ ⟨⟩
  rfl

theorem bind {f : α → TalkM ε σ τ β} {g : α → EStateM ε (List τ) β} (h : Reads x y)
    (hNext : ∀ a, Reads (f a) (g a)) :
    Reads (x >>= f) (y >>= g) := by
  intro s stream outgoing b rest hRun
  obtain ⟨a, middle, hFirst, hSecond⟩ := run_bind_eq_ok hRun
  rw [onStreams_bind_ok (h s stream outgoing a middle hFirst)]
  exact hNext a s middle outgoing b rest hSecond

theorem check (refused : Prop) [Decidable refused] (e : ε) :
    Reads (locally (throwIf refused e) : TalkM ε σ τ Unit) (throwIf refused e) := by
  intro s stream outgoing _ rest hRun
  obtain ⟨hAccepted, rfl⟩ := run_throwIf_eq_ok hRun
  rw [locally, throwIf, if_neg hAccepted]
  rfl

theorem fromExcept (z : Except ε α) :
    Reads (locally (Program.fromExcept z) : TalkM ε σ τ α) (Program.fromExcept z) := by
  intro s stream outgoing a rest hRun
  obtain ⟨rfl, rfl⟩ := run_fromExcept_eq_ok hRun
  rfl

theorem take (short : ε) (size : Nat) :
    Reads (receive short size : TalkM ε σ τ (List τ)) (Streams.take short size) := by
  intro s stream outgoing chunk rest hRun
  obtain ⟨_, _, hGet, hCheck⟩ := run_bind_eq_ok hRun
  cases hGet
  obtain ⟨_, _, hSize, hSet⟩ := run_bind_eq_ok hCheck
  obtain ⟨hRoom, hSame⟩ := run_throwIf_eq_ok hSize
  cases hSame
  cases hSet
  exact onStreams_receive short s outgoing (Nat.le_of_not_lt hRoom)

theorem many (h : Reads x y) (count : Nat) : Reads (TalkM.many x count) (Streams.many y count) := by
  induction count with
  | zero => exact pure []
  | succ count ih => exact h.bind fun head => ih.bind fun tail => pure (head :: tail)

/-- A chunk that the reader takes off every stream is received, if the program does not send. -/
theorem feeds [Nonempty τ] (h : Reads x y) {s : σ} {chunk : List τ} {a : α}
    (hListens : (x s).Listening)
    (hTakes : Streams.Takes y chunk a) : Talk.Feeds (x s) chunk (.done (.ok a s)) := by
  have hSilent : Talk.Feeds (x s) chunk (.sending [] (.done (.ok a s))) :=
    hListens.polite.feeds fun later => h s (chunk ++ later) [] a later (hTakes later)
  exact hSilent

end Reads

namespace Refines

variable {link : σ → List τ → List τ → κ} {x : TalkM ε σ τ α} {y : EStateM ε κ α}

theorem pure (a : α) : Refines link (Pure.pure a : TalkM ε σ τ α) (Pure.pure a) := by
  rintro s incoming outgoing _ _ ⟨⟩
  exact ⟨s, incoming, outgoing, rfl, rfl⟩

theorem bind {f : α → TalkM ε σ τ β} {g : α → EStateM ε κ β} (h : Refines link x y)
    (hNext : ∀ a, Refines link (f a) (g a)) :
    Refines link (x >>= f) (y >>= g) := by
  intro s incoming outgoing b k hRun
  obtain ⟨a, _, hFirst, hSecond⟩ := run_bind_eq_ok hRun
  obtain ⟨s', incoming', outgoing', rfl, hStreams⟩ := h s incoming outgoing a _ hFirst
  rw [onStreams_bind_ok hStreams]
  exact hNext a s' incoming' outgoing' b k hSecond

theorem check (refused : Prop) [Decidable refused] (e : ε) :
    Refines link (locally (throwIf refused e)) (throwIf refused e) := by
  intro s incoming outgoing _ k hRun
  obtain ⟨hAccepted, rfl⟩ := run_throwIf_eq_ok hRun
  refine ⟨s, incoming, outgoing, rfl, ?_⟩
  rw [locally, throwIf, if_neg hAccepted]
  rfl

theorem fromExcept (z : Except ε α) :
    Refines link (locally (Program.fromExcept z)) (Program.fromExcept z) := by
  intro s incoming outgoing a k hRun
  obtain ⟨rfl, rfl⟩ := run_fromExcept_eq_ok hRun
  exact ⟨s, incoming, outgoing, rfl, rfl⟩

theorem of_reads {view : κ → List τ} {update : κ → List τ → κ} {z : EStateM ε (List τ) α}
    (hView : ∀ s stream sent, view (link s stream sent) = stream)
    (hUpdate : ∀ s stream sent rest, update (link s stream sent) rest = link s rest sent)
    (h : Reads x z) :
    Refines link x (zoom view update z) := by
  intro s incoming outgoing a k hRun
  obtain ⟨rest, hRead, rfl⟩ := run_zoom_eq_ok hRun
  rw [hView] at hRead
  exact ⟨s, rest, outgoing, hUpdate s incoming outgoing rest, h s incoming outgoing a rest hRead⟩

theorem of_local {view : κ → σ} {update : κ → σ → κ} {z : EStateM ε σ α}
    (hView : ∀ s stream sent, view (link s stream sent) = s)
    (hUpdate : ∀ s stream sent s', update (link s stream sent) s' = link s' stream sent) :
    Refines link (locally z) (zoom view update z) := by
  intro s incoming outgoing a k hRun
  obtain ⟨s', hLocal, rfl⟩ := run_zoom_eq_ok hRun
  rw [hView] at hLocal
  refine ⟨s', incoming, outgoing, hUpdate s incoming outgoing s', ?_⟩
  rw [locally, hLocal]
  rfl

theorem send {z : EStateM ε κ Unit} (chunk : List τ) (hSend : ∀ s incoming outgoing,
      z.run (link s incoming outgoing) = .ok () (link s incoming (outgoing ++ chunk))) :
    Refines link (TalkM.send chunk) z := by
  intro s incoming outgoing _ k hRun
  rw [hSend] at hRun
  cases hRun
  refine ⟨s, incoming, outgoing ++ chunk, rfl, ?_⟩
  rw [TalkM.send, Talk.onStreams_sending]
  rfl

theorem forM {items : List β} {body : β → TalkM ε σ τ PUnit} {body' : β → EStateM ε κ PUnit}
    (h : ∀ item, Refines link (body item) (body' item)) :
    Refines link (forM items body) (forM items body') := by
  induction items with
  | nil => exact pure PUnit.unit
  | cons item items ih =>
    rw [List.forM_cons, List.forM_cons]
    exact (h item).bind fun _ => ih

/-- A program that refines a server first receives what the server takes, and then sends what the
server answers. -/
theorem feeds [Nonempty τ] {y : EStateM ε κ α} (h : Refines link x y)
    (hLink : ∀ s incoming outgoing s' incoming' outgoing',
      link s incoming outgoing = link s' incoming' outgoing' →
      s = s' ∧ incoming = incoming' ∧ outgoing = outgoing')
    {s s' : σ} {chunk reply : List τ} {a : α} (hPolite : (x s).Polite)
    (hServes : Streams.Serves link y s chunk reply a s') :
    Talk.Feeds (x s) chunk (.sending reply (.done (.ok a s'))) := by
  refine hPolite.feeds fun later => ?_
  obtain ⟨_, _, _, hEnd, hStreams⟩ := h s (chunk ++ later) [] a _ (hServes later [])
  obtain ⟨rfl, rfl, rfl⟩ := hLink _ _ _ _ _ _ hEnd
  exact hStreams

end Refines

/-! Who sends and who receives. -/
section Manners

variable {x : TalkM ε σ τ α} {f : α → TalkM ε σ τ β}

def Listens (x : TalkM ε σ τ α) : Prop := ∀ s, (x s).Listening

def Speaks (x : TalkM ε σ τ α) : Prop := ∀ s, (x s).Speaking

def Polite (x : TalkM ε σ τ α) : Prop := ∀ s, (x s).Polite

theorem Listens.polite (h : Listens x) : Polite x := fun s => (h s).polite

theorem Speaks.polite (h : Speaks x) : Polite x := fun s => (h s).polite

theorem listens_pure (a : α) : Listens (pure a : TalkM ε σ τ α) := fun _ => trivial

theorem listens_locally (y : EStateM ε σ α) : Listens (locally y : TalkM ε σ τ α) :=
  fun _ => trivial

theorem speaks_locally (y : EStateM ε σ α) : Speaks (locally y : TalkM ε σ τ α) := fun _ => trivial

theorem speaks_send (chunk : List τ) : Speaks (send chunk : TalkM ε σ τ Unit) :=
  fun _ => Talk.speaking_sending chunk _

theorem Listens.bind (h : Listens x) (hNext : ∀ a, Listens (f a)) : Listens (x >>= f) := by
  intro s
  apply (h s).bind
  rintro (⟨a, s'⟩ | ⟨e, s'⟩)
  · exact hNext a s'
  · trivial

theorem Speaks.bind (h : Speaks x) (hNext : ∀ a, Speaks (f a)) : Speaks (x >>= f) := by
  intro s
  apply (h s).bind
  rintro (⟨a, s'⟩ | ⟨e, s'⟩)
  · exact hNext a s'
  · trivial

theorem Listens.bind_polite (h : Listens x) (hNext : ∀ a, Polite (f a)) : Polite (x >>= f) := by
  intro s
  apply (h s).bind_polite
  rintro (⟨a, s'⟩ | ⟨e, s'⟩)
  · exact hNext a s'
  · trivial

theorem listens_receive (short : ε) (size : Nat) :
    Listens (receive short size : TalkM ε σ τ (List τ)) := by
  induction size with
  | zero => exact listens_pure []
  | succ size ih =>
    rintro s (_ | item)
    · trivial
    · exact (ih.bind fun chunk => listens_pure (item :: chunk)) s

theorem listens_many (h : Listens x) (count : Nat) : Listens (many x count) := by
  induction count with
  | zero => exact listens_pure []
  | succ count ih => exact h.bind fun head => ih.bind fun tail => listens_pure (head :: tail)

theorem listens_forM {items : List β} {body : β → TalkM ε σ τ PUnit}
    (h : ∀ item, Listens (body item)) :
    Listens (forM items body) := by
  induction items with
  | nil => exact listens_pure _
  | cons item items ih =>
    rw [List.forM_cons]
    exact (h item).bind fun _ => ih

theorem speaks_forM {items : List β} {body : β → TalkM ε σ τ PUnit}
    (h : ∀ item, Speaks (body item)) :
    Speaks (forM items body) := by
  induction items with
  | nil => exact fun _ => trivial
  | cons item items ih =>
    rw [List.forM_cons]
    exact (h item).bind fun _ => ih

end Manners
end TalkM

/-! ## The connection -/

/-- How many items fit into a stream, and with which program a side goes on once it is done. -/
structure Setting (τ ρ ρ' : Type) where
  capacity : Nat
  client : ρ → Option (Talk τ ρ)
  server : ρ' → Option (Talk τ ρ')

structure Connection (τ ρ ρ' : Type) where
  client : Talk τ ρ
  server : Talk τ ρ'
  toServer : List τ := []
  toClient : List τ := []

inductive Side
  | client
  | server
  deriving DecidableEq, Repr

/-- The side will never send again. -/
def halted (again : ρ → Option (Talk τ ρ)) : Talk τ ρ → Bool
  | .done result => (again result).isNone
  | _ => false

/-- The next step of one side, with its two streams. It waits where its outgoing stream is full, and
where its incoming stream is empty but not `closed`. -/
def advance (capacity : Nat) (again : ρ → Option (Talk τ ρ)) (closed : Bool) :
    Talk τ ρ → List τ → List τ → Option (Talk τ ρ × List τ × List τ)
  | .done result, incoming, outgoing => (again result).map fun t => (t, incoming, outgoing)
  | .send item rest, incoming, outgoing =>
    if outgoing.length < capacity then some (rest, incoming, outgoing ++ [item]) else none
  | .receive next, item :: incoming, outgoing => some (next (some item), incoming, outgoing)
  | .receive next, [], outgoing => if closed then some (next none, [], outgoing) else none

namespace Connection

variable (setting : Setting τ ρ ρ')

def step : Side → Connection τ ρ ρ' → Option (Connection τ ρ ρ')
  | .client, c =>
    (advance setting.capacity setting.client (halted setting.server c.server) c.client
      c.toClient c.toServer).map
      fun (t, incoming, outgoing) =>
        { c with client := t, toClient := incoming, toServer := outgoing }
  | .server, c =>
    (advance setting.capacity setting.server (halted setting.client c.client) c.server
      c.toServer c.toClient).map
      fun (t, incoming, outgoing) =>
        { c with server := t, toServer := incoming, toClient := outgoing }

/-- One of the two sides makes a step. -/
def Moves (c c' : Connection τ ρ ρ') : Prop := ∃ side, c.step setting side = some c'

end Connection

section Steps

variable {capacity : Nat} {again : ρ → Option (Talk τ ρ)} {t t' : Talk τ ρ}
  {incoming incoming' outgoing outgoing' : List τ}

theorem halted_of_advance {closed : Bool}
    (h : advance capacity again closed t incoming outgoing = some (t', incoming', outgoing')) :
    halted again t = false := by
  cases t with
  | done result =>
    rw [advance, Option.map_eq_some_iff] at h
    obtain ⟨next, hNext, _⟩ := h
    rw [halted, hNext, Option.isNone_some]
  | send item rest => rfl
  | receive next => rfl

/-- What a side takes off the front of one stream and puts at the end of the other one does not
depend on what follows there, nor on how much of the other stream is still unread. -/
theorem advance_frame
    (h : advance capacity again false t incoming outgoing = some (t', incoming', outgoing')) :
    ∃ taken added, incoming = taken ++ incoming' ∧ outgoing' = outgoing ++ added ∧
    ∀ closed later read rest,
      outgoing = read ++ rest →
      advance capacity again closed t (incoming ++ later) rest =
        some (t', incoming' ++ later, rest ++ added) := by
  cases t with
  | done result =>
    rw [advance, Option.map_eq_some_iff] at h
    obtain ⟨next, hNext, hEnd⟩ := h
    cases hEnd
    refine ⟨[], [], rfl, (List.append_nil _).symm, fun closed later read rest _ => ?_⟩
    rw [advance, hNext, List.append_nil]
    rfl
  | send item rest =>
    rw [advance] at h
    split at h
    · rename_i hRoom
      cases h
      refine ⟨[], [item], rfl, rfl, fun closed later read unread hRead => ?_⟩
      rw [hRead, List.length_append] at hRoom
      rw [advance, if_pos (by omega)]
    · cases h
  | receive next =>
    cases incoming with
    | nil => cases h
    | cons item incoming =>
      cases h
      refine ⟨[item], [], rfl, (List.append_nil _).symm, fun closed later read rest _ => ?_⟩
      rw [List.append_nil]
      rfl

end Steps

namespace Connection

variable {setting : Setting τ ρ ρ'} {c c₁ c₂ : Connection τ ρ ρ'}

theorem step_client (h : c.step setting .client = some c₁) : ∃ t incoming outgoing,
    advance setting.capacity setting.client (halted setting.server c.server) c.client
      c.toClient c.toServer =
      some (t, incoming, outgoing) ∧
      c₁ = { c with client := t, toClient := incoming, toServer := outgoing } := by
  obtain ⟨⟨t, incoming, outgoing⟩, hAdvance, rfl⟩ := Option.map_eq_some_iff.mp h
  exact ⟨t, incoming, outgoing, hAdvance, rfl⟩

theorem step_server (h : c.step setting .server = some c₁) : ∃ t incoming outgoing,
    advance setting.capacity setting.server (halted setting.client c.client) c.server
      c.toServer c.toClient =
      some (t, incoming, outgoing) ∧
      c₁ = { c with server := t, toServer := incoming, toClient := outgoing } := by
  obtain ⟨⟨t, incoming, outgoing⟩, hAdvance, rfl⟩ := Option.map_eq_some_iff.mp h
  exact ⟨t, incoming, outgoing, hAdvance, rfl⟩

/-- Steps of the two sides commute. -/
theorem step_comm (hClient : c.step setting .client = some c₁)
    (hServer : c.step setting .server = some c₂) :
    ∃ d, c₁.step setting .server = some d ∧ c₂.step setting .client = some d := by
  obtain ⟨t, toClient, toServer, hAdvance, rfl⟩ := step_client hClient
  obtain ⟨t', toServer', toClient', hAdvance', rfl⟩ := step_server hServer
  rw [halted_of_advance hAdvance'] at hAdvance
  rw [halted_of_advance hAdvance] at hAdvance'
  obtain ⟨taken, added, hTaken, rfl, hFrame⟩ := advance_frame hAdvance
  obtain ⟨taken', added', hTaken', rfl, hFrame'⟩ := advance_frame hAdvance'
  refine ⟨⟨t, t', toServer' ++ added, toClient ++ added'⟩, ?_, ?_⟩
  · rw [step, hFrame' _ added taken toClient hTaken]
    rfl
  · rw [step, hFrame _ added' taken' toServer' hTaken']
    rfl

theorem diamond_moves (setting : Setting τ ρ ρ') : Diamond (Moves setting) := by
  rintro c c₁ c₂ ⟨side, hFirst⟩ ⟨side', hSecond⟩
  cases side <;> cases side'
  case client.client => exact Or.inl (Option.some.inj (hFirst.symm.trans hSecond))
  case server.server => exact Or.inl (Option.some.inj (hFirst.symm.trans hSecond))
  case client.server =>
    obtain ⟨d, hServer, hClient⟩ := step_comm hFirst hSecond
    exact Or.inr ⟨d, ⟨.server, hServer⟩, ⟨.client, hClient⟩⟩
  case server.client =>
    obtain ⟨d, hServer, hClient⟩ := step_comm hSecond hFirst
    exact Or.inr ⟨d, ⟨.client, hClient⟩, ⟨.server, hServer⟩⟩

section Transfers

variable {t t' : Talk τ ρ} {u u' : Talk τ ρ'} {chunk : List τ}

/-- A chunk of any length goes through streams of any capacity, one item at a time. -/
theorem reaches_toServer (hCapacity : 0 < setting.capacity) (h : Talk.Feeds u chunk u') :
    Reaches (Moves setting) ⟨.sending chunk t, u, [], []⟩ ⟨t, u', [], []⟩ := by
  induction h with
  | nil => exact .refl _
  | @cons next item chunk u' _ ih =>
    have hSend : Moves setting ⟨.sending (item :: chunk) t, .receive next, [], []⟩
        ⟨.sending chunk t, .receive next, [item], []⟩ := by
      refine ⟨.client, ?_⟩
      exact congrArg (Option.map _) (if_pos hCapacity)
    exact .head hSend (.head ⟨.server, rfl⟩ ih)

theorem reaches_toClient (hCapacity : 0 < setting.capacity) (h : Talk.Feeds t chunk t') :
    Reaches (Moves setting) ⟨t, .sending chunk u, [], []⟩ ⟨t', u, [], []⟩ := by
  induction h with
  | nil => exact .refl _
  | @cons next item chunk t' _ ih =>
    have hSend : Moves setting ⟨.receive next, .sending (item :: chunk) u, [], []⟩
        ⟨.receive next, .sending chunk u, [], [item]⟩ := by
      refine ⟨.server, ?_⟩
      exact congrArg (Option.map _) (if_pos hCapacity)
    exact .head hSend (.head ⟨.client, rfl⟩ ih)

/-- A request and its answer, with a server that goes on where it was done. -/
theorem reaches_exchange (hCapacity : 0 < setting.capacity) {result result' : ρ'}
    {request response : List τ} (hAgain : setting.server result = some u)
    (hServer : Talk.Feeds u request (.sending response (.done result')))
    (hClient : Talk.Feeds t response t') :
    Reaches (Moves setting) ⟨.sending request t, .done result, [], []⟩
      ⟨t', .done result', [], []⟩ := by
  have hStart : Moves setting ⟨.sending request t, .done result, [], []⟩
      ⟨.sending request t, u, [], []⟩ := by
    refine ⟨.server, ?_⟩
    rw [step, advance, hAgain]
    rfl
  exact .head hStart
    ((reaches_toServer hCapacity hServer).trans (reaches_toClient hCapacity hClient))

end Transfers
end Connection

end OramHub.Dialogue

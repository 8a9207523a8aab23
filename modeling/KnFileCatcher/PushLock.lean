import KnFileCatcher.Ownership

/-! Threads that share a table under a reader-writer lock. Parts of the table lie in pool
blocks, and a thread may hold blocks of its own. Nothing stops a thread from a wrong access:
the log and a flag show it. -/

namespace PushLock

open Ownership (Block Event Orderly)

variable {T Kind γ V Op A ν α β : Type}

inductive Mode where
  | shared
  | exclusive
deriving DecidableEq

/-- One access. `look` and `set` are to the table, `tick` is to a counter beside it. -/
inductive Call (Kind γ V : Type) where
  | alloc (kind : Kind)
  | read (b : Block Kind)
  | write (b : Block Kind) (f : V → V)
  | free (b : Block Kind)
  | look
  | set (f : γ → γ)
  | acquire (m : Mode)
  | release
  | tick

def Call.Answer : Call Kind γ V → Type
  | .alloc _ => Block Kind
  | .read _ => V
  | .look => γ
  | .write _ _ | .free _ | .set _ | .acquire _ | .release | .tick => Unit

inductive Program (Kind γ V α : Type) where
  | done (a : α)
  | call (c : Call Kind γ V) (next : c.Answer → Program Kind γ V α)

namespace Program

protected def bind : Program Kind γ V α → (α → Program Kind γ V β) → Program Kind γ V β
  | .done a, f => f a
  | .call c next, f => .call c fun answer => (next answer).bind f

instance : Monad (Program Kind γ V) where
  pure := .done
  bind := Program.bind

def perform (c : Call Kind γ V) : Program Kind γ V c.Answer := .call c .done

end Program

/-- What a history has of a thread. A section is noted when it releases the lock. -/
inductive Moment (T Op A : Type) where
  | called (t : T) (op : Op)
  | sectioned (t : T) (op : Op)
  | returned (t : T) (op : Op) (a : A)
deriving DecidableEq

def Moment.thread : Moment T Op A → T
  | .called t _ | .sectioned t _ | .returned t _ _ => t

/-- Logs have their newest entry first. The counter is the number of its ticks. -/
structure System (T Kind γ V Op A : Type) where
  table : γ
  content : Block Kind → V
  blocks : Nat
  readers : List T
  writer : Option T
  running : T → Option (Op × Program Kind γ V A)
  ticks : List T
  misused : Bool
  log : List (Event T Kind)
  history : List (Moment T Op A)

inductive Action (T Op : Type) where
  | call (t : T) (op : Op)
  | step (t : T)

section Machine

variable [DecidableEq T] [DecidableEq Kind]

namespace System

def init (table : γ) (content : Block Kind → V) : System T Kind γ V Op A where
  table
  content
  blocks := 0
  readers := []
  writer := none
  running _ := none
  ticks := []
  misused := false
  log := []
  history := []

def holds (s : System T Kind γ V Op A) (t : T) : Bool :=
  decide (s.writer = some t) || decide (t ∈ s.readers)

def note (s : System T Kind γ V Op A) (e : Event T Kind) : System T Kind γ V Op A :=
  { s with log := e :: s.log }

/-- A call of `t` in its operation `op`; there is no result while the lock is not free. -/
def perform (s : System T Kind γ V Op A) (t : T) (op : Op) :
    (c : Call Kind γ V) → Option (c.Answer × System T Kind γ V Op A)
  | .alloc kind => some ((⟨kind, s.blocks⟩ : Block Kind),
      { s.note (.allocated t ⟨kind, s.blocks⟩) with blocks := s.blocks + 1 })
  | .read b => some (s.content b, s.note (.used b))
  | .write b f => some ((),
      { s.note (.used b) with content := Function.update s.content b (f (s.content b)) })
  | .free b => some ((), s.note (.freed b))
  | .look => some (s.table, { s with misused := s.misused || !s.holds t })
  | .set f => some ((),
      { s with table := f s.table, misused := s.misused || decide (s.writer ≠ some t) })
  | .acquire .shared =>
    if s.writer = none then some ((), { s with readers := t :: s.readers }) else none
  | .acquire .exclusive =>
    if s.writer = none ∧ s.readers = [] then some ((), { s with writer := some t }) else none
  | .release =>
    let s' := { s with history := .sectioned t op :: s.history }
    if s.writer = some t then some ((), { s' with writer := none })
    else some ((), { s' with readers := s.readers.erase t, misused := s.misused || !s.holds t })
  | .tick => some ((), { s with ticks := t :: s.ticks })

def resume (s : System T Kind γ V Op A) (t : T) (r : Option (Op × Program Kind γ V A)) :
    System T Kind γ V Op A :=
  { s with running := Function.update s.running t r }

end System

variable (program : Op → Program Kind γ V A)

/-- A thread runs one operation at a time, one access in each step. -/
def step (s : System T Kind γ V Op A) : Action T Op → Option (System T Kind γ V Op A)
  | .call t op =>
    match s.running t with
    | some _ => none
    | none =>
      some { s.resume t (some (op, program op)) with history := .called t op :: s.history }
  | .step t =>
    match s.running t with
    | none => none
    | some (op, .done a) =>
      some { s.resume t none with history := .returned t op a :: s.history }
    | some (op, .call c next) =>
      (s.perform t op c).map fun r => r.2.resume t (some (op, next r.1))

end Machine

abbrev Own (Kind V : Type) := Block Kind → Option V

def Own.empty : Own Kind V := fun _ => none

def Own.join (L G : Own Kind V) : Own Kind V := fun b => (L b).orElse fun _ => G b

def Own.without (L G : Own Kind V) : Own Kind V := fun b => if (G b).isSome then none else L b

theorem Own.join_single [DecidableEq Kind] {G : Own Kind V} {b : Block Kind} {v : V}
    (hG : G b = none) :
    Own.join (Function.update Own.empty b (some v)) G = Function.update G b (some v) := by
  funext b'
  by_cases hb : b' = b
  · subst hb
    simp [Own.join]
  · simp [Own.join, hb, Own.empty]

theorem Own.empty_join (G : Own Kind V) : Own.join .empty G = G := by
  funext b
  simp [Own.join, Own.empty]

theorem Own.without_self (L : Own Kind V) : Own.without L L = .empty := by
  funext b
  cases hb : L b <;> simp [Own.without, hb, Own.empty]

/-- The relation that the lock keeps between the table, the blocks of the table and an
abstract state, and what each operation does to that state. `seen` also holds within a
section, for the state before it or for the state after it. An answer costs some ticks. -/
structure Contract (Kind γ V Op A ν : Type) where
  inv : γ → Own Kind V → ν → Prop
  spec : Op → ν → A × ν
  seen : γ → ν → Prop
  cost : A → Nat
  inv_seen : ∀ g G n, inv g G n → seen g n

/-- Where an operation is, with what it found as it took the lock. -/
inductive Phase (Kind γ V A ν : Type) where
  | before
  | reading (g : γ) (G : Own Kind V) (n : ν)
  | writing (g : γ) (n : ν)
  | after (a : A) (paid : Nat)

def Phase.lent : Phase Kind γ V A ν → Own Kind V
  | .reading _ G _ => G
  | .before | .writing _ _ | .after _ _ => .empty

def Phase.table : Phase Kind γ V A ν → Option γ
  | .reading g _ _ | .writing g _ => some g
  | .before | .after _ _ => none

section Rules

variable [DecidableEq Kind] (C : Contract Kind γ V Op A ν) (op : Op)

/-- What a call needs, and what it leaves with each answer. -/
def Call.Spec : (c : Call Kind γ V) → Own Kind V → Phase Kind γ V A ν →
    (c.Answer → Own Kind V → Phase Kind γ V A ν → Prop) → Prop
  | .alloc kind, L, ph, Q => ∀ (b : Block Kind) (v : V), b.kind = kind → L b = none →
      ph.lent b = none → Q b (Function.update L b (some v)) ph
  | .read b, L, ph, Q => ∃ v : V, (L b = some v ∨ ph.lent b = some v) ∧ Q v L ph
  | .write b f, L, ph, Q => ∃ v : V, L b = some v ∧ Q () (Function.update L b (some (f v))) ph
  | .free b, L, ph, Q => L b ≠ none ∧ Q () (Function.update L b none) ph
  | .look, L, ph, Q => ∃ g : γ, ph.table = some g ∧ Q g L ph
  | .set f, L, ph, Q => ∃ (g : γ) (n : ν), ph = .writing g n ∧
      (C.seen (f g) n ∨ C.seen (f g) (C.spec op n).2) ∧ Q () L (.writing (f g) n)
  | .acquire .shared, L, ph, Q => ph = .before ∧ ∀ (g : γ) (G : Own Kind V) (n : ν), C.inv g G n →
      (∀ b, G b ≠ none → L b = none) → Q () L (.reading g G n)
  | .acquire .exclusive, L, ph, Q => ph = .before ∧ ∀ (g : γ) (G : Own Kind V) (n : ν),
      C.inv g G n → (∀ b, G b ≠ none → L b = none) → Q () (L.join G) (.writing g n)
  | .release, L, ph, Q => match ph with
    | .reading _ _ n => (C.spec op n).2 = n ∧ Q () L (.after (C.spec op n).1 0)
    | .writing g n => ∃ G : Own Kind V, (∀ b v, G b = some v → L b = some v) ∧
        C.inv g G (C.spec op n).2 ∧ Q () (L.without G) (.after (C.spec op n).1 0)
    | .before | .after _ _ => False
  | .tick, L, ph, Q => ∃ a paid, ph = .after a paid ∧ paid < C.cost a ∧ Q () L (.after a (paid + 1))

theorem Call.Spec.mono {C : Contract Kind γ V Op A ν} {op : Op} {c : Call Kind γ V}
    {L : Own Kind V} {ph : Phase Kind γ V A ν}
    {Q Q' : c.Answer → Own Kind V → Phase Kind γ V A ν → Prop} (h : c.Spec C op L ph Q)
    (hQ : ∀ a L' ph', Q a L' ph' → Q' a L' ph') : c.Spec C op L ph Q' := by
  cases c with
  | alloc kind => exact fun b v hb hL hG => hQ _ _ _ (h b v hb hL hG)
  | read b =>
    obtain ⟨v, hv, h⟩ := h
    exact ⟨v, hv, hQ _ _ _ h⟩
  | write b f =>
    obtain ⟨v, hv, h⟩ := h
    exact ⟨v, hv, hQ _ _ _ h⟩
  | free b => exact ⟨h.1, hQ _ _ _ h.2⟩
  | look =>
    obtain ⟨g, hg, h⟩ := h
    exact ⟨g, hg, hQ _ _ _ h⟩
  | set f =>
    obtain ⟨g, n, hph, hseen, h⟩ := h
    exact ⟨g, n, hph, hseen, hQ _ _ _ h⟩
  | acquire m =>
    cases m with
    | shared => exact ⟨h.1, fun g G n hinv hd => hQ _ _ _ (h.2 g G n hinv hd)⟩
    | exclusive => exact ⟨h.1, fun g G n hinv hd => hQ _ _ _ (h.2 g G n hinv hd)⟩
  | release =>
    cases ph with
    | before => exact h
    | reading g G n => exact ⟨h.1, hQ _ _ _ h.2⟩
    | writing g n =>
      obtain ⟨G, hG, hinv, h⟩ := h
      exact ⟨G, hG, hinv, hQ _ _ _ h⟩
    | after a paid => exact h
  | tick =>
    obtain ⟨a, paid, hph, hlt, h⟩ := h
    exact ⟨a, paid, hph, hlt, hQ _ _ _ h⟩

/-- What an operation may return with: its section gave that answer, or it took no lock and
every state gives it. It keeps no block. -/
def Returns (a : A) (L : Own Kind V) (ph : Phase Kind γ V A ν) : Prop :=
  (∀ b, L b = none) ∧
    match ph with
    | .before => (∀ n, C.spec op n = (a, n)) ∧ C.cost a = 0
    | .after a' paid => a' = a ∧ paid = C.cost a
    | .reading _ _ _ | .writing _ _ => False

namespace Program

def wp : Program Kind γ V α → Own Kind V → Phase Kind γ V A ν →
    (α → Own Kind V → Phase Kind γ V A ν → Prop) → Prop
  | .done a, L, ph, Q => Q a L ph
  | .call c next, L, ph, Q => c.Spec C op L ph fun answer L' ph' => (next answer).wp L' ph' Q

variable {C op} {L : Own Kind V} {ph : Phase Kind γ V A ν}
  {Q Q' : α → Own Kind V → Phase Kind γ V A ν → Prop}

theorem wp.mono {p : Program Kind γ V α} (h : p.wp C op L ph Q)
    (hQ : ∀ a L' ph', Q a L' ph' → Q' a L' ph') : p.wp C op L ph Q' := by
  induction p generalizing L ph with
  | done a => exact hQ a L ph h
  | call c next ih => exact Call.Spec.mono h fun a L' ph' h' => ih a h'

theorem wp_bind {p : Program Kind γ V β} {f : β → Program Kind γ V α}
    (h : p.wp C op L ph fun b L' ph' => (f b).wp C op L' ph' Q) :
    (p >>= f).wp C op L ph Q := by
  induction p generalizing L ph with
  | done b => exact h
  | call c next ih => exact Call.Spec.mono h fun a L' ph' h' => ih a h'

theorem wp_call {c : Call Kind γ V} {f : c.Answer → Program Kind γ V α}
    (h : c.Spec C op L ph fun a L' ph' => (f a).wp C op L' ph' Q) :
    (perform c >>= f).wp C op L ph Q := h

theorem wp_look {g : γ} {f : γ → Program Kind γ V α} (hg : ph.table = some g)
    (h : (f g).wp C op L ph Q) : (perform .look >>= f).wp C op L ph Q :=
  ⟨g, hg, h⟩

theorem wp_ite {b : Prop} [Decidable b] {p q : Program Kind γ V α}
    (hp : b → p.wp C op L ph Q) (hq : ¬ b → q.wp C op L ph Q) :
    (if b then p else q).wp C op L ph Q := by
  by_cases hb : b
  · rw [if_pos hb]
    exact hp hb
  · rw [if_neg hb]
    exact hq hb

/-- The program answers `a`, and leaves everything as it is. -/
def Finds (C : Contract Kind γ V Op A ν) (op : Op) (p : Program Kind γ V α) (L : Own Kind V)
    (ph : Phase Kind γ V A ν) (a : α) : Prop :=
  p.wp C op L ph fun a' L' ph' => a' = a ∧ L' = L ∧ ph' = ph

theorem Finds.bind {p : Program Kind γ V β} {f : β → Program Kind γ V α} {b : β}
    (h : p.Finds C op L ph b) (hf : (f b).wp C op L ph Q) : (p >>= f).wp C op L ph Q := by
  refine wp_bind (wp.mono h ?_)
  rintro _ _ _ ⟨rfl, rfl, rfl⟩
  exact hf

end Program

/-- The programs meet the contract from the state in which nothing is held. -/
def Sound (program : Op → Program Kind γ V A) : Prop :=
  ∀ op, (program op).wp C op .empty .before (Returns C op)

end Rules

/-- The state that the sections of a history lead to. -/
def after (C : Contract Kind γ V Op A ν) (n : ν) : List (Moment T Op A) → ν
  | [] => n
  | .sectioned _ op :: past => (C.spec op (after C n past)).2
  | .called _ _ :: past | .returned _ _ _ :: past => after C n past

end PushLock

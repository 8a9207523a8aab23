import Mathlib.Tactic

/-! Programs that call out of themselves. What they hold is a state beside them: it says which
calls are in order, what the surroundings promise to answer, and what is held then. -/

namespace Custody

variable {Op : Type} {Answer : Op → Type} {γ α β : Type}

inductive Program (Op : Type) (Answer : Op → Type) (α : Type) where
  | done (a : α)
  | call (op : Op) (next : Answer op → Program Op Answer α)

abbrev Exchange (Op : Type) (Answer : Op → Type) := (op : Op) × Answer op

namespace Program

protected def bind : Program Op Answer α → (α → Program Op Answer β) → Program Op Answer β
  | .done a, f => f a
  | .call op next, f => .call op fun answer => (next answer).bind f

instance : Monad (Program Op Answer) where
  pure := .done
  bind := Program.bind

def perform (op : Op) : Program Op Answer (Answer op) := .call op .done

/-- The calls of a run, with their answers, and its result. -/
inductive Runs : Program Op Answer α → List (Exchange Op Answer) → α → Prop where
  | done (a : α) : Runs (.done a) [] a
  | call {op : Op} {next : Answer op → Program Op Answer α} {tr : List (Exchange Op Answer)}
      {a : α} (answer : Answer op) (h : Runs (next answer) tr a) :
      Runs (.call op next) (⟨op, answer⟩ :: tr) a

/-- The run among surroundings that answer by a rule. -/
def drive {σ : Type} (world : σ → (op : Op) → Answer op × σ) :
    Program Op Answer α → σ → List (Exchange Op Answer) × α
  | .done a, _ => ([], a)
  | .call op next, s =>
    let answer := (world s op).1
    let rest := (next answer).drive world (world s op).2
    (⟨op, answer⟩ :: rest.1, rest.2)

theorem runs_drive {σ : Type} (world : σ → (op : Op) → Answer op × σ) (p : Program Op Answer α)
    (s : σ) : p.Runs (p.drive world s).1 (p.drive world s).2 := by
  induction p generalizing s with
  | done a => exact .done a
  | call op next ih => exact .call _ (ih _ _)

end Program

structure Terms (Op : Type) (Answer : Op → Type) (γ : Type) where
  legal : γ → Op → Prop
  promised : γ → (op : Op) → Answer op → Prop
  after : γ → (op : Op) → Answer op → γ

namespace Terms

variable (T : Terms Op Answer γ)

def Honest : γ → List (Exchange Op Answer) → Prop
  | _, [] => True
  | g, e :: tr => T.promised g e.1 e.2 ∧ Honest (T.after g e.1 e.2) tr

def Legal : γ → List (Exchange Op Answer) → Prop
  | _, [] => True
  | g, e :: tr => T.legal g e.1 ∧ Legal (T.after g e.1 e.2) tr

def final (g : γ) (tr : List (Exchange Op Answer)) : γ := tr.foldl (fun g e => T.after g e.1 e.2) g

/-- Every call of the program is in order, and it ends in `Q`. -/
def wp : Program Op Answer α → γ → (α → γ → Prop) → Prop
  | .done a, g, Q => Q a g
  | .call op next, g, Q =>
    T.legal g op ∧ ∀ answer, T.promised g op answer → wp (next answer) (T.after g op answer) Q

variable {T} {g : γ} {Q Q' : α → γ → Prop}

theorem wp.mono {p : Program Op Answer α} (h : T.wp p g Q) (hQ : ∀ a g', Q a g' → Q' a g') :
    T.wp p g Q' := by
  induction p generalizing g with
  | done a => exact hQ a g h
  | call op next ih => exact ⟨h.1, fun answer hp => ih answer (h.2 answer hp)⟩

theorem wp_bind {p : Program Op Answer β} {f : β → Program Op Answer α}
    (h : T.wp p g fun b g' => T.wp (f b) g' Q) : T.wp (p >>= f) g Q := by
  induction p generalizing g with
  | done b => exact h
  | call op next ih => exact ⟨h.1, fun answer hp => ih answer (h.2 answer hp)⟩

theorem wp_call {op : Op} {f : Answer op → Program Op Answer α} (hl : T.legal g op)
    (h : ∀ answer, T.promised g op answer → T.wp (f answer) (T.after g op answer) Q) :
    T.wp (Program.perform op >>= f) g Q :=
  ⟨hl, h⟩

theorem wp_pure {a : β} {f : β → Program Op Answer α} (h : T.wp (f a) g Q) :
    T.wp (pure a >>= f) g Q :=
  h

theorem wp_ite {b : Prop} [Decidable b] {p q : Program Op Answer α} (hp : b → T.wp p g Q)
    (hq : ¬ b → T.wp q g Q) : T.wp (if b then p else q) g Q := by
  by_cases hb : b
  · rw [if_pos hb]
    exact hp hb
  · rw [if_neg hb]
    exact hq hb

/-- What is proved of a program holds of each of its runs among honest surroundings. -/
theorem wp_sound {p : Program Op Answer α} {tr : List (Exchange Op Answer)} {a : α}
    (h : T.wp p g Q) (hr : p.Runs tr a) (hp : T.Honest g tr) :
    T.Legal g tr ∧ Q a (T.final g tr) := by
  induction hr generalizing g with
  | done a => exact ⟨trivial, h⟩
  | call answer hr ih =>
    obtain ⟨hlegal, hend⟩ := ih (h.2 answer hp.1) hp.2
    exact ⟨⟨h.1, hlegal⟩, hend⟩

/-- Surroundings that always answer as promised, by what they know. -/
theorem honest_drive {σ : Type} {world : σ → (op : Op) → Answer op × σ} {I : σ → γ → Prop}
    (hstep : ∀ s g op, I s g → T.promised g op (world s op).1 ∧
      I (world s op).2 (T.after g op (world s op).1))
    (p : Program Op Answer α) {s : σ} (hs : I s g) : T.Honest g (p.drive world s).1 := by
  induction p generalizing g s with
  | done a => trivial
  | call op next ih =>
    obtain ⟨hpromised, hnext⟩ := hstep s g op hs
    exact ⟨hpromised, ih _ hnext⟩

end Terms

end Custody

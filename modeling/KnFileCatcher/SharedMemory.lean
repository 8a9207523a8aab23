import Mathlib.Tactic

/-! Programs that fetch from memory which its owner may rewrite or unmap between any
two of their accesses. -/

namespace SharedMemory

variable {ε β α γ : Type}

/-- A copy brings `count` cells to a destination of `room` cells. -/
inductive Access where
  | probe (offset count : Nat)
  | copy (offset count room : Nat)
deriving DecidableEq

def Access.cells : Access → Nat
  | .probe _ _ => 0
  | .copy _ count _ => count

def Access.Within (bound : Nat) : Access → Prop
  | .probe offset count => offset + count ≤ bound
  | .copy offset count room => offset + count ≤ bound ∧ count ≤ room

/-- The memory as one access finds it. -/
structure View (ε β : Type) where
  cell : Nat → β
  fault : Option ε

def View.window (v : View ε β) : Access → List β
  | .probe _ _ => []
  | .copy offset count _ => (List.range count).map fun i => v.cell (offset + i)

def View.answer (v : View ε β) (a : Access) : Except ε (List β) :=
  match v.fault with
  | some e => .error e
  | none => .ok (v.window a)

inductive Program (ε β α : Type) where
  | done (result : α)
  | fetch (a : Access) (next : Except ε (List β) → Program ε β α)

namespace Program

def bind : Program ε β α → (α → Program ε β γ) → Program ε β γ
  | .done result, f => f result
  | .fetch a next, f => .fetch a fun answer => (next answer).bind f

/-- A `__try` block: the first fault ends it. -/
def probeAndCopy (probed count room : Nat) : Program ε β (Except ε (List β)) :=
  .fetch (.probe 0 probed) fun
    | .error e => .done (.error e)
    | .ok _ => .fetch (.copy 0 count room) .done

abbrev Event (ε β : Type) := Access × Except ε (List β)

def run (views : Nat → View ε β) : Nat → Program ε β α → List (Event ε β) × α
  | _, .done result => ([], result)
  | k, .fetch a next =>
    let answer := (views k).answer a
    let r := (next answer).run views (k + 1)
    ((a, answer) :: r.1, r.2)

/-- The result over memory that nobody writes. -/
def eval (v : View ε β) : Program ε β α → α
  | .done result => result
  | .fetch a next => (next (v.answer a)).eval v

theorem run_unchanged (v : View ε β) (p : Program ε β α) (k : Nat) :
    (p.run (fun _ => v) k).2 = p.eval v := by
  induction p generalizing k with
  | done result => rfl
  | fetch a next ih => exact ih _ (k + 1)

@[simp] theorem eval_bind (v : View ε β) (p : Program ε β α) (f : α → Program ε β γ) :
    (p.bind f).eval v = (f (p.eval v)).eval v := by
  induction p with
  | done result => rfl
  | fetch a next ih => exact ih _

section Sound

/-- After the events of `past` every access of the program lies within the bound, and
its end satisfies `post`, whatever the accesses bring. -/
def Sound (bound : Nat) (post : List (Event ε β) → α → Prop) :
    List (Event ε β) → Program ε β α → Prop
  | past, .done result => post past result
  | past, .fetch a next => a.Within bound ∧ ∀ answer : Except ε (List β),
      (∀ cells, answer = .ok cells → cells.length = a.cells) →
        Sound bound post (past ++ [(a, answer)]) (next answer)

variable {bound : Nat} {post : List (Event ε β) → α → Prop} {past : List (Event ε β)}

theorem Sound.bind {p : Program ε β γ} {f : γ → Program ε β α}
    (h : p.Sound bound (fun past result => (f result).Sound bound post past) past) :
    (p.bind f).Sound bound post past := by
  induction p generalizing past with
  | done result => exact h
  | fetch a next ih => exact ⟨h.1, fun answer ha => ih answer (h.2 answer ha)⟩

theorem Sound.ite {c : Prop} [Decidable c] {p q : Program ε β α} (hp : p.Sound bound post past)
    (hq : q.Sound bound post past) : (if c then p else q).Sound bound post past := by
  by_cases hc : c
  · rwa [if_pos hc]
  · rwa [if_neg hc]

/-- The block adds events of its own two accesses only. -/
theorem sound_probeAndCopy {post : List (Event ε β) → Except ε (List β) → Prop}
    {probed count room : Nat} (hprobed : probed ≤ bound) (hcount : count ≤ bound)
    (hroom : count ≤ room)
    (hpost : ∀ (tail : List (Event ε β)) (answer : Except ε (List β)),
      (∀ e ∈ tail, e.1 = .probe 0 probed ∨ e.1 = .copy 0 count room) →
      (∀ cells, answer = .ok cells →
        cells.length = count ∧ (.copy 0 count room, .ok cells) ∈ tail) →
      post (past ++ tail) answer) :
    (probeAndCopy probed count room).Sound bound post past := by
  refine ⟨by simpa [Access.Within] using hprobed, fun probe _ => ?_⟩
  cases probe with
  | error e => exact hpost [(.probe 0 probed, .error e)] (.error e) (by simp) nofun
  | ok none =>
    refine ⟨⟨by simpa using hcount, hroom⟩, fun answer ha => ?_⟩
    rw [Program.Sound, List.append_assoc]
    refine hpost _ answer (by simp) ?_
    rintro cells rfl
    exact ⟨ha cells rfl, by simp⟩

theorem length_window (v : View ε β) (a : Access) : (v.window a).length = a.cells := by
  cases a with
  | probe offset count => rfl
  | copy offset count room => simp [View.window, Access.cells]

theorem Sound.run {p : Program ε β α} (h : p.Sound bound post past) (views : Nat → View ε β)
    (k : Nat) : (∀ e ∈ (p.run views k).1, e.1.Within bound) ∧
      post (past ++ (p.run views k).1) (p.run views k).2 := by
  induction p generalizing past k with
  | done result =>
    rw [Program.run, List.append_nil]
    exact ⟨nofun, h⟩
  | fetch a next ih =>
    have hanswer (cells : List β) (hc : (views k).answer a = .ok cells) :
        cells.length = a.cells := by
      unfold View.answer at hc
      split at hc
      · cases hc
      · rw [← Except.ok.inj hc, length_window]
    have hrest := ih _ (h.2 _ hanswer) (k + 1)
    constructor
    · intro e he
      rcases List.mem_cons.mp he with rfl | he
      · exact h.1
      · exact hrest.1 e he
    · simpa [Program.run] using hrest.2

end Sound

end Program

section Steady

/-- Memory that holds a list from offset 0 on, and that is always there. -/
def steady [Inhabited β] (cells : List β) : View ε β := ⟨fun i => cells.getD i default, none⟩

theorem answer_copy_steady [Inhabited β] {cells : List β} {offset count : Nat}
    (h : offset + count ≤ cells.length) (room : Nat) :
    (steady cells : View ε β).answer (.copy offset count room) =
      .ok ((cells.drop offset).take count) := by
  have hwindow : (List.range count).map (fun i => cells.getD (offset + i) default) =
      (cells.drop offset).take count := by
    apply List.ext_getElem
    · simp
      omega
    · intro i hi _
      have hlt : i < count := by simpa using hi
      have hin : offset + i < cells.length := by omega
      simp [List.getD_eq_getElem?_getD, hin]
  exact congrArg Except.ok hwindow

theorem eval_probeAndCopy_steady [Inhabited β] {cells : List β} {count : Nat}
    (h : count ≤ cells.length) (probed room : Nat) :
    (Program.probeAndCopy probed count room).eval (steady cells : View ε β) =
      .ok (cells.take count) := by
  have hcopy := @answer_copy_steady ε β _ cells 0 count (by omega) room
  rwa [List.drop_zero] at hcopy

end Steady

end SharedMemory

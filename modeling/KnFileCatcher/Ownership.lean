import Mathlib.Tactic

/-! Reference-counted objects and pool blocks that several tasks share. A task owns
references and blocks, and so does an object: the blocks in its slots. Nothing stops a
task from a wrong call; the log shows it. -/

namespace Ownership

variable {T Key Slot Kind D V : Type}

structure Block (Kind : Type) where
  kind : Kind
  id : Nat
deriving DecidableEq

/-- What happened, by whom; a log has its newest event first. -/
inductive Event (T Kind : Type) where
  | obtained (t : T) (o : Nat)
  | released (t : T) (o : Nat)
  | touched (t : T) (o : Nat)
  | tornDown (o : Nat)
  | allocated (t : T) (b : Block Kind)
  | used (b : Block Kind)
  | freed (b : Block Kind)
deriving DecidableEq

structure Heap (T Key Slot Kind D V : Type) where
  attached : Key → Option Nat
  refs : Nat → Nat
  data : Nat → D
  slots : Nat → Slot → Option (Block Kind)
  objects : Nat
  content : Block Kind → V
  blocks : Nat
  log : List (Event T Kind)

/-- `fill` overwrites a slot, `swap` returns what was in it, and `copy` copies the block
in it to a new one under the lock of the object. -/
inductive Call (Key Slot Kind D V : Type) where
  | get (k : Key)
  | make
  | attach (k : Key) (o : Nat)
  | release (o : Nat)
  | touch (o : Nat) (f : D → D)
  | alloc (kind : Kind)
  | use (b : Block Kind)
  | write (b : Block Kind) (v : V)
  | free (b : Block Kind)
  | fill (o : Nat) (s : Slot) (b : Block Kind)
  | swap (o : Nat) (s : Slot) (b : Option (Block Kind))
  | copy (o : Nat) (s : Slot) (kind : Kind)
  | peek (o : Nat) (s : Slot)

def Call.Answer : Call Key Slot Kind D V → Type
  | .get _ | .make => Option Nat
  | .attach _ _ => Bool
  | .release _ | .write _ _ | .free _ | .fill _ _ _ => Unit
  | .touch _ _ => D
  | .alloc _ | .swap _ _ _ | .copy _ _ _ => Option (Block Kind)
  | .use _ => V
  | .peek _ _ => Option V

inductive Program (Key Slot Kind D V α : Type) where
  | done (a : α)
  | call (c : Call Key Slot Kind D V) (next : c.Answer → Program Key Slot Kind D V α)

namespace Program

variable {α β : Type}

protected def bind : Program Key Slot Kind D V α → (α → Program Key Slot Kind D V β) →
    Program Key Slot Kind D V β
  | .done a, f => f a
  | .call c next, f => .call c fun answer => (next answer).bind f

instance : Monad (Program Key Slot Kind D V) where
  pure := .done
  bind := Program.bind

def perform (c : Call Key Slot Kind D V) : Program Key Slot Kind D V c.Answer := .call c .done

end Program

section Heap

variable [DecidableEq Key] [DecidableEq Slot] [DecidableEq Kind]

namespace Heap

variable (cleanup : (Slot → Option (Block Kind)) → List (Block Kind))

def note (h : Heap T Key Slot Kind D V) (e : Event T Kind) : Heap T Key Slot Kind D V :=
  { h with log := e :: h.log }

def obtain (h : Heap T Key Slot Kind D V) (t : T) (o : Nat) : Heap T Key Slot Kind D V :=
  { h with refs := Function.update h.refs o (h.refs o + 1), log := .obtained t o :: h.log }

def create (h : Heap T Key Slot Kind D V) (t : T) : Heap T Key Slot Kind D V :=
  { h.obtain t h.objects with objects := h.objects + 1 }

def attach (h : Heap T Key Slot Kind D V) (k : Key) (o : Nat) : Heap T Key Slot Kind D V :=
  { h with
    refs := Function.update h.refs o (h.refs o + 1)
    attached := Function.update h.attached k (some o) }

/-- The last reference went: the blocks that `cleanup` names are freed. -/
def tearDown (h : Heap T Key Slot Kind D V) (o : Nat) : Heap T Key Slot Kind D V :=
  { h with
    slots := Function.update h.slots o fun _ => none
    log := (cleanup (h.slots o)).map .freed ++ .tornDown o :: h.log }

def unref (h : Heap T Key Slot Kind D V) (o : Nat) : Heap T Key Slot Kind D V :=
  let h' := { h with refs := Function.update h.refs o (h.refs o - 1) }
  if h'.refs o = 0 then h'.tearDown cleanup o else h'

def detach (h : Heap T Key Slot Kind D V) (k : Key) : Heap T Key Slot Kind D V :=
  { h with attached := Function.update h.attached k none }

def close (h : Heap T Key Slot Kind D V) (k : Key) : Heap T Key Slot Kind D V :=
  match h.attached k with
  | some o => (h.detach k).unref cleanup o
  | none => h

def allocate (h : Heap T Key Slot Kind D V) (t : T) (kind : Kind) (v : V) :
    Heap T Key Slot Kind D V :=
  { h with
    content := Function.update h.content ⟨kind, h.blocks⟩ v
    blocks := h.blocks + 1
    log := .allocated t ⟨kind, h.blocks⟩ :: h.log }

def setSlot (h : Heap T Key Slot Kind D V) (o : Nat) (s : Slot) (b : Option (Block Kind)) :
    Heap T Key Slot Kind D V :=
  { h with slots := Function.update h.slots o (Function.update (h.slots o) s b) }

def setContent (h : Heap T Key Slot Kind D V) (b : Block Kind) (v : V) :
    Heap T Key Slot Kind D V :=
  { h with content := Function.update h.content b v }

/-- A call of the task `t`; `ok` is how it turns out where it may fail. -/
def perform (t : T) (ok : Bool) (h : Heap T Key Slot Kind D V) :
    (c : Call Key Slot Kind D V) → c.Answer × Heap T Key Slot Kind D V
  | .get k =>
    match ok, h.attached k with
    | true, some o => (some o, h.obtain t o)
    | _, _ => ((none : Option Nat), h)
  | .make => if ok then (some h.objects, h.create t) else ((none : Option Nat), h)
  | .attach k o =>
    if ok && (h.attached k).isNone then (true, (h.note (.touched t o)).attach k o)
    else (false, h.note (.touched t o))
  | .release o => ((), (h.note (.released t o)).unref cleanup o)
  | .touch o f => (h.data o,
      { h.note (.touched t o) with data := Function.update h.data o (f (h.data o)) })
  | .alloc kind =>
    if ok then (some ⟨kind, h.blocks⟩, h.allocate t kind (h.content ⟨kind, h.blocks⟩))
    else ((none : Option (Block Kind)), h)
  | .use b => (h.content b, h.note (.used b))
  | .write b v => ((), (h.note (.used b)).setContent b v)
  | .free b => ((), h.note (.freed b))
  | .fill o s b => ((), (h.note (.touched t o)).setSlot o s (some b))
  | .swap o s b => (h.slots o s, (h.note (.touched t o)).setSlot o s b)
  | .copy o s kind =>
    match h.slots o s with
    | some b =>
      let h' := (h.note (.touched t o)).note (.used b)
      if ok then (some ⟨kind, h.blocks⟩, h'.allocate t kind (h.content b))
      else ((none : Option (Block Kind)), h')
    | none => ((none : Option (Block Kind)), h.note (.touched t o))
  | .peek o s =>
    match h.slots o s with
    | some b => (some (h.content b), (h.note (.touched t o)).note (.used b))
    | none => ((none : Option V), h.note (.touched t o))

section Perform

variable {h : Heap T Key Slot Kind D V} {t : T} {ok : Bool} {k : Key} {o : Nat} {s : Slot}
  {b : Block Kind} {kind : Kind}

theorem perform_get (hk : h.attached k = some o) :
    h.perform cleanup t true (.get k) = (some o, h.obtain t o) := by
  simp only [perform, hk]
  rfl

theorem perform_get_none (hk : h.attached k = none) :
    h.perform cleanup t ok (.get k) = ((none : Option Nat), h) := by
  cases ok <;>
    · simp only [perform, hk]
      rfl

theorem perform_attach (hk : h.attached k = none) : h.perform cleanup t true (.attach k o) =
    (true, (h.note (.touched t o)).attach k o) := by
  simp only [perform, hk, Option.isNone_none, Bool.and_self, if_true]
  rfl

theorem perform_attach_refused (hk : (ok && (h.attached k).isNone) = false) :
    h.perform cleanup t ok (.attach k o) = (false, h.note (.touched t o)) := by
  simp only [perform, hk, Bool.false_eq_true, if_false]
  rfl

theorem perform_copy_empty (hs : h.slots o s = none) : h.perform cleanup t ok (.copy o s kind) =
    ((none : Option (Block Kind)), h.note (.touched t o)) := by
  simp only [perform, hs]
  rfl

theorem perform_copy_failed (hs : h.slots o s = some b) : h.perform cleanup t false (.copy o s kind) =
    ((none : Option (Block Kind)), (h.note (.touched t o)).note (.used b)) := by
  simp only [perform, hs, Bool.false_eq_true, if_false]
  rfl

theorem perform_copy (hs : h.slots o s = some b) : h.perform cleanup t true (.copy o s kind) =
    (some ⟨kind, h.blocks⟩,
      ((h.note (.touched t o)).note (.used b)).allocate t kind (h.content b)) := by
  simp only [perform, hs, if_true]
  rfl

theorem perform_peek_empty (hs : h.slots o s = none) :
    h.perform cleanup t ok (.peek o s) = ((none : Option V), h.note (.touched t o)) := by
  simp only [perform, hs]
  rfl

theorem perform_peek (hs : h.slots o s = some b) : h.perform cleanup t ok (.peek o s) =
    (some (h.content b), (h.note (.touched t o)).note (.used b)) := by
  simp only [perform, hs]
  rfl

end Perform

end Heap

end Heap

theorem Heap.obtain_refs (h : Heap T Key Slot Kind D V) (t : T) (o o' : Nat) :
    (h.obtain t o).refs o' = h.refs o' + if o' = o then 1 else 0 := by
  by_cases ho : o' = o
  · subst ho
    simp [Heap.obtain]
  · simp [Heap.obtain, ho]

section SetSlot

variable [DecidableEq Slot] {h : Heap T Key Slot Kind D V} {o o' : Nat} {s s' : Slot}
  {b : Option (Block Kind)}

theorem Heap.setSlot_self : (h.setSlot o s b).slots o s = b := by
  simp [Heap.setSlot]

theorem Heap.setSlot_other (hne : ¬ (o' = o ∧ s' = s)) :
    (h.setSlot o s b).slots o' s' = h.slots o' s' := by
  by_cases ho : o' = o
  · subst ho
    have hs : s' ≠ s := fun hs => hne ⟨rfl, hs⟩
    simp [Heap.setSlot, hs]
  · simp [Heap.setSlot, ho]

end SetSlot

section Unref

variable (cleanup : (Slot → Option (Block Kind)) → List (Block Kind))

def Heap.Last (h : Heap T Key Slot Kind D V) (o : Nat) : Prop := h.refs o ≤ 1

theorem Heap.unref_refs (h : Heap T Key Slot Kind D V) (o : Nat) :
    (h.unref cleanup o).refs = Function.update h.refs o (h.refs o - 1) := by
  unfold Heap.unref
  dsimp only
  split <;> rfl

theorem Heap.unref_attached (h : Heap T Key Slot Kind D V) (o : Nat) :
    (h.unref cleanup o).attached = h.attached ∧ (h.unref cleanup o).objects = h.objects ∧
      (h.unref cleanup o).content = h.content ∧ (h.unref cleanup o).blocks = h.blocks := by
  unfold Heap.unref
  dsimp only
  split <;> exact ⟨rfl, rfl, rfl, rfl⟩

theorem Heap.unref_last {h : Heap T Key Slot Kind D V} {o : Nat} (hl : h.Last o) :
    (h.unref cleanup o).slots = Function.update h.slots o (fun _ => none) ∧
      (h.unref cleanup o).log = (cleanup (h.slots o)).map .freed ++ .tornDown o :: h.log := by
  have hzero : Function.update h.refs o (h.refs o - 1) o = 0 := by
    rw [Function.update_self]
    exact Nat.sub_eq_zero_of_le hl
  simp only [Heap.unref, hzero, if_true, Heap.tearDown, and_self]

theorem Heap.unref_more {h : Heap T Key Slot Kind D V} {o : Nat} (hl : ¬ h.Last o) :
    (h.unref cleanup o).slots = h.slots ∧ (h.unref cleanup o).log = h.log := by
  have hpos : ¬ Function.update h.refs o (h.refs o - 1) o = 0 := by
    unfold Heap.Last at hl
    rw [Function.update_self]
    omega
  simp only [Heap.unref, if_neg hpos, and_self]

end Unref

section Log

variable [DecidableEq T] [DecidableEq Kind]

/-- An event is in order after the events before it. -/
def Event.InOrder (past : List (Event T Kind)) : Event T Kind → Prop
  | .obtained _ o | .tornDown o => .tornDown o ∉ past
  | .released t o | .touched t o =>
    past.count (.released t o) < past.count (.obtained t o) ∧ .tornDown o ∉ past
  | .allocated _ b => ∀ t, .allocated t b ∉ past
  | .used b | .freed b => (∃ t, .allocated t b ∈ past) ∧ .freed b ∉ past

def Orderly (log : List (Event T Kind)) : Prop :=
  ∀ later e past, log = later ++ e :: past → e.InOrder past

theorem Orderly.cons {log : List (Event T Kind)} {e : Event T Kind} (h : Orderly log)
    (he : e.InOrder log) : Orderly (e :: log) := by
  intro later e' past heq
  cases later with
  | nil =>
    obtain ⟨rfl, rfl⟩ := List.cons.inj heq
    exact he
  | cons e'' later =>
    obtain ⟨-, rfl⟩ := List.cons.inj heq
    exact h later e' past rfl

end Log

section Counts

variable [DecidableEq T] [DecidableEq Kind]

/-- An event that is in order only the first time happens at most once. -/
theorem Orderly.count_le_one {log : List (Event T Kind)} (h : Orderly log) {e : Event T Kind}
    (he : ∀ past, e.InOrder past → e ∉ past) : log.count e ≤ 1 := by
  induction log with
  | nil => simp
  | cons e' log ih =>
    have hlog : Orderly log := fun later e past heq =>
      h (e' :: later) e past (by rw [heq, List.cons_append])
    by_cases heq : e' = e
    · subst heq
      rw [List.count_cons_self, List.count_eq_zero_of_not_mem (he log (h [] e' log rfl))]
    · rw [List.count_cons_of_ne heq]
      exact ih hlog

theorem Orderly.freed_once {log : List (Event T Kind)} (h : Orderly log) {b : Block Kind}
    (hb : .freed b ∈ log) : log.count (.freed b) = 1 :=
  Nat.le_antisymm (h.count_le_one fun _ => And.right) (List.count_pos_iff.mpr hb)

theorem Orderly.tornDown_once {log : List (Event T Kind)} (h : Orderly log) {o : Nat}
    (ho : .tornDown o ∈ log) : log.count (.tornDown o) = 1 :=
  Nat.le_antisymm (h.count_le_one fun _ => id) (List.count_pos_iff.mpr ho)

theorem Orderly.allocated_unique {log : List (Event T Kind)} (h : Orderly log) {t t' : T}
    {b : Block Kind} (ht : .allocated t b ∈ log) (ht' : .allocated t' b ∈ log) : t = t' := by
  induction log with
  | nil => cases ht
  | cons e log ih =>
    have hlog : Orderly log := fun later e' past heq =>
      h (e :: later) e' past (by rw [heq, List.cons_append])
    have hfirst := h [] e log rfl
    rcases List.mem_cons.mp ht with rfl | hold <;> rcases List.mem_cons.mp ht' with heq | hold'
    · cases heq
      rfl
    · exact absurd hold' (hfirst t')
    · subst heq
      exact absurd hold (hfirst t)
    · exact ih hlog hold hold'

end Counts

/-- What a task owns: references, blocks with what is in them, and the empty slots of
objects that only it knows. -/
structure Ledger (Slot Kind V : Type) where
  refs : Multiset Nat
  blocks : Multiset (Block Kind × V)
  fresh : Nat → Slot → Prop

def Ledger.empty : Ledger Slot Kind V := ⟨0, 0, fun _ _ => False⟩

def atMostOne {α : Type} : Option α → Multiset α
  | some a => {a}
  | none => 0

section Spec

variable (storable : Kind → Prop)

/-- What a call needs of the ledger, and what it leaves there with each answer. -/
def Call.Spec : (c : Call Key Slot Kind D V) → Ledger Slot Kind V →
    (c.Answer → Ledger Slot Kind V → Prop) → Prop
  | .get _, L, Q => Q (none : Option Nat) L ∧
    ∀ o : Nat, Q (some o) { L with refs := o ::ₘ L.refs }
  | .make, L, Q => Q (none : Option Nat) L ∧
    ∀ o : Nat, Q (some o)
      { L with refs := o ::ₘ L.refs, fresh := fun o' s => o' = o ∨ L.fresh o' s }
  | .attach _ o, L, Q => o ∈ L.refs ∧
    ∀ ok : Bool, Q ok { L with fresh := fun o' s => o' ≠ o ∧ L.fresh o' s }
  | .release o, L, Q => ∃ R, L.refs = o ::ₘ R ∧ Q () { L with refs := R }
  | .touch o _, L, Q => o ∈ L.refs ∧ ∀ d : D, Q d L
  | .alloc kind, L, Q => Q (none : Option (Block Kind)) L ∧
    ∀ (b : Block Kind) (v : V), b.kind = kind →
      Q (some b) { L with blocks := (b, v) ::ₘ L.blocks }
  | .use b, L, Q => ∃ v, (b, v) ∈ L.blocks ∧ Q v L
  | .write b v, L, Q => ∃ v' B, L.blocks = (b, v') ::ₘ B ∧
    Q () { L with blocks := (b, v) ::ₘ B }
  | .free b, L, Q => ∃ v B, L.blocks = (b, v) ::ₘ B ∧ Q () { L with blocks := B }
  | .fill o s b, L, Q => o ∈ L.refs ∧ L.fresh o s ∧ storable b.kind ∧
    ∃ v B, L.blocks = (b, v) ::ₘ B ∧
      Q () { L with blocks := B, fresh := fun o' s' => (o' ≠ o ∨ s' ≠ s) ∧ L.fresh o' s' }
  | .swap o s b, L, Q => o ∈ L.refs ∧
    ∃ (x : Option (Block Kind × V)) (B : Multiset (Block Kind × V)), x.map Prod.fst = b ∧
      (∀ y ∈ x, storable y.1.kind) ∧ L.blocks = atMostOne x + B ∧
      ∀ old : Option (Block Kind × V), Q (old.map Prod.fst)
        { L with
          blocks := atMostOne old + B
          fresh := fun o' s' => (o' ≠ o ∨ s' ≠ s) ∧ L.fresh o' s' }
  | .copy o _ _, L, Q => o ∈ L.refs ∧
    ∀ new : Option (Block Kind × V),
      Q (new.map Prod.fst) { L with blocks := atMostOne new + L.blocks }
  | .peek o _, L, Q => o ∈ L.refs ∧ ∀ v : Option V, Q v L

theorem Call.Spec.mono {c : Call Key Slot Kind D V} {L : Ledger Slot Kind V}
    {Q Q' : c.Answer → Ledger Slot Kind V → Prop} (h : c.Spec storable L Q)
    (hQ : ∀ a L', Q a L' → Q' a L') : c.Spec storable L Q' := by
  cases c with
  | get k => exact ⟨hQ _ _ h.1, fun o => hQ _ _ (h.2 o)⟩
  | make => exact ⟨hQ _ _ h.1, fun o => hQ _ _ (h.2 o)⟩
  | attach k o => exact ⟨h.1, fun ok => hQ _ _ (h.2 ok)⟩
  | release o =>
    obtain ⟨R, hR, h⟩ := h
    exact ⟨R, hR, hQ _ _ h⟩
  | touch o f => exact ⟨h.1, fun d => hQ _ _ (h.2 d)⟩
  | alloc kind => exact ⟨hQ _ _ h.1, fun b v hb => hQ _ _ (h.2 b v hb)⟩
  | use b =>
    obtain ⟨v, hv, h⟩ := h
    exact ⟨v, hv, hQ _ _ h⟩
  | write b v =>
    obtain ⟨v', B, hB, h⟩ := h
    exact ⟨v', B, hB, hQ _ _ h⟩
  | free b =>
    obtain ⟨v, B, hB, h⟩ := h
    exact ⟨v, B, hB, hQ _ _ h⟩
  | fill o s b =>
    obtain ⟨ho, hs, hk, v, B, hB, h⟩ := h
    exact ⟨ho, hs, hk, v, B, hB, hQ _ _ h⟩
  | swap o s b =>
    obtain ⟨ho, x, B, hx, hk, hB, h⟩ := h
    exact ⟨ho, x, B, hx, hk, hB, fun old => hQ _ _ (h old)⟩
  | copy o s kind => exact ⟨h.1, fun new => hQ _ _ (h.2 new)⟩
  | peek o s => exact ⟨h.1, fun v => hQ _ _ (h.2 v)⟩

namespace Program

variable {α β : Type}

/-- From the ledger the program ends in `Q`, whatever the calls answer. -/
def wp : Program Key Slot Kind D V α → Ledger Slot Kind V → (α → Ledger Slot Kind V → Prop) → Prop
  | .done a, L, Q => Q a L
  | .call c next, L, Q => c.Spec storable L fun answer L' => (next answer).wp L' Q

variable {storable} {L : Ledger Slot Kind V} {Q Q' : α → Ledger Slot Kind V → Prop}

theorem wp.mono {p : Program Key Slot Kind D V α} (h : p.wp storable L Q)
    (hQ : ∀ a L', Q a L' → Q' a L') : p.wp storable L Q' := by
  induction p generalizing L with
  | done a => exact hQ a L h
  | call c next ih => exact Call.Spec.mono storable h fun a L' h' => ih a h'

theorem wp_bind {p : Program Key Slot Kind D V β} {f : β → Program Key Slot Kind D V α}
    (h : p.wp storable L fun b L' => (f b).wp storable L' Q) : (p >>= f).wp storable L Q := by
  induction p generalizing L with
  | done b => exact h
  | call c next ih => exact Call.Spec.mono storable h fun a L' h' => ih a h'

theorem wp_perform {c : Call Key Slot Kind D V} {Q : c.Answer → Ledger Slot Kind V → Prop}
    (h : c.Spec storable L Q) : (perform c).wp storable L Q := h

theorem wp_call {c : Call Key Slot Kind D V} {f : c.Answer → Program Key Slot Kind D V α}
    (h : c.Spec storable L fun a L' => (f a).wp storable L' Q) :
    (perform c >>= f).wp storable L Q := h

theorem wp_ite {b : Prop} [Decidable b] {p q : Program Key Slot Kind D V α}
    (hp : b → p.wp storable L Q) (hq : ¬ b → q.wp storable L Q) :
    (if b then p else q).wp storable L Q := by
  by_cases hb : b
  · rw [if_pos hb]
    exact hp hb
  · rw [if_neg hb]
    exact hq hb

end Program

end Spec

end Ownership

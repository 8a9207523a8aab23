import Mathlib.Tactic

/-! A view of one value that lies behind a channel. It is told of births and ends in their
order, and once it is set to the value that is there; what is still on its way by then may
be older than that. -/

namespace SeededView

inductive Life (V : Type*) where
  | born (v : V)
  | gone

section Replay

variable {V : Type*} (finish : V → V)

/-- A value that the view has stays in it, also after its end. -/
def apply : Option V → Life V → Option V
  | some v, .born _ => some v
  | none, .born v => some v
  | view, .gone => view.map finish

def replay (view : Option V) (es : List (Life V)) : Option V := es.foldl (apply finish) view

end Replay

/-- What can be on its way while `now` is there: at most one value, the last one. -/
inductive Recent {V : Type*} : Option V → List (Life V) → Prop where
  | settled (now : Option V) : Recent now []
  | born (v : V) : Recent (some v) [.born v]
  | gone : Recent none [.gone]
  | passed (v : V) : Recent none [.born v, .gone]

/-- The view has the value that is there, and else no live one. -/
def Agrees {V : Type*} (live : V → Prop) : Option V → Option V → Prop
  | some v, view => view = some v
  | none, view => ∀ v, view = some v → ¬ live v

variable {V : Type*} {finish : V → V} {live : V → Prop} {now view : Option V} {v : V}
  {e : Life V} {es : List (Life V)}

theorem replay_snoc :
    replay finish view (es ++ [e]) = apply finish (replay finish view es) e := by
  simp [replay, List.foldl_append]

theorem Recent.tail (h : Recent now (e :: es)) : Recent now es := by
  cases h with
  | born v => exact .settled _
  | gone => exact .settled _
  | passed v => exact .gone

theorem Recent.ends (h : Recent (some v) es) : Recent none (es ++ [.gone]) := by
  cases h with
  | settled => exact .gone
  | born => exact .passed v

theorem Agrees.ends (hfinish : ∀ v, ¬ live (finish v)) (h : Agrees live (some v) view) :
    Agrees live none (apply finish view .gone) := by
  obtain rfl : view = some v := h
  intro v' hv'
  obtain rfl : finish v = v' := Option.some.inj hv'
  exact hfinish v

/-- Setting the view to the value that is there absorbs all that is still to come. -/
theorem Recent.agrees (hfinish : ∀ v, ¬ live (finish v)) (h : Recent now es) :
    Agrees live now (replay finish now es) := by
  cases h with
  | settled now =>
    cases now with
    | none => exact fun v hv => nomatch hv
    | some v => exact rfl
  | born v => exact rfl
  | gone => exact fun v hv => nomatch hv
  | passed v =>
    have hborn : Agrees live (some v) (apply finish none (.born v)) := rfl
    exact hborn.ends hfinish

end SeededView

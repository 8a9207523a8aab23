import Mathlib.Tactic

/-! Objects that threads wait on, as values: a manual-reset event, and rundown
protection, which refuses new holders once it is closed. -/

namespace Waits

/-- A manual-reset event. A set releases the threads waiting then, and the event
stays signaled until it is cleared. -/
structure Event (τ : Type*) where
  signaled : Bool
  waiters : Finset τ

namespace Event

variable {τ : Type*}

def create : Event τ := ⟨false, ∅⟩

def set (_ : Event τ) : Event τ := ⟨true, ∅⟩

def clear (e : Event τ) : Event τ := { e with signaled := false }

def block [DecidableEq τ] (e : Event τ) (t : τ) : Event τ :=
  { e with waiters := insert t e.waiters }

end Event

/-- Rundown protection: the number of holders, and whether a rundown has begun. -/
structure Rundown where
  closing : Bool
  holders : Nat
deriving DecidableEq

namespace Rundown

def create : Rundown := ⟨false, 0⟩

def acquire (r : Rundown) : Option Rundown :=
  if r.closing then none else some { r with holders := r.holders + 1 }

def release (r : Rundown) : Rundown := { r with holders := r.holders - 1 }

def close (r : Rundown) : Rundown := { r with closing := true }

end Rundown

end Waits

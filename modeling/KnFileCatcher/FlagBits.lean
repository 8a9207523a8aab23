import Mathlib.Tactic

/-! Tests and updates of flag words: which masks a word has a bit of, after bits
were set or cleared. -/

namespace FlagBits

variable {w : Nat} {f g m : BitVec w}

def flagOn (f m : BitVec w) : Bool := decide (f &&& m ≠ 0)

theorem flagOn_eq_false_iff : flagOn f m = false ↔ f &&& m = 0 := by
  simp [flagOn]

@[simp] theorem flagOn_zero (m : BitVec w) : flagOn 0#w m = false := by
  simp [flagOn]

@[simp] theorem flagOn_or (f g m : BitVec w) : flagOn (f ||| g) m = (flagOn f m || flagOn g m) := by
  rw [Bool.eq_iff_iff]
  simp [flagOn, BitVec.and_or_distrib_right, BitVec.or_eq_zero_iff, ← not_and_or]

@[simp] theorem flagOn_mask_or (f m m' : BitVec w) :
    flagOn f (m ||| m') = (flagOn f m || flagOn f m') := by
  rw [Bool.eq_iff_iff]
  simp [flagOn, BitVec.and_or_distrib_left, BitVec.or_eq_zero_iff, ← not_and_or]

theorem compl_and_of_disjoint (h : m &&& g = 0) : ~~~g &&& m = m := by
  have hsplit : (g ||| ~~~g) &&& m = m := by simp
  rw [BitVec.and_or_distrib_right, BitVec.and_comm, h] at hsplit
  simpa using hsplit

theorem flagOn_clear_of_disjoint (h : m &&& g = 0) : flagOn (f &&& ~~~g) m = flagOn f m := by
  rw [flagOn, flagOn, BitVec.and_assoc, compl_and_of_disjoint h]

theorem or_and_of_and (h : f &&& m = m) : (f ||| g) &&& m = m := by
  have habsorb : m ||| g &&& m = m := by
    ext i hi
    cases hm : m[i] <;> simp [hm]
  rw [BitVec.and_or_distrib_right, h, habsorb]

theorem clear_and_of_and (h : f &&& m = m) (hd : m &&& g = 0) : f &&& ~~~g &&& m = m := by
  rw [BitVec.and_assoc, compl_and_of_disjoint hd, h]

@[simp] theorem flagOn_clear_self : flagOn (f &&& ~~~g) g = false := by
  rw [flagOn_eq_false_iff, BitVec.and_assoc]
  simp

end FlagBits

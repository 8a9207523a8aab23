import Mathlib.Tactic
import Mathlib.Data.Set.Card.Arithmetic

/-! What the parties of a system hold together: the sum of a weight over their
positions, and its change when one party moves. The parties may be infinitely
many, as long as finitely many have left the position they all start in. -/

namespace Tally

variable {ι α M : Type*}

/-- All but finitely many parties are at `a`. -/
def Started (a : α) (f : ι → α) : Prop := {i | f i ≠ a}.Finite

theorem started_const (a : α) : Started a fun _ : ι => a := by
  simp [Started]

theorem started_of_finite [Finite ι] (a : α) (f : ι → α) : Started a f := Set.toFinite _

noncomputable def tally [AddCommMonoid M] (w : α → M) (f : ι → α) : M := ∑ᶠ i, w (f i)

theorem tally_const [AddCommMonoid M] {w : α → M} {a : α} (hw : w a = 0) :
    tally w (fun _ : ι => a) = 0 := by
  simp [tally, hw]

theorem tally_eq_sum [AddCommMonoid M] [Fintype ι] (w : α → M) (f : ι → α) :
    tally w f = ∑ i, w (f i) := finsum_eq_sum_of_fintype _

section Update

variable [DecidableEq ι]

theorem Started.update {a : α} {f : ι → α} (h : Started a f) (i : ι) (b : α) :
    Started a (Function.update f i b) := by
  refine (h.insert i).subset fun j hj => ?_
  by_cases hji : j = i
  · exact Or.inl hji
  · exact Or.inr (by simpa [hji] using hj)

theorem tally_update [AddCommGroup M] {w : α → M} {a : α} (hw : w a = 0) {f : ι → α}
    (h : Started a f) (i : ι) (b : α) :
    tally w (Function.update f i b) = tally w f - w (f i) + w b := by
  have hsum (g : ι → α) (hg : ∀ j, j ≠ i → g j = f j) :
      tally w g = w (g i) + ∑ j ∈ h.toFinset.erase i, w (f j) := by
    have hsub : (Function.support fun j => w (g j)) ⊆ ↑(insert i (h.toFinset.erase i)) := by
      intro j hj
      by_cases hji : j = i
      · simp [hji]
      · have hfj : f j ≠ a := by
          rintro hfa
          exact hj (by simp [hg j hji, hfa, hw])
        exact Finset.mem_insert_of_mem (Finset.mem_erase.mpr ⟨hji, h.mem_toFinset.mpr hfj⟩)
    rw [tally, finsum_eq_sum_of_support_subset _ hsub, Finset.sum_insert (Finset.notMem_erase i _)]
    refine congrArg (w (g i) + ·) (Finset.sum_congr rfl fun j hj => ?_)
    rw [hg j (Finset.ne_of_mem_erase hj)]
  have hf := hsum f fun _ _ => rfl
  have hu := hsum (Function.update f i b) fun j hj => Function.update_of_ne hj b f
  rw [hu, hf, Function.update_self]
  abel

/-- No party holds more than all of them together. -/
theorem le_tally {w : α → ℤ} (hpos : ∀ a, 0 ≤ w a) {a : α} (hw : w a = 0) {f : ι → α}
    (h : Started a f) (i : ι) : w (f i) ≤ tally w f := by
  have hrest : 0 ≤ tally w (Function.update f i a) := finsum_nonneg fun j => hpos _
  rw [tally_update hw h, hw] at hrest
  omega

end Update

theorem tally_nonneg {w : α → ℤ} (hpos : ∀ a, 0 ≤ w a) (f : ι → α) : 0 ≤ tally w f :=
  finsum_nonneg fun _ => hpos _

theorem tally_indicator {c : α → Prop} [DecidablePred c] {a : α} (ha : ¬ c a) {f : ι → α}
    (h : Started a f) :
    tally (fun b => if c b then (1 : ℤ) else 0) f = {i | c (f i)}.ncard := by
  have hfin : {i | c (f i)}.Finite := h.subset fun i (hi : c (f i)) hfa => ha (hfa ▸ hi)
  have hcast := Nat.cast_finsum_mem hfin (M := ℤ) fun _ => 1
  rw [finsum_one] at hcast
  rw [hcast, finsum_mem_def, tally]
  refine finsum_congr fun i => ?_
  by_cases hi : c (f i) <;> simp [hi]

/-- A comparison of totals that adding the same on both sides keeps. -/
structure Comparison (rel : ℤ → ℤ → Prop) : Prop where
  refl : ∀ x, rel x x
  trans : ∀ {x y z}, rel x y → rel y z → rel x z
  add : ∀ {x y} z, rel x y → rel (x + z) (y + z)

theorem comparison_eq : Comparison (· = ·) :=
  ⟨fun _ => rfl, Eq.trans, fun z h => congrArg (· + z) h⟩

theorem comparison_le : Comparison (· ≤ ·) :=
  ⟨le_refl, le_trans, fun z h => Int.add_le_add_right h z⟩

end Tally

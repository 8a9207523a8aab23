import Mathlib.Data.Set.Basic
import Mathlib.Tactic

/-! Sweeps over a list of records, each of which adds its key to a set once the key it
depends on is there. A sweep uses what it has added before; the sweeps together reach
the least set closed under the records, and how many it takes depends on the order. -/

namespace Sweeps

variable {α κ : Type*} (key dep : α → κ)

def visit (T : Set κ) (r : α) : Set κ := {k | k ∈ T ∨ k = key r ∧ dep r ∈ T}

def sweep (l : List α) (T : Set κ) : Set κ := l.foldl (visit key dep) T

/-- Every record whose dependency is in the set has its key there. -/
def Closed (l : List α) (T : Set κ) : Prop := ∀ r ∈ l, dep r ∈ T → key r ∈ T

/-- The records lead from the set to a key, each depending on the key before it. -/
inductive Path (T : Set κ) : List α → κ → Prop where
  | base {k : κ} (h : k ∈ T) : Path T [] k
  | snoc {c : List α} {r : α} (h : Path T c (dep r)) : Path T (c ++ [r]) (key r)

/-- Some line of records of the list leads from the set to the key. -/
def Reaches (l : List α) (T : Set κ) (k : κ) : Prop := ∃ c ⊆ l, Path key dep T c k

/-- Such a line is met in order when the list is read `n` times. -/
def ReachesWithin (l : List α) (T : Set κ) (n : Nat) (k : κ) : Prop :=
  ∃ c, c.Sublist (List.replicate n l).flatten ∧ Path key dep T c k

variable {key dep} {l : List α} {T : Set κ} {k : κ}

theorem mem_visit_iff {r : α} : k ∈ visit key dep T r ↔ k ∈ T ∨ k = key r ∧ dep r ∈ T := Iff.rfl

@[simp] theorem sweep_nil : sweep key dep [] T = T := rfl

@[simp] theorem sweep_cons (r : α) :
    sweep key dep (r :: l) T = sweep key dep l (visit key dep T r) := rfl

theorem sweep_append (l l' : List α) (T : Set κ) :
    sweep key dep (l ++ l') T = sweep key dep l' (sweep key dep l T) := List.foldl_append

theorem iterate_sweep (n : Nat) :
    (sweep key dep l)^[n] T = sweep key dep (List.replicate n l).flatten T := by
  induction n generalizing T with
  | zero => rfl
  | succ n ih =>
    rw [Function.iterate_succ_apply, ih, List.replicate_succ, List.flatten_cons, sweep_append]

theorem subset_sweep (l : List α) (T : Set κ) : T ⊆ sweep key dep l T := by
  induction l generalizing T with
  | nil => exact subset_rfl
  | cons r l ih => exact Set.Subset.trans (fun _ => Or.inl) (ih _)

theorem subset_iterate (n : Nat) : T ⊆ (sweep key dep l)^[n] T := by
  rw [iterate_sweep]
  exact subset_sweep _ T

theorem path_nil_iff : Path key dep T [] k ↔ k ∈ T := by
  constructor
  · intro h
    generalize hc : ([] : List α) = c at h
    cases h with
    | base h => exact h
    | snoc h => simp at hc
  · exact Path.base

theorem path_append_singleton_iff {c : List α} {r : α} :
    Path key dep T (c ++ [r]) k ↔ Path key dep T c (dep r) ∧ k = key r := by
  constructor
  · intro h
    generalize hc : c ++ [r] = c' at h
    cases h with
    | base h => simp at hc
    | snoc h =>
      obtain ⟨rfl, hr⟩ := List.append_inj' hc rfl
      obtain rfl := List.singleton_inj.mp hr
      exact ⟨h, rfl⟩
  · rintro ⟨h, rfl⟩
    exact .snoc h

/-- A sweep adds the ends of the lines that it meets in order. -/
theorem mem_sweep_iff : k ∈ sweep key dep l T ↔ ∃ c, c.Sublist l ∧ Path key dep T c k := by
  induction l using List.reverseRecOn generalizing k with
  | nil => simp [path_nil_iff]
  | append_singleton l r ih =>
    rw [sweep_append, sweep_cons, sweep_nil, mem_visit_iff, ih, ih]
    constructor
    · rintro (⟨c, hc, hpath⟩ | ⟨rfl, c, hc, hpath⟩)
      · exact ⟨c, hc.trans (List.sublist_append_left l [r]), hpath⟩
      · exact ⟨c ++ [r], hc.append (List.Sublist.refl [r]), .snoc hpath⟩
    · rintro ⟨c, hc, hpath⟩
      obtain ⟨d, e, rfl, hd, he⟩ := List.sublist_append_iff.mp hc
      rcases List.sublist_singleton.mp he with rfl | rfl
      · rw [List.append_nil] at hpath
        exact Or.inl ⟨d, hd, hpath⟩
      · obtain ⟨hprev, hk⟩ := path_append_singleton_iff.mp hpath
        exact Or.inr ⟨hk, d, hd, hprev⟩

theorem mem_iterate_iff {n : Nat} :
    k ∈ (sweep key dep l)^[n] T ↔ ReachesWithin key dep l T n k := by
  rw [iterate_sweep, mem_sweep_iff, ReachesWithin]

theorem ReachesWithin.reaches {n : Nat} (h : ReachesWithin key dep l T n k) :
    Reaches key dep l T k := by
  obtain ⟨c, hc, hpath⟩ := h
  refine ⟨c, fun r hr => ?_, hpath⟩
  obtain ⟨l', hl', hmem⟩ := List.mem_flatten.mp (hc.subset hr)
  rwa [List.eq_of_mem_replicate hl'] at hmem

theorem Reaches.within (h : Reaches key dep l T k) : ∃ n, ReachesWithin key dep l T n k := by
  obtain ⟨c, hc, hpath⟩ := h
  refine ⟨c.length, c, ?_, hpath⟩
  clear hpath
  induction c with
  | nil => exact List.nil_sublist _
  | cons r c ih =>
    rw [List.length_cons, List.replicate_succ, List.flatten_cons, ← List.singleton_append]
    exact (List.singleton_sublist.mpr (hc List.mem_cons_self)).append
      (ih fun x hx => hc (List.mem_cons_of_mem r hx))

theorem Reaches.snoc {r : α} (h : Reaches key dep l T (dep r)) (hr : r ∈ l) :
    Reaches key dep l T (key r) := by
  obtain ⟨c, hc, hpath⟩ := h
  exact ⟨c ++ [r], List.append_subset.mpr ⟨hc, by simpa using hr⟩, .snoc hpath⟩

theorem Closed.visit_eq {r : α} (h : dep r ∈ T → key r ∈ T) : visit key dep T r = T := by
  ext k
  rw [mem_visit_iff]
  constructor
  · rintro (hk | ⟨rfl, hd⟩)
    · exact hk
    · exact h hd
  · exact Or.inl

theorem Closed.sweep_eq (h : Closed key dep l T) : sweep key dep l T = T := by
  induction l with
  | nil => rfl
  | cons r l ih =>
    rw [sweep_cons, Closed.visit_eq (h r List.mem_cons_self)]
    exact ih fun x hx => h x (List.mem_cons_of_mem r hx)

theorem Closed.mem_of_path {S : Set κ} (h : Closed key dep l S) (hsub : T ⊆ S) {c : List α}
    (hc : c ⊆ l) (hpath : Path key dep T c k) : k ∈ S := by
  induction hpath with
  | base hk => exact hsub hk
  | snoc hprev ih =>
    exact h _ (hc (by simp)) (ih fun x hx => hc (List.mem_append_left _ hx))

/-- Once the sweeps have come to an end they have reached everything. -/
theorem closed_iterate_iff {n : Nat} :
    Closed key dep l ((sweep key dep l)^[n] T) ↔
      ∀ k, Reaches key dep l T k → ReachesWithin key dep l T n k := by
  constructor
  · rintro h k ⟨c, hc, hpath⟩
    exact mem_iterate_iff.mp (h.mem_of_path (subset_iterate n) hc hpath)
  · intro h r hr hd
    exact mem_iterate_iff.mpr (h _ ((mem_iterate_iff.mp hd).reaches.snoc hr))

theorem Closed.iterate_eq (h : Closed key dep l T) (n : Nat) : (sweep key dep l)^[n] T = T :=
  Function.iterate_fixed h.sweep_eq n

/-- What the sweeps have reached by the end does not depend on the order of the list. -/
theorem Closed.mem_iterate_iff {n : Nat} (h : Closed key dep l ((sweep key dep l)^[n] T)) :
    k ∈ (sweep key dep l)^[n] T ↔ Reaches key dep l T k :=
  ⟨fun hk => (Sweeps.mem_iterate_iff.mp hk).reaches, fun hk =>
    Sweeps.mem_iterate_iff.mpr (closed_iterate_iff.mp h k hk)⟩

/-- Where no record depends on one listed before it, a sweep adds only what lacks nothing
but itself. -/
theorem mem_sweep_of_backward (hback : l.Pairwise fun p c => dep c ≠ key p)
    (h : k ∈ sweep key dep l T) : k ∈ T ∨ ∃ r ∈ l, k = key r ∧ dep r ∈ T := by
  obtain ⟨c, hc, hpath⟩ := mem_sweep_iff.mp h
  cases hpath with
  | base hk => exact Or.inl hk
  | @snoc c r hprev =>
    refine Or.inr ⟨r, hc.subset (by simp), rfl, ?_⟩
    generalize hd : dep r = d at hprev
    cases hprev with
    | base hk => exact hk
    | @snoc c p hprev =>
      have hpair := hback.sublist hc
      simp only [List.append_assoc, List.pairwise_append] at hpair
      exact absurd hd (by simpa using hpair.2.1)

end Sweeps

import Mathlib.Tactic

/-! The recent members of a list of calls, newest first, the bounded memory from which
the least recently called falls out, and the one from which the first arrival does. -/

namespace Recency

variable {α : Type*} [DecidableEq α] {cap : Nat} {past : List α} {x y : α}

/-- The calls after the last one of `x`. -/
def since (x : α) (past : List α) : List α := past.takeWhile (· ≠ x)

@[simp] theorem since_cons_self (x : α) (past : List α) : since x (x :: past) = [] := by
  simp [since]

theorem since_cons_of_ne (h : y ≠ x) (past : List α) :
    since x (y :: past) = y :: since x past := by
  simp [since, h]

/-- `x` was called, and fewer than `cap` different others were called after it. -/
def Recent (cap : Nat) (past : List α) (x : α) : Prop :=
  x ∈ past ∧ (since x past).toFinset.card < cap

theorem Recent.of_cons (h : Recent cap (y :: past) x) (hne : x ≠ y) : Recent cap past x := by
  obtain ⟨hmem, hcard⟩ := h
  rw [since_cons_of_ne hne.symm, List.toFinset_cons] at hcard
  refine ⟨List.mem_of_ne_of_mem hne hmem, ?_⟩
  exact lt_of_le_of_lt (Finset.card_le_card (Finset.subset_insert y _)) hcard

section LeastRecentlyUsed

/-- A call of `x` where `held` was remembered, the newest in front. -/
def touch (cap : Nat) (held : List α) (x : α) : List α := (x :: held.erase x).take cap

def remembered (cap : Nat) : List α → List α
  | [] => []
  | x :: past => touch cap (remembered cap past) x

/-- Every member once, at its newest place. -/
def newestOnce : List α → List α
  | [] => []
  | x :: past => x :: (newestOnce past).erase x

theorem nodup_newestOnce (past : List α) : (newestOnce past).Nodup := by
  induction past with
  | nil => exact List.nodup_nil
  | cons y past ih => exact List.nodup_cons.mpr ⟨ih.not_mem_erase, ih.erase y⟩

theorem mem_newestOnce : x ∈ newestOnce past ↔ x ∈ past := by
  induction past with
  | nil => exact Iff.rfl
  | cons y past ih =>
    by_cases hxy : x = y
    · simp [newestOnce, hxy]
    · simp [newestOnce, hxy, List.mem_erase_of_ne hxy, ih]

theorem since_erase (h : y ≠ x) (l : List α) : since x (l.erase y) = (since x l).erase y := by
  induction l with
  | nil => rfl
  | cons z l ih =>
    by_cases hzy : z = y
    · subst z
      rw [List.erase_cons_head, since_cons_of_ne h, List.erase_cons_head]
    · rw [List.erase_cons_tail (by simpa using hzy)]
      by_cases hzx : z = x
      · subst z
        simp
      · rw [since_cons_of_ne hzx, since_cons_of_ne hzx, List.erase_cons_tail (by simpa using hzy),
          ih]

theorem since_newestOnce (x : α) (past : List α) :
    (since x (newestOnce past)).toFinset = (since x past).toFinset := by
  induction past with
  | nil => rfl
  | cons y past ih =>
    by_cases hyx : y = x
    · subst y
      simp [newestOnce]
    · rw [newestOnce, since_cons_of_ne hyx, since_cons_of_ne hyx, since_erase hyx]
      ext z
      have hz : z ∈ since x (newestOnce past) ↔ z ∈ since x past := by
        simpa using congrArg (z ∈ ·) ih
      by_cases hzy : z = y
      · simp [hzy]
      · simp [hzy, List.mem_erase_of_ne hzy, hz]

theorem take_erase_take (n : Nat) (l : List α) (x : α) :
    ((l.take (n + 1)).erase x).take n = (l.erase x).take n := by
  induction l generalizing n with
  | nil => rfl
  | cons z l ih =>
    by_cases hzx : z = x
    · subst z
      simp
    · rw [List.take_succ_cons, List.erase_cons_tail (by simpa using hzx),
        List.erase_cons_tail (by simpa using hzx)]
      cases n with
      | zero => rfl
      | succ n => rw [List.take_succ_cons, List.take_succ_cons, ih]

theorem remembered_eq_take (cap : Nat) (past : List α) :
    remembered cap past = (newestOnce past).take cap := by
  induction past with
  | nil => simp [remembered, newestOnce]
  | cons y past ih =>
    rw [remembered, touch, ih, newestOnce]
    cases cap with
    | zero => rfl
    | succ n => rw [List.take_succ_cons, List.take_succ_cons, take_erase_take]

theorem mem_take_iff (n : Nat) (l : List α) (x : α) :
    x ∈ l.take n ↔ x ∈ l ∧ (since x l).length < n := by
  induction l generalizing n with
  | nil => simp
  | cons z l ih =>
    cases n with
    | zero => simp
    | succ n =>
      by_cases hzx : z = x
      · subst z
        simp
      · rw [List.take_succ_cons, since_cons_of_ne hzx]
        simp [Ne.symm hzx, ih]

/-- The memory holds the recent members and no others. -/
theorem mem_remembered_iff : x ∈ remembered cap past ↔ Recent cap past x := by
  have hnodup : (since x (newestOnce past)).Nodup :=
    (nodup_newestOnce past).sublist (List.takeWhile_sublist _)
  rw [remembered_eq_take, mem_take_iff, mem_newestOnce, ← List.toFinset_card_of_nodup hnodup,
    since_newestOnce]
  rfl

end LeastRecentlyUsed

section Arrivals

/-- The last `cap` members, the oldest in front. -/
def arrivals {α : Type*} (cap : Nat) (past : List α) : List α := (past.take cap).reverse

theorem length_arrivals {α : Type*} (cap : Nat) (past : List α) :
    (arrivals cap past).length = min cap past.length := by
  rw [arrivals, List.length_reverse, List.length_take]

theorem arrivals_cons_of_lt {α : Type*} {cap : Nat} {past : List α} (h : past.length < cap)
    (x : α) : arrivals cap (x :: past) = arrivals cap past ++ [x] := by
  have hcons : (x :: past).length ≤ cap := by
    rw [List.length_cons]
    omega
  rw [arrivals, arrivals, List.take_of_length_le hcons, List.take_of_length_le h.le,
    List.reverse_cons]

/-- In a full window the oldest makes room. -/
theorem arrivals_cons_of_le {α : Type*} {cap : Nat} {past : List α} (hcap : 0 < cap)
    (h : cap ≤ past.length) (x : α) :
    arrivals cap (x :: past) = (arrivals cap past).tail ++ [x] := by
  obtain ⟨n, rfl⟩ : ∃ n, cap = n + 1 := ⟨cap - 1, by omega⟩
  have hdrop : (past.take (n + 1)).dropLast = past.take n := by
    rw [List.dropLast_eq_take, List.length_take, Nat.min_eq_left h, Nat.add_sub_cancel,
      List.take_take, Nat.min_eq_left (Nat.le_succ n)]
  rw [arrivals, arrivals, List.tail_reverse, hdrop, List.take_succ_cons, List.reverse_cons]

end Arrivals

end Recency

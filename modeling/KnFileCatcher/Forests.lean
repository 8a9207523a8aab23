import Mathlib.Tactic

/-! Lists of members, one at the top and one below each member, and when they are a
forest: every member has one place, and no chain of parents comes back to its start. -/

namespace Forests

variable {α : Type*}

structure Display (α : Type*) where
  top : List α
  below : α → List α

namespace Display

/-- The member at a path of positions, its own position first. -/
def find (d : Display α) : List Nat → Option α
  | [] => none
  | [i] => d.top[i]?
  | i :: j :: path => (d.find (j :: path)).bind fun q => (d.below q)[i]?

/-- Every member is found at one path and no other. -/
def IsForest (d : Display α) (known : α → Prop) : Prop :=
  ∀ x, known x → ∃! path, d.find path = some x

theorem find_cons {d : Display α} {path : List Nat} {q : α} (h : d.find path = some q) (i : Nat) :
    d.find (i :: path) = (d.below q)[i]? := by
  cases path with
  | nil => cases h
  | cons j path => rw [find, h, Option.bind_some]

theorem find_of_top_nil {d : Display α} (h : d.top = []) (path : List Nat) :
    d.find path = none := by
  induction path with
  | nil => rfl
  | cons i path ih =>
    cases path with
    | nil => rw [find, h, List.getElem?_nil]
    | cons j path => rw [find, ih, Option.bind_none]

variable [DecidableEq α]

/-- A member more, at the top or below another. -/
def put (d : Display α) (place : Option α) (x : α) : Display α :=
  match place with
  | none => { d with top := d.top ++ [x] }
  | some q => { d with below := Function.update d.below q (d.below q ++ [x]) }

theorem put_top (d : Display α) (place : Option α) (x : α) :
    (d.put place x).top = d.top ++ if place = none then [x] else [] := by
  cases place <;> simp [put]

theorem put_below (d : Display α) (place : Option α) (x q : α) :
    (d.put place x).below q = d.below q ++ if place = some q then [x] else [] := by
  cases place with
  | none => simp [put]
  | some p =>
    by_cases hq : q = p
    · simp [put, hq]
    · simp [put, hq, Ne.symm hq]

end Display

/-- The members in the lists are the known ones, each where `par` puts it. -/
structure Places (d : Display α) (known : α → Prop) (par : α → Option α) : Prop where
  nodup_top : d.top.Nodup
  nodup_below : ∀ q, (d.below q).Nodup
  mem_top : ∀ x, x ∈ d.top ↔ known x ∧ par x = none
  mem_below : ∀ q x, x ∈ d.below q ↔ known x ∧ par x = some q
  parent : ∀ q x, known x → par x = some q → known q

def Parent (known : α → Prop) (par : α → Option α) (q x : α) : Prop := known x ∧ par x = some q

def LoopFree (r : α → α → Prop) : Prop := ∀ x, ¬ Relation.TransGen r x x

section Loops

variable {d : Display α} {known : α → Prop} {par : α → Option α} {x : α}

theorem transGen_parent {q : α} (hx : par x = some q)
    (h : Relation.TransGen (Parent known par) x x) :
    Relation.TransGen (Parent known par) q q := by
  obtain ⟨p, hpath, hlast⟩ := Relation.TransGen.tail'_iff.mp h
  obtain rfl : p = q := Option.some.inj (hlast.2.symm.trans hx)
  exact .head' hlast hpath

/-- The parents of a member that is found lead to the top. -/
theorem Places.loopFree_of_find (h : Places d known par) {path : List Nat}
    (hfind : d.find path = some x) : ¬ Relation.TransGen (Parent known par) x x := by
  induction path generalizing x with
  | nil => cases hfind
  | cons i path ih =>
    intro hloop
    cases path with
    | nil =>
      have htop := (h.mem_top x).mp (List.mem_of_getElem? hfind)
      obtain ⟨p, -, hlast⟩ := Relation.TransGen.tail'_iff.mp hloop
      cases hlast.2.symm.trans htop.2
    | cons j path =>
      obtain ⟨q, hq, hx⟩ := Option.bind_eq_some_iff.mp hfind
      have hbelow := (h.mem_below q x).mp (List.mem_of_getElem? hx)
      exact ih hq (transGen_parent hbelow.2 hloop)

theorem Places.find_top (h : Places d known par) {path : List Nat} (hx : par x = none)
    (hfind : d.find path = some x) : ∃ i, path = [i] ∧ d.top[i]? = some x := by
  match path with
  | [] => cases hfind
  | [i] => exact ⟨i, rfl, hfind⟩
  | i :: j :: path =>
    obtain ⟨q, -, hi⟩ := Option.bind_eq_some_iff.mp hfind
    cases hx.symm.trans ((h.mem_below q x).mp (List.mem_of_getElem? hi)).2

theorem Places.find_below (h : Places d known par) {path : List Nat} {q : α}
    (hx : par x = some q) (hfind : d.find path = some x) :
    ∃ i rest, path = i :: rest ∧ d.find rest = some q ∧ (d.below q)[i]? = some x := by
  match path with
  | [] => cases hfind
  | [i] => cases hx.symm.trans ((h.mem_top x).mp (List.mem_of_getElem? hfind)).2
  | i :: j :: path =>
    obtain ⟨p, hp, hi⟩ := Option.bind_eq_some_iff.mp hfind
    obtain rfl : p = q :=
      Option.some.inj (((h.mem_below p x).mp (List.mem_of_getElem? hi)).2.symm.trans hx)
    exact ⟨i, j :: path, rfl, hp, hi⟩

theorem index_unique {xs : List α} (hnodup : xs.Nodup) {i j : Nat} (hi : xs[i]? = some x)
    (hj : xs[j]? = some x) : i = j :=
  (List.getElem?_inj (List.getElem?_eq_some_iff.mp hi).1 hnodup).mp (hi.trans hj.symm)

theorem nodup_concat_ite {xs : List α} (h : xs.Nodup) (hx : x ∉ xs) (c : Prop) [Decidable c] :
    (xs ++ if c then [x] else []).Nodup := by
  split
  · rw [← List.concat_eq_append]
    exact h.concat hx
  · rwa [List.append_nil]

/-- By induction down from the top, where the parents of every member end. -/
theorem Places.unique_path (h : Places d known par) (hwf : WellFounded (Parent known par))
    (hx : known x) : ∃! path, d.find path = some x := by
  induction x using hwf.induction with
  | _ x ih =>
    cases hpar : par x with
    | none =>
      obtain ⟨i, hi⟩ := List.mem_iff_getElem?.mp ((h.mem_top x).mpr ⟨hx, hpar⟩)
      refine ⟨[i], hi, fun path hpath => ?_⟩
      obtain ⟨j, rfl, hj⟩ := h.find_top hpar hpath
      rw [index_unique h.nodup_top hi hj]
    | some q =>
      obtain ⟨up, hup, hunique⟩ := ih q ⟨hx, hpar⟩ (h.parent q x hx hpar)
      obtain ⟨i, hi⟩ := List.mem_iff_getElem?.mp ((h.mem_below q x).mpr ⟨hx, hpar⟩)
      refine ⟨i :: up, (Display.find_cons hup i).trans hi, fun path hpath => ?_⟩
      obtain ⟨j, rest, rfl, hrest, hj⟩ := h.find_below hpar hpath
      rw [hunique rest hrest, index_unique (h.nodup_below q) hi hj]

theorem LoopFree.wellFounded [Finite α] {r : α → α → Prop} (h : LoopFree r) : WellFounded r := by
  have hirrefl : Std.Irrefl (Relation.TransGen r) := ⟨h⟩
  have hwf := Finite.wellFounded_of_trans_of_irrefl (Relation.TransGen r)
  exact Subrelation.wf (fun hr => Relation.TransGen.single hr) hwf

/-- The display is a forest exactly if no chain of parents comes back to its start. -/
theorem Places.isForest_iff [Finite α] (h : Places d known par) :
    d.IsForest known ↔ LoopFree (Parent known par) := by
  constructor
  · intro hforest x hloop
    obtain ⟨p, -, hlast⟩ := Relation.TransGen.tail'_iff.mp hloop
    obtain ⟨path, hpath, -⟩ := hforest x hlast.1
    exact h.loopFree_of_find hpath hloop
  · intro hfree x hx
    exact h.unique_path hfree.wellFounded hx

end Loops

section Insert

variable [DecidableEq α] {known : α → Prop} {par : α → Option α} {x : α} {place : Option α}

theorem parent_insert_of_ne {q y : α} (hne : y ≠ x) :
    Parent (fun y => known y ∨ y = x) (Function.update par x place) q y ↔
      Parent known par q y := by
  simp [Parent, hne]

/-- A new member makes a loop only by being put below itself. -/
theorem loopFree_insert (hnew : ¬ known x) (hparent : ∀ q y, known y → par y = some q → known q) :
    LoopFree (Parent (fun y => known y ∨ y = x) (Function.update par x place)) ↔
      LoopFree (Parent known par) ∧ place ≠ some x := by
  constructor
  · intro hfree
    refine ⟨fun y hloop => hfree y (Relation.TransGen.mono ?_ y y hloop), fun hself => ?_⟩
    · intro q z hz
      have hne : z ≠ x := by
        rintro rfl
        exact hnew hz.1
      exact (parent_insert_of_ne hne).mpr hz
    · exact hfree x (.single ⟨.inr rfl, by rw [Function.update_self, hself]⟩)
  · rintro ⟨hfree, hself⟩ y hloop
    have hup {q z : α}
        (h : Parent (fun y => known y ∨ y = x) (Function.update par x place) q z) : q ≠ x := by
      rintro rfl
      by_cases hz : z = q
      · subst hz
        exact hself (by simpa using h.2)
      · have hz' := (parent_insert_of_ne hz).mp h
        exact hnew (hparent q z hz'.1 hz'.2)
    have hold {q z : α} (hz : z ≠ x)
        (h : Relation.TransGen
          (Parent (fun y => known y ∨ y = x) (Function.update par x place)) q z) :
        Relation.TransGen (Parent known par) q z := by
      induction h with
      | single h => exact .single ((parent_insert_of_ne hz).mp h)
      | tail h hlast ih => exact (ih (hup hlast)).tail ((parent_insert_of_ne hz).mp hlast)
    obtain ⟨z, hfirst, -⟩ := Relation.TransGen.head'_iff.mp hloop
    exact hfree y (hold (hup hfirst) hloop)

theorem Places.put {d : Display α} (h : Places d known par) (hnew : ¬ known x)
    (hplace : ∀ q, place = some q → known q ∨ q = x) :
    Places (d.put place x) (fun y => known y ∨ y = x) (Function.update par x place) := by
  have htop : x ∉ d.top := fun hmem => hnew ((h.mem_top x).mp hmem).1
  have hbelow (q : α) : x ∉ d.below q := fun hmem => hnew ((h.mem_below q x).mp hmem).1
  constructor
  case nodup_top =>
    rw [Display.put_top]
    exact nodup_concat_ite h.nodup_top htop _
  case nodup_below =>
    intro q
    rw [Display.put_below]
    exact nodup_concat_ite (h.nodup_below q) (hbelow q) _
  case mem_top =>
    intro y
    by_cases hy : y = x
    · subst hy
      by_cases hp : place = none <;> simp [Display.put_top, hp, htop]
    · by_cases hp : place = none <;> simp [Display.put_top, hp, hy, h.mem_top]
  case mem_below =>
    intro q y
    by_cases hy : y = x
    · subst hy
      by_cases hp : place = some q <;> simp [Display.put_below, hp, hbelow]
    · by_cases hp : place = some q <;> simp [Display.put_below, hp, hy, h.mem_below]
  case parent =>
    intro q y hy hq
    by_cases hyx : y = x
    · subst hyx
      exact hplace q (by simpa using hq)
    · refine .inl (h.parent q y (hy.resolve_right hyx) ?_)
      simpa [hyx] using hq

end Insert

end Forests

import Mathlib.Tactic

/-! Texts compared unit by unit after a folding function, such as upcasing. -/

namespace FoldedText

variable {α β : Type*} (f : α → β)

def PrefixOf (xs ys : List α) : Prop := xs.map f <+: ys.map f

def SuffixOf (xs ys : List α) : Prop := xs.map f <:+ ys.map f

def InfixOf (xs ys : List α) : Prop := xs.map f <:+: ys.map f

instance [DecidableEq β] (xs ys : List α) : Decidable (PrefixOf f xs ys) :=
  inferInstanceAs (Decidable (xs.map f <+: ys.map f))

instance [DecidableEq β] (xs ys : List α) : Decidable (InfixOf f xs ys) :=
  inferInstanceAs (Decidable (xs.map f <:+: ys.map f))

def window (ys : List α) (k n : Nat) : List α := (ys.drop k).take n

variable {f}

theorem infixOf_iff_window {xs ys : List α} :
    InfixOf f xs ys ↔
      ∃ k, k + xs.length ≤ ys.length ∧ (window ys k xs.length).map f = xs.map f := by
  constructor
  · rintro ⟨pre, post, h⟩
    have hlen := congrArg List.length h
    simp only [List.length_append, List.length_map] at hlen
    refine ⟨pre.length, by omega, ?_⟩
    rw [window, List.map_take, List.map_drop, ← h, List.append_assoc, List.drop_left,
      List.take_left' (by simp)]
  · rintro ⟨k, -, h⟩
    refine ⟨(ys.take k).map f, ((ys.drop k).drop xs.length).map f, ?_⟩
    rw [← h, window, ← List.map_append, ← List.map_append, List.append_assoc,
      List.take_append_drop, List.take_append_drop]

theorem suffixOf_iff_window {xs ys : List α} (h : xs.length ≤ ys.length) :
    SuffixOf f xs ys ↔ (window ys (ys.length - xs.length) xs.length).map f = xs.map f := by
  have hw : window ys (ys.length - xs.length) xs.length = ys.drop (ys.length - xs.length) := by
    rw [window, List.take_of_length_le (by simp only [List.length_drop]; omega)]
  rw [hw, SuffixOf, List.suffix_iff_eq_drop, List.length_map, List.length_map, List.map_drop,
    eq_comm]

theorem InfixOf.length_le {xs ys : List α} (h : InfixOf f xs ys) : xs.length ≤ ys.length := by
  simpa using List.IsInfix.length_le h

theorem SuffixOf.length_le {xs ys : List α} (h : SuffixOf f xs ys) : xs.length ≤ ys.length := by
  simpa using List.IsSuffix.length_le h

theorem infixOf_append (pre xs post : List α) : InfixOf f xs (pre ++ xs ++ post) :=
  ⟨pre.map f, post.map f, by simp⟩

section Components

variable {sep : α}

theorem intercalate_append {xss yss : List (List α)} (hxs : xss ≠ []) (hys : yss ≠ []) :
    [sep].intercalate (xss ++ yss) = [sep].intercalate xss ++ sep :: [sep].intercalate yss := by
  induction xss with
  | nil => exact absurd rfl hxs
  | cons xs xss ih =>
    cases xss with
    | nil =>
      rw [List.singleton_append, List.intercalate_cons_of_ne_nil hys, List.intercalate_singleton,
        List.append_assoc, List.singleton_append]
    | cons xs' xss =>
      have hcons : xs' :: xss ++ yss ≠ [] := List.cons_ne_nil _ _
      rw [List.cons_append, List.intercalate_cons_of_ne_nil hcons, ih (List.cons_ne_nil _ _),
        List.intercalate_cons_of_ne_nil (List.cons_ne_nil _ _)]
      simp only [List.append_assoc]

theorem map_getElem?_length {xs ys : List α} {c : β} {rest : List β}
    (h : ys.map f = xs.map f ++ c :: rest) : ys[xs.length]?.map f = some c := by
  rw [← List.getElem?_map, h, List.getElem?_append_right (by simp), List.length_map, Nat.sub_self,
    List.getElem?_cons_zero]

variable [DecidableEq α] [DecidableEq β]

/-- A text begins with the components of another if it ends with them or goes on with a
separator. -/
theorem splitOn_prefix_iff {xs ys : List α} :
    xs.splitOn sep <+: ys.splitOn sep ↔ ys = xs ∨ ∃ rest, ys = xs ++ sep :: rest := by
  constructor
  · rintro ⟨more, h⟩
    have hys : [sep].intercalate (ys.splitOn sep) = ys := List.intercalate_splitOn sep
    rw [← h] at hys
    cases more with
    | nil =>
      rw [List.append_nil, List.intercalate_splitOn] at hys
      exact .inl hys.symm
    | cons c more =>
      rw [intercalate_append (List.splitOn_ne_nil _ _) (List.cons_ne_nil _ _),
        List.intercalate_splitOn] at hys
      exact .inr ⟨_, hys.symm⟩
  · rintro (rfl | ⟨rest, rfl⟩)
    · exact List.prefix_rfl
    · rw [List.splitOn_append_cons_self]
      exact List.prefix_append _ _

/-- Folding goes past splitting when nothing else is folded to the separator. -/
theorem splitOn_map (h : ∀ c, f c = f sep → c = sep) (xs : List α) :
    (xs.map f).splitOn (f sep) = (xs.splitOn sep).map (List.map f) := by
  induction xs with
  | nil => rfl
  | cons x xs ih =>
    rw [List.map_cons, List.splitOn_cons_eq_if_modifyHead, List.splitOn_cons_eq_if_modifyHead, ih]
    by_cases hx : x = sep
    · simp [hx]
    · have hfx : f x ≠ f sep := fun he => hx (h x he)
      obtain ⟨c, cs, hc⟩ := List.exists_cons_of_ne_nil (List.splitOn_ne_nil sep xs)
      simp [hx, hfx, hc]

variable (f sep) in
/-- Component by component. -/
def ComponentPrefixOf (xs ys : List α) : Prop :=
  (xs.splitOn sep).map (List.map f) <+: (ys.splitOn sep).map (List.map f)

theorem componentPrefixOf_iff (h : ∀ c, f c = f sep → c = sep) {xs ys : List α} :
    ComponentPrefixOf f sep xs ys ↔
      PrefixOf f xs ys ∧ (ys.length = xs.length ∨ ys[xs.length]? = some sep) := by
  rw [ComponentPrefixOf, ← splitOn_map h, ← splitOn_map h, splitOn_prefix_iff]
  constructor
  · rintro (he | ⟨rest, he⟩)
    · have hlen := congrArg List.length he
      rw [List.length_map, List.length_map] at hlen
      exact ⟨⟨[], by rw [List.append_nil, he]⟩, .inl hlen⟩
    · obtain ⟨c, hc, hsep⟩ := Option.map_eq_some_iff.mp (map_getElem?_length he)
      exact ⟨⟨_, he.symm⟩, .inr (by rw [hc, h c hsep])⟩
  · rintro ⟨⟨more, he⟩, hends⟩
    cases more with
    | nil => exact .inl (by rw [← he, List.append_nil])
    | cons c more =>
      have hget := map_getElem?_length he.symm
      have hlen := congrArg List.length he
      simp only [List.length_append, List.length_map, List.length_cons] at hlen
      rcases hends with hsame | hsep
      · omega
      · rw [hsep, Option.map_some] at hget
        exact .inr ⟨more, by rw [← he, Option.some.inj hget]⟩

end Components

end FoldedText

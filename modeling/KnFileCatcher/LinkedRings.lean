import Mathlib.Tactic

/-! Circular doubly linked lists in one memory. A list has a head, which is no entry, and
the links of an empty list lead from its head to itself. -/

namespace LinkedRings

variable {H E : Type}

inductive Addr (H E : Type) where
  | head (h : H)
  | entry (e : E)
deriving DecidableEq

structure Links (H E : Type) where
  flink : Addr H E → Addr H E
  blink : Addr H E → Addr H E

namespace Links

variable [DecidableEq H] [DecidableEq E]

def setFlink (m : Links H E) (a b : Addr H E) : Links H E :=
  { m with flink := Function.update m.flink a b }

def setBlink (m : Links H E) (a b : Addr H E) : Links H E :=
  { m with blink := Function.update m.blink a b }

def insertHead (m : Links H E) (h e : Addr H E) : Links H E :=
  let first := m.flink h
  (((m.setFlink e first).setBlink e h).setBlink first e).setFlink h e

/-- What closes the gap between `prev` and `next`. -/
def join (m : Links H E) (prev next : Addr H E) : Links H E :=
  (m.setFlink prev next).setBlink next prev

def remove (m : Links H E) (e : Addr H E) : Links H E := m.join (m.blink e) (m.flink e)

end Links

/-- The links lead from `a` through the list to `b`, and back. -/
def Chain (m : Links H E) : Addr H E → List (Addr H E) → Addr H E → Prop
  | a, [], b => m.flink a = b ∧ m.blink b = a
  | a, x :: xs, b => m.flink a = x ∧ m.blink x = a ∧ Chain m x xs b

section Chains

variable {m m' : Links H E} {a b x : Addr H E} {xs ys : List (Addr H E)}

theorem chain_append :
    Chain m a (xs ++ x :: ys) b ↔ Chain m a xs x ∧ Chain m x ys b := by
  induction xs generalizing a with
  | nil => simp [Chain, and_assoc]
  | cons y xs ih => simp [Chain, ih, and_assoc]

theorem Chain.frame (h : Chain m a xs b) (hf : ∀ c ∈ a :: xs, m'.flink c = m.flink c)
    (hb : ∀ c ∈ xs ++ [b], m'.blink c = m.blink c) : Chain m' a xs b := by
  induction xs generalizing a with
  | nil => exact ⟨(hf a (by simp)).trans h.1, (hb b (by simp)).trans h.2⟩
  | cons y xs ih =>
    obtain ⟨hflink, hblink, hrest⟩ := h
    refine ⟨(hf a (by simp)).trans hflink, (hb y (by simp)).trans hblink, ih hrest ?_ ?_⟩
    · exact fun c hc => hf c (List.mem_cons_of_mem a hc)
    · exact fun c hc => hb c (by simp at hc ⊢; tauto)

theorem Chain.next (h : Chain m a (x :: xs) b) : m.flink a = x := h.1

theorem Chain.first (h : Chain m a xs b) : m.flink a = xs.headD b := by
  cases xs with
  | nil => exact h.1
  | cons x xs => exact h.1

variable [DecidableEq H] [DecidableEq E]

variable {p n : Addr H E}

theorem chain_join : Chain (m.join p n) p [] n := ⟨Function.update_self .., Function.update_self ..⟩

theorem Chain.join_left (h : Chain m a xs p) (hp : p ∉ a :: xs) (hn : n ∉ xs ++ [p]) :
    Chain (m.join p n) a xs p := by
  refine h.frame (fun c hc => ?_) fun c hc => ?_
  · exact Function.update_of_ne (by rintro rfl; exact hp hc) ..
  · exact Function.update_of_ne (by rintro rfl; exact hn hc) ..

theorem Chain.join_right (h : Chain m n xs b) (hp : p ∉ n :: xs) (hn : n ∉ xs ++ [b]) :
    Chain (m.join p n) n xs b := by
  refine h.frame (fun c hc => ?_) fun c hc => ?_
  · exact Function.update_of_ne (by rintro rfl; exact hp hc) ..
  · exact Function.update_of_ne (by rintro rfl; exact hn hc) ..

end Chains

structure Ring (m : Links H E) (h : Addr H E) (xs : List (Addr H E)) : Prop where
  chain : Chain m h xs h
  nodup : (h :: xs).Nodup

section Rings

variable {m m' : Links H E} {h e a : Addr H E} {xs ys : List (Addr H E)}

theorem Ring.frame (hr : Ring m h xs) (hf : ∀ c ∈ h :: xs, m'.flink c = m.flink c)
    (hb : ∀ c ∈ h :: xs, m'.blink c = m.blink c) : Ring m' h xs :=
  ⟨hr.chain.frame hf fun c hc => hb c (by simp at hc ⊢; tauto), hr.nodup⟩

/-- The neighbours of an entry. -/
theorem Ring.neighbours (hr : Ring m h (xs ++ e :: ys)) :
    m.blink e = xs.getLastD h ∧ m.flink e = ys.headD h := by
  obtain ⟨hleft, hright⟩ := chain_append.mp hr.chain
  refine ⟨?_, hright.first⟩
  rcases List.eq_nil_or_concat xs with rfl | ⟨xs', p, rfl⟩
  · exact hleft.2
  · rw [List.concat_eq_append] at hleft ⊢
    simp only [List.getLastD_concat]
    exact (chain_append.mp hleft).2.2

variable [DecidableEq H] [DecidableEq E]

theorem insertHead_other (hr : Ring m h xs) (ha : a ∉ e :: h :: xs) :
    (m.insertHead h e).flink a = m.flink a ∧ (m.insertHead h e).blink a = m.blink a := by
  have hae : a ≠ e := fun heq => ha (by simp [heq])
  have hah : a ≠ h := fun heq => ha (by simp [heq])
  have hfirst : a ≠ m.flink h := by
    rintro rfl
    rw [hr.chain.first] at ha
    cases xs <;> simp at ha
  simp [Links.insertHead, Links.setFlink, Links.setBlink, hae, hah, hfirst]

theorem Ring.insertHead (hr : Ring m h xs) (he : e ∉ h :: xs) :
    Ring (m.insertHead h e) h (e :: xs) := by
  have hnodup : (h :: e :: xs).Nodup := by
    have hold := hr.nodup
    simp only [List.nodup_cons, List.mem_cons, not_or] at hold he ⊢
    exact ⟨⟨Ne.symm he.1, hold.1⟩, he.2, hold.2⟩
  refine ⟨?_, hnodup⟩
  have hfirst := hr.chain.first
  cases xs with
  | nil =>
    have hne : e ≠ h := by simpa using he
    simp only [List.headD_nil] at hfirst
    simp [Chain, Links.insertHead, Links.setFlink, Links.setBlink, hfirst, hne]
  | cons x xs =>
    have hx : m.flink h = x := hfirst
    obtain ⟨-, -, hrest⟩ := hr.chain
    simp only [List.nodup_cons, List.mem_cons, not_or] at hnodup
    obtain ⟨⟨hhe, hhx, hhxs⟩, ⟨hex, hexs⟩, hxxs, -⟩ := hnodup
    refine ⟨Function.update_self .., ?_, ?_, ?_, hrest.frame (fun c hc => ?_) fun c hc => ?_⟩
    · simp [Links.insertHead, Links.setFlink, Links.setBlink, hx, hex]
    · simp [Links.insertHead, Links.setFlink, Links.setBlink, hx, Ne.symm hhe]
    · simp [Links.insertHead, Links.setFlink, Links.setBlink, hx]
    · have hch : c ≠ h := by
        rintro rfl
        simp [hhx, hhxs] at hc
      have hce : c ≠ e := by
        rintro rfl
        simp [hex, hexs] at hc
      simp [Links.insertHead, Links.setFlink, Links.setBlink, hch, hce]
    · have hcx : c ≠ x := by
        rintro rfl
        simp [hxxs, Ne.symm hhx] at hc
      have hce : c ≠ e := by
        rintro rfl
        simp [hexs, Ne.symm hhe] at hc
      simp [Links.insertHead, Links.setFlink, Links.setBlink, hx, hcx, hce]

theorem remove_other (hr : Ring m h (xs ++ e :: ys)) (ha : a ∉ h :: (xs ++ e :: ys)) :
    (m.remove e).flink a = m.flink a ∧ (m.remove e).blink a = m.blink a := by
  obtain ⟨hprev, hnext⟩ := hr.neighbours
  have hap : a ≠ m.blink e := by
    rintro rfl
    rw [hprev] at ha
    rcases List.eq_nil_or_concat xs with rfl | ⟨xs', p, rfl⟩
    · simp at ha
    · simp at ha
  have han : a ≠ m.flink e := by
    rintro rfl
    rw [hnext] at ha
    cases ys <;> simp at ha
  simp [Links.remove, Links.join, Links.setFlink, Links.setBlink, hap, han]

theorem Ring.remove (hr : Ring m h (xs ++ e :: ys)) : Ring (m.remove e) h (xs ++ ys) := by
  have hnodup : (h :: (xs ++ ys)).Nodup :=
    hr.nodup.sublist ((List.Sublist.refl xs).append (List.sublist_cons_self e ys) |>.cons_cons h)
  refine ⟨?_, hnodup⟩
  obtain ⟨hprev, hnext⟩ := hr.neighbours
  obtain ⟨hleft, hright⟩ := chain_append.mp hr.chain
  have hall := hr.nodup
  rw [Links.remove, hprev, hnext]
  rcases List.eq_nil_or_concat xs with rfl | ⟨xs', p, rfl⟩
  · cases ys with
    | nil => exact chain_join
    | cons n ys =>
      obtain ⟨-, -, hrest⟩ := hright
      simp only [List.nil_append, List.nodup_cons, List.mem_cons, not_or] at hall
      obtain ⟨⟨-, hhn, hhys⟩, -, hnys, -⟩ := hall
      have hchain : Chain (m.join h n) n ys h :=
        hrest.join_right (by simp [hhn, hhys]) (by simp [hnys, Ne.symm hhn])
      exact ⟨chain_join.1, chain_join.2, hchain⟩
  · simp only [List.concat_eq_append, List.getLastD_concat, List.append_assoc,
      List.singleton_append] at *
    obtain ⟨hstart, -⟩ := chain_append.mp hleft
    have hp : p ∉ h :: xs' := by
      simp only [List.nodup_cons, List.nodup_append, List.mem_append, List.mem_cons] at hall ⊢
      grind
    cases ys with
    | nil =>
      have hn : h ∉ xs' ++ [p] := by
        simp only [List.nodup_cons, List.mem_append, List.mem_cons] at hall ⊢
        grind
      exact chain_append.mpr ⟨hstart.join_left hp hn, chain_join⟩
    | cons n ys =>
      obtain ⟨-, -, hrest⟩ := hright
      have hn : n ∉ xs' ++ [p] := by
        simp only [List.nodup_cons, List.nodup_append, List.mem_append, List.mem_cons] at hall ⊢
        grind
      have hpn : p ∉ n :: ys := by
        simp only [List.nodup_cons, List.nodup_append, List.mem_append, List.mem_cons] at hall ⊢
        grind
      have hnh : n ∉ ys ++ [h] := by
        simp only [List.nodup_cons, List.nodup_append, List.mem_append, List.mem_cons] at hall ⊢
        grind
      exact chain_append.mpr ⟨hstart.join_left hp hn, chain_join.1, chain_join.2,
        hrest.join_right hpn hnh⟩

end Rings

/-- The lists of several heads, with no entry in two of them. -/
structure Lists (m : Links H E) (rows : H → List E) : Prop where
  ring : ∀ h, Ring m (.head h) ((rows h).map .entry)
  disjoint : ∀ h h' e, e ∈ rows h → e ∈ rows h' → h = h'

section Lists

variable {m : Links H E} {rows : H → List E} {h : H} {e : E} {xs ys : List E}

theorem Lists.frame {m' : Links H E} (hl : Lists m rows)
    (hh : ∀ h, m'.flink (.head h) = m.flink (.head h) ∧ m'.blink (.head h) = m.blink (.head h))
    (he : ∀ h, ∀ e ∈ rows h, m'.flink (.entry e) = m.flink (.entry e) ∧
      m'.blink (.entry e) = m.blink (.entry e)) : Lists m' rows where
  ring h := by
    have hboth (a : Addr H E) (ha : a ∈ .head h :: (rows h).map .entry) :
        m'.flink a = m.flink a ∧ m'.blink a = m.blink a := by
      rcases List.mem_cons.mp ha with rfl | ha
      · exact hh h
      · obtain ⟨e, hmem, rfl⟩ := List.mem_map.mp ha
        exact he h e hmem
    exact (hl.ring h).frame (fun a ha => (hboth a ha).1) fun a ha => (hboth a ha).2
  disjoint := hl.disjoint

theorem Lists.first (hl : Lists m rows) (h : H) :
    m.flink (.head h) = ((rows h).map .entry).headD (.head h) :=
  (hl.ring h).chain.first

theorem Lists.split (hl : Lists m rows) (hrow : rows h = xs ++ e :: ys) :
    Ring m (.head h) (xs.map .entry ++ .entry e :: ys.map .entry) := by
  have hring := hl.ring h
  rwa [hrow, List.map_append, List.map_cons] at hring

theorem Lists.neighbours (hl : Lists m rows) (hrow : rows h = xs ++ e :: ys) :
    m.blink (.entry e) = (xs.map .entry).getLastD (.head h) ∧
      m.flink (.entry e) = (ys.map .entry).headD (.head h) :=
  (hl.split hrow).neighbours

theorem not_mem_other {h' : H} (hne : h' ≠ h) (hes : ∀ e ∈ rows h', e ∉ xs)
    {a : Addr H E} (ha : a ∈ .head h' :: (rows h').map .entry) :
    a ∉ .head h :: xs.map .entry := by
  intro hmem
  rcases List.mem_cons.mp ha with rfl | ha
  · rcases List.mem_cons.mp hmem with heq | hmem
    · cases heq
      exact hne rfl
    · obtain ⟨_, -, heq⟩ := List.mem_map.mp hmem
      cases heq
  · obtain ⟨e', he', rfl⟩ := List.mem_map.mp ha
    rcases List.mem_cons.mp hmem with heq | hmem
    · cases heq
    · obtain ⟨e'', he'', heq⟩ := List.mem_map.mp hmem
      cases heq
      exact hes _ he' he''

variable [DecidableEq H] [DecidableEq E]

theorem Lists.insertHead (hl : Lists m rows) (he : ∀ h, e ∉ rows h) (h : H) :
    Lists (m.insertHead (.head h) (.entry e)) (Function.update rows h (e :: rows h)) where
  ring h' := by
    by_cases hh : h' = h
    · subst hh
      rw [Function.update_self, List.map_cons]
      exact (hl.ring h').insertHead (by simpa using he h')
    · rw [Function.update_of_ne hh]
      have hother {a : Addr H E} (ha : a ∈ .head h' :: (rows h').map .entry) :
          a ∉ .entry e :: .head h :: (rows h).map .entry := by
        have hout : a ∉ .head h :: (rows h).map .entry :=
          not_mem_other hh (fun e' he' hmem => hh (hl.disjoint h' h e' he' hmem)) ha
        rintro (_ | ⟨_, hmem⟩)
        · exact he h' (by simpa using ha)
        · exact hout hmem
      exact (hl.ring h').frame (fun a ha => (insertHead_other (hl.ring h) (hother ha)).1)
        fun a ha => (insertHead_other (hl.ring h) (hother ha)).2
  disjoint h₁ h₂ e' h₁' h₂' := by
    by_cases heq₁ : h₁ = h <;> by_cases heq₂ : h₂ = h
    · rw [heq₁, heq₂]
    · subst heq₁
      rw [Function.update_self, List.mem_cons] at h₁'
      rw [Function.update_of_ne heq₂] at h₂'
      rcases h₁' with rfl | h₁'
      · exact absurd h₂' (he h₂)
      · exact hl.disjoint _ _ _ h₁' h₂'
    · subst heq₂
      rw [Function.update_self, List.mem_cons] at h₂'
      rw [Function.update_of_ne heq₁] at h₁'
      rcases h₂' with rfl | h₂'
      · exact absurd h₁' (he h₁)
      · exact hl.disjoint _ _ _ h₁' h₂'
    · rw [Function.update_of_ne heq₁] at h₁'
      rw [Function.update_of_ne heq₂] at h₂'
      exact hl.disjoint _ _ _ h₁' h₂'

theorem Lists.remove (hl : Lists m rows) (hrow : rows h = xs ++ e :: ys) :
    Lists (m.remove (.entry e)) (Function.update rows h (xs ++ ys)) where
  ring h' := by
    by_cases hh : h' = h
    · subst hh
      rw [Function.update_self, List.map_append]
      exact (hl.split hrow).remove
    · rw [Function.update_of_ne hh]
      have hother {a : Addr H E} (ha : a ∈ .head h' :: (rows h').map .entry) :
          a ∉ .head h :: (xs.map .entry ++ .entry e :: ys.map .entry) := by
        have hout : a ∉ .head h :: (rows h).map .entry :=
          not_mem_other hh (fun e' he' hmem => hh (hl.disjoint h' h e' he' hmem)) ha
        rwa [hrow, List.map_append, List.map_cons] at hout
      exact (hl.ring h').frame (fun a ha => (remove_other (hl.split hrow) (hother ha)).1)
        fun a ha => (remove_other (hl.split hrow) (hother ha)).2
  disjoint h₁ h₂ e' h₁' h₂' := by
    have hsub (h' : H) (hmem : e' ∈ Function.update rows h (xs ++ ys) h') : e' ∈ rows h' := by
      by_cases hh : h' = h
      · subst hh
        rw [Function.update_self] at hmem
        rw [hrow]
        simp only [List.mem_append, List.mem_cons] at hmem ⊢
        tauto
      · rwa [Function.update_of_ne hh] at hmem
    exact hl.disjoint h₁ h₂ e' (hsub h₁ h₁') (hsub h₂ h₂')

end Lists

end LinkedRings

import Mathlib.Data.Finmap
import Mathlib.Tactic

/-! Hash tables with chained buckets. A chain holds at most one live entry of a
key, so the first match of a lookup is the only one, and the table with its
counter refines a finite map. -/

namespace ChainedTable

variable {n : Nat} {κ ε ν : Type*}

/-- How an entry is keyed, hashed and recognised as live. -/
structure Layout (n : Nat) (κ ε : Type*) where
  key : ε → κ
  hash : κ → Fin n
  live : ε → Bool

abbrev Chains (n : Nat) (ε : Type*) := Fin n → List ε

def entries (t : Chains n ε) : List ε := (List.finRange n).flatMap t

namespace Layout

variable (L : Layout n κ ε)

def insertHead (t : Chains n ε) (e : ε) : Chains n ε :=
  Function.update t (L.hash (L.key e)) (e :: t (L.hash (L.key e)))

structure Wf (t : Chains n ε) : Prop where
  placed : ∀ b, ∀ e ∈ t b, L.hash (L.key e) = b
  distinct : ∀ b, ((t b).map L.key).Nodup
  live : ∀ b, ∀ e ∈ t b, L.live e = true

variable {L}

theorem wf_empty : L.Wf (fun _ => []) :=
  ⟨fun _ _ h => by simp at h, fun _ => by simp, fun _ _ h => by simp at h⟩

theorem Wf.unique {t : Chains n ε} (h : L.Wf t) {b b' : Fin n} {e e' : ε}
    (he : e ∈ t b) (he' : e' ∈ t b') (hk : L.key e = L.key e') : e = e' := by
  have hb : b = b' := by rw [← h.placed b e he, ← h.placed b' e' he', hk]
  subst hb
  exact List.inj_on_of_nodup_map (h.distinct b) he he' hk

theorem Wf.nodup_keys {t : Chains n ε} (h : L.Wf t) : ((entries t).map L.key).Nodup := by
  rw [entries, List.map_flatMap, List.nodup_flatMap]
  refine ⟨fun b _ => h.distinct b, ?_⟩
  refine (List.nodup_finRange n).imp fun {b b'} hb => ?_
  rw [Function.onFun, List.disjoint_left]
  intro k hk hk'
  obtain ⟨e, he, rfl⟩ := List.mem_map.mp hk
  obtain ⟨e', he', hkey⟩ := List.mem_map.mp hk'
  apply hb
  rw [← h.placed b e he, ← h.placed b' e' he', hkey]

theorem mem_insertHead {t : Chains n ε} {e x : ε} {b : Fin n} :
    x ∈ L.insertHead t e b ↔ (x = e ∧ b = L.hash (L.key e)) ∨ x ∈ t b := by
  by_cases hb : b = L.hash (L.key e)
  · subst hb
    simp [insertHead]
  · simp [insertHead, hb]

theorem mem_entries {t : Chains n ε} {x : ε} : x ∈ entries t ↔ ∃ b, x ∈ t b := by
  simp [entries]

variable [DecidableEq κ]

variable (L) in
def hits (k : κ) (e : ε) : Bool := decide (L.key e = k) && L.live e

variable (L) in
def find (t : Chains n ε) (k : κ) : Option ε := (t (L.hash k)).find? (L.hits k)

variable (L) in
def unlink (t : Chains n ε) (k : κ) : Chains n ε :=
  Function.update t (L.hash k) ((t (L.hash k)).eraseP (L.hits k))

theorem hits_iff {k : κ} {e : ε} : L.hits k e = true ↔ L.key e = k ∧ L.live e = true := by
  simp [hits]

theorem key_of_find {t : Chains n ε} {k : κ} {e : ε} (h : L.find t k = some e) : L.key e = k :=
  (hits_iff.mp (List.find?_some h)).1

theorem mem_of_find {t : Chains n ε} {k : κ} {e : ε} (h : L.find t k = some e) :
    e ∈ t (L.hash k) :=
  List.mem_of_find?_eq_some h

theorem Wf.find_eq_some_iff {t : Chains n ε} (h : L.Wf t) {k : κ} {e : ε} :
    L.find t k = some e ↔ L.key e = k ∧ ∃ b, e ∈ t b := by
  constructor
  · intro hf
    exact ⟨key_of_find hf, _, mem_of_find hf⟩
  · rintro ⟨rfl, b, he⟩
    have hb := h.placed b e he
    cases hf : L.find t (L.key e) with
    | none =>
      have hno := List.find?_eq_none.mp hf e (by rw [hb]; exact he)
      exact absurd (hits_iff.mpr ⟨rfl, h.live b e he⟩) hno
    | some e' => rw [h.unique (mem_of_find hf) he (key_of_find hf)]

theorem Wf.find_eq_none_iff {t : Chains n ε} (h : L.Wf t) {k : κ} :
    L.find t k = none ↔ ∀ b, ∀ e ∈ t b, L.key e ≠ k := by
  constructor
  · intro hf b e he hk
    have hs := h.find_eq_some_iff.mpr ⟨hk, b, he⟩
    simp [hf] at hs
  · intro hall
    cases hf : L.find t k with
    | none => rfl
    | some e => exact absurd (key_of_find hf) (hall _ e (mem_of_find hf))

theorem Wf.insertHead {t : Chains n ε} (h : L.Wf t) {e : ε} (hlive : L.live e = true)
    (hnew : L.find t (L.key e) = none) : L.Wf (L.insertHead t e) where
  placed b x hx := by
    rcases mem_insertHead.mp hx with ⟨rfl, rfl⟩ | hx
    · rfl
    · exact h.placed b x hx
  distinct b := by
    by_cases hb : b = L.hash (L.key e)
    · subst hb
      have hfresh : L.key e ∉ (t (L.hash (L.key e))).map L.key := by
        intro hm
        obtain ⟨x, hx, hk⟩ := List.mem_map.mp hm
        exact h.find_eq_none_iff.mp hnew _ x hx hk
      simpa [Layout.insertHead] using ⟨by simpa using hfresh, h.distinct _⟩
    · simpa [Layout.insertHead, hb] using h.distinct b
  live b x hx := by
    rcases mem_insertHead.mp hx with ⟨rfl, -⟩ | hx
    · exact hlive
    · exact h.live b x hx

theorem Wf.entries_insertHead {t : Chains n ε} (h : L.Wf t) {e : ε} (hlive : L.live e = true)
    (hnew : L.find t (L.key e) = none) : (entries (L.insertHead t e)).Perm (e :: entries t) := by
  have hfresh : e ∉ entries t := by
    intro he
    obtain ⟨b, hb⟩ := mem_entries.mp he
    exact h.find_eq_none_iff.mp hnew b e hb rfl
  have hnodup := List.nodup_cons.mpr ⟨hfresh, h.nodup_keys.of_map L.key⟩
  refine (List.perm_ext_iff_of_nodup ((h.insertHead hlive hnew).nodup_keys.of_map L.key) hnodup).mpr ?_
  intro x
  rw [mem_entries, List.mem_cons, mem_entries]
  constructor
  · rintro ⟨b, hx⟩
    obtain ⟨rfl, -⟩ | hx := mem_insertHead.mp hx
    · exact .inl rfl
    · exact .inr ⟨b, hx⟩
  · rintro (rfl | ⟨b, hx⟩)
    · exact ⟨_, mem_insertHead.mpr (.inl ⟨rfl, rfl⟩)⟩
    · exact ⟨b, mem_insertHead.mpr (.inr hx)⟩

theorem find_insertHead {t : Chains n ε} {e : ε} (hlive : L.live e = true) (k : κ) :
    L.find (L.insertHead t e) k = if k = L.key e then some e else L.find t k := by
  by_cases hk : k = L.key e
  · subst hk
    simp [find, Layout.insertHead, hits, hlive]
  · rw [if_neg hk]
    by_cases hb : L.hash k = L.hash (L.key e)
    · have hno : L.hits k e = false := by simp [hits, Ne.symm hk]
      simp [find, Layout.insertHead, hb, hno]
    · simp [find, Layout.insertHead, hb]

theorem mem_of_mem_unlink {t : Chains n ε} {k : κ} {x : ε} {b : Fin n}
    (hx : x ∈ L.unlink t k b) : x ∈ t b := by
  by_cases hb : b = L.hash k
  · subst hb
    exact List.mem_of_mem_eraseP (by simpa [unlink] using hx)
  · simpa [unlink, hb] using hx

theorem Wf.unlink {t : Chains n ε} (h : L.Wf t) (k : κ) : L.Wf (L.unlink t k) where
  placed b x hx := h.placed b x (mem_of_mem_unlink hx)
  distinct b := by
    by_cases hb : b = L.hash k
    · subst hb
      have hsub : ((t (L.hash k)).eraseP (L.hits k)).Sublist (t (L.hash k)) :=
        List.eraseP_sublist
      simpa [Layout.unlink] using (h.distinct (L.hash k)).sublist (hsub.map L.key)
    · simpa [Layout.unlink, hb] using h.distinct b
  live b x hx := h.live b x (mem_of_mem_unlink hx)

theorem Wf.key_ne_of_mem_unlink {t : Chains n ε} (h : L.Wf t) {k : κ} {b : Fin n} {x : ε}
    (hx : x ∈ L.unlink t k b) : L.key x ≠ k := by
  rintro rfl
  have hmem := mem_of_mem_unlink hx
  obtain rfl : b = L.hash (L.key x) := (h.placed b x hmem).symm
  have hx' : x ∈ (t (L.hash (L.key x))).eraseP (L.hits (L.key x)) := by
    simpa [Layout.unlink] using hx
  have hhit : L.hits (L.key x) x = true := hits_iff.mpr ⟨rfl, h.live _ x hmem⟩
  obtain ⟨a, l₁, l₂, -, ha, hl, he⟩ := List.exists_of_eraseP hmem hhit
  have hnd := h.distinct (L.hash (L.key x))
  rw [hl, List.map_append, List.map_cons] at hnd
  rw [he] at hx'
  -- the erased entry has the key of `x`, and keys are distinct
  apply (List.nodup_cons.mp (List.nodup_middle.mp hnd)).1
  rw [(hits_iff.mp ha).1, ← List.map_append]
  exact List.mem_map_of_mem hx'

theorem find?_eraseP_of_ne {k k' : κ} (hk : k' ≠ k) (l : List ε) :
    (l.eraseP (L.hits k)).find? (L.hits k') = l.find? (L.hits k') := by
  induction l with
  | nil => rfl
  | cons x l ih =>
    cases hx : L.hits k x with
    | true =>
      have hkx : L.key x = k := (hits_iff.mp hx).1
      have hno : L.hits k' x = false := by simp [hits, hkx, Ne.symm hk]
      simp [hx, hno]
    | false => cases hx' : L.hits k' x <;> simp [hx, hx', ih]

theorem Wf.find_unlink {t : Chains n ε} (h : L.Wf t) (k k' : κ) :
    L.find (L.unlink t k) k' = if k' = k then none else L.find t k' := by
  by_cases hk : k' = k
  · subst hk
    rw [if_pos rfl, (h.unlink k').find_eq_none_iff]
    exact fun b x hx => h.key_ne_of_mem_unlink hx
  · rw [if_neg hk]
    by_cases hb : L.hash k' = L.hash k
    · simp [find, Layout.unlink, hb, find?_eraseP_of_ne hk]
    · simp [find, Layout.unlink, hb]

/-- The chains and their counter stand for the finite map `m`, entries being
read through `view`. -/
structure Refines (L : Layout n κ ε) (view : ε → ν) (t : Chains n ε) (count : Int)
    (m : Finmap fun _ : κ => ν) : Prop where
  wf : L.Wf t
  lookup : ∀ k, (L.find t k).map view = m.lookup k
  count : count = m.keys.card

variable {view : ε → ν} {t : Chains n ε} {count : Int} {m : Finmap fun _ : κ => ν}

theorem Refines.empty : Refines L view (fun _ => []) 0 ∅ :=
  ⟨wf_empty, fun k => by simp [find], by simp⟩

theorem Refines.find_eq_none_iff (h : Refines L view t count m) {k : κ} :
    L.find t k = none ↔ k ∉ m := by
  rw [← Finmap.lookup_eq_none, ← h.lookup k, Option.map_eq_none_iff]

theorem Refines.insertHead (h : Refines L view t count m) {e : ε} (hlive : L.live e = true)
    (hnew : L.find t (L.key e) = none) :
    Refines L view (L.insertHead t e) (count + 1) (m.insert (L.key e) (view e)) where
  wf := h.wf.insertHead hlive hnew
  lookup k := by
    rw [find_insertHead hlive]
    by_cases hk : k = L.key e
    · subst hk
      rw [if_pos rfl, Finmap.lookup_insert, Option.map_some]
    · rw [if_neg hk, Finmap.lookup_insert_of_ne _ hk, h.lookup]
  count := by
    have hkeys : (m.insert (L.key e) (view e)).keys = insert (L.key e) m.keys := by
      ext k
      simp [Finmap.mem_keys, Finmap.mem_insert]
    have hfresh : L.key e ∉ m.keys := by
      rw [Finmap.mem_keys]
      exact h.find_eq_none_iff.mp hnew
    rw [hkeys, Finset.card_insert_of_notMem hfresh, h.count]
    simp

theorem Refines.unlink (h : Refines L view t count m) {k : κ} {e : ε}
    (hk : L.find t k = some e) :
    Refines L view (L.unlink t k) (count - 1) (m.erase k) where
  wf := h.wf.unlink k
  lookup k' := by
    rw [h.wf.find_unlink]
    by_cases he : k' = k
    · subst he
      rw [if_pos rfl, Finmap.lookup_erase, Option.map_none]
    · rw [if_neg he, Finmap.lookup_erase_ne he, h.lookup]
  count := by
    have hmem : k ∈ m.keys := by
      rw [Finmap.mem_keys]
      by_contra hno
      have hf := h.find_eq_none_iff.mpr hno
      simp [hk] at hf
    have hcard := Finset.card_erase_add_one hmem
    rw [Finmap.keys_erase, h.count, ← hcard]
    simp

theorem Refines.erase_absent (h : Refines L view t count m) {k : κ} (hk : L.find t k = none) :
    m.erase k = m := by
  apply Finmap.ext_lookup
  intro k'
  by_cases he : k' = k
  · subst he
    rw [Finmap.lookup_erase, Finmap.lookup_eq_none.mpr (h.find_eq_none_iff.mp hk)]
  · rw [Finmap.lookup_erase_ne he]

end Layout

end ChainedTable

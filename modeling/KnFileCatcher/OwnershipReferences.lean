import KnFileCatcher.Ownership

/-! The reference counts of shared objects agree with their holders: every call that the
ledger of its task allows keeps them so, and an object goes with its last reference. -/

namespace Ownership

variable {T Key Slot Kind D V : Type}

inductive Owner (T Slot : Type) where
  | task (t : T)
  | slot (o : Nat) (s : Slot)
deriving DecidableEq

/-- Who owns what: the holders of every object, and the owner of every block that was
allocated and not freed. -/
structure Ghost (T Key Slot Kind V : Type) where
  ledger : T → Ledger Slot Kind V
  holders : Nat → Multiset (T ⊕ Key)
  owner : Block Kind → Option (Owner T Slot)

section Ghost

variable [DecidableEq T] {o : Nat}

/-- What a change of the ledger of `t` leaves alone, it leaves alone in every ledger. -/
theorem ledger_update {α : Type*} {L : T → Ledger Slot Kind V} {t : T} {M : Ledger Slot Kind V}
    (f : Ledger Slot Kind V → α) (h : f M = f (L t)) (t' : T) :
    f (Function.update L t M t') = f (L t') := by
  by_cases ht : t' = t
  · subst ht
    rw [Function.update_self, h]
  · rw [Function.update_of_ne ht]

/-- The ghost after `t` attached `o` to `k`: the object is no longer its own. -/
def Ghost.attach (G : Ghost T Key Slot Kind V) (t : T) (k : Key) (o : Nat) :
    Ghost T Key Slot Kind V :=
  { G with
    ledger := Function.update G.ledger t
      { G.ledger t with fresh := fun o' s => o' ≠ o ∧ (G.ledger t).fresh o' s }
    holders := Function.update G.holders o (.inr k ::ₘ G.holders o) }

variable [DecidableEq Key]

/-- The ghost after the task `t` got a reference to `o`, and the slots of `fresh`. -/
def Ghost.gain (G : Ghost T Key Slot Kind V) (t : T) (o : Nat) (fresh : Nat → Slot → Prop) :
    Ghost T Key Slot Kind V :=
  { G with
    ledger := Function.update G.ledger t
      { G.ledger t with refs := o ::ₘ (G.ledger t).refs, fresh := fresh }
    holders := Function.update G.holders o (.inl t ::ₘ G.holders o) }

/-- The ghost after the holder `x` gave up a reference to `o`. -/
def Ghost.drop (G : Ghost T Key Slot Kind V) (x : T ⊕ Key) (o : Nat) : Ghost T Key Slot Kind V :=
  { G with holders := Function.update G.holders o ((G.holders o).erase x) }

theorem Ghost.card_drop {G : Ghost T Key Slot Kind V} {x : T ⊕ Key} (hx : x ∈ G.holders o)
    (o' : Nat) : (G.holders o').card =
      ((G.drop x o).holders o').card + if some o = some o' then 1 else 0 := by
  by_cases ho : o' = o
  · subst ho
    have hpos := Multiset.card_pos_iff_exists_mem.mpr ⟨x, hx⟩
    simp only [Ghost.drop, Function.update_self, Multiset.card_erase_of_mem hx, if_true,
      Nat.pred_eq_sub_one]
    omega
  · simp [Ghost.drop, ho, Ne.symm ho]

theorem Ghost.mem_drop {G : Ghost T Key Slot Kind V} {x y : T ⊕ Key} {o o' : Nat}
    (h : y ∈ (G.drop x o).holders o') : y ∈ G.holders o' := by
  by_cases ho : o' = o
  · subst ho
    exact Multiset.mem_of_mem_erase (by simpa [Ghost.drop] using h)
  · simpa [Ghost.drop, ho] using h

def Ghost.release (G : Ghost T Key Slot Kind V) (t : T) (o : Nat) (R : Multiset Nat) :
    Ghost T Key Slot Kind V :=
  { G.drop (.inl t) o with
    ledger := Function.update G.ledger t { G.ledger t with refs := R } }

end Ghost

section References

variable [DecidableEq T] [DecidableEq Key] [DecidableEq Kind]

/-- The references of `h` are the holders of `G`; one reference to the object `due` was
given up and is still counted. -/
structure References (h : Heap T Key Slot Kind D V) (G : Ghost T Key Slot Kind V)
    (due : Option Nat) : Prop where
  refs_eq : ∀ o, h.refs o = (G.holders o).card + if due = some o then 1 else 0
  task_count : ∀ t o, (G.holders o).count (.inl t) = (G.ledger t).refs.count o
  key_count : ∀ k o, (G.holders o).count (.inr k) = if h.attached k = some o then 1 else 0
  obtained_eq : ∀ t o, h.log.count (.obtained t o) =
    h.log.count (.released t o) + (G.ledger t).refs.count o
  unmade : ∀ o, h.objects ≤ o → h.refs o = 0
  tornDown_iff : ∀ o, .tornDown o ∈ h.log ↔ o < h.objects ∧ h.refs o = 0
  fresh : ∀ t o s, (G.ledger t).fresh o s →
    o < h.objects ∧ h.slots o s = none ∧ ∀ x ∈ G.holders o, x = .inl t

variable {h h' : Heap T Key Slot Kind D V} {G G' : Ghost T Key Slot Kind V} {due : Option Nat}
  {t : T} {o : Nat}

theorem References.holder (hr : References h G due) (ho : o ∈ (G.ledger t).refs) :
    Sum.inl t ∈ G.holders o := by
  rw [← Multiset.count_pos, hr.task_count]
  exact Multiset.count_pos.mpr ho

theorem References.refs_pos (hr : References h G due) {x : T ⊕ Key} (hx : x ∈ G.holders o) :
    0 < h.refs o := by
  have hcard := Multiset.card_pos_iff_exists_mem.mpr ⟨x, hx⟩
  rw [hr.refs_eq]
  omega

theorem References.not_tornDown (hr : References h G due) {x : T ⊕ Key} (hx : x ∈ G.holders o) :
    .tornDown o ∉ h.log := by
  intro hmem
  have hpos := hr.refs_pos hx
  have hzero := ((hr.tornDown_iff o).mp hmem).2
  omega

theorem References.attached_mem (hr : References h G due) {k : Key} (hk : h.attached k = some o) :
    Sum.inr k ∈ G.holders o := by
  rw [← Multiset.count_pos, hr.key_count, if_pos hk]
  exact Nat.one_pos

theorem References.inOrder (hr : References h G due) (ho : o ∈ (G.ledger t).refs) :
    h.log.count (.released t o) < h.log.count (.obtained t o) ∧ .tornDown o ∉ h.log := by
  refine ⟨?_, hr.not_tornDown (hr.holder ho)⟩
  have hcount := Multiset.count_pos.mpr ho
  rw [hr.obtained_eq]
  omega

theorem References.not_fresh (hr : References h G due) (ho : o ∈ (G.ledger t).refs) {t' : T}
    (ht : t' ≠ t) (s : Slot) : ¬ (G.ledger t').fresh o s := by
  intro hf
  have heq := (hr.fresh t' o s hf).2.2 _ (hr.holder ho)
  exact ht (Sum.inl.inj heq).symm

def Event.OfBlocks : Event T Kind → Prop
  | .touched _ _ | .allocated _ _ | .used _ | .freed _ => True
  | .obtained _ _ | .released _ _ | .tornDown _ => False

/-- What moves blocks around leaves the references as they are. -/
theorem References.of_blocks (hr : References h G due) (hrefs : h'.refs = h.refs)
    (hattached : h'.attached = h.attached) (hobjects : h'.objects = h.objects)
    (hlog : ∃ new, h'.log = new ++ h.log ∧ ∀ e ∈ new, e.OfBlocks)
    (hholders : G'.holders = G.holders)
    (hledger : ∀ t, (G'.ledger t).refs = (G.ledger t).refs)
    (hfresh : ∀ t o s, (G'.ledger t).fresh o s → (G.ledger t).fresh o s ∧ h'.slots o s = none) :
    References h' G' due := by
  obtain ⟨new, hnew, hblocks⟩ := hlog
  have hcount : ∀ e : Event T Kind, ¬ e.OfBlocks → h'.log.count e = h.log.count e := by
    intro e he
    rw [hnew, List.count_append, List.count_eq_zero_of_not_mem fun hmem => he (hblocks e hmem),
      Nat.zero_add]
  refine ⟨?_, ?_, ?_, ?_, ?_, ?_, ?_⟩
  · simpa only [hrefs, hholders] using hr.refs_eq
  · simpa only [hholders, hledger] using hr.task_count
  · simpa only [hholders, hattached] using hr.key_count
  · intro t o
    rw [hcount _ id, hcount _ id, hledger]
    exact hr.obtained_eq t o
  · simpa only [hobjects, hrefs] using hr.unmade
  · intro o
    rw [← List.count_pos_iff, hcount _ id, List.count_pos_iff, hobjects, hrefs]
    exact hr.tornDown_iff o
  · intro t o s hf
    obtain ⟨hold, hnone⟩ := hfresh t o s hf
    have hfr := hr.fresh t o s hold
    rw [hobjects, hholders]
    exact ⟨hfr.1, hnone, hfr.2.2⟩

/-- The same where the slots are left alone too. -/
theorem References.of_blocks_aside (hr : References h G due) (hrefs : h'.refs = h.refs)
    (hattached : h'.attached = h.attached) (hobjects : h'.objects = h.objects)
    (hslots : h'.slots = h.slots) (hlog : ∃ new, h'.log = new ++ h.log ∧ ∀ e ∈ new, e.OfBlocks)
    (hholders : G'.holders = G.holders)
    (hledger : ∀ t, (G'.ledger t).refs = (G.ledger t).refs)
    (hfresh : ∀ t, (G'.ledger t).fresh = (G.ledger t).fresh) : References h' G' due := by
  refine hr.of_blocks hrefs hattached hobjects hlog hholders hledger fun t o s hf => ?_
  rw [hfresh] at hf
  exact ⟨hf, hslots ▸ (hr.fresh t o s hf).2.1⟩

theorem References.gain (hr : References h G none) {objects : Nat} {fresh : Nat → Slot → Prop}
    (hold : h.objects ≤ objects) (ho : o < objects)
    (hnew : ∀ o' < objects, o' < h.objects ∨ o' = o) (hno : .tornDown o ∉ h.log)
    (hfresh : ∀ t' o' s, ((G.gain t o fresh).ledger t').fresh o' s → o' < objects ∧
      h.slots o' s = none ∧ ∀ x ∈ (G.gain t o fresh).holders o', x = .inl t') :
    References { h.obtain t o with objects := objects } (G.gain t o fresh) none where
  refs_eq o' := by
    have h := hr.refs_eq o'
    by_cases ho : o' = o
    · subst ho
      simpa [Heap.obtain, Ghost.gain] using h
    · simpa [Heap.obtain, Ghost.gain, ho] using h
  task_count t' o' := by
    have h := hr.task_count t' o'
    by_cases ho : o' = o <;> by_cases ht : t' = t
    · subst ho ht
      simp [Ghost.gain, h]
    · subst ho
      simp [Ghost.gain, ht, h]
    · subst ht
      simp [Ghost.gain, ho, h]
    · simp [Ghost.gain, ho, ht, h]
  key_count k o' := by
    refine Eq.trans ?_ (hr.key_count k o')
    by_cases ho : o' = o
    · subst ho
      simp [Ghost.gain]
    · simp [Ghost.gain, ho]
  obtained_eq t' o' := by
    have h := hr.obtained_eq t' o'
    by_cases ht : t' = t
    · subst ht
      by_cases ho : o' = o
      · subst ho
        simp [Heap.obtain, Ghost.gain, h, Nat.add_assoc]
      · simp [Heap.obtain, Ghost.gain, h, ho, Ne.symm ho]
    · simp [Heap.obtain, Ghost.gain, h, ht, Ne.symm ht]
  unmade o' ho' := by
    have hne : o' ≠ o := by
      rintro rfl
      exact absurd ho (Nat.not_lt.mpr ho')
    simpa [Heap.obtain, hne] using hr.unmade o' (Nat.le_trans hold ho')
  tornDown_iff o' := by
    by_cases heq : o' = o
    · subst heq
      simpa [Heap.obtain] using hno
    · have hmade : o' < objects ↔ o' < h.objects :=
        ⟨fun hlt => (hnew o' hlt).resolve_right heq, fun hlt => Nat.lt_of_lt_of_le hlt hold⟩
      simpa [Heap.obtain, heq, hmade] using hr.tornDown_iff o'
  fresh := hfresh

/-- A task gets a reference to what is attached somewhere, so known to others. -/
theorem References.obtain (hr : References h G none) {k : Key} (hk : h.attached k = some o) :
    References (h.obtain t o) (G.gain t o (G.ledger t).fresh) none := by
  have hmem := hr.attached_mem hk
  have hmade : o < h.objects := by
    by_contra hge
    have hpos := hr.refs_pos hmem
    have hzero := hr.unmade o (Nat.le_of_not_lt hge)
    omega
  refine hr.gain le_rfl hmade (fun _ => Or.inl) (hr.not_tornDown hmem) fun t' o' s hf => ?_
  rw [show ((G.gain t o (G.ledger t).fresh).ledger t').fresh = (G.ledger t').fresh from
    ledger_update Ledger.fresh (by rfl) t'] at hf
  have hfr := hr.fresh t' o' s hf
  have hne : o' ≠ o := by
    rintro rfl
    cases hfr.2.2 _ hmem
  simpa [Ghost.gain, hne] using hfr

/-- A new object, whose slots are empty and which only its maker knows. -/
theorem References.create (hr : References h G none) (hslots : ∀ s, h.slots h.objects s = none) :
    References (h.create t)
      (G.gain t h.objects fun o s => o = h.objects ∨ (G.ledger t).fresh o s) none := by
  have hzero := hr.unmade h.objects le_rfl
  have hholders : G.holders h.objects = 0 := by
    rw [← Multiset.card_eq_zero]
    have hrefs := hr.refs_eq h.objects
    omega
  have hno : .tornDown h.objects ∉ h.log := fun hmem =>
    Nat.lt_irrefl _ ((hr.tornDown_iff h.objects).mp hmem).1
  refine hr.gain (Nat.le_succ _) (Nat.lt_succ_self _) (fun o' hlt => ?_) hno fun t' o' s hf => ?_
  · omega
  · by_cases heq : o' = h.objects
    · subst heq
      have ht : t' = t := by
        by_contra hne
        have hlt := (hr.fresh t' h.objects s (by simpa [Ghost.gain, hne] using hf)).1
        exact Nat.lt_irrefl _ hlt
      subst ht
      exact ⟨Nat.lt_succ_self _, hslots s, by simp [Ghost.gain, hholders]⟩
    · have hold : (G.ledger t').fresh o' s := by
        by_cases ht : t' = t
        · subst ht
          simpa [Ghost.gain, heq] using hf
        · simpa [Ghost.gain, ht] using hf
      have hfr := hr.fresh t' o' s hold
      exact ⟨Nat.lt_succ_of_lt hfr.1, hfr.2.1, by simpa [Ghost.gain, heq] using hfr.2.2⟩

theorem References.attach (hr : References h G none) {k : Key} (hk : h.attached k = none)
    (ho : o ∈ (G.ledger t).refs) : References (h.attach k o) (G.attach t k o) none where
  refs_eq o' := by
    have h := hr.refs_eq o'
    by_cases ho : o' = o
    · subst ho
      simpa [Heap.attach, Ghost.attach] using h
    · simpa [Heap.attach, Ghost.attach, ho] using h
  task_count t' o' := by
    have h := hr.task_count t' o'
    rw [show ((G.attach t k o).ledger t').refs = (G.ledger t').refs from
      ledger_update Ledger.refs (by rfl) t']
    by_cases ho : o' = o
    · subst ho
      simpa [Ghost.attach] using h
    · simpa [Ghost.attach, ho] using h
  key_count k' o' := by
    have hcount := hr.key_count k' o'
    by_cases hkk : k' = k
    · subst hkk
      rw [hk, if_neg (by simp)] at hcount
      by_cases ho : o' = o
      · subst ho
        simpa [Heap.attach, Ghost.attach] using hcount
      · simpa [Heap.attach, Ghost.attach, ho, Ne.symm ho] using hcount
    · have hsame : (h.attach k o).attached k' = h.attached k' := by simp [Heap.attach, hkk]
      rw [hsame, ← hcount]
      by_cases ho : o' = o
      · subst ho
        simp [Ghost.attach, hkk]
      · simp [Ghost.attach, ho]
  obtained_eq t' o' := by
    rw [show ((G.attach t k o).ledger t').refs = (G.ledger t').refs from
      ledger_update Ledger.refs (by rfl) t']
    exact hr.obtained_eq t' o'
  unmade o' ho' := by
    have hne : o' ≠ o := by
      rintro rfl
      have hpos := hr.refs_pos (hr.holder ho)
      have hzero := hr.unmade o' ho'
      omega
    simpa [Heap.attach, hne] using hr.unmade o' ho'
  tornDown_iff o' := by
    by_cases heq : o' = o
    · subst heq
      simpa [Heap.attach] using hr.not_tornDown (hr.holder ho)
    · simpa [Heap.attach, heq] using hr.tornDown_iff o'
  fresh t' o' s hf := by
    have hold : (G.ledger t').fresh o' s ∧ o' ≠ o := by
      by_cases ht : t' = t
      · subst ht
        simpa [Ghost.attach, and_comm] using hf
      · have hf' : (G.ledger t').fresh o' s := by simpa [Ghost.attach, ht] using hf
        refine ⟨hf', ?_⟩
        rintro rfl
        exact hr.not_fresh ho ht s hf'
    simpa [Heap.attach, Ghost.attach, hold.2] using hr.fresh t' o' s hold.1

theorem References.release (hr : References h G none) {R : Multiset Nat}
    (hR : (G.ledger t).refs = o ::ₘ R) :
    References (h.note (.released t o)) (G.release t o R) (some o) where
  refs_eq o' := by
    have hx := hr.holder (t := t) (o := o) (by rw [hR]; exact Multiset.mem_cons_self o R)
    have hrefs := hr.refs_eq o'
    rw [if_neg (by simp), Nat.add_zero, Ghost.card_drop hx] at hrefs
    exact hrefs
  task_count t' o' := by
    have hcount := hr.task_count t' o'
    by_cases ho : o' = o <;> by_cases ht : t' = t
    · subst ho ht
      rw [hR, Multiset.count_cons_self] at hcount
      simp [Ghost.release, Ghost.drop, hcount]
    · subst ho
      simp [Ghost.release, Ghost.drop, ht, hcount]
    · subst ht
      rw [hR, Multiset.count_cons_of_ne ho] at hcount
      simp [Ghost.release, Ghost.drop, ho, hcount]
    · simp [Ghost.release, Ghost.drop, ho, ht, hcount]
  key_count k o' := by
    refine Eq.trans ?_ (hr.key_count k o')
    by_cases ho : o' = o
    · subst ho
      simp [Ghost.release, Ghost.drop]
    · simp [Ghost.release, Ghost.drop, ho]
  obtained_eq t' o' := by
    have hcount := hr.obtained_eq t' o'
    by_cases ht : t' = t
    · subst ht
      by_cases ho : o' = o
      · subst ho
        rw [hR, Multiset.count_cons_self] at hcount
        simp [Heap.note, Ghost.release, hcount]
        omega
      · rw [hR, Multiset.count_cons_of_ne ho] at hcount
        simp [Heap.note, Ghost.release, hcount, Ne.symm ho]
    · simp [Heap.note, Ghost.release, hcount, ht, Ne.symm ht]
  unmade := hr.unmade
  tornDown_iff o' := by simpa [Heap.note] using hr.tornDown_iff o'
  fresh t' o' s hf := by
    rw [show ((G.release t o R).ledger t').fresh = (G.ledger t').fresh from
      ledger_update Ledger.fresh (by rfl) t'] at hf
    obtain ⟨hmade, hslot, hall⟩ := hr.fresh t' o' s hf
    exact ⟨hmade, hslot, fun x hx => hall x (Ghost.mem_drop hx)⟩

theorem References.detach (hr : References h G none) {k : Key} (hk : h.attached k = some o) :
    References (h.detach k) (G.drop (.inr k) o) (some o) where
  refs_eq o' := by
    have hrefs := hr.refs_eq o'
    rw [if_neg (by simp), Nat.add_zero, Ghost.card_drop (hr.attached_mem hk)] at hrefs
    exact hrefs
  task_count t' o' := by
    refine Eq.trans ?_ (hr.task_count t' o')
    by_cases ho : o' = o
    · subst ho
      simp [Ghost.drop]
    · simp [Ghost.drop, ho]
  key_count k' o' := by
    have hcount := hr.key_count k' o'
    by_cases hkk : k' = k
    · subst hkk
      rw [hk] at hcount
      by_cases ho : o' = o
      · subst ho
        have hone : (G.holders o').count (.inr k') = 1 := by simpa using hcount
        simp [Heap.detach, Ghost.drop, hone]
      · simpa [Heap.detach, Ghost.drop, ho, Ne.symm ho] using hcount
    · have hsame : (h.detach k).attached k' = h.attached k' := by simp [Heap.detach, hkk]
      rw [hsame, ← hcount]
      by_cases ho : o' = o
      · subst ho
        simp [Ghost.drop, hkk]
      · simp [Ghost.drop, ho]
  obtained_eq := hr.obtained_eq
  unmade := hr.unmade
  tornDown_iff := hr.tornDown_iff
  fresh t' o' s hf := by
    obtain ⟨hmade, hslot, hall⟩ := hr.fresh t' o' s hf
    exact ⟨hmade, hslot, fun x hx => hall x (Ghost.mem_drop hx)⟩

/-- The count catches up; with the last reference the object is torn down. -/
theorem References.unref (cleanup : (Slot → Option (Block Kind)) → List (Block Kind))
    (hr : References h G (some o)) (hledger : G'.ledger = G.ledger)
    (hholders : G'.holders = G.holders) : References (h.unref cleanup o) G' none := by
  obtain ⟨hattached, hobjects, -, -⟩ := h.unref_attached cleanup o
  have hpos : 0 < h.refs o := by
    rw [hr.refs_eq, if_pos rfl]
    omega
  have hmade : o < h.objects := by
    by_contra hge
    have hzero := hr.unmade o (Nat.le_of_not_lt hge)
    omega
  have hcount : ∀ e : Event T Kind, ¬ e.OfBlocks → (∀ o, e ≠ .tornDown o) →
      (h.unref cleanup o).log.count e = h.log.count e := by
    intro e he hne
    by_cases hl : h.Last o
    · have hno : e ∉ (cleanup (h.slots o)).map .freed := by
        intro hmem
        obtain ⟨b, -, rfl⟩ := List.mem_map.mp hmem
        exact he trivial
      rw [(Heap.unref_last cleanup hl).2, List.count_append, List.count_eq_zero_of_not_mem hno,
        List.count_cons_of_ne (Ne.symm (hne o)), Nat.zero_add]
    · rw [(Heap.unref_more cleanup hl).2]
  refine ⟨fun o' => ?_, ?_, ?_, fun t' o' => ?_, fun o' ho' => ?_, fun o' => ?_,
    fun t' o' s hf => ?_⟩
  · have hrefs := hr.refs_eq o'
    rw [Heap.unref_refs, hholders, if_neg (by simp), Nat.add_zero]
    by_cases ho : o' = o
    · subst ho
      rw [if_pos rfl] at hrefs
      rw [Function.update_self]
      omega
    · rw [if_neg (by simpa using Ne.symm ho)] at hrefs
      rw [Function.update_of_ne ho]
      omega
  · simpa only [hholders, hledger] using hr.task_count
  · simpa only [hholders, hattached] using hr.key_count
  · rw [hcount _ id (by simp), hcount _ id (by simp), hledger]
    exact hr.obtained_eq t' o'
  · rw [hobjects] at ho'
    rw [Heap.unref_refs, Function.update_of_ne (by omega)]
    exact hr.unmade o' ho'
  · rw [hobjects, Heap.unref_refs]
    have htorn := hr.tornDown_iff o'
    by_cases hl : h.Last o
    · have hone : h.refs o = 1 := Nat.le_antisymm hl hpos
      rw [(Heap.unref_last cleanup hl).2]
      by_cases ho : o' = o
      · subst ho
        simp [hmade, hone]
      · simpa [ho] using htorn
    · have hmore : ¬ h.refs o - 1 = 0 := by
        unfold Heap.Last at hl
        omega
      rw [(Heap.unref_more cleanup hl).2]
      by_cases ho : o' = o
      · subst ho
        rw [htorn, Function.update_self]
        simp [hmore]
        omega
      · rw [htorn, Function.update_of_ne ho]
  · rw [hledger] at hf
    obtain ⟨hlt, hslot, hall⟩ := hr.fresh t' o' s hf
    rw [hobjects, hholders]
    refine ⟨hlt, ?_, hall⟩
    by_cases hl : h.Last o
    · rw [(Heap.unref_last cleanup hl).1]
      by_cases ho : o' = o
      · subst ho
        simp
      · simpa [ho] using hslot
    · rwa [(Heap.unref_more cleanup hl).1]

end References

end Ownership

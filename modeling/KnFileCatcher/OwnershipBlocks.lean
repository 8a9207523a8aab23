import KnFileCatcher.OwnershipReferences

/-! Every block that was allocated and not freed has one owner, a task or the slot of a
live object. -/

namespace Ownership

variable {T Key Slot Kind D V : Type}

/-- A teardown names every block in the slots, each once. -/
structure Empties (cleanup : (Slot → Option (Block Kind)) → List (Block Kind)) : Prop where
  mem_iff : ∀ slots b, b ∈ cleanup slots ↔ ∃ s, slots s = some b
  nodup : ∀ slots : Slot → Option (Block Kind),
    (∀ s s' b, slots s = some b → slots s' = some b → s = s') → (cleanup slots).Nodup

section Clear

variable {o : Nat}

/-- The ghost after a teardown: the blocks in the slots of `o` have no owner. -/
def Ghost.clear (G : Ghost T Key Slot Kind V) (o : Nat) : Ghost T Key Slot Kind V :=
  { G with owner := fun b =>
      match G.owner b with
      | some (.slot o' s) => if o' = o then none else some (.slot o' s)
      | w => w }

theorem Ghost.clear_owner {G : Ghost T Key Slot Kind V} {b : Block Kind} {w : Owner T Slot} :
    (G.clear o).owner b = some w ↔ G.owner b = some w ∧ ∀ s, w ≠ .slot o s := by
  unfold Ghost.clear
  dsimp only
  cases hw : G.owner b with
  | none => simp
  | some w' =>
    cases w' with
    | task t =>
      simp only [Option.some.injEq]
      exact ⟨fun heq => ⟨heq, by rintro s rfl; cases heq⟩, And.left⟩
    | slot o' s' =>
      by_cases ho : o' = o
      · subst ho
        simp only [if_true, Option.some.injEq]
        constructor
        · intro heq
          cases heq
        · rintro ⟨rfl, hne⟩
          exact absurd rfl (hne s')
      · simp only [if_neg ho, Option.some.injEq]
        refine ⟨fun heq => ⟨heq, ?_⟩, And.left⟩
        rintro s rfl
        cases heq
        exact ho rfl

theorem Ghost.clear_none {G : Ghost T Key Slot Kind V} {b : Block Kind} :
    (G.clear o).owner b = none ↔ G.owner b = none ∨ ∃ s, G.owner b = some (.slot o s) := by
  unfold Ghost.clear
  dsimp only
  cases hw : G.owner b with
  | none => simp
  | some w =>
    cases w with
    | task t => simp
    | slot o' s =>
      by_cases ho : o' = o
      · simp [ho]
      · simp [ho]

end Clear

section Blocks

variable [DecidableEq T] [DecidableEq Slot] [DecidableEq Kind]

structure Blocks (storable : Kind → Prop) (h : Heap T Key Slot Kind D V)
    (G : Ghost T Key Slot Kind V) : Prop where
  slot_iff : ∀ o s b, h.slots o s = some b ↔ G.owner b = some (.slot o s)
  slot_live : ∀ o s b, h.slots o s = some b → 0 < h.refs o ∧ storable b.kind
  task_count : ∀ t b, ((G.ledger t).blocks.map Prod.fst).count b =
    if G.owner b = some (.task t) then 1 else 0
  content_eq : ∀ t x, x ∈ (G.ledger t).blocks → h.content x.1 = x.2
  allocated_lt : ∀ t b, .allocated t b ∈ h.log → b.id < h.blocks
  owned : ∀ b w, G.owner b = some w →
    ∃ t, .allocated t b ∈ h.log ∧ (storable b.kind ∨ w = .task t)
  freed_iff : ∀ b, .freed b ∈ h.log ↔ (∃ t, .allocated t b ∈ h.log) ∧ G.owner b = none

variable {storable : Kind → Prop} {h h' : Heap T Key Slot Kind D V}
  {G G' : Ghost T Key Slot Kind V} {t : T} {o : Nat}

def Event.OfReferences : Event T Kind → Prop
  | .obtained _ _ | .released _ _ | .touched _ _ | .tornDown _ | .used _ => True
  | .allocated _ _ | .freed _ => False

/-- What moves references around leaves the blocks as they are. -/
theorem Blocks.of_references (hb : Blocks storable h G) (hslots : h'.slots = h.slots)
    (hcontent : h'.content = h.content) (hblocks : h'.blocks = h.blocks)
    (hrefs : ∀ o, 0 < h.refs o → 0 < h'.refs o)
    (hlog : ∃ new, h'.log = new ++ h.log ∧ ∀ e ∈ new, e.OfReferences)
    (hledger : ∀ t, (G'.ledger t).blocks = (G.ledger t).blocks) (howner : G'.owner = G.owner) :
    Blocks storable h' G' := by
  obtain ⟨new, hnew, hrefers⟩ := hlog
  have hmem : ∀ e : Event T Kind, ¬ e.OfReferences → (e ∈ h'.log ↔ e ∈ h.log) := by
    intro e he
    rw [hnew, List.mem_append]
    exact or_iff_right fun hin => he (hrefers e hin)
  have hallocated : ∀ t b, .allocated t b ∈ h'.log ↔ .allocated t b ∈ h.log :=
    fun t b => hmem _ id
  refine ⟨?_, fun o s b hs => ?_, ?_, ?_, ?_, ?_, fun b => ?_⟩
  · simpa only [hslots, howner] using hb.slot_iff
  · rw [hslots] at hs
    obtain ⟨hpos, hkind⟩ := hb.slot_live o s b hs
    exact ⟨hrefs o hpos, hkind⟩
  · simpa only [hledger, howner] using hb.task_count
  · simpa only [hledger, hcontent] using hb.content_eq
  · simpa only [hallocated, hblocks] using hb.allocated_lt
  · simpa only [hallocated, howner] using hb.owned
  · rw [hmem _ id]
    simpa only [hallocated, howner] using hb.freed_iff b

theorem Blocks.owner_of_mem (hb : Blocks storable h G) {b : Block Kind} {v : V}
    (hm : (b, v) ∈ (G.ledger t).blocks) : G.owner b = some (.task t) := by
  have hcount := hb.task_count t b
  by_contra hne
  rw [if_neg hne, Multiset.count_eq_zero] at hcount
  exact hcount (Multiset.mem_map_of_mem Prod.fst hm)

theorem Blocks.exists_of_owner (hb : Blocks storable h G) {b : Block Kind}
    (hw : G.owner b = some (.task t)) : ∃ v, (b, v) ∈ (G.ledger t).blocks := by
  have hcount := hb.task_count t b
  rw [if_pos hw] at hcount
  have hmem := Multiset.count_pos.mp (Nat.lt_of_lt_of_eq Nat.one_pos hcount.symm)
  obtain ⟨⟨b', v⟩, hv, rfl⟩ := Multiset.mem_map.mp hmem
  exact ⟨v, hv⟩

theorem Blocks.inOrder (hb : Blocks storable h G) {b : Block Kind} {w : Owner T Slot}
    (hw : G.owner b = some w) : (∃ t, .allocated t b ∈ h.log) ∧ .freed b ∉ h.log := by
  obtain ⟨t, ht, -⟩ := hb.owned b w hw
  refine ⟨⟨t, ht⟩, fun hfreed => ?_⟩
  have hnone := ((hb.freed_iff b).mp hfreed).2
  rw [hw] at hnone
  cases hnone

def Ghost.allocate (G : Ghost T Key Slot Kind V) (t : T) (b : Block Kind) (v : V) :
    Ghost T Key Slot Kind V :=
  { G with
    ledger := Function.update G.ledger t
      { G.ledger t with blocks := (b, v) ::ₘ (G.ledger t).blocks }
    owner := Function.update G.owner b (some (.task t)) }

theorem Blocks.new_unowned (hb : Blocks storable h G) {b : Block Kind} (hid : h.blocks ≤ b.id) :
    G.owner b = none ∧ ∀ t, .allocated t b ∉ h.log := by
  have hno : ∀ t, .allocated t b ∉ h.log := fun t ht =>
    Nat.not_lt.mpr hid (hb.allocated_lt t b ht)
  refine ⟨?_, hno⟩
  cases hw : G.owner b with
  | none => rfl
  | some w =>
    obtain ⟨t, ht, -⟩ := hb.owned b w hw
    exact absurd ht (hno t)

theorem Blocks.allocate (hb : Blocks storable h G) (t : T) (kind : Kind) (v : V) :
    Blocks storable (h.allocate t kind v) (G.allocate t ⟨kind, h.blocks⟩ v) := by
  obtain ⟨hnone, hnew⟩ := hb.new_unowned (b := ⟨kind, h.blocks⟩) le_rfl
  generalize hblock : (⟨kind, h.blocks⟩ : Block Kind) = b at hnone hnew
  have hid : b.id = h.blocks := by rw [← hblock]
  have howner : ∀ x, x ≠ b → (G.allocate t b v).owner x = G.owner x := by
    intro x hx
    simp [Ghost.allocate, hx]
  have hself : (G.allocate t b v).owner b = some (.task t) := by simp [Ghost.allocate]
  have hlog : (h.allocate t kind v).log = .allocated t b :: h.log := by rw [← hblock]; rfl
  have hcontent : (h.allocate t kind v).content = Function.update h.content b v := by
    rw [← hblock]
    rfl
  refine ⟨fun o s x => ?_, hb.slot_live, fun t' x => ?_, fun t' x hx => ?_, fun t' x hx => ?_,
    fun x w hw => ?_, fun x => ?_⟩
  · refine (hb.slot_iff o s x).trans ?_
    by_cases hx : x = b
    · subst hx
      simp [hnone, hself]
    · rw [howner x hx]
  · have hcount := hb.task_count t' x
    by_cases hx : x = b
    · subst hx
      rw [hnone, if_neg (by simp)] at hcount
      by_cases ht : t' = t
      · subst ht
        simp [Ghost.allocate, hcount]
      · simp [Ghost.allocate, ht, Ne.symm ht, hcount]
    · rw [howner x hx, ← hcount]
      by_cases ht : t' = t
      · subst ht
        simp [Ghost.allocate, hx]
      · simp [Ghost.allocate, ht]
  · rw [hcontent]
    have hold : x = (b, v) ∨ x ∈ (G.ledger t').blocks := by
      by_cases ht : t' = t
      · subst ht
        simpa [Ghost.allocate] using hx
      · exact Or.inr (by simpa [Ghost.allocate, ht] using hx)
    rcases hold with rfl | hold
    · simp
    · have hne : x.1 ≠ b := by
        intro heq
        have htask := hb.owner_of_mem (b := x.1) (v := x.2) hold
        rw [heq, hnone] at htask
        cases htask
      rw [Function.update_of_ne hne]
      exact hb.content_eq t' x hold
  · rw [hlog] at hx
    rcases List.mem_cons.mp hx with heq | hx
    · cases heq
      exact hid ▸ Nat.lt_succ_self _
    · exact Nat.lt_succ_of_lt (hb.allocated_lt t' x hx)
  · rw [hlog]
    by_cases hx : x = b
    · subst hx
      rw [hself] at hw
      cases hw
      exact ⟨t, List.mem_cons_self, Or.inr rfl⟩
    · rw [howner x hx] at hw
      obtain ⟨t', ht', hkind⟩ := hb.owned x w hw
      exact ⟨t', List.mem_cons_of_mem _ ht', hkind⟩
  · rw [hlog]
    by_cases hx : x = b
    · subst hx
      have hno : .freed x ∉ h.log := fun hfreed => by
        obtain ⟨⟨t', ht'⟩, -⟩ := (hb.freed_iff x).mp hfreed
        exact hnew t' ht'
      simp [hself, hno]
    · rw [howner x hx]
      simpa [hx] using hb.freed_iff x

def Ghost.write (G : Ghost T Key Slot Kind V) (t : T) (b : Block Kind) (v : V)
    (B : Multiset (Block Kind × V)) : Ghost T Key Slot Kind V :=
  { G with ledger := Function.update G.ledger t { G.ledger t with blocks := (b, v) ::ₘ B } }

theorem Blocks.write (hb : Blocks storable h G) {b : Block Kind} {v v' : V}
    {B : Multiset (Block Kind × V)} (hB : (G.ledger t).blocks = (b, v') ::ₘ B) :
    Blocks storable (h.setContent b v) (G.write t b v B) := by
  have htask : G.owner b = some (.task t) :=
    hb.owner_of_mem (v := v') (by rw [hB]; exact Multiset.mem_cons_self _ _)
  refine ⟨hb.slot_iff, hb.slot_live, fun t' x => ?_, fun t' x hx => ?_, hb.allocated_lt, hb.owned,
    hb.freed_iff⟩
  · refine Eq.trans ?_ (hb.task_count t' x)
    by_cases ht : t' = t
    · subst ht
      simp [Ghost.write, hB]
    · simp [Ghost.write, ht]
  · have hold : x = (b, v) ∨ x.1 ≠ b ∧ x ∈ (G.ledger t').blocks := by
      by_cases ht : t' = t
      · subst ht
        have hmem : x = (b, v) ∨ x ∈ B := by simpa [Ghost.write] using hx
        refine hmem.imp_right fun hxB => ⟨?_, by rw [hB]; exact Multiset.mem_cons_of_mem hxB⟩
        have hcount := hb.task_count t' b
        rw [hB, Multiset.map_cons, Multiset.count_cons_self, if_pos htask] at hcount
        rintro rfl
        have hpos := Multiset.count_pos.mpr (Multiset.mem_map_of_mem Prod.fst hxB)
        omega
      · have hx' : x ∈ (G.ledger t').blocks := by simpa [Ghost.write, ht] using hx
        refine Or.inr ⟨?_, hx'⟩
        rintro rfl
        have htask' := (hb.owner_of_mem (v := x.2) hx').symm.trans htask
        simp only [Option.some.injEq, Owner.task.injEq] at htask'
        exact ht htask'
    rcases hold with rfl | ⟨hne, hx'⟩
    · simp [Heap.setContent]
    · simpa [Heap.setContent, hne] using hb.content_eq t' x hx'

def Ghost.free (G : Ghost T Key Slot Kind V) (t : T) (b : Block Kind)
    (B : Multiset (Block Kind × V)) : Ghost T Key Slot Kind V :=
  { G with
    ledger := Function.update G.ledger t { G.ledger t with blocks := B }
    owner := Function.update G.owner b none }

theorem Blocks.free (hb : Blocks storable h G) {b : Block Kind} {v : V}
    {B : Multiset (Block Kind × V)} (hB : (G.ledger t).blocks = (b, v) ::ₘ B) :
    Blocks storable (h.note (.freed b)) (G.free t b B) := by
  have htask : G.owner b = some (.task t) :=
    hb.owner_of_mem (v := v) (by rw [hB]; exact Multiset.mem_cons_self _ _)
  have hself : (G.free t b B).owner b = none := by simp [Ghost.free]
  have howner : ∀ x, x ≠ b → (G.free t b B).owner x = G.owner x := by
    intro x hx
    simp [Ghost.free, hx]
  refine ⟨fun o s x => ?_, hb.slot_live, fun t' x => ?_, fun t' x hx => ?_, fun t' x hx => ?_,
    fun x w hw => ?_, fun x => ?_⟩
  · refine (hb.slot_iff o s x).trans ?_
    by_cases hx : x = b
    · subst hx
      simp [htask, hself]
    · rw [howner x hx]
  · have hcount := hb.task_count t' x
    by_cases ht : t' = t
    · subst ht
      rw [hB, Multiset.map_cons, Multiset.count_cons] at hcount
      by_cases hx : x = b
      · subst hx
        rw [if_pos htask, if_pos rfl] at hcount
        simpa [Ghost.free] using hcount
      · rw [howner x hx, ← hcount]
        simp [Ghost.free, hx]
    · by_cases hx : x = b
      · subst hx
        rw [htask, if_neg (by simpa using Ne.symm ht)] at hcount
        simp [Ghost.free, ht, hcount]
      · rw [howner x hx, ← hcount]
        simp [Ghost.free, ht]
  · refine hb.content_eq t' x ?_
    by_cases ht : t' = t
    · subst ht
      rw [hB]
      exact Multiset.mem_cons_of_mem (by simpa [Ghost.free] using hx)
    · simpa [Ghost.free, ht] using hx
  · exact hb.allocated_lt t' x (by simpa [Heap.note] using hx)
  · have hne : x ≠ b := by
      rintro rfl
      rw [hself] at hw
      cases hw
    rw [howner x hne] at hw
    simpa [Heap.note] using hb.owned x w hw
  · by_cases hx : x = b
    · subst hx
      obtain ⟨t', ht', -⟩ := hb.owned x _ htask
      have hallocated : ∃ t, .allocated t x ∈ h.log := ⟨t', ht'⟩
      simpa [Heap.note, hself] using hallocated
    · rw [howner x hx]
      simpa [Heap.note, hx] using hb.freed_iff x

/-- The ghost after `t` put `x` in the slot `s` of `o`, and kept what was there. -/
def Ghost.store (G : Ghost T Key Slot Kind V) (t : T) (o : Nat) (s : Slot)
    (x old : Option (Block Kind × V)) (B : Multiset (Block Kind × V)) (fresh : Nat → Slot → Prop) :
    Ghost T Key Slot Kind V :=
  { G with
    ledger := Function.update G.ledger t
      { G.ledger t with blocks := atMostOne old + B, fresh := fresh }
    owner := fun b =>
      if x.map Prod.fst = some b then some (.slot o s)
      else if old.map Prod.fst = some b then some (.task t) else G.owner b }

theorem count_atMostOne (x : Option (Block Kind × V)) (b : Block Kind) :
    ((atMostOne x).map Prod.fst).count b = if x.map Prod.fst = some b then 1 else 0 := by
  cases x with
  | none => simp [atMostOne]
  | some y => simp [atMostOne, Multiset.count_singleton, eq_comm]

theorem mem_atMostOne {α : Type} {x : Option α} {a : α} : a ∈ atMostOne x ↔ x = some a := by
  cases x with
  | none => simp [atMostOne]
  | some y => simp [atMostOne, eq_comm]

/-- Where a block is before and after a `store`: it goes into the slot, or to the task, or
has nothing to do with it. -/
theorem Blocks.store_owner (hb : Blocks storable h G) {s : Slot}
    {x old : Option (Block Kind × V)} {B : Multiset (Block Kind × V)}
    (fresh : Nat → Slot → Prop) (hB : (G.ledger t).blocks = atMostOne x + B)
    (hold : old.map Prod.fst = h.slots o s) (b : Block Kind) :
    (x.map Prod.fst = some b ∧ old.map Prod.fst ≠ some b ∧ G.owner b = some (.task t) ∧
      (G.store t o s x old B fresh).owner b = some (.slot o s)) ∨
    (x.map Prod.fst ≠ some b ∧ old.map Prod.fst = some b ∧ G.owner b = some (.slot o s) ∧
      (G.store t o s x old B fresh).owner b = some (.task t)) ∨
    x.map Prod.fst ≠ some b ∧ old.map Prod.fst ≠ some b ∧
      (G.store t o s x old B fresh).owner b = G.owner b := by
  have htask : x.map Prod.fst = some b → G.owner b = some (.task t) := by
    intro hx
    obtain ⟨⟨b', v⟩, rfl, rfl⟩ := Option.map_eq_some_iff.mp hx
    exact hb.owner_of_mem (v := v) (by rw [hB]; simp [atMostOne])
  have hslot : old.map Prod.fst = some b → G.owner b = some (.slot o s) := by
    intro hob
    rw [hold] at hob
    exact (hb.slot_iff o s b).mp hob
  by_cases hx : x.map Prod.fst = some b
  · have hob : old.map Prod.fst ≠ some b := by
      intro hob
      have hne := (htask hx).symm.trans (hslot hob)
      simp at hne
    exact Or.inl ⟨hx, hob, htask hx, if_pos hx⟩
  · by_cases hob : old.map Prod.fst = some b
    · exact Or.inr (Or.inl ⟨hx, hob, hslot hob, (if_neg hx).trans (if_pos hob)⟩)
    · exact Or.inr (Or.inr ⟨hx, hob, (if_neg hx).trans (if_neg hob)⟩)

/-- A block goes into a slot, and the one in it to the task. -/
theorem Blocks.store (hb : Blocks storable h G) {s : Slot} {x : Option (Block Kind × V)}
    {B : Multiset (Block Kind × V)} {fresh : Nat → Slot → Prop}
    (hB : (G.ledger t).blocks = atMostOne x + B) (hpos : 0 < h.refs o)
    (hkind : ∀ y ∈ x, storable y.1.kind) :
    Blocks storable (h.setSlot o s (x.map Prod.fst))
      (G.store t o s x ((h.slots o s).map fun b => (b, h.content b)) B fresh) := by
  generalize hold : ((h.slots o s).map fun b => (b, h.content b)) = old
  have hslot : old.map Prod.fst = h.slots o s := by
    rw [← hold, Option.map_map]
    exact Option.map_id'
  have hcases := hb.store_owner fresh hB hslot
  have hstorable : ∀ b, x.map Prod.fst = some b → storable b.kind := by
    intro b hx
    obtain ⟨y, hy, rfl⟩ := Option.map_eq_some_iff.mp hx
    exact hkind y hy
  refine ⟨fun o' s' b => ?_, fun o' s' b hs => ?_, fun t' b => ?_, fun t' y hy => ?_,
    hb.allocated_lt, fun b w hw => ?_, fun b => ?_⟩
  · by_cases hhere : o' = o ∧ s' = s
    · obtain ⟨rfl, rfl⟩ := hhere
      rw [Heap.setSlot_self]
      rcases hcases b with ⟨hx, -, -, hw⟩ | ⟨hx, -, -, hw⟩ | ⟨hx, hob, hw⟩
      · simp [hx, hw]
      · simp [hx, hw]
      · rw [hw, ← hb.slot_iff, ← hslot]
        simp [hx, hob]
    · have hother : Owner.slot (T := T) o s ≠ .slot o' s' := by
        intro heq
        cases heq
        exact hhere ⟨rfl, rfl⟩
      rw [Heap.setSlot_other hhere, hb.slot_iff]
      rcases hcases b with ⟨-, -, htask, hw⟩ | ⟨-, -, htaken, hw⟩ | ⟨-, -, hw⟩
      · simp [htask, hw, hother]
      · simp [htaken, hw, hother]
      · rw [hw]
  · by_cases hhere : o' = o ∧ s' = s
    · obtain ⟨rfl, rfl⟩ := hhere
      rw [Heap.setSlot_self] at hs
      exact ⟨hpos, hstorable b hs⟩
    · rw [Heap.setSlot_other hhere] at hs
      exact hb.slot_live o' s' b hs
  · have hcount := hb.task_count t' b
    by_cases ht : t' = t
    · subst ht
      have hledger : ((G.store t' o s x old B fresh).ledger t').blocks = atMostOne old + B := by
        simp [Ghost.store]
      rw [hB, Multiset.map_add, Multiset.count_add, count_atMostOne] at hcount
      rw [hledger, Multiset.map_add, Multiset.count_add, count_atMostOne]
      rcases hcases b with ⟨hx, hob, htask, hw⟩ | ⟨hx, hob, htaken, hw⟩ | ⟨hx, hob, hw⟩
      · rw [if_pos hx, htask, if_pos rfl] at hcount
        rw [if_neg hob, hw, if_neg (by simp)]
        omega
      · rw [if_neg hx, htaken, if_neg (by simp)] at hcount
        rw [if_pos hob, hw, if_pos rfl]
        omega
      · rw [if_neg hx] at hcount
        rw [if_neg hob, hw, hcount]
    · have hledger : ((G.store t o s x old B fresh).ledger t').blocks = (G.ledger t').blocks := by
        simp [Ghost.store, ht]
      rw [hledger, hcount]
      rcases hcases b with ⟨-, -, htask, hw⟩ | ⟨-, -, htaken, hw⟩ | ⟨-, -, hw⟩
      · simp [htask, hw, Ne.symm ht]
      · simp [htaken, hw, Ne.symm ht]
      · rw [hw]
  · by_cases ht : t' = t
    · subst ht
      have hmem : old = some y ∨ y ∈ B := by
        simpa [Ghost.store, mem_atMostOne] using hy
      rcases hmem with rfl | hmem
      · obtain ⟨b, -, rfl⟩ := Option.map_eq_some_iff.mp hold
        rfl
      · exact hb.content_eq t' y (by rw [hB]; exact Multiset.mem_add.mpr (Or.inr hmem))
    · exact hb.content_eq t' y (by simpa [Ghost.store, ht] using hy)
  · rcases hcases b with ⟨hx, -, htask, -⟩ | ⟨-, -, htaken, -⟩ | ⟨-, -, heq⟩
    · obtain ⟨t', ht', -⟩ := hb.owned b _ htask
      exact ⟨t', ht', Or.inl (hstorable b hx)⟩
    · obtain ⟨t', ht', hstored⟩ := hb.owned b _ htaken
      exact ⟨t', ht', Or.inl (hstored.resolve_right (by simp))⟩
    · rw [heq] at hw
      exact hb.owned b w hw
  · refine (hb.freed_iff b).trans (and_congr_right fun _ => ?_)
    rcases hcases b with ⟨-, -, htask, hw⟩ | ⟨-, -, htaken, hw⟩ | ⟨-, -, hw⟩
    · simp [htask, hw]
    · simp [htaken, hw]
    · rw [hw]

variable {cleanup : (Slot → Option (Block Kind)) → List (Block Kind)}

theorem Blocks.unref_more (hb : Blocks storable h G) (hl : ¬ h.Last o) :
    Blocks storable (h.unref cleanup o) G := by
  obtain ⟨-, -, hcontent, hblocks⟩ := h.unref_attached cleanup o
  obtain ⟨hslots, hlog⟩ := Heap.unref_more cleanup hl
  refine hb.of_references hslots hcontent hblocks (fun o' hpos => ?_) ⟨[], hlog, by simp⟩
    (fun _ => rfl) rfl
  rw [Heap.unref_refs]
  by_cases ho : o' = o
  · subst ho
    unfold Heap.Last at hl
    rw [Function.update_self]
    omega
  · rwa [Function.update_of_ne ho]

theorem Blocks.unref_last (hb : Blocks storable h G) (he : Empties cleanup) (hl : h.Last o) :
    Blocks storable (h.unref cleanup o) (G.clear o) := by
  obtain ⟨-, -, hcontent, hblocks⟩ := h.unref_attached cleanup o
  obtain ⟨hslots, hlog⟩ := Heap.unref_last cleanup hl
  have hcleaned : ∀ b, b ∈ cleanup (h.slots o) ↔ ∃ s, G.owner b = some (.slot o s) := by
    intro b
    rw [he.mem_iff]
    exact exists_congr fun s => hb.slot_iff o s b
  have hallocated : ∀ t b, .allocated t b ∈ (h.unref cleanup o).log ↔ .allocated t b ∈ h.log := by
    intro t b
    rw [hlog]
    simp
  refine ⟨fun o' s b => ?_, fun o' s b hs => ?_, fun t b => ?_, fun t x hx => ?_, fun t b hm => ?_,
    fun b w hw => ?_, fun b => ?_⟩
  · rw [hslots, Ghost.clear_owner, ← hb.slot_iff]
    by_cases ho : o' = o
    · subst ho
      simp
    · simp [ho]
  · rw [hslots] at hs
    have ho : o' ≠ o := by
      rintro rfl
      simp at hs
    rw [Function.update_of_ne ho] at hs
    rw [Heap.unref_refs, Function.update_of_ne ho]
    exact hb.slot_live o' s b hs
  · refine (hb.task_count t b).trans ?_
    have hiff : (G.clear o).owner b = some (.task t) ↔ G.owner b = some (.task t) := by
      rw [Ghost.clear_owner]
      exact and_iff_left (by simp)
    simp only [hiff]
  · rw [hcontent]
    exact hb.content_eq t x hx
  · rw [hblocks]
    exact hb.allocated_lt t b ((hallocated t b).mp hm)
  · simp only [hallocated]
    exact hb.owned b w (Ghost.clear_owner.mp hw).1
  · simp only [hallocated]
    have hfreed : .freed b ∈ (h.unref cleanup o).log ↔
        b ∈ cleanup (h.slots o) ∨ .freed b ∈ h.log := by
      rw [hlog]
      simp
    rw [hfreed, hcleaned, hb.freed_iff, Ghost.clear_none]
    constructor
    · rintro (⟨s, hs⟩ | ⟨hall, hnone⟩)
      · obtain ⟨t, ht, -⟩ := hb.owned b _ hs
        exact ⟨⟨t, ht⟩, Or.inr ⟨s, hs⟩⟩
      · exact ⟨hall, Or.inl hnone⟩
    · rintro ⟨hall, hnone | hs⟩
      · exact Or.inr ⟨hall, hnone⟩
      · exact Or.inl hs

/-- The events of a teardown are in order: nothing in the slots was freed before. -/
theorem Blocks.orderly_unref (hb : Blocks storable h G) (he : Empties cleanup)
    (ho : Orderly h.log) (hno : .tornDown o ∉ h.log) : Orderly (h.unref cleanup o).log := by
  by_cases hl : h.Last o
  · rw [(Heap.unref_last cleanup hl).2]
    have hnodup : (cleanup (h.slots o)).Nodup := by
      refine he.nodup _ fun s s' b hs hs' => ?_
      have hsame := ((hb.slot_iff o s b).mp hs).symm.trans ((hb.slot_iff o s' b).mp hs')
      cases hsame
      rfl
    have hfine : ∀ b ∈ cleanup (h.slots o), (∃ t, .allocated t b ∈ h.log) ∧ .freed b ∉ h.log := by
      intro b hin
      obtain ⟨s, hs⟩ := (he.mem_iff _ b).mp hin
      exact hb.inOrder ((hb.slot_iff o s b).mp hs)
    generalize cleanup (h.slots o) = freed at hnodup hfine
    induction freed with
    | nil => exact ho.cons hno
    | cons b freed ih =>
      obtain ⟨hnew, hnodup⟩ := List.nodup_cons.mp hnodup
      obtain ⟨hb, hrest⟩ := List.forall_mem_cons.mp hfine
      refine (ih hnodup hrest).cons ⟨?_, ?_⟩
      · obtain ⟨t, ht⟩ := hb.1
        exact ⟨t, List.mem_append_right _ (List.mem_cons_of_mem _ ht)⟩
      · simpa [hb.2] using hnew
  · rwa [(Heap.unref_more cleanup hl).2]

end Blocks

end Ownership

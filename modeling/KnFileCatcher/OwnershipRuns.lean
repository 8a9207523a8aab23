import KnFileCatcher.OwnershipBlocks
import KnFileCatcher.Runs

/-! Tasks that run programs over one heap, an instruction at a time, and rest between
the parts of their work. -/

namespace Ownership

variable {T Key Slot Kind D V : Type} [DecidableEq T] [DecidableEq Key] [DecidableEq Slot]
  [DecidableEq Kind]

structure Consistent (storable : Kind → Prop) (h : Heap T Key Slot Kind D V)
    (G : Ghost T Key Slot Kind V) : Prop where
  references : References h G none
  blocks : Blocks storable h G
  orderly : Orderly h.log

section Calls

variable {storable : Kind → Prop} {cleanup : (Slot → Option (Block Kind)) → List (Block Kind)}
  {h : Heap T Key Slot Kind D V} {G : Ghost T Key Slot Kind V} {t : T} {o : Nat}

theorem Consistent.touch (hc : Consistent storable h G) (ho : o ∈ (G.ledger t).refs) :
    Consistent storable (h.note (.touched t o)) G where
  references := hc.references.of_blocks_aside rfl rfl rfl rfl
    ⟨[.touched t o], rfl, by simp [Event.OfBlocks]⟩ rfl (fun _ => rfl) fun _ => rfl
  blocks := hc.blocks.of_references rfl rfl rfl (fun _ => id)
    ⟨[.touched t o], rfl, by simp [Event.OfReferences]⟩ (fun _ => rfl) rfl
  orderly := hc.orderly.cons (hc.references.inOrder ho)

theorem Consistent.use (hc : Consistent storable h G) {b : Block Kind} {w : Owner T Slot}
    (hw : G.owner b = some w) : Consistent storable (h.note (.used b)) G where
  references := hc.references.of_blocks_aside rfl rfl rfl rfl
    ⟨[.used b], rfl, by simp [Event.OfBlocks]⟩ rfl (fun _ => rfl) fun _ => rfl
  blocks := hc.blocks.of_references rfl rfl rfl (fun _ => id)
    ⟨[.used b], rfl, by simp [Event.OfReferences]⟩ (fun _ => rfl) rfl
  orderly := hc.orderly.cons (hc.blocks.inOrder hw)

theorem Consistent.data (hc : Consistent storable h G) (data : Nat → D) :
    Consistent storable { h with data := data } G where
  references := hc.references.of_blocks_aside rfl rfl rfl rfl ⟨[], rfl, by simp⟩ rfl
    (fun _ => rfl) fun _ => rfl
  blocks := hc.blocks.of_references rfl rfl rfl (fun _ => id) ⟨[], rfl, by simp⟩ (fun _ => rfl) rfl
  orderly := hc.orderly

/-- The ghost after `t` forgot of some slots that they are empty. -/
def Ghost.forget (G : Ghost T Key Slot Kind V) (t : T) (fresh : Nat → Slot → Prop) :
    Ghost T Key Slot Kind V :=
  { G with ledger := Function.update G.ledger t { G.ledger t with fresh := fresh } }

theorem Consistent.forget (hc : Consistent storable h G) {fresh : Nat → Slot → Prop}
    (hle : ∀ o s, fresh o s → (G.ledger t).fresh o s) :
    Consistent storable h (G.forget t fresh) where
  references := by
    refine hc.references.of_blocks rfl rfl rfl ⟨[], rfl, by simp⟩ rfl
      (ledger_update Ledger.refs (by rfl)) fun t' o s hf => ?_
    have hold : (G.ledger t').fresh o s := by
      by_cases ht : t' = t
      · subst ht
        exact hle o s (by simpa [Ghost.forget] using hf)
      · simpa [Ghost.forget, ht] using hf
    exact ⟨hold, (hc.references.fresh t' o s hold).2.1⟩
  blocks := hc.blocks.of_references rfl rfl rfl (fun _ => id) ⟨[], rfl, by simp⟩
    (ledger_update Ledger.blocks (by rfl)) rfl
  orderly := hc.orderly

theorem Consistent.obtain (hc : Consistent storable h G) {k : Key} (hk : h.attached k = some o) :
    Consistent storable (h.obtain t o) (G.gain t o (G.ledger t).fresh) where
  references := hc.references.obtain hk
  blocks := by
    refine hc.blocks.of_references rfl rfl rfl (fun o' hpos => ?_)
      ⟨[.obtained t o], rfl, by simp [Event.OfReferences]⟩ (ledger_update Ledger.blocks (by rfl)) rfl
    rw [Heap.obtain_refs]
    exact Nat.lt_of_lt_of_le hpos (Nat.le_add_right _ _)
  orderly := hc.orderly.cons (hc.references.not_tornDown (hc.references.attached_mem hk))

theorem Consistent.create (hc : Consistent storable h G) (t : T) :
    Consistent storable (h.create t)
      (G.gain t h.objects fun o s => o = h.objects ∨ (G.ledger t).fresh o s) := by
  have hzero := hc.references.unmade h.objects le_rfl
  have hslots : ∀ s, h.slots h.objects s = none := by
    intro s
    cases hs : h.slots h.objects s with
    | none => rfl
    | some b =>
      have hpos := (hc.blocks.slot_live h.objects s b hs).1
      omega
  have hno : .tornDown h.objects ∉ h.log := fun hmem =>
    Nat.lt_irrefl _ ((hc.references.tornDown_iff h.objects).mp hmem).1
  refine ⟨hc.references.create hslots, ?_, hc.orderly.cons hno⟩
  refine hc.blocks.of_references rfl rfl rfl (fun o' hpos => ?_)
    ⟨[.obtained t h.objects], rfl, by simp [Event.OfReferences]⟩
    (ledger_update Ledger.blocks (by rfl)) rfl
  rw [show (h.create t).refs = (h.obtain t h.objects).refs from rfl, Heap.obtain_refs]
  exact Nat.lt_of_lt_of_le hpos (Nat.le_add_right _ _)

theorem Consistent.attach (hc : Consistent storable h G) {k : Key} (hk : h.attached k = none)
    (ho : o ∈ (G.ledger t).refs) : Consistent storable (h.attach k o) (G.attach t k o) where
  references := hc.references.attach hk ho
  blocks := by
    refine hc.blocks.of_references rfl rfl rfl (fun o' hpos => ?_) ⟨[], rfl, by simp⟩
      (ledger_update Ledger.blocks (by rfl)) rfl
    rw [show (h.attach k o).refs = (h.obtain t o).refs from rfl, Heap.obtain_refs]
    exact Nat.lt_of_lt_of_le hpos (Nat.le_add_right _ _)
  orderly := hc.orderly

theorem Consistent.allocate (hc : Consistent storable h G) (t : T) (kind : Kind) (v : V) :
    Consistent storable (h.allocate t kind v) (G.allocate t ⟨kind, h.blocks⟩ v) where
  references := hc.references.of_blocks_aside rfl rfl rfl rfl
    ⟨[.allocated t ⟨kind, h.blocks⟩], rfl, by simp [Event.OfBlocks]⟩ rfl
    (ledger_update Ledger.refs (by rfl)) (ledger_update Ledger.fresh (by rfl))
  blocks := hc.blocks.allocate t kind v
  orderly := hc.orderly.cons (hc.blocks.new_unowned le_rfl).2

theorem Consistent.write (hc : Consistent storable h G) {b : Block Kind} {v v' : V}
    {B : Multiset (Block Kind × V)} (hB : (G.ledger t).blocks = (b, v') ::ₘ B) :
    Consistent storable (h.setContent b v) (G.write t b v B) where
  references := hc.references.of_blocks_aside rfl rfl rfl rfl ⟨[], rfl, by simp⟩ rfl
    (ledger_update Ledger.refs (by rfl)) (ledger_update Ledger.fresh (by rfl))
  blocks := hc.blocks.write hB
  orderly := hc.orderly

theorem Consistent.free (hc : Consistent storable h G) {b : Block Kind} {v : V}
    {B : Multiset (Block Kind × V)} (hB : (G.ledger t).blocks = (b, v) ::ₘ B) :
    Consistent storable (h.note (.freed b)) (G.free t b B) where
  references := hc.references.of_blocks_aside rfl rfl rfl rfl
    ⟨[.freed b], rfl, by simp [Event.OfBlocks]⟩ rfl
    (ledger_update Ledger.refs (by rfl)) (ledger_update Ledger.fresh (by rfl))
  blocks := hc.blocks.free hB
  orderly := hc.orderly.cons (hc.blocks.inOrder
    (hc.blocks.owner_of_mem (v := v) (by rw [hB]; exact Multiset.mem_cons_self _ _)))

theorem Consistent.store (hc : Consistent storable h G) {s : Slot} {x : Option (Block Kind × V)}
    {B : Multiset (Block Kind × V)} (ho : o ∈ (G.ledger t).refs)
    (hB : (G.ledger t).blocks = atMostOne x + B) (hkind : ∀ y ∈ x, storable y.1.kind) :
    Consistent storable (h.setSlot o s (x.map Prod.fst))
      (G.store t o s x ((h.slots o s).map fun b => (b, h.content b)) B
        fun o' s' => (o' ≠ o ∨ s' ≠ s) ∧ (G.ledger t).fresh o' s') where
  references := by
    refine hc.references.of_blocks rfl rfl rfl ⟨[], rfl, by simp⟩ rfl
      (ledger_update Ledger.refs (by rfl)) fun t' o' s' hf => ?_
    have hold : (o' ≠ o ∨ s' ≠ s) ∧ (G.ledger t').fresh o' s' := by
      by_cases ht : t' = t
      · subst ht
        simpa [Ghost.store] using hf
      · have hf' : (G.ledger t').fresh o' s' := by simpa [Ghost.store, ht] using hf
        refine ⟨Or.inl ?_, hf'⟩
        rintro rfl
        exact hc.references.not_fresh ho ht s' hf'
    have hnone := (hc.references.fresh t' o' s' hold.2).2.1
    exact ⟨hold.2, (Heap.setSlot_other (not_and_or.mpr hold.1)).trans hnone⟩
  blocks := hc.blocks.store hB (hc.references.refs_pos (hc.references.holder ho)) hkind
  orderly := hc.orderly

/-- The reference that a holder gave up is counted off. -/
theorem unref_consistent (he : Empties cleanup) (hr : References h G (some o))
    (hb : Blocks storable h G) (ho : Orderly h.log) :
    ∃ G', Consistent storable (h.unref cleanup o) G' ∧ G'.ledger = G.ledger := by
  have hpos : 0 < h.refs o := by
    rw [hr.refs_eq, if_pos rfl]
    omega
  have hno : .tornDown o ∉ h.log := by
    intro hmem
    have hzero := ((hr.tornDown_iff o).mp hmem).2
    omega
  have horderly := hb.orderly_unref he ho hno
  by_cases hl : h.Last o
  · exact ⟨G.clear o, ⟨hr.unref cleanup rfl rfl, hb.unref_last he hl, horderly⟩, rfl⟩
  · exact ⟨G, ⟨hr.unref cleanup rfl rfl, hb.unref_more hl, horderly⟩, rfl⟩

theorem Consistent.release (hc : Consistent storable h G) (he : Empties cleanup)
    {R : Multiset Nat} (hR : (G.ledger t).refs = o ::ₘ R) :
    ∃ G', Consistent storable ((h.note (.released t o)).unref cleanup o) G' ∧
      G'.ledger = Function.update G.ledger t { G.ledger t with refs := R } := by
  have ho : o ∈ (G.ledger t).refs := by
    rw [hR]
    exact Multiset.mem_cons_self o R
  have hblocks : Blocks storable (h.note (.released t o)) (G.release t o R) :=
    hc.blocks.of_references rfl rfl rfl (fun _ => id)
      ⟨[.released t o], rfl, by simp [Event.OfReferences]⟩ (ledger_update Ledger.blocks (by rfl)) rfl
  exact unref_consistent he (hc.references.release hR) hblocks
    (hc.orderly.cons (hc.references.inOrder ho))

theorem Consistent.close (hc : Consistent storable h G) (he : Empties cleanup) (k : Key) :
    ∃ G', Consistent storable (h.close cleanup k) G' ∧ G'.ledger = G.ledger := by
  unfold Heap.close
  cases hk : h.attached k with
  | none => exact ⟨G, hc, rfl⟩
  | some o =>
    have hblocks : Blocks storable (h.detach k) (G.drop (.inr k) o) :=
      hc.blocks.of_references rfl rfl rfl (fun _ => id) ⟨[], rfl, by simp⟩ (fun _ => rfl) rfl
    obtain ⟨G', hG', hledger⟩ :=
      unref_consistent he (hc.references.detach hk) hblocks hc.orderly
    exact ⟨G', hG', hledger⟩

/-- A call that its ledger allows keeps everything consistent, leaves the ledgers of the
other tasks alone and answers as its specification says. -/
theorem Consistent.perform (hc : Consistent storable h G) (he : Empties cleanup) (ok : Bool)
    {c : Call Key Slot Kind D V} {Q : c.Answer → Ledger Slot Kind V → Prop}
    (hs : c.Spec storable (G.ledger t) Q) :
    ∃ G' L, Consistent storable (h.perform cleanup t ok c).2 G' ∧
      G'.ledger = Function.update G.ledger t L ∧ Q (h.perform cleanup t ok c).1 L := by
  have hsame {h' : Heap T Key Slot Kind D V} {G' : Ghost T Key Slot Kind V} {a : c.Answer}
      (hc' : Consistent storable h' G') (hledger : G'.ledger = G.ledger)
      (hQ : Q a (G.ledger t)) : ∃ G' L, Consistent storable h' G' ∧
        G'.ledger = Function.update G.ledger t L ∧ Q a L :=
    ⟨G', G.ledger t, hc', by rw [hledger, Function.update_eq_self], hQ⟩
  cases c with
  | get k =>
    cases hk : h.attached k with
    | none =>
      rw [Heap.perform_get_none cleanup hk]
      exact hsame hc rfl hs.1
    | some o =>
      cases ok with
      | false => exact hsame hc rfl hs.1
      | true =>
        rw [Heap.perform_get cleanup hk]
        exact ⟨_, _, hc.obtain hk, rfl, hs.2 o⟩
  | make =>
    cases ok with
    | false => exact hsame hc rfl hs.1
    | true => exact ⟨_, _, hc.create t, rfl, hs.2 h.objects⟩
  | attach k o =>
    have htouch := hc.touch hs.1
    cases hfree : ok && (h.attached k).isNone with
    | true =>
      obtain ⟨rfl, hnone⟩ := Bool.and_eq_true_iff.mp hfree
      have hk : h.attached k = none := Option.isNone_iff_eq_none.mp hnone
      rw [Heap.perform_attach cleanup hk]
      exact ⟨_, _, htouch.attach hk hs.1, rfl, hs.2 true⟩
    | false =>
      rw [Heap.perform_attach_refused cleanup hfree]
      exact ⟨_, _, htouch.forget (t := t) fun _ _ => And.right, rfl, hs.2 false⟩
  | release o =>
    obtain ⟨R, hR, hQ⟩ := hs
    obtain ⟨G', hc', hledger⟩ := hc.release he hR
    exact ⟨G', _, hc', hledger, hQ⟩
  | touch o f => exact hsame ((hc.touch hs.1).data _) rfl (hs.2 (h.data o))
  | alloc kind =>
    cases ok with
    | false => exact hsame hc rfl hs.1
    | true => exact ⟨_, _, hc.allocate t kind _, rfl, hs.2 _ _ rfl⟩
  | use b =>
    obtain ⟨v, hv, hQ⟩ := hs
    obtain rfl : h.content b = v := hc.blocks.content_eq t (b, v) hv
    exact hsame (hc.use (hc.blocks.owner_of_mem hv)) rfl hQ
  | write b v =>
    obtain ⟨v', B, hB, hQ⟩ := hs
    have hmem : (b, v') ∈ (G.ledger t).blocks := by
      rw [hB]
      exact Multiset.mem_cons_self _ _
    exact ⟨_, _, (hc.use (hc.blocks.owner_of_mem hmem)).write hB, rfl, hQ⟩
  | free b =>
    obtain ⟨v, B, hB, hQ⟩ := hs
    exact ⟨_, _, hc.free hB, rfl, hQ⟩
  | fill o s b =>
    obtain ⟨ho, hfresh, hkind, v, B, hB, hQ⟩ := hs
    have hnone : h.slots o s = none := (hc.references.fresh t o s hfresh).2.1
    have hput : (G.ledger t).blocks = atMostOne (some (b, v)) + B :=
      hB.trans (Multiset.singleton_add _ _).symm
    have hstore := (hc.touch ho).store (s := s) ho hput (by simpa using hkind)
    have hempty : atMostOne ((h.slots o s).map fun b => (b, h.content b)) + B = B := by
      rw [hnone]
      exact Multiset.zero_add B
    refine ⟨_, _, hstore, rfl, ?_⟩
    rw [← hempty] at hQ
    exact hQ
  | swap o s b =>
    obtain ⟨ho, x, B, rfl, hkind, hB, hQ⟩ := hs
    have hold : ((h.slots o s).map fun b => (b, h.content b)).map Prod.fst = h.slots o s := by
      rw [Option.map_map]
      exact Option.map_id'
    have hQ := hQ ((h.slots o s).map fun b => (b, h.content b))
    rw [hold] at hQ
    exact ⟨_, _, (hc.touch ho).store (s := s) ho hB hkind, rfl, hQ⟩
  | copy o s kind =>
    have htouch := hc.touch hs.1
    have hnone := hs.2 none
    rw [show atMostOne (none : Option (Block Kind × V)) = 0 from rfl, Multiset.zero_add] at hnone
    cases hslot : h.slots o s with
    | none =>
      rw [Heap.perform_copy_empty cleanup hslot]
      exact hsame htouch rfl hnone
    | some b =>
      have huse := htouch.use ((hc.blocks.slot_iff o s b).mp hslot)
      cases ok with
      | false =>
        rw [Heap.perform_copy_failed cleanup hslot]
        exact hsame huse rfl hnone
      | true =>
        rw [Heap.perform_copy cleanup hslot]
        exact ⟨_, _, huse.allocate t kind (h.content b), rfl,
          hs.2 (some (⟨kind, h.blocks⟩, h.content b))⟩
  | peek o s =>
    have htouch := hc.touch hs.1
    cases hslot : h.slots o s with
    | none =>
      rw [Heap.perform_peek_empty cleanup hslot]
      exact hsame htouch rfl (hs.2 none)
    | some b =>
      rw [Heap.perform_peek cleanup hslot]
      exact hsame (htouch.use ((hc.blocks.slot_iff o s b).mp hslot)) rfl (hs.2 (some (h.content b)))

section Settled

theorem Consistent.settled (hc : Consistent storable h G) (hrefs : (G.ledger t).refs = 0) (o : Nat) :
    h.log.count (.obtained t o) = h.log.count (.released t o) := by
  rw [hc.references.obtained_eq, hrefs, Multiset.count_zero, Nat.add_zero]

/-- Where a block is: freed, in a slot of a live object, or with a task. -/
theorem Consistent.whereabouts (hc : Consistent storable h G) {b : Block Kind}
    (hb : .allocated t b ∈ h.log) :
    h.log.count (.freed b) = 1 ∨ .freed b ∉ h.log ∧
      ((∃ o s, h.slots o s = some b ∧ 0 < h.refs o ∧ .tornDown o ∉ h.log) ∨
        ∃ t' v, (b, v) ∈ (G.ledger t').blocks) := by
  cases hw : G.owner b with
  | none => exact Or.inl (hc.orderly.freed_once ((hc.blocks.freed_iff b).mpr ⟨⟨t, hb⟩, hw⟩))
  | some w =>
    refine Or.inr ⟨(hc.blocks.inOrder hw).2, ?_⟩
    cases w with
    | task t' => exact Or.inr ⟨t', hc.blocks.exists_of_owner hw⟩
    | slot o s =>
      have hs := (hc.blocks.slot_iff o s b).mpr hw
      have hpos := (hc.blocks.slot_live o s b hs).1
      refine Or.inl ⟨o, s, hs, hpos, fun htorn => ?_⟩
      have hzero := ((hc.references.tornDown_iff o).mp htorn).2
      omega

/-- A block of a kind that no slot takes is freed when its task owns no blocks. -/
theorem Consistent.freed_of_task (hc : Consistent storable h G) {b : Block Kind}
    (hkind : ¬ storable b.kind) (hb : .allocated t b ∈ h.log) (hblocks : (G.ledger t).blocks = 0) :
    h.log.count (.freed b) = 1 := by
  refine hc.orderly.freed_once ((hc.blocks.freed_iff b).mpr ⟨⟨t, hb⟩, ?_⟩)
  by_contra hne
  obtain ⟨w, hw⟩ := Option.ne_none_iff_exists'.mp hne
  obtain ⟨t', ht', hor⟩ := hc.blocks.owned b w hw
  obtain rfl := hc.orderly.allocated_unique hb ht'
  obtain rfl := hor.resolve_left hkind
  obtain ⟨v, hv⟩ := hc.blocks.exists_of_owner hw
  rw [hblocks] at hv
  simp at hv

/-- When no task holds anything and nothing is attached, every object is gone, and every
block with it. -/
theorem Consistent.all_gone (hc : Consistent storable h G)
    (hidle : ∀ t, (G.ledger t).refs = 0 ∧ (G.ledger t).blocks = 0)
    (hclosed : ∀ k, h.attached k = none) :
    (∀ o < h.objects, h.log.count (.tornDown o) = 1) ∧
      ∀ t b, .allocated t b ∈ h.log → h.log.count (.freed b) = 1 := by
  have hzero : ∀ o, h.refs o = 0 := by
    intro o
    have hnone : G.holders o = 0 := by
      refine Multiset.eq_zero_of_forall_notMem fun x hx => ?_
      have hcount := Multiset.count_pos.mpr hx
      cases x with
      | inl t =>
        rw [hc.references.task_count, (hidle t).1] at hcount
        simp at hcount
      | inr k =>
        rw [hc.references.key_count, if_neg (by simp [hclosed k])] at hcount
        exact Nat.lt_irrefl 0 hcount
    rw [hc.references.refs_eq, hnone]
    rfl
  refine ⟨fun o ho => hc.orderly.tornDown_once ((hc.references.tornDown_iff o).mpr ⟨ho, hzero o⟩),
    fun t b hb => ?_⟩
  rcases hc.whereabouts hb with hfreed | ⟨-, ⟨o, s, -, hpos, -⟩ | ⟨t', v, hv⟩⟩
  · exact hfreed
  · exact absurd (hzero o) (Nat.pos_iff_ne_zero.mp hpos)
  · rw [(hidle t').2] at hv
    simp at hv

end Settled

end Calls

section Tasks

variable {Out Req In : Type}

/-- A task runs a program, or rests with what its last program returned. -/
inductive Task (Key Slot Kind D V Out : Type) where
  | idle
  | running (p : Program Key Slot Kind D V Out)
  | resting (out : Out)

structure System (T Key Slot Kind D V Out : Type) where
  heap : Heap T Key Slot Kind D V
  tasks : T → Task Key Slot Kind D V Out

/-- The programs of the requests, those that go on from an outcome, and the teardown. -/
structure Code (Key Slot Kind D V Out Req In : Type) where
  start : Req → Program Key Slot Kind D V Out
  resume : Out → In → Option (Program Key Slot Kind D V Out)
  cleanup : (Slot → Option (Block Kind)) → List (Block Kind)

inductive Action (T Key Req In : Type) where
  | start (t : T) (req : Req)
  | exec (t : T) (ok : Bool)
  | resume (t : T) (input : In)
  | close (k : Key)

namespace System

/-- Before the first task; what the memory holds does not matter. -/
def init (data : Nat → D) (content : Block Kind → V) : System T Key Slot Kind D V Out where
  heap := ⟨fun _ => none, fun _ => 0, data, fun _ _ => none, 0, content, 0, []⟩
  tasks _ := .idle

def setTask (s : System T Key Slot Kind D V Out) (t : T) (task : Task Key Slot Kind D V Out) :
    System T Key Slot Kind D V Out :=
  { s with tasks := Function.update s.tasks t task }

end System

def Code.step (code : Code Key Slot Kind D V Out Req In) (s : System T Key Slot Kind D V Out) :
    Action T Key Req In → Option (System T Key Slot Kind D V Out)
  | .start t req =>
    match s.tasks t with
    | .idle => some (s.setTask t (.running (code.start req)))
    | _ => none
  | .exec t ok =>
    match s.tasks t with
    | .running (.done out) => some (s.setTask t (.resting out))
    | .running (.call c next) =>
      let r := s.heap.perform code.cleanup t ok c
      some { s.setTask t (.running (next r.1)) with heap := r.2 }
    | _ => none
  | .resume t input =>
    match s.tasks t with
    | .resting out => (code.resume out input).map fun p => s.setTask t (.running p)
    | _ => none
  | .close k => some { s with heap := s.heap.close code.cleanup k }

/-- With each outcome a task owns what `hold` says, whatever happened on the way. -/
structure Code.Sound (code : Code Key Slot Kind D V Out Req In) (storable : Kind → Prop)
    (hold : Out → Ledger Slot Kind V → Prop) : Prop where
  start : ∀ req, (code.start req).wp storable .empty hold
  resume : ∀ out input p L, code.resume out input = some p → hold out L → p.wp storable L hold
  empties : Empties code.cleanup

section Sound

variable {code : Code Key Slot Kind D V Out Req In} {storable : Kind → Prop}
  {hold : Out → Ledger Slot Kind V → Prop}

/-- What a task must own at this point of its work. -/
def Task.Owns (storable : Kind → Prop) (hold : Out → Ledger Slot Kind V → Prop) :
    Task Key Slot Kind D V Out → Ledger Slot Kind V → Prop
  | .idle, L => L = .empty
  | .running p, L => p.wp storable L hold
  | .resting out, L => hold out L

/-- The heap agrees with the ledgers, and each task has what it needs. -/
def System.Balanced (storable : Kind → Prop) (hold : Out → Ledger Slot Kind V → Prop)
    (s : System T Key Slot Kind D V Out) : Prop :=
  ∃ G, Consistent storable s.heap G ∧ ∀ t, (s.tasks t).Owns storable hold (G.ledger t)

omit [DecidableEq Key] [DecidableEq Slot] [DecidableEq Kind] in
theorem owns_setTask {s : System T Key Slot Kind D V Out}
    {L : T → Ledger Slot Kind V} (h : ∀ t, (s.tasks t).Owns storable hold (L t)) (t : T)
    {task : Task Key Slot Kind D V Out} {M : Ledger Slot Kind V} (ht : task.Owns storable hold M)
    (t' : T) : ((s.setTask t task).tasks t').Owns storable hold (Function.update L t M t') := by
  by_cases htt : t' = t
  · subst htt
    simpa [System.setTask] using ht
  · simpa [System.setTask, htt] using h t'

theorem balanced_init (data : Nat → D) (content : Block Kind → V) :
    (System.init data content : System T Key Slot Kind D V Out).Balanced storable hold := by
  refine ⟨⟨fun _ => .empty, fun _ => 0, fun _ => none⟩, ⟨?_, ?_, ?_⟩, fun _ => rfl⟩
  · exact ⟨fun _ => rfl, fun _ _ => rfl, fun _ _ => rfl, fun _ _ => rfl, fun _ _ => rfl,
      by simp [System.init], fun _ _ _ hf => hf.elim⟩
  · exact ⟨by simp [System.init], by simp [System.init], by simp [Ledger.empty],
      by simp [Ledger.empty], by simp [System.init], by simp, by simp [System.init]⟩
  · intro later e past heq
    cases later <;> cases heq

theorem System.Balanced.step (hsound : code.Sound storable hold)
    {s s' : System T Key Slot Kind D V Out} {a : Action T Key Req In}
    (h : s.Balanced storable hold) (hs : code.step s a = some s') : s'.Balanced storable hold := by
  obtain ⟨G, hc, howns⟩ := h
  -- a step that leaves the heap alone
  have hset {t : T} {task : Task Key Slot Kind D V Out}
      (ht : task.Owns storable hold (G.ledger t)) : (s.setTask t task).Balanced storable hold := by
    refine ⟨G, hc, fun t' => ?_⟩
    have hall := owns_setTask howns t ht t'
    rwa [Function.update_eq_self] at hall
  cases a with
  | start t req =>
    simp only [Code.step] at hs
    cases htask : s.tasks t with
    | idle =>
      rw [htask] at hs
      obtain rfl := Option.some.inj hs
      have hempty : G.ledger t = .empty := by simpa [htask, Task.Owns] using howns t
      exact hset (by rw [hempty]; exact hsound.start req)
    | running p => simp [htask] at hs
    | resting out => simp [htask] at hs
  | exec t ok =>
    simp only [Code.step] at hs
    cases htask : s.tasks t with
    | idle => simp [htask] at hs
    | resting out => simp [htask] at hs
    | running p =>
      have hp : p.wp storable (G.ledger t) hold := by simpa [htask, Task.Owns] using howns t
      rw [htask] at hs
      cases p with
      | done out =>
        obtain rfl := Option.some.inj hs
        exact hset hp
      | call c next =>
        obtain rfl := Option.some.inj hs
        obtain ⟨G', L, hc', hledger, hnext⟩ := hc.perform hsound.empties ok hp
        refine ⟨G', hc', fun t' => ?_⟩
        have hrun :
            (Task.running (next (s.heap.perform code.cleanup t ok c).1)).Owns storable hold L :=
          hnext
        rw [hledger]
        exact owns_setTask howns t hrun t'
  | resume t input =>
    simp only [Code.step] at hs
    cases htask : s.tasks t with
    | idle => simp [htask] at hs
    | running p => simp [htask] at hs
    | resting out =>
      rw [htask] at hs
      obtain ⟨p, hp, rfl⟩ := Option.map_eq_some_iff.mp hs
      have hhold : hold out (G.ledger t) := by simpa [htask, Task.Owns] using howns t
      exact hset (hsound.resume out input p _ hp hhold)
  | close k =>
    obtain rfl := Option.some.inj hs
    obtain ⟨G', hc', hledger⟩ := hc.close hsound.empties k
    exact ⟨G', hc', by rw [hledger]; exact howns⟩

/-- The run rule: what sound code leaves behind is balanced in every state. -/
theorem Code.Sound.balanced (hsound : code.Sound storable hold) {data : Nat → D}
    {content : Block Kind → V} {s : System T Key Slot Kind D V Out}
    (h : Runs.Reachable code.step (System.init data content) s) : s.Balanced storable hold :=
  h.invariant (fun _ _ _ hi hs => hi.step hsound hs) (balanced_init data content)

end Sound

end Tasks

end Ownership

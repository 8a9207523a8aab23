import KnFileCatcher.TrackMemoryRules

/-! The rows of the tracking table in memory as entries are found, added, written over and
removed. -/

namespace KnFileCatcher.TrackMemory

open LinkedRings PushLock
open PushLock.Program (perform wp wp_bind wp_call wp_look wp_ite Finds)
open Ownership (Block)
open Runs (Reachable)

/-- The lists of the table, its rows, and no other block. -/
structure Placed (g : Heads) (L : Mem) (rows : Rows) : Prop where
  lists : Lists (links g L) (blocksOf rows)
  rowsIn : RowsIn L rows
  owned : ∀ b, L b ≠ none → ∃ i, ∃ r ∈ rows i, b = r.block ∨ r.path = some b

structure Held (g : Heads) (L : Mem) (rows : Rows) : Prop extends Placed g L rows where
  count : g.entryCount = total rows

def hitsRow (pid : Handle) (r : Row) : Bool :=
  decide (r.entry.pid = pid) && decide (r.entry.flags &&& knFcTrackExited = 0)

section Find

variable {ν : Type} {C : Contract PoolKind Heads Cell Op (Option Answer) ν} {op : Op}
  {g : Heads} {L M : Mem} {ph : Phase PoolKind Heads Cell (Option Answer) ν} {rows : Rows}
  {h : Bucket} {pid : Handle}

/-- The blocks of `M` can be read. -/
def Readable (L : Mem) (ph : Phase PoolKind Heads Cell (Option Answer) ν) (M : Mem) : Prop :=
  ∀ b c, M b = some c → L b = some c ∨ ph.lent b = some c

theorem finds_readEntry (hread : Readable L ph M) {b : PoolBlock} {e : EntryCell}
    (he : M b = some (.entry e)) : (readEntry b).Finds C op L ph (some e) :=
  ⟨_, hread b _ he, rfl, rfl, rfl⟩

/-- The induction is on the rows that the walk has before it. -/
theorem finds_findFrom (hread : Readable L ph M) (hl : Lists (links g M) (blocksOf rows))
    (hr : RowsIn M rows) (ys : List Row) :
    ∀ (xs : List Row) (fuel : Nat), rows h = xs ++ ys → ys.length < fuel →
      (findFrom pid h fuel (((ys.map Row.block).map Addr.entry).headD (.head h))).Finds C op L ph
        (some ((ys.find? (hitsRow pid)).map Row.block)) := by
  induction ys with
  | nil =>
    intro xs fuel _ hfuel
    obtain ⟨fuel, rfl⟩ : ∃ k, fuel = k + 1 := ⟨fuel - 1, by simp at hfuel; omega⟩
    refine ⟨?_, rfl, rfl⟩
    simp
  | cons r ys ih =>
    intro xs fuel hrow hfuel
    obtain ⟨fuel, rfl⟩ : ∃ k, fuel = k + 1 := ⟨fuel - 1, by simp at hfuel; omega⟩
    obtain ⟨-, flink, blink, he⟩ := hr.data h r (by simp [hrow])
    have hblocks : blocksOf rows h = xs.map Row.block ++ r.block :: ys.map Row.block := by
      simp [blocksOf, hrow]
    have hnext := (hl.neighbours hblocks).2
    rw [flink_of_entry he] at hnext
    dsimp only at hnext
    refine (finds_readEntry hread he).bind ?_
    dsimp only
    by_cases hhit : r.data.pid = pid ∧ r.data.flags &&& knFcTrackExited = 0
    · have hrow' : hitsRow pid r = true := by simpa [hitsRow, Row.data] using hhit
      rw [if_pos hhit, List.find?_cons_of_pos hrow']
      exact ⟨rfl, rfl, rfl⟩
    · have hrow' : ¬ hitsRow pid r = true := by simpa [hitsRow, Row.data] using hhit
      rw [if_neg hhit, List.find?_cons_of_neg hrow', hnext]
      exact ih (xs ++ [r]) fuel (by simp [hrow]) (by simp at hfuel; omega)

theorem length_le_total (rows : Rows) (h : Bucket) : ((rows h).length : Int) ≤ total rows :=
  Finset.single_le_sum (f := fun i => ((rows i).length : Int)) (fun _ _ => Int.natCast_nonneg _)
    (Finset.mem_univ h)

theorem finds_findLocked (hread : Readable L ph M) (hg : ph.table = some g)
    (hheld : Held g M rows) :
    (knFcTrackFindLocked pid).Finds C op L ph
      (some (((rows (knFcHashPid pid)).find? (hitsRow pid)).map Row.block)) := by
  have hfirst : (g.heads (knFcHashPid pid)).flink =
      (((rows (knFcHashPid pid)).map Row.block).map Addr.entry).headD (.head (knFcHashPid pid)) :=
    hheld.lists.first _
  refine wp_look hg ?_
  rw [hfirst]
  refine finds_findFrom hread hheld.lists hheld.rowsIn _ [] _ rfl ?_
  have hle := length_le_total rows (knFcHashPid pid)
  have hcount := hheld.count
  omega

end Find

section Insert

variable {ν : Type} {C : Contract PoolKind Heads Cell Op (Option Answer) ν} {op : Op} {n : ν}
  {g : Heads} {L : Mem} {rows : Rows} {h : Bucket} {b : PoolBlock} {r : Row} {path : UnicodeString}

theorem total_update (rows : Rows) (h : Bucket) (new : List Row) :
    total (Function.update rows h new) = total rows - (rows h).length + new.length := by
  have hsplit (rows : Rows) : total rows =
      ((rows h).length : Int) + ∑ i ∈ Finset.univ.erase h, ((rows i).length : Int) :=
    (Finset.add_sum_erase _ _ (Finset.mem_univ h)).symm
  have hrest : ∑ i ∈ Finset.univ.erase h, ((Function.update rows h new i).length : Int) =
      ∑ i ∈ Finset.univ.erase h, ((rows i).length : Int) := by
    refine Finset.sum_congr rfl fun i hi => ?_
    rw [Function.update_of_ne (Finset.ne_of_mem_erase hi)]
  rw [hsplit (Function.update rows h new), hsplit rows, hrest, Function.update_self]
  omega

theorem mem_update_cons {rows : Rows} {h i : Bucket} {r r' : Row}
    (hmem : r' ∈ Function.update rows h (r :: rows h) i) : r' = r ∨ r' ∈ rows i := by
  by_cases hi : i = h
  · subst hi
    rw [Function.update_self] at hmem
    exact List.mem_cons.mp hmem
  · rw [Function.update_of_ne hi] at hmem
    exact Or.inr hmem

theorem blocksOf_update (rows : Rows) (h : Bucket) (new : List Row) :
    blocksOf (Function.update rows h new) =
      Function.update (blocksOf rows) h (new.map Row.block) := by
  funext i
  by_cases hi : i = h
  · subst hi
    simp [blocksOf]
  · simp [blocksOf, hi]

/-- A block that nothing lies in is no block of the table. -/
theorem RowsIn.not_block (hr : RowsIn L rows) (hb : L b = none) (i : Bucket) :
    b ∉ blocksOf rows i := by
  intro hmem
  obtain ⟨r, hri, rfl⟩ := List.mem_map.mp hmem
  obtain ⟨-, f, k, hd⟩ := hr.data i r hri
  rw [hb] at hd
  cases hd

theorem RowsIn.not_path (hr : RowsIn L rows) (hb : L b = none) {i : Bucket} {r : Row}
    (hri : r ∈ rows i) : r.path ≠ some b := by
  intro hp
  have himage := hr.image i r hri
  rw [hp] at himage
  rw [himage.2] at hb
  cases hb

/-- What is put in a block of nobody leaves the rows as they are. -/
theorem RowsIn.put (hr : RowsIn L rows) (hb : L b = none) (c : Cell) :
    RowsIn (Function.update L b (some c)) rows where
  data i r hri := by
    obtain ⟨hkind, f, k, hd⟩ := hr.data i r hri
    have hne : r.block ≠ b := fun heq =>
      hr.not_block hb i (List.mem_map.mpr ⟨r, hri, heq⟩)
    exact ⟨hkind, f, k, by rwa [Function.update_of_ne hne]⟩
  image i r hri := by
    have himage := hr.image i r hri
    cases hp : r.path with
    | none =>
      rw [hp] at himage
      exact himage
    | some p =>
      rw [hp] at himage
      have hne : p ≠ b := fun heq => hr.not_path hb hri (heq ▸ hp)
      exact ⟨himage.1, by rw [Function.update_of_ne hne]; exact himage.2⟩
  apart := hr.apart

theorem lists_put (hl : Lists (links g L) (blocksOf rows)) (hb : ∀ i, b ∉ blocksOf rows i)
    (x : Option Cell) : Lists (links g (Function.update L b x)) (blocksOf rows) :=
  hl.frame (fun _ => ⟨rfl, rfl⟩) fun i c hc =>
    links_update_other (by rintro rfl; exact hb i hc)

theorem RowsIn.cons (hr : RowsIn L rows) (hkind : r.block.kind = .entry)
    (hdata : HasData L r.block r.data) (himage : Copied L r.entry.imagePath r.path)
    (hpath : ∀ i, ∀ r' ∈ rows i, ∀ p, r.path = some p → r'.path ≠ some p) :
    RowsIn L (Function.update rows h (r :: rows h)) where
  data i r' hr' := by
    rcases mem_update_cons hr' with rfl | hr'
    · exact ⟨hkind, hdata⟩
    · exact hr.data i r' hr'
  image i r' hr' := by
    rcases mem_update_cons hr' with rfl | hr'
    · exact himage
    · exact hr.image i r' hr'
  apart i j r₁ h₁ r₂ h₂ p hp₁ hp₂ := by
    rcases mem_update_cons h₁ with rfl | hold₁ <;> rcases mem_update_cons h₂ with rfl | hold₂
    · rfl
    · exact absurd hp₂ (hpath j r₂ hold₂ p hp₁)
    · exact absurd hp₁ (hpath i r₁ hold₁ p hp₂)
    · exact hr.apart i j r₁ hold₁ r₂ hold₂ p hp₁ hp₂

/-- The table apart from a copy of a path that is not yet in it. -/
structure HeldBut (g : Heads) (L : Mem) (rows : Rows) (copy : Option PoolBlock)
    (path : UnicodeString) : Prop where
  lists : Lists (links g L) (blocksOf rows)
  rowsIn : RowsIn L rows
  owned : ∀ b, L b ≠ none → copy = some b ∨ ∃ i, ∃ r ∈ rows i, b = r.block ∨ r.path = some b
  count : g.entryCount = total rows
  copied : Copied L path copy
  new : ∀ i, ∀ r ∈ rows i, ∀ p, copy = some p → r.path ≠ some p

theorem wp_addCount {k : Int} {Q : Unit → Mem → Phase PoolKind Heads Cell (Option Answer) ν → Prop}
    (hseen : SeenAt C op n (g.entryCount + k))
    (hQ : Q () L (.writing { g with entryCount := g.entryCount + k } n)) :
    (addCount k).wp C op L (.writing g n) Q :=
  ⟨g, n, rfl, hseen _ rfl, hQ⟩

theorem wp_newEntry {copy : Option PoolBlock} (entry : KnfcTrackEntry)
    (hheld : HeldBut g L rows copy entry.imagePath) (hseen : SeenAt C op n g.entryCount)
    (hseen' : SeenAt C op n (g.entryCount + 1))
    {Q : Unit → Mem → Phase PoolKind Heads Cell (Option Answer) ν → Prop}
    (hQ : ∀ g' L' b, g'.entryCount = g.entryCount + 1 →
      Held g' L' (Function.update rows (knFcHashPid entry.pid)
        (⟨b, copy, entry⟩ :: rows (knFcHashPid entry.pid))) → Q () L' (.writing g' n)) :
    (newEntry entry.pid entry.parentPid entry.rootPid entry.flags copy
      entry.imagePath.length).wp C op L (.writing g n) Q := by
  refine wp_call fun b v hkind hb _ => wp_call ⟨v, Function.update_self .., ?_⟩
  rw [Function.update_idem]
  let r : Row := ⟨b, copy, entry⟩
  let L₁ : Mem := Function.update L b (some (.entry ⟨.entry b, .entry b, r.data⟩))
  have hrows := hheld.rowsIn.put hb (.entry ⟨.entry b, .entry b, r.data⟩)
  have hnew := hheld.rowsIn.not_block hb
  have hcell : L₁ b = some (.entry ⟨.entry b, .entry b, r.data⟩) := Function.update_self ..
  refine wp_bind (wp_insertHeadList (lists_put hheld.lists hnew _) hrows hcell hnew hseen
    fun g₂ L₂ h₂ hl₂ => ?_)
  refine wp_addCount (h₂.count ▸ hseen') (hQ _ L₂ b (by rw [h₂.count]) ?_)
  have hcopied := hheld.copied
  -- the copy of the path is in another block than the entry
  have himage : Copied L₁ entry.imagePath copy := by
    cases copy with
    | none => exact hcopied
    | some p =>
      obtain ⟨hpathKind, hchars⟩ := hcopied
      have hne : p ≠ b := by
        rintro rfl
        rw [hkind] at hpathKind
        cases hpathKind
      exact ⟨hpathKind, (Function.update_of_ne hne ..).trans hchars⟩
  have hdata : HasData L₁ r.block r.data := ⟨_, _, hcell⟩
  have hpath : ∀ i, ∀ r' ∈ rows i, ∀ p, r.path = some p → r'.path ≠ some p :=
    fun i r' hr' p hp => hheld.new i r' hr' p hp
  have hcons := hrows.cons (h := knFcHashPid entry.pid) (r := r) hkind hdata himage hpath
  refine ⟨⟨?_, hcons.relink h₂, fun c hc => ?_⟩, ?_⟩
  · rw [blocksOf_update]
    exact hl₂
  · have hc₁ : L₁ c ≠ none := fun hnone => hc ((h₂.domain c).mpr hnone)
    have hself : r ∈ Function.update rows (knFcHashPid entry.pid)
        (r :: rows (knFcHashPid entry.pid)) (knFcHashPid entry.pid) := by simp
    by_cases hcb : c = b
    · exact ⟨_, r, hself, Or.inl hcb⟩
    · have hcL : L c ≠ none := by
        intro hnone
        apply hc₁
        rw [show L₁ c = L c from Function.update_of_ne hcb ..]
        exact hnone
      rcases hheld.owned c hcL with hcopy | ⟨i, r', hr', hown⟩
      · exact ⟨_, r, hself, Or.inr hcopy⟩
      · refine ⟨i, r', ?_, hown⟩
        by_cases hi : i = knFcHashPid entry.pid
        · subst hi
          rw [Function.update_self]
          exact List.mem_cons_of_mem _ hr'
        · rwa [Function.update_of_ne hi]
  · rw [total_update, h₂.count, hheld.count, List.length_cons]
    push_cast
    omega

end Insert

section Sections

variable {ν : Type} {C : Contract PoolKind Heads Cell Op (Option Answer) ν} {op : Op} {n : ν}
  {g : Heads} {L : Mem} {rows : Rows} {α : Type}
  {Q : α → Mem → Phase PoolKind Heads Cell (Option Answer) ν → Prop}

def dropPath (L : Mem) : Option PoolBlock → Mem
  | none => L
  | some p => Function.update L p none

theorem wp_freePath {copy : Option PoolBlock}
    {ph : Phase PoolKind Heads Cell (Option Answer) ν}
    {Q : Unit → Mem → Phase PoolKind Heads Cell (Option Answer) ν → Prop}
    (h : ∀ p, copy = some p → L p ≠ none) (hQ : Q () (dropPath L copy) ph) :
    (freePath copy).wp C op L ph Q := by
  cases copy with
  | none => exact hQ
  | some p => exact ⟨h p rfl, hQ⟩

theorem wp_copyImage {alloc : Bool} {path : UnicodeString} (hheld : Held g L rows)
    {Q : NtStatus × Option PoolBlock → Mem → Phase PoolKind Heads Cell (Option Answer) ν → Prop}
    (hfail : path.length > 0 → alloc = false →
      Q (statusInsufficientResources, none) L (.writing g n))
    (hok : (path.length > 0 → alloc = true) → ∀ L' copy, HeldBut g L' rows copy path →
      dropPath L' copy = L → Q (statusSuccess, copy) L' (.writing g n)) :
    (copyImage alloc path).wp C op L (.writing g n) Q := by
  refine wp_ite (fun hlen => wp_ite (fun halloc => ?_) fun halloc => ?_) fun hlen => ?_
  · exact hfail hlen (by simpa using halloc)
  · refine wp_call fun b v hkind hb _ => wp_call ⟨v, Function.update_self .., ?_⟩
    rw [Function.update_idem]
    refine hok (fun _ => by simpa using halloc) _ (some b) ⟨?_, ?_, ?_, hheld.count, ?_, ?_⟩ ?_
    · exact lists_put hheld.lists (hheld.rowsIn.not_block hb) _
    · exact hheld.rowsIn.put hb _
    · intro c hc
      by_cases hcb : c = b
      · exact Or.inl (by rw [hcb])
      · rw [Function.update_of_ne hcb] at hc
        exact Or.inr (hheld.owned c hc)
    · exact ⟨hkind, Function.update_self ..⟩
    · rintro i r hr p heq
      obtain rfl := Option.some.inj heq
      exact hheld.rowsIn.not_path hb hr
    · rw [dropPath, Function.update_idem, ← hb, Function.update_eq_self]
  · refine hok (fun h => absurd h hlen) L none ⟨hheld.lists, hheld.rowsIn,
      fun b hb => Or.inr (hheld.owned b hb), hheld.count, by simpa [Copied] using hlen, nofun⟩ rfl

/-- The two outcomes of an insertion: no room in the pool and nothing changed, or a new
first row. -/
theorem wp_insertLocked {alloc : InsertAlloc} {pid parentPid rootPid : Handle} {flags : Ulong}
    {imagePath : Option UnicodeString} (hheld : Held g L rows)
    (hseen : SeenAt C op n g.entryCount)
    (hseen' : ¬ ((imagePath.getD .empty).length > 0 ∧ alloc.path = false) → alloc.entry = true →
      SeenAt C op n (g.entryCount + 1))
    {Q : NtStatus → Mem → Phase PoolKind Heads Cell (Option Answer) ν → Prop}
    (hfail : (imagePath.getD .empty).length > 0 ∧ alloc.path = false ∨ alloc.entry = false →
      Q statusInsufficientResources L (.writing g n))
    (hok : ¬ ((imagePath.getD .empty).length > 0 ∧ alloc.path = false) → alloc.entry = true →
      ∀ g' L' b copy, g'.entryCount = g.entryCount + 1 →
        Held g' L' (Function.update rows (knFcHashPid pid)
          (⟨b, copy, pid, parentPid, rootPid, flags, imagePath.getD .empty⟩ ::
            rows (knFcHashPid pid))) → Q statusSuccess L' (.writing g' n)) :
    (knFcTrackInsertLocked alloc pid parentPid rootPid flags imagePath).wp C op L
      (.writing g n) Q := by
  refine wp_bind (wp_copyImage hheld (fun hlen hpath => ?_) fun hpath L' copy hbut hdrop => ?_)
  · exact hfail (Or.inl ⟨hlen, hpath⟩)
  · have hcopied : ¬ ((imagePath.getD .empty).length > 0 ∧ alloc.path = false) := by
      rintro ⟨hlen, hno⟩
      rw [hpath hlen] at hno
      cases hno
    refine wp_ite (fun hno => absurd hno (by simp [ntSuccess, statusSuccess])) fun _ => ?_
    refine wp_ite (fun hentry => ?_) fun hentry => ?_
    · refine wp_bind (wp_freePath (fun p hp => ?_) ?_)
      · have hlive := hbut.copied
        change copy = some p at hp
        rw [hp] at hlive
        rw [hlive.2]
        exact Option.some_ne_none _
      · rw [hdrop]
        exact hfail (Or.inr (by simpa using hentry))
    · have hentry' : alloc.entry = true := by simpa using hentry
      exact wp_bind (wp_newEntry ⟨pid, parentPid, rootPid, flags, imagePath.getD .empty⟩
        hbut hseen (hseen' hcopied hentry') fun g' L' b hcount hheld' =>
          hok hcopied hentry' g' L' b copy hcount hheld')

section Removal

variable {h : Bucket} {xs ys : List Row} {r : Row}

theorem mem_without {rows : Rows} {i : Bucket} {r' : Row} (hrow : rows h = xs ++ r :: ys)
    (hmem : r' ∈ Function.update rows h (xs ++ ys) i) : r' ∈ rows i := by
  by_cases hi : i = h
  · subst hi
    rw [Function.update_self] at hmem
    rw [hrow]
    simp only [List.mem_append, List.mem_cons] at hmem ⊢
    tauto
  · rwa [Function.update_of_ne hi] at hmem

/-- The other rows of the table lie in other blocks. -/
theorem Placed.block_ne {i : Bucket} {r' : Row} (hplaced : Placed g L rows)
    (hrow : rows h = xs ++ r :: ys) (hmem : r' ∈ Function.update rows h (xs ++ ys) i) :
    r'.block ≠ r.block := by
  intro heq
  have hr : r.block ∈ blocksOf rows h := by simp [blocksOf, hrow]
  by_cases hi : i = h
  · subst hi
    rw [Function.update_self] at hmem
    have hnodup := (hplaced.lists.ring i).nodup
    have hblocks := (List.nodup_cons.mp hnodup).2.of_map
    simp only [blocksOf, hrow, List.map_append, List.map_cons] at hblocks
    have hnot : r.block ∉ xs.map Row.block ++ ys.map Row.block := by
      rw [List.nodup_middle, List.nodup_cons] at hblocks
      exact hblocks.1
    apply hnot
    rw [← heq, ← List.map_append]
    exact List.mem_map.mpr ⟨r', hmem, rfl⟩
  · rw [Function.update_of_ne hi] at hmem
    have hr' : r.block ∈ blocksOf rows i := List.mem_map.mpr ⟨r', hmem, heq⟩
    exact hi (hplaced.lists.disjoint i h _ hr' hr)

/-- The blocks of a row that the lists no longer have are freed. -/
theorem Placed.free (hplaced : Placed g L rows) (hrow : rows h = xs ++ r :: ys) {g' : Heads}
    {L' : Mem} (hrel : Relinked g L g' L')
    (hl : Lists (links g' L') (Function.update (blocksOf rows) h ((xs ++ ys).map Row.block))) :
    Placed g' (Function.update (dropPath L' r.path) r.block none)
      (Function.update rows h (xs ++ ys)) := by
  have hrows := hplaced.rowsIn.relink hrel
  have hr : r ∈ rows h := by simp [hrow]
  have hkept (i : Bucket) (r' : Row) (hmem : r' ∈ Function.update rows h (xs ++ ys) i) (b : PoolBlock)
      (hb : b = r'.block ∨ r'.path = some b) :
      Function.update (dropPath L' r.path) r.block none b = L' b := by
    have hne := hplaced.block_ne hrow hmem
    have hmem' := mem_without hrow hmem
    have hkindr := (hrows.data h r hr).1
    have hkind' := (hrows.data i r' hmem').1
    have hpathKind {r : Row} {i : Bucket} {p : PoolBlock} (hri : r ∈ rows i) (hp : r.path = some p) :
        p.kind = .path := by
      have himage := hrows.image i r hri
      rw [hp] at himage
      exact himage.1
    have hbr : b ≠ r.block := by
      rcases hb with rfl | hp
      · exact hne
      · rintro rfl
        have hkind := hpathKind hmem' hp
        rw [hkindr] at hkind
        cases hkind
    rw [Function.update_of_ne hbr]
    cases hp : r.path with
    | none => rfl
    | some p =>
      refine Function.update_of_ne ?_ ..
      rintro rfl
      rcases hb with rfl | hp'
      · have hkind := hpathKind hr hp
        rw [hkind'] at hkind
        cases hkind
      · exact hne (congrArg Row.block (hrows.apart i h r' hmem' r hr b hp' hp))
  refine ⟨?_, ⟨fun i r' hmem => ?_, fun i r' hmem => ?_, ?_⟩, fun b hb => ?_⟩
  · rw [blocksOf_update]
    refine hl.frame (fun _ => ⟨rfl, rfl⟩) fun i b hb => ?_
    obtain ⟨r', hr', rfl⟩ : ∃ r' ∈ Function.update rows h (xs ++ ys) i, r'.block = b := by
      rw [← blocksOf_update] at hb
      exact List.mem_map.mp hb
    have hsame := hkept i r' hr' r'.block (Or.inl rfl)
    simp [links, hsame]
  · obtain ⟨hkind, f, k', hd⟩ := hrows.data i r' (mem_without hrow hmem)
    exact ⟨hkind, f, k', (hkept i r' hmem r'.block (Or.inl rfl)).trans hd⟩
  · have himage := hrows.image i r' (mem_without hrow hmem)
    cases hp : r'.path with
    | none =>
      rw [hp] at himage
      exact himage
    | some p =>
      rw [hp] at himage
      exact ⟨himage.1, (hkept i r' hmem p (Or.inr hp)).trans himage.2⟩
  · exact fun i j r₁ h₁ r₂ h₂ p hp₁ hp₂ =>
      hrows.apart i j r₁ (mem_without hrow h₁) r₂ (mem_without hrow h₂) p hp₁ hp₂
  · have hbr : b ≠ r.block := by
      rintro rfl
      exact hb (Function.update_self ..)
    rw [Function.update_of_ne hbr] at hb
    have hbp : r.path ≠ some b := by
      intro hp
      rw [hp] at hb
      exact hb (Function.update_self ..)
    have hL' : L' b ≠ none := by
      cases hp : r.path with
      | none =>
        rw [hp] at hb
        exact hb
      | some p =>
        rw [hp] at hb hbp
        have hne : b ≠ p := fun heq => hbp (by rw [heq])
        rwa [dropPath, Function.update_of_ne hne] at hb
    obtain ⟨i, r', hr', hown⟩ := hplaced.owned b fun hnone => hL' ((hrel.domain b).mpr hnone)
    refine ⟨i, r', ?_, hown⟩
    have hne : r' ≠ r := by
      rintro rfl
      rcases hown with hown | hown
      · exact hbr hown
      · exact hbp hown
    by_cases hi : i = h
    · subst hi
      rw [hrow] at hr'
      rw [Function.update_self]
      simp only [List.mem_append, List.mem_cons] at hr' ⊢
      tauto
    · rwa [Function.update_of_ne hi]

/-- The entry of a row is written over; its links stay. -/
theorem Placed.rewrite (hplaced : Placed g L rows) (hrow : rows h = xs ++ r :: ys) {e : EntryCell}
    (he : L r.block = some (.entry e)) {r' : Row} (hblock : r'.block = r.block)
    (hpath : r'.path = r.path) (hchars : r'.entry.imagePath = r.entry.imagePath) :
    Placed g (Function.update L r.block (some (.entry { e with data := r'.data })))
      (Function.update rows h (xs ++ r' :: ys)) := by
  have hrows := hplaced.rowsIn
  have hr : r ∈ rows h := by simp [hrow]
  have hsplit {i : Bucket} {r'' : Row} (hmem : r'' ∈ Function.update rows h (xs ++ r' :: ys) i) :
      r'' = r' ∧ i = h ∨ r'' ∈ rows i ∧ r''.block ≠ r.block := by
    by_cases hold : r'' ∈ Function.update rows h (xs ++ ys) i
    · exact Or.inr ⟨mem_without hrow hold, hplaced.block_ne hrow hold⟩
    · left
      by_cases hi : i = h
      · subst hi
        rw [Function.update_self] at hmem hold
        simp only [List.mem_append, List.mem_cons] at hmem hold
        exact ⟨by tauto, rfl⟩
      · rw [Function.update_of_ne hi] at hmem hold
        exact absurd hmem hold
  have hblocks : blocksOf (Function.update rows h (xs ++ r' :: ys)) = blocksOf rows := by
    rw [blocksOf_update]
    refine Function.update_eq_self_iff.mpr ?_
    simp [blocksOf, hrow, hblock]
  have hpathKind {i : Bucket} {r'' : Row} {p : PoolBlock} (hri : r'' ∈ rows i)
      (hp : r''.path = some p) : p ≠ r.block := by
    rintro rfl
    have himage := hrows.image i r'' hri
    have hkind := (hrows.data h r hr).1
    rw [hp] at himage
    rw [himage.1] at hkind
    cases hkind
  have himage {i : Bucket} {r'' : Row} (hri : r'' ∈ rows i) :
      Copied (Function.update L r.block (some (.entry { e with data := r'.data })))
        r''.entry.imagePath r''.path := by
    have hold := hrows.image i r'' hri
    cases hp : r''.path with
    | none =>
      rw [hp] at hold
      exact hold
    | some p =>
      rw [hp] at hold
      exact ⟨hold.1, by rw [Function.update_of_ne (hpathKind hri hp)]; exact hold.2⟩
  refine ⟨?_, ⟨fun i r'' hmem => ?_, fun i r'' hmem => ?_, fun i j r₁ h₁ r₂ h₂ p hp₁ hp₂ => ?_⟩,
    fun b hb => ?_⟩
  · rw [hblocks]
    refine hplaced.lists.frame (fun _ => ⟨rfl, rfl⟩) fun i b _ => ?_
    by_cases hb : b = r.block
    · subst hb
      simp [links, he, Cell.asEntry]
    · exact links_update_other hb
  · rcases hsplit hmem with ⟨rfl, rfl⟩ | ⟨hri, hne⟩
    · rw [hblock]
      exact ⟨(hrows.data i r hr).1, e.flink, e.blink, Function.update_self ..⟩
    · obtain ⟨hkind, f, k, hd⟩ := hrows.data i r'' hri
      exact ⟨hkind, f, k, by rwa [Function.update_of_ne hne]⟩
  · rcases hsplit hmem with ⟨rfl, rfl⟩ | ⟨hri, -⟩
    · rw [hchars, hpath]
      exact himage hr
    · exact himage hri
  · rcases hsplit h₁ with ⟨rfl, rfl⟩ | ⟨hold₁, hne₁⟩ <;>
      rcases hsplit h₂ with ⟨rfl, rfl⟩ | ⟨hold₂, hne₂⟩
    · rfl
    · rw [hpath] at hp₁
      exact absurd (congrArg Row.block (hrows.apart j i r₂ hold₂ r hr p hp₂ hp₁)) hne₂
    · rw [hpath] at hp₂
      exact absurd (congrArg Row.block (hrows.apart i j r₁ hold₁ r hr p hp₁ hp₂)) hne₁
    · exact hrows.apart i j r₁ hold₁ r₂ hold₂ p hp₁ hp₂
  · have hL : L b ≠ none := by
      by_cases hbr : b = r.block
      · rw [hbr, he]
        exact Option.some_ne_none _
      · rwa [Function.update_of_ne hbr] at hb
    obtain ⟨i, r'', hri, hown⟩ := hplaced.owned b hL
    by_cases hi : i = h
    · subst hi
      rw [hrow] at hri
      by_cases hsame : r'' = r
      · subst hsame
        exact ⟨i, r', by simp, by rwa [hblock, hpath]⟩
      · refine ⟨i, r'', ?_, hown⟩
        rw [Function.update_self]
        simp only [List.mem_append, List.mem_cons] at hri ⊢
        tauto
    · exact ⟨i, r'', by rwa [Function.update_of_ne hi], hown⟩

end Removal

end Sections

end KnFileCatcher.TrackMemory

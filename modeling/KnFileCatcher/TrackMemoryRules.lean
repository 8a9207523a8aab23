import KnFileCatcher.TrackMemory

/-! What the accesses of a lock section do to the table in memory. -/

namespace KnFileCatcher.TrackMemory

open LinkedRings PushLock
open PushLock.Program (perform wp wp_bind wp_call wp_look wp_ite Finds)
open Ownership (Block)

abbrev Mem := Own PoolKind Cell

/-- What the lists of the table have at one place: an entry, its block and that of its path. -/
structure Row where
  block : PoolBlock
  path : Option PoolBlock
  entry : KnfcTrackEntry

def Row.data (r : Row) : EntryData :=
  ⟨r.entry.pid, r.entry.parentPid, r.entry.rootPid, r.entry.flags, r.path, r.entry.imagePath.length⟩

abbrev Rows := Bucket → List Row

def links (g : Heads) (L : Mem) : Links Bucket PoolBlock where
  flink
    | .head i => (g.heads i).flink
    | .entry b => (((L b).bind Cell.asEntry).map EntryCell.flink).getD (.entry b)
  blink
    | .head i => (g.heads i).blink
    | .entry b => (((L b).bind Cell.asEntry).map EntryCell.blink).getD (.entry b)

def HasData (L : Mem) (b : PoolBlock) (d : EntryData) : Prop :=
  ∃ flink blink, L b = some (.entry ⟨flink, blink, d⟩)

/-- An empty path has no block. -/
def Copied (L : Mem) (path : UnicodeString) : Option PoolBlock → Prop
  | none => path.length = 0
  | some p => p.kind = .path ∧ L p = some (.path path.buffer)

/-- The rows lie in their blocks, and no two have a block of a path in common. -/
structure RowsIn (L : Mem) (rows : Rows) : Prop where
  data : ∀ i, ∀ r ∈ rows i, r.block.kind = .entry ∧ HasData L r.block r.data
  image : ∀ i, ∀ r ∈ rows i, Copied L r.entry.imagePath r.path
  apart : ∀ i j, ∀ r ∈ rows i, ∀ r' ∈ rows j, ∀ p, r.path = some p → r'.path = some p → r = r'

abbrev blocksOf (rows : Rows) : Bucket → List PoolBlock := fun i => (rows i).map Row.block

def total (rows : Rows) : Int := ∑ i, ((rows i).length : Int)

/-- Nothing but links differs. -/
structure Relinked (g : Heads) (L : Mem) (g' : Heads) (L' : Mem) : Prop where
  count : g'.entryCount = g.entryCount
  data : ∀ b d, HasData L b d → HasData L' b d
  path : ∀ b chars, L b = some (.path chars) → L' b = some (.path chars)
  domain : ∀ b, L' b = none ↔ L b = none

theorem Relinked.refl (g : Heads) (L : Mem) : Relinked g L g L :=
  ⟨rfl, fun _ _ => id, fun _ _ => id, fun _ => Iff.rfl⟩

theorem Relinked.trans {g g' g'' : Heads} {L L' L'' : Mem} (h : Relinked g L g' L')
    (h' : Relinked g' L' g'' L'') : Relinked g L g'' L'' :=
  ⟨h'.count.trans h.count, fun b d hd => h'.data b d (h.data b d hd),
    fun b c hc => h'.path b c (h.path b c hc), fun b => (h'.domain b).trans (h.domain b)⟩

theorem RowsIn.relink {g g' : Heads} {L L' : Mem} {rows : Rows} (h : RowsIn L rows)
    (hr : Relinked g L g' L') : RowsIn L' rows where
  data i r hmem := ⟨(h.data i r hmem).1, hr.data _ _ (h.data i r hmem).2⟩
  image i r hmem := by
    have hold := h.image i r hmem
    cases hp : r.path with
    | none =>
      rw [hp] at hold
      exact hold
    | some p =>
      rw [hp] at hold
      exact ⟨hold.1, hr.path _ _ hold.2⟩
  apart := h.apart

section Links

variable {g : Heads} {L : Mem} {b : PoolBlock} {e : EntryCell}

theorem flink_of_entry (h : L b = some (.entry e)) : (links g L).flink (.entry b) = e.flink := by
  simp [links, h, Cell.asEntry]

theorem blink_of_entry (h : L b = some (.entry e)) : (links g L).blink (.entry b) = e.blink := by
  simp [links, h, Cell.asEntry]

theorem links_update_other {c : PoolBlock} {x : Option Cell} (hne : c ≠ b) :
    (links g (Function.update L b x)).flink (.entry c) = (links g L).flink (.entry c) ∧
      (links g (Function.update L b x)).blink (.entry c) = (links g L).blink (.entry c) := by
  simp [links, hne]

/-- An address that a link may be written at. -/
def Writable (L : Mem) : Link → Prop
  | .head _ => True
  | .entry b => ∃ e, L b = some (.entry e)

theorem Relinked.writable {g g' : Heads} {L L' : Mem} (h : Relinked g L g' L') {a : Link}
    (ha : Writable L a) : Writable L' a := by
  cases a with
  | head i => trivial
  | entry b =>
    obtain ⟨e, he⟩ := ha
    obtain ⟨flink, blink, he'⟩ := h.data b e.data ⟨e.flink, e.blink, he⟩
    exact ⟨_, he'⟩

/-- A change of the links of one entry that keeps its data. -/
theorem relinked_update (he : L b = some (.entry e)) (flink blink : Link) :
    Relinked g L g (Function.update L b (some (.entry ⟨flink, blink, e.data⟩))) where
  count := rfl
  data c d hd := by
    by_cases hc : c = b
    · subst hc
      obtain ⟨f, k, hfk⟩ := hd
      rw [he] at hfk
      cases hfk
      exact ⟨flink, blink, Function.update_self ..⟩
    · obtain ⟨f, k, hfk⟩ := hd
      exact ⟨f, k, by rwa [Function.update_of_ne hc]⟩
  path c chars hc := by
    have hne : c ≠ b := by
      rintro rfl
      rw [he] at hc
      cases hc
    rwa [Function.update_of_ne hne]
  domain c := by
    by_cases hc : c = b
    · subst hc
      simp [he]
    · rw [Function.update_of_ne hc]

end Links

section Writes

variable {ν : Type} {C : Contract PoolKind Heads Cell Op (Option Answer) ν} {op : Op} {n : ν}
  {g : Heads} {L : Mem} {Q : Unit → Mem → Phase PoolKind Heads Cell (Option Answer) ν → Prop}

/-- What holds of the table of the phase whatever its links are. -/
def SeenAt (C : Contract PoolKind Heads Cell Op (Option Answer) ν) (op : Op) (n : ν)
    (count : Int) : Prop :=
  ∀ g : Heads, g.entryCount = count → C.seen g n ∨ C.seen g (C.spec op n).2

theorem wp_setFlink {a target : Link} (ha : Writable L a)
    (hseen : SeenAt C op n g.entryCount)
    (hQ : ∀ g' L', Relinked g L g' L' → links g' L' = (links g L).setFlink a target →
      Q () L' (.writing g' n)) :
    (setFlink a target).wp C op L (.writing g n) Q := by
  cases a with
  | head i =>
    refine ⟨g, n, rfl, hseen _ rfl, hQ _ L
      ⟨rfl, fun _ _ => id, fun _ _ => id, fun _ => Iff.rfl⟩ ?_⟩
    refine congrArg₂ Links.mk (funext fun c => ?_) (funext fun c => ?_)
    · cases c with
      | head j => by_cases hj : j = i <;> simp [links, Function.update, hj]
      | entry c => simp [links, Function.update]
    · cases c with
      | head j => by_cases hj : j = i <;> simp [links, Function.update, hj]
      | entry c => simp [links]
  | entry b =>
    obtain ⟨e, he⟩ := ha
    refine ⟨_, he, hQ g _ (relinked_update he target e.blink) ?_⟩
    refine congrArg₂ Links.mk (funext fun c => ?_) (funext fun c => ?_)
    · cases c with
      | head j => simp [links, Function.update]
      | entry c =>
        by_cases hc : c = b <;> simp [links, Function.update, hc, Cell.asEntry, Cell.mapEntry]
    · cases c with
      | head j => simp [links]
      | entry c =>
        by_cases hc : c = b
        · subst hc
          simp [links, Cell.asEntry, Cell.mapEntry, he]
        · simp [links, hc]

theorem wp_setBlink {a target : Link} (ha : Writable L a)
    (hseen : SeenAt C op n g.entryCount)
    (hQ : ∀ g' L', Relinked g L g' L' → links g' L' = (links g L).setBlink a target →
      Q () L' (.writing g' n)) :
    (setBlink a target).wp C op L (.writing g n) Q := by
  cases a with
  | head i =>
    refine ⟨g, n, rfl, hseen _ rfl, hQ _ L
      ⟨rfl, fun _ _ => id, fun _ _ => id, fun _ => Iff.rfl⟩ ?_⟩
    refine congrArg₂ Links.mk (funext fun c => ?_) (funext fun c => ?_)
    · cases c with
      | head j => by_cases hj : j = i <;> simp [links, Function.update, hj]
      | entry c => simp [links]
    · cases c with
      | head j => by_cases hj : j = i <;> simp [links, Function.update, hj]
      | entry c => simp [links, Function.update]
  | entry b =>
    obtain ⟨e, he⟩ := ha
    refine ⟨_, he, hQ g _ (relinked_update he e.flink target) ?_⟩
    refine congrArg₂ Links.mk (funext fun c => ?_) (funext fun c => ?_)
    · cases c with
      | head j => simp [links]
      | entry c =>
        by_cases hc : c = b
        · subst hc
          simp [links, Cell.asEntry, Cell.mapEntry, he]
        · simp [links, hc]
    · cases c with
      | head j => simp [links, Function.update]
      | entry c =>
        by_cases hc : c = b <;> simp [links, Function.update, hc, Cell.asEntry, Cell.mapEntry]

section Lists

variable {rows : Rows} {h : Bucket} {b : PoolBlock} {e : EntryCell} {xs ys : List Row} {r : Row}

theorem RowsIn.writable_headD (hr : RowsIn L rows) (hsub : ∀ r ∈ xs, r ∈ rows h) :
    Writable L (((xs.map Row.block).map Addr.entry).headD (.head h)) := by
  cases xs with
  | nil => trivial
  | cons r xs =>
    obtain ⟨-, flink, blink, hd⟩ := hr.data h r (hsub r List.mem_cons_self)
    exact ⟨_, hd⟩

theorem RowsIn.writable_getLastD (hr : RowsIn L rows) (hsub : ∀ r ∈ xs, r ∈ rows h) :
    Writable L (((xs.map Row.block).map Addr.entry).getLastD (.head h)) := by
  rcases List.eq_nil_or_concat xs with rfl | ⟨xs', r, rfl⟩
  · trivial
  · rw [List.concat_eq_append] at hsub ⊢
    obtain ⟨-, flink, blink, hd⟩ := hr.data h r (hsub r (by simp))
    simp only [List.map_append, List.map_cons, List.map_nil, List.getLastD_concat]
    exact ⟨_, hd⟩

theorem wp_insertHeadList (hl : Lists (links g L) (blocksOf rows)) (hr : RowsIn L rows)
    (hb : L b = some (.entry e)) (hnew : ∀ i, b ∉ blocksOf rows i)
    (hseen : SeenAt C op n g.entryCount)
    (hQ : ∀ g' L', Relinked g L g' L' →
      Lists (links g' L') (Function.update (blocksOf rows) h (b :: blocksOf rows h)) →
        Q () L' (.writing g' n)) :
    (insertHeadList h b).wp C op L (.writing g n) Q := by
  have hfirst : (g.heads h).flink = (((rows h).map Row.block).map Addr.entry).headD (.head h) :=
    hl.first h
  have hwfirst : Writable L (g.heads h).flink := by
    rw [hfirst]
    exact hr.writable_headD fun _ => id
  refine wp_look rfl (wp_bind (wp_setFlink ⟨e, hb⟩ hseen fun g₁ L₁ h₁ hl₁ => ?_))
  refine wp_bind (wp_setBlink (h₁.writable ⟨e, hb⟩) (h₁.count ▸ hseen) fun g₂ L₂ h₂ hl₂ => ?_)
  have h₂ := h₁.trans h₂
  refine wp_bind (wp_setBlink (h₂.writable hwfirst) (h₂.count ▸ hseen) fun g₃ L₃ h₃ hl₃ => ?_)
  have h₃ := h₂.trans h₃
  refine wp_setFlink trivial (h₃.count ▸ hseen) fun g₄ L₄ h₄ hl₄ => hQ g₄ L₄ (h₃.trans h₄) ?_
  rw [hl₄, hl₃, hl₂, hl₁]
  exact hl.insertHead hnew h

theorem wp_unlink (hl : Lists (links g L) (blocksOf rows)) (hr : RowsIn L rows)
    (hrow : rows h = xs ++ r :: ys) (hb : L r.block = some (.entry e))
    (hseen : SeenAt C op n g.entryCount)
    (hQ : ∀ g' L', Relinked g L g' L' →
      Lists (links g' L') (Function.update (blocksOf rows) h ((xs ++ ys).map Row.block)) →
        Q () L' (.writing g' n)) :
    (removeEntryList e).wp C op L (.writing g n) Q := by
  have hblocks : blocksOf rows h = xs.map Row.block ++ r.block :: ys.map Row.block := by
    simp [blocksOf, hrow]
  obtain ⟨hprev, hnext⟩ := hl.neighbours hblocks
  rw [blink_of_entry hb] at hprev
  rw [flink_of_entry hb] at hnext
  have hwprev : Writable L e.blink := by
    rw [hprev]
    exact hr.writable_getLastD fun r' hr' => by simp [hrow, hr']
  have hwnext : Writable L e.flink := by
    rw [hnext]
    exact hr.writable_headD fun r' hr' => by simp [hrow, hr']
  refine wp_bind (wp_setFlink hwprev hseen fun g₁ L₁ h₁ hl₁ => ?_)
  refine wp_setBlink (h₁.writable hwnext) (h₁.count ▸ hseen) fun g₂ L₂ h₂ hl₂ =>
    hQ g₂ L₂ (h₁.trans h₂) ?_
  have hremoved := hl.remove hblocks
  rw [Links.remove, blink_of_entry hb, flink_of_entry hb] at hremoved
  rw [hl₂, hl₁, List.map_append]
  exact hremoved

theorem wp_removeHead (hl : Lists (links g L) (blocksOf rows)) (hr : RowsIn L rows)
    (hrow : rows h = [] ++ r :: ys) (hb : L r.block = some (.entry e))
    (hseen : SeenAt C op n g.entryCount)
    (hQ : ∀ g' L', Relinked g L g' L' →
      Lists (links g' L') (Function.update (blocksOf rows) h (([] ++ ys).map Row.block)) →
        Q () L' (.writing g' n)) :
    (removeHeadList h e).wp C op L (.writing g n) Q := by
  have hblocks : blocksOf rows h = [] ++ r.block :: ys.map Row.block := by simp [blocksOf, hrow]
  have hprev : e.blink = .head h := by
    rw [← blink_of_entry hb]
    exact (hl.neighbours hblocks).1
  have hremove := wp_unlink hl hr hrow hb hseen hQ
  rwa [removeEntryList, hprev] at hremove

end Lists

end Writes

end KnFileCatcher.TrackMemory

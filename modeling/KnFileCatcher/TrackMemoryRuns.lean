import KnFileCatcher.TrackMemoryRows

/-! The lock sections of the tracking table in memory do what the functions on its lists do. -/

namespace KnFileCatcher

open LinkedRings PushLock
open PushLock.Program (perform wp wp_bind wp_call wp_look wp_ite Finds)
open Ownership (Block)
open Runs (Reachable)

namespace TrackMemory

section Sections

variable {ν : Type} {C : Contract PoolKind Heads Cell Op (Option Answer) ν} {op : Op} {n : ν}
  {g : Heads} {L : Mem} {rows : Rows} {h : Bucket} {xs ys : List Row} {r : Row}
  {ph : Phase PoolKind Heads Cell (Option Answer) ν}

theorem Placed.recount (hplaced : Placed g L rows) (k : Int) :
    Placed { g with entryCount := k } L rows :=
  ⟨hplaced.lists, hplaced.rowsIn, hplaced.owned⟩

theorem wp_freeEntry {b : PoolBlock} {e : EntryCell} (he : L b = some (.entry e))
    (hpath : ∀ p, e.data.imageBuffer = some p → L p ≠ none ∧ p ≠ b)
    {Q : Option Unit → Mem → Phase PoolKind Heads Cell (Option Answer) ν → Prop}
    (hQ : Q (some ()) (Function.update (dropPath L e.data.imageBuffer) b none) ph) :
    (knFcTrackFreeEntry b).wp C op L ph Q := by
  refine (finds_readEntry (fun _ _ => Or.inl) he).bind ?_
  refine wp_bind (wp_freePath (fun p hp => (hpath p hp).1) ⟨?_, hQ⟩)
  cases himage : e.data.imageBuffer with
  | none =>
    rw [dropPath, he]
    exact Option.some_ne_none _
  | some p =>
    rw [dropPath, Function.update_of_ne (hpath p himage).2.symm, he]
    exact Option.some_ne_none _

/-- An entry that is in no list any more is freed. -/
theorem wp_freeUnlinked (hplaced : Placed g L rows) (hrow : rows h = xs ++ r :: ys) {g' : Heads}
    {L' : Mem} (hrel : Relinked g L g' L')
    (hl : Lists (links g' L') (Function.update (blocksOf rows) h ((xs ++ ys).map Row.block)))
    {Q : Option Unit → Mem → Phase PoolKind Heads Cell (Option Answer) ν → Prop}
    (hQ : ∀ L'', Placed g' L'' (Function.update rows h (xs ++ ys)) → Q (some ()) L'' ph) :
    (knFcTrackFreeEntry r.block).wp C op L' ph Q := by
  have hrows := hplaced.rowsIn.relink hrel
  have hr : r ∈ rows h := by simp [hrow]
  obtain ⟨hkind, flink, blink, he⟩ := hrows.data h r hr
  refine wp_freeEntry he (fun p hp => ?_) (hQ _ (hplaced.free hrow hrel hl))
  have himage := hrows.image h r hr
  change r.path = some p at hp
  rw [hp] at himage
  refine ⟨by rw [himage.2]; exact Option.some_ne_none _, ?_⟩
  rintro rfl
  rw [himage.1] at hkind
  cases hkind

theorem total_without (hrow : rows h = xs ++ r :: ys) :
    total (Function.update rows h (xs ++ ys)) = total rows - 1 := by
  rw [total_update, hrow]
  simp only [List.length_append, List.length_cons]
  push_cast
  omega

theorem wp_exitEntry {pid : Handle} (hheld : Held g L rows) (hrow : rows h = xs ++ r :: ys)
    (hseen : SeenAt C op n g.entryCount) (hseen' : SeenAt C op n (g.entryCount - 1))
    {Q : Option (Option ProcessPush) → Mem → Phase PoolKind Heads Cell (Option Answer) ν → Prop}
    (hQ : ∀ g' L', g'.entryCount = g.entryCount - 1 →
      Held g' L' (Function.update rows h (xs ++ ys)) →
        Q (some (some ⟨.exited, pid, r.entry.parentPid, r.entry.rootPid,
          r.entry.flags ||| knFcTrackExited, none⟩)) L' (.writing g' n)) :
    (exitEntry pid r.block).wp C op L (.writing g n) Q := by
  obtain ⟨-, flink, blink, he⟩ := hheld.rowsIn.data h r (by simp [hrow])
  let marked : Row := ⟨r.block, r.path, { r.entry with flags := r.entry.flags ||| knFcTrackExited }⟩
  have hplaced : Placed g (Function.update L r.block (some (.entry ⟨flink, blink, marked.data⟩)))
      (Function.update rows h (xs ++ marked :: ys)) :=
    hheld.toPlaced.rewrite hrow he rfl rfl rfl
  have hmarked : Function.update rows h (xs ++ marked :: ys) h = xs ++ marked :: ys :=
    Function.update_self ..
  refine wp_call ⟨_, he, ?_⟩
  refine (finds_readEntry (e := ⟨flink, blink, marked.data⟩) (fun _ _ => Or.inl) ?_).bind ?_
  · exact Function.update_self ..
  · refine wp_bind (wp_unlink (r := marked) hplaced.lists hplaced.rowsIn hmarked
      (Function.update_self ..) hseen fun g₁ L₁ h₁ hl₁ => ?_)
    refine wp_bind (wp_addCount (by rw [h₁.count]; exact hseen') ?_)
    refine wp_bind (wp_freeUnlinked (r := marked) hplaced hmarked h₁ hl₁ fun L₂ h₂ => ?_)
    rw [Function.update_idem] at h₂
    refine hQ _ L₂ (by rw [h₁.count]; rfl) ⟨h₂.recount _, ?_⟩
    rw [total_without hrow, ← hheld.count, h₁.count]
    rfl

/-- The rows of one bucket go, one after another. -/
theorem wp_purgeBucket {i : Bucket}
    {Q : Option Unit → Mem → Phase PoolKind Heads Cell (Option Answer) ν → Prop} (fuel : Nat) :
    ∀ (g : Heads) (L : Mem) (rows : Rows), Placed g L rows → (rows i).length < fuel →
      SeenAt C op n g.entryCount →
      (∀ g' L', g'.entryCount = g.entryCount → Placed g' L' (Function.update rows i []) →
        Q (some ()) L' (.writing g' n)) →
      (purgeBucket i fuel).wp C op L (.writing g n) Q := by
  induction fuel with
  | zero => exact fun _ _ _ _ h => absurd h (Nat.not_lt_zero _)
  | succ fuel ih =>
    intro g L rows hplaced hlen hseen hQ
    have hfirst : (g.heads i).flink = (((rows i).map Row.block).map Addr.entry).headD (.head i) :=
      hplaced.lists.first i
    refine wp_look rfl ?_
    rw [hfirst]
    cases hrow : rows i with
    | nil =>
      have hself : Function.update rows i [] = rows := by
        rw [← hrow]
        exact Function.update_eq_self ..
      rw [hself] at hQ
      simp only [List.map_nil, List.headD_nil, if_true]
      exact hQ g L rfl hplaced
    | cons r ys =>
      obtain ⟨-, flink, blink, he⟩ := hplaced.rowsIn.data i r (by simp [hrow])
      have hrow' : rows i = [] ++ r :: ys := hrow
      refine (finds_readEntry (fun _ _ => Or.inl) he).bind ?_
      refine wp_bind (wp_removeHead hplaced.lists hplaced.rowsIn hrow' he hseen
        fun g₁ L₁ h₁ hl₁ => ?_)
      refine wp_bind (wp_freeUnlinked hplaced hrow' h₁ hl₁ fun L₂ h₂ => ?_)
      refine ih g₁ L₂ _ h₂ ?_ (h₁.count ▸ hseen) fun g₃ L₃ hcount h₃ => ?_
      · rw [Function.update_self]
        rw [hrow] at hlen
        simp only [List.nil_append, List.length_cons] at hlen ⊢
        omega
      · rw [Function.update_idem] at h₃
        exact hQ g₃ L₃ (hcount.trans h₁.count) h₃

/-- The count is not touched before the last bucket is empty. -/
theorem wp_purgeBuckets
    {Q : Option Unit → Mem → Phase PoolKind Heads Cell (Option Answer) ν → Prop}
    (is : List Bucket) :
    ∀ (g : Heads) (L : Mem) (rows : Rows), Placed g L rows →
      (∀ i, ((rows i).length : Int) ≤ g.entryCount) → SeenAt C op n g.entryCount →
      (∀ g' L', g'.entryCount = g.entryCount →
        Placed g' L' (fun i => if i ∈ is then [] else rows i) → Q (some ()) L' (.writing g' n)) →
      (purgeBuckets is).wp C op L (.writing g n) Q := by
  induction is with
  | nil =>
    intro g L rows hplaced _ _ hQ
    exact hQ g L rfl (by simpa using hplaced)
  | cons i is ih =>
    intro g L rows hplaced hle hseen hQ
    refine wp_look rfl (wp_bind ?_)
    have hfuel := hle i
    refine wp_purgeBucket _ g L rows hplaced (by omega) hseen fun g₁ L₁ hcount₁ h₁ => ?_
    refine ih g₁ L₁ _ h₁ (fun j => ?_) (hcount₁ ▸ hseen) fun g₂ L₂ hcount₂ h₂ => ?_
    · rw [hcount₁]
      by_cases hj : j = i
      · subst hj
        rw [Function.update_self]
        exact (Int.natCast_nonneg _).trans hfuel
      · rw [Function.update_of_ne hj]
        exact hle j
    · refine hQ g₂ L₂ (hcount₂.trans hcount₁) ?_
      have hrows : (fun j => if j ∈ is then [] else Function.update rows i [] j) =
          fun j => if j ∈ i :: is then [] else rows j := by
        funext j
        by_cases hj : j = i <;> by_cases hmem : j ∈ is <;> simp [hj, hmem]
      rwa [hrows] at h₂

theorem wp_purgeSection (hheld : Held g L rows) (hseen : SeenAt C op n g.entryCount)
    (hseen' : SeenAt C op n 0)
    {Q : Option Unit → Mem → Phase PoolKind Heads Cell (Option Answer) ν → Prop}
    (hQ : ∀ g' L', g'.entryCount = 0 → Held g' L' (fun _ => []) →
      Q (some ()) L' (.writing g' n)) :
    purgeSection.wp C op L (.writing g n) Q := by
  have hle (i : Bucket) : ((rows i).length : Int) ≤ g.entryCount :=
    hheld.count ▸ length_le_total rows i
  refine wp_bind (wp_purgeBuckets _ g L rows hheld.toPlaced hle hseen fun g' L' _ h' => ?_)
  refine wp_call ⟨g', n, rfl, hseen' _ rfl, hQ _ L' rfl ⟨?_, ?_⟩⟩
  · have hempty : (fun i => if i ∈ List.finRange knfcTrackBuckets then [] else rows i) =
        fun _ => [] := by
      funext i
      rw [if_pos (List.mem_finRange i)]
    rw [hempty] at h'
    exact h'.recount 0
  · simp [total]

end Sections

/-- The table in memory holds the lists of `n`. -/
structure Holds (g : Heads) (G : Mem) (n : KnfcTrackCtx) (rows : Rows) : Prop where
  held : Held g G rows
  buckets : ∀ i, n.buckets i = (rows i).map Row.entry
  counted : g.entryCount = n.entryCount

def contract : Contract PoolKind Heads Cell Op (Option Answer) KnfcTrackCtx where
  inv g G n := ∃ rows, Holds g G n rows
  spec op n := (some (spec op n).1, (spec op n).2)
  seen g n := g.entryCount = n.entryCount
  cost _ := 0
  inv_seen := fun _ _ _ ⟨_, h⟩ => h.counted

section Contract

variable {op : Op} {g : Heads} {G L : Mem} {n : KnfcTrackCtx} {rows : Rows} {pid : Handle}

theorem Holds.find (h : Holds g G n rows) (pid : Handle) :
    KnFileCatcher.knFcTrackFindLocked n pid =
      ((rows (knFcHashPid pid)).find? (hitsRow pid)).map Row.entry := by
  rw [KnFileCatcher.knFcTrackFindLocked, h.buckets, List.find?_map]
  rfl

theorem seenAt_before (h : Holds g G n rows) : SeenAt contract op n g.entryCount :=
  fun _ hcount => Or.inl (hcount.trans h.counted)

theorem seenAt_after {k : Int} (hk : k = (spec op n).2.entryCount) : SeenAt contract op n k :=
  fun _ hcount => Or.inr (hcount.trans hk)

/-- A section has done to the table what its function does. -/
def Done {α : Type} (op : Op) (n : KnfcTrackCtx) (answer : α → Answer) (r : Option α) (L : Mem)
    (ph : Phase PoolKind Heads Cell (Option Answer) KnfcTrackCtx) : Prop :=
  ∃ a g rows, r = some a ∧ ph = .writing g n ∧ Holds g L (spec op n).2 rows ∧
    answer a = (spec op n).1

theorem wp_locked_exclusive {α : Type} {body : TrackProgram (Option α)} {answer : α → Answer}
    (h : ∀ g G rows n, Holds g G n rows →
      body.wp contract op G (.writing g n) (Done op n answer)) :
    (locked .exclusive body answer).wp contract op .empty .before (Returns contract op) := by
  refine wp_call ⟨rfl, fun g G n ⟨rows, hholds⟩ _ => ?_⟩
  rw [Own.empty_join]
  refine wp_bind ((h g G rows n hholds).mono ?_)
  rintro _ L' _ ⟨a, g', rows', rfl, rfl, hholds', hanswer⟩
  refine wp_call ⟨L', fun _ _ => id, ⟨rows', hholds'⟩, ?_⟩
  rw [Own.without_self]
  refine ⟨fun _ => rfl, ?_, rfl⟩
  change some (spec op n).1 = some (answer a)
  rw [hanswer]

theorem wp_insertAndPush (hholds : Holds g G n rows) {alloc : InsertAlloc}
    {parentPid rootPid : Handle} {flags : Ulong} {imagePath : Option UnicodeString}
    (hspec : spec op n =
      (.push (if ntSuccess (KnFileCatcher.knFcTrackInsertLocked alloc n pid parentPid rootPid flags
          imagePath).1 then some ⟨.created, pid, parentPid, rootPid, flags, imagePath⟩ else none),
        (KnFileCatcher.knFcTrackInsertLocked alloc n pid parentPid rootPid flags imagePath).2)) :
    (insertAndPush alloc pid parentPid rootPid flags imagePath).wp contract op G (.writing g n)
      (Done op n .push) := by
  refine wp_bind (wp_insertLocked hholds.held (seenAt_before hholds) (fun hpath hentry => ?_)
    (fun hfail => ?_) fun hpath hentry g' L' b copy hcount hheld => ?_)
  · refine seenAt_after ?_
    rw [hspec, hholds.counted]
    simp only [KnFileCatcher.knFcTrackInsertLocked, if_neg hpath, hentry, Bool.true_eq_false,
      if_false]
  · have hsame : KnFileCatcher.knFcTrackInsertLocked alloc n pid parentPid rootPid flags imagePath =
        (statusInsufficientResources, n) := by
      simp only [KnFileCatcher.knFcTrackInsertLocked]
      rcases hfail with hpath | hentry
      · rw [if_pos hpath]
      · rw [if_pos hentry, ite_self]
    rw [hsame] at hspec
    refine ⟨_, g, rows, rfl, rfl, ?_, ?_⟩
    · rw [hspec]
      exact hholds
    · rw [hspec]
  · simp only [KnFileCatcher.knFcTrackInsertLocked, if_neg hpath, hentry, Bool.true_eq_false,
      if_false] at hspec
    refine ⟨_, g', _, rfl, rfl, ⟨hheld, fun i => ?_, ?_⟩, ?_⟩
    · rw [hspec]
      by_cases hi : i = knFcHashPid pid
      · subst hi
        simp [hholds.buckets]
      · simp [hi, hholds.buckets]
    · rw [hspec, hcount, hholds.counted]
    · rw [hspec]

theorem sound_classify (alloc : InsertAlloc) (isRoot : Bool) (pid parentPid : Handle)
    (imagePath : Option UnicodeString) (extraFlags : Ulong) {g : Heads} {G : Mem} {rows : Rows}
    {n : KnfcTrackCtx} (hholds : Holds g G n rows) :
    (classifySection alloc isRoot pid parentPid imagePath extraFlags).wp contract
      (.classify alloc isRoot pid parentPid imagePath extraFlags) G (.writing g n)
      (Done (.classify alloc isRoot pid parentPid imagePath extraFlags) n .push) := by
  have hfind := hholds.find pid
  refine (finds_findLocked (fun _ _ => Or.inl) rfl hholds.held).bind ?_
  cases hrow : (rows (knFcHashPid pid)).find? (hitsRow pid) with
  | some r =>
    rw [hrow] at hfind
    refine ⟨none, g, rows, rfl, rfl, ?_, ?_⟩ <;>
      simp only [spec, classifyLocked, hfind, Option.map_some]
    exact hholds
  | none =>
    rw [hrow] at hfind
    simp only [Option.map_none]
    refine wp_ite (fun hroot => ?_) fun hroot => ?_
    · refine wp_insertAndPush hholds ?_
      simp only [spec, classifyLocked, hfind, Option.map_none, hroot, if_true]
    · have hparent := hholds.find parentPid
      refine (finds_findLocked (fun _ _ => Or.inl) rfl hholds.held).bind ?_
      cases hrow' : (rows (knFcHashPid parentPid)).find? (hitsRow parentPid) with
      | none =>
        rw [hrow'] at hparent
        refine ⟨none, g, rows, rfl, rfl, ?_, ?_⟩ <;>
          simp only [spec, classifyLocked, hfind, hparent, Option.map_none, if_neg hroot]
        exact hholds
      | some p =>
        rw [hrow'] at hparent
        obtain ⟨-, flink, blink, he⟩ :=
          hholds.held.rowsIn.data _ p (List.mem_of_find?_eq_some hrow')
        refine (finds_readEntry (fun _ _ => Or.inl) he).bind ?_
        refine wp_insertAndPush hholds ?_
        simp only [spec, classifyLocked, hfind, hparent, Option.map_none, Option.map_some,
          if_neg hroot]
        rfl

theorem sound_markExited (pid : Handle) {g : Heads} {G : Mem} {rows : Rows} {n : KnfcTrackCtx}
    (hholds : Holds g G n rows) :
    (exitSection pid).wp contract (.markExited pid) G (.writing g n)
      (Done (.markExited pid) n .push) := by
  have hfind := hholds.find pid
  refine (finds_findLocked (fun _ _ => Or.inl) rfl hholds.held).bind ?_
  cases hrow : (rows (knFcHashPid pid)).find? (hitsRow pid) with
  | none =>
    rw [hrow] at hfind
    refine ⟨none, g, rows, rfl, rfl, ?_, ?_⟩ <;>
      simp only [spec, KnFileCatcher.knFcMarkExited, hfind, Option.map_none]
    exact hholds
  | some r =>
    rw [hrow] at hfind
    obtain ⟨hhit, xs, ys, hsplit, hbefore⟩ := List.find?_eq_some_iff_append.mp hrow
    -- the entry that the walk found is the one that `eraseP` takes away
    have herased : (n.buckets (knFcHashPid pid)).eraseP (fun e =>
        decide (e.pid = pid) && decide (e.flags &&& knFcTrackExited = 0)) =
          (xs ++ ys).map Row.entry := by
      have hskip (r : Row) (hmem : r ∈ xs) : ¬ hitsRow pid r = true := by
        simpa using hbefore r hmem
      have hmap := List.eraseP_map (p := fun e : KnfcTrackEntry =>
        decide (e.pid = pid) && decide (e.flags &&& knFcTrackExited = 0)) (f := Row.entry)
        (l := rows (knFcHashPid pid))
      rw [hholds.buckets, hmap]
      change ((rows (knFcHashPid pid)).eraseP (hitsRow pid)).map Row.entry = _
      rw [hsplit, List.eraseP_append_right _ hskip, List.eraseP_cons_of_pos hhit]
    have hspec : spec (.markExited pid) n = (.push (some ⟨.exited, pid, r.entry.parentPid,
        r.entry.rootPid, r.entry.flags ||| knFcTrackExited, none⟩),
        { n with
          buckets := Function.update n.buckets (knFcHashPid pid) ((xs ++ ys).map Row.entry)
          entryCount := n.entryCount - 1 }) := by
      simp only [spec, KnFileCatcher.knFcMarkExited, hfind, Option.map_some, herased]
    refine wp_exitEntry hholds.held hsplit (seenAt_before hholds) (seenAt_after ?_)
      fun g' L' hcount hheld => ⟨_, g', _, rfl, rfl, ⟨hheld, fun i => ?_, ?_⟩, ?_⟩
    · rw [hspec, hholds.counted]
    · rw [hspec]
      by_cases hi : i = knFcHashPid pid
      · subst hi
        simp
      · simp [hi, hholds.buckets]
    · rw [hspec, hcount, hholds.counted]
    · rw [hspec]

theorem sound_purge {g : Heads} {G : Mem} {rows : Rows} {n : KnfcTrackCtx}
    (hholds : Holds g G n rows) :
    purgeSection.wp contract .purge G (.writing g n) (Done .purge n fun _ => .purged) :=
  wp_purgeSection hholds.held (seenAt_before hholds) (seenAt_after rfl)
    fun g' _ hcount hheld => ⟨(), g', _, rfl, rfl, ⟨hheld, fun _ => rfl, hcount⟩, rfl⟩

theorem sound_lookup (pid : Handle) :
    (program (.lookup pid)).wp contract (.lookup pid) .empty .before
      (Returns contract (.lookup pid)) := by
  refine wp_call ⟨rfl, fun g G n ⟨rows, hholds⟩ _ => wp_bind ?_⟩
  have hfind := hholds.find pid
  refine (finds_findLocked (fun _ _ => Or.inr) rfl hholds.held).bind ?_
  cases hrow : (rows (knFcHashPid pid)).find? (hitsRow pid) with
  | none =>
    rw [hrow] at hfind
    refine wp_call ⟨rfl, fun _ => rfl, ?_, rfl⟩
    simp only [contract, spec, hfind, Option.map_none]
  | some r =>
    rw [hrow] at hfind
    obtain ⟨-, flink, blink, he⟩ := hholds.held.rowsIn.data _ r (List.mem_of_find?_eq_some hrow)
    refine (finds_readEntry (M := G) (fun _ _ => Or.inr) he).bind ?_
    refine wp_call ⟨rfl, fun _ => rfl, ?_, rfl⟩
    simp only [contract, spec, hfind, Option.map_some]
    rfl

theorem program_sound : PushLock.Sound contract program := by
  intro op
  cases op with
  | classify alloc isRoot pid parentPid imagePath extraFlags =>
    exact wp_locked_exclusive fun _ _ _ _ h =>
      sound_classify alloc isRoot pid parentPid imagePath extraFlags h
  | markExited pid => exact wp_locked_exclusive fun _ _ _ _ h => sound_markExited pid h
  | lookup pid => exact sound_lookup pid
  | purge => exact wp_locked_exclusive fun _ _ _ _ h => sound_purge h

end Contract

end TrackMemory

section Runs

open TrackMemory (Heads Cell PoolKind Op Answer Holds)

variable {T : Type} [DecidableEq T]

abbrev TrackMemorySystem (T : Type) :=
  PushLock.System T PoolKind Heads Cell Op (Option Answer)

/-- No access of a run goes wrong, each call takes effect at one moment as the function on
the lists does, and at rest the lists lie in memory and nothing else does. -/
structure TrackMemoryRun (s : TrackMemorySystem T) : Prop where
  noMisuse : s.misused = false
  orderly : Ownership.Orderly s.log
  atomic : Linearizable TrackMemory.contract knFcTrackInitialize s.history
  counted : s.table.entryCount =
      (after TrackMemory.contract knFcTrackInitialize s.history).entryCount ∨
    ∃ t op, s.writer = some t ∧ s.operation t = some op ∧ s.table.entryCount =
      (TrackMemory.spec op (after TrackMemory.contract knFcTrackInitialize s.history)).2.entryCount
  settled : s.AtRest → ∃ G rows,
    Holds s.table G (after TrackMemory.contract knFcTrackInitialize s.history) rows ∧ s.Keeps G
  progress : ∀ t, s.running t ≠ none →
    ∃ t' s', PushLock.step TrackMemory.program s (.step t') = some s'

theorem holds_empty : Holds .empty .empty knFcTrackInitialize fun _ => [] where
  held :=
    { lists := ⟨fun _ => ⟨⟨rfl, rfl⟩, by simp⟩, fun _ _ _ h => absurd h List.not_mem_nil⟩
      rowsIn := ⟨fun _ _ h => absurd h List.not_mem_nil, fun _ _ h => absurd h List.not_mem_nil,
        fun _ _ _ h => absurd h List.not_mem_nil⟩
      owned := fun _ h => absurd rfl h
      count := by simp [Heads.empty, TrackMemory.total] }
  buckets _ := rfl
  counted := rfl

/-- Threads that classify, mark, look up and purge in any interleaving, with the lists and
the entries as they lie in memory. -/
theorem track_memory_runs (content : Block PoolKind → Cell) (s : TrackMemorySystem T)
    (h : Reachable (PushLock.step TrackMemory.program) (.init .empty content) s) :
    TrackMemoryRun s := by
  obtain ⟨g, hk⟩ := kept_of_reachable (C := TrackMemory.contract) TrackMemory.program_sound
    ⟨_, holds_empty⟩ h
  refine ⟨hk.lock.noMisuse, hk.memory.orderly, hk.explained, hk.lock.seen, fun hrest => ?_,
    fun _ => hk.progress⟩
  obtain ⟨G, ⟨rows, hholds⟩, hkeeps⟩ := (hk.rest hrest).1
  exact ⟨G, rows, hholds, hkeeps⟩

/-- A process is looked up after its start, when its exit is already called. -/
def startFindExit : List (Action Bool Op) :=
  [.call true (.classify .ok true 8 4 (some ⟨[wchar 'a'], by simp⟩) 0)] ++
    List.replicate 14 (.step true) ++ [.call false (.lookup 8), .call true (.markExited 8)] ++
      List.replicate 6 (.step false) ++ List.replicate 13 (.step true)

theorem track_memory_runs_exit :
    ∃ s : TrackMemorySystem Bool,
      Runs.exec (PushLock.step TrackMemory.program) (.init .empty fun _ => .path [])
        startFindExit = some s ∧
      s.history.head? = some (.returned true (.markExited 8)
        (some (.push (some ⟨.exited, 8, 4, 8, 5, none⟩)))) ∧ TrackMemoryRun s :=
  have hrun : Runs.exec (PushLock.step TrackMemory.program) (.init .empty fun _ => .path [])
      startFindExit = some (_ : TrackMemorySystem Bool) := rfl
  ⟨_, hrun, rfl, track_memory_runs (fun _ => .path []) _ ⟨_, hrun⟩⟩

end Runs

end KnFileCatcher

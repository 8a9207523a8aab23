import KnFileCatcher.Track

/-! The tracking table against a reference map from PIDs to tracked processes. -/

namespace KnFileCatcher

open ChainedTable

inductive Origin where
  | notification
  | snapshot
deriving DecidableEq

def Origin.extraFlags : Origin → Ulong
  | .notification => 0
  | .snapshot => knFcTrackFromSnap

inductive TrackKind where
  | root
  | child
deriving DecidableEq

structure Tracked where
  kind : TrackKind
  root : Handle
deriving DecidableEq

abbrev TrackMap := Finmap fun _ : Handle => Tracked

namespace TrackMap

def create (m : TrackMap) (pid parentPid : Handle) (isRoot : Bool) : TrackMap :=
  if pid ∈ m then m
  else if isRoot then m.insert pid ⟨.root, pid⟩
  else
    match m.lookup parentPid with
    | some p => m.insert pid ⟨.child, p.root⟩
    | none => m

end TrackMap

def KnfcTrackEntry.tracked (e : KnfcTrackEntry) : Tracked :=
  ⟨if e.flags &&& knFcTrackRoot ≠ 0 then .root else .child, e.rootPid⟩

def trackLayout : Layout knfcTrackBuckets Handle KnfcTrackEntry where
  key := KnfcTrackEntry.pid
  hash := knFcHashPid
  live e := decide (e.flags &&& knFcTrackExited = 0)

/-- The calls that change the table, each one lock section. The watch-root list
is the one the root test of that call reads. -/
inductive TrackOp where
  | create (cfg : KnfcConfig) (origin : Origin) (pid parentPid : Handle)
      (imagePath : Option UnicodeString)
  | exit (pid : Handle)
  | stop

section Operations

variable (up : Wchar → Wchar)

def trackStep (g : KnfcTrackCtx) : TrackOp → KnfcTrackCtx
  | .create cfg origin pid parentPid imagePath =>
    (knFcClassifyAndInsert up cfg .ok g pid parentPid imagePath origin.extraFlags).1
  | .exit pid => (knFcMarkExited g pid).1
  | .stop => knFcTrackStop g

def trackMapStep (m : TrackMap) : TrackOp → TrackMap
  | .create cfg _ pid parentPid imagePath =>
    m.create pid parentPid (imageMatches up cfg imagePath)
  | .exit pid => m.erase pid
  | .stop => ∅

end Operations

theorem findLocked_eq (g : KnfcTrackCtx) (pid : Handle) :
    knFcTrackFindLocked g pid = trackLayout.find g.buckets pid := rfl

theorem insertLocked_ok (g : KnfcTrackCtx) (pid parentPid rootPid : Handle) (flags : Ulong)
    (imagePath : Option UnicodeString) :
    knFcTrackInsertLocked .ok g pid parentPid rootPid flags imagePath =
      (statusSuccess,
        { g with
          buckets := trackLayout.insertHead g.buckets
            ⟨pid, parentPid, rootPid, flags, imagePath.getD .empty⟩
          entryCount := g.entryCount + 1 }) := by
  simp [knFcTrackInsertLocked, InsertAlloc.ok, Layout.insertHead, trackLayout]

abbrev TableRefines (g : KnfcTrackCtx) (m : TrackMap) : Prop :=
  trackLayout.Refines KnfcTrackEntry.tracked g.buckets g.entryCount m

theorem tableRefines_initialize : TableRefines knFcTrackInitialize ∅ := Layout.Refines.empty

theorem live_of_origin (pid parentPid rootPid : Handle) (o : Origin) (path : UnicodeString) :
    trackLayout.live ⟨pid, parentPid, rootPid, knFcTrackRoot ||| o.extraFlags, path⟩ = true ∧
      trackLayout.live ⟨pid, parentPid, rootPid, knFcTrackChild ||| o.extraFlags, path⟩ = true := by
  have h : (knFcTrackRoot ||| o.extraFlags) &&& knFcTrackExited = 0 ∧
      (knFcTrackChild ||| o.extraFlags) &&& knFcTrackExited = 0 := by cases o <;> decide
  exact ⟨decide_eq_true h.1, decide_eq_true h.2⟩

theorem tracked_of_root (pid parentPid rootPid : Handle) (o : Origin) (path : UnicodeString) :
    KnfcTrackEntry.tracked ⟨pid, parentPid, rootPid, knFcTrackRoot ||| o.extraFlags, path⟩ =
      ⟨.root, rootPid⟩ := by
  have h : (knFcTrackRoot ||| o.extraFlags) &&& knFcTrackRoot ≠ 0 := by cases o <;> decide
  simp only [KnfcTrackEntry.tracked, if_pos h]

theorem tracked_of_child (pid parentPid rootPid : Handle) (o : Origin) (path : UnicodeString) :
    KnfcTrackEntry.tracked ⟨pid, parentPid, rootPid, knFcTrackChild ||| o.extraFlags, path⟩ =
      ⟨.child, rootPid⟩ := by
  have h : ¬ (knFcTrackChild ||| o.extraFlags) &&& knFcTrackRoot ≠ 0 := by cases o <;> decide
  simp only [KnfcTrackEntry.tracked, if_neg h]

section Classify

variable {g : KnfcTrackCtx} {pid parentPid : Handle} {imagePath : Option UnicodeString}
  {extra : Ulong}

theorem classify_present {alloc : InsertAlloc} {isRoot : Bool} {e : KnfcTrackEntry}
    (h : knFcTrackFindLocked g pid = some e) :
    classifyLocked alloc g isRoot pid parentPid imagePath extra = (g, none) := by
  simp only [classifyLocked, h]

theorem classify_root (h : knFcTrackFindLocked g pid = none) :
    (classifyLocked .ok g true pid parentPid imagePath extra).1 =
      { g with
        buckets := trackLayout.insertHead g.buckets
          ⟨pid, parentPid, pid, knFcTrackRoot ||| extra, imagePath.getD .empty⟩
        entryCount := g.entryCount + 1 } := by
  simp only [classifyLocked, h, if_true, insertLocked_ok]

theorem classify_child {p : KnfcTrackEntry} (h : knFcTrackFindLocked g pid = none)
    (hp : knFcTrackFindLocked g parentPid = some p) :
    (classifyLocked .ok g false pid parentPid imagePath extra).1 =
      { g with
        buckets := trackLayout.insertHead g.buckets
          ⟨pid, parentPid, p.rootPid, knFcTrackChild ||| extra, imagePath.getD .empty⟩
        entryCount := g.entryCount + 1 } := by
  simp only [classifyLocked, h, hp, Bool.false_eq_true, if_false, insertLocked_ok]

theorem classify_miss {alloc : InsertAlloc} (h : knFcTrackFindLocked g pid = none)
    (hp : knFcTrackFindLocked g parentPid = none) :
    classifyLocked alloc g false pid parentPid imagePath extra = (g, none) := by
  simp only [classifyLocked, h, hp, Bool.false_eq_true, if_false]

end Classify

theorem TableRefines.create {g : KnfcTrackCtx} {m : TrackMap} (h : TableRefines g m)
    (o : Origin) (isRoot : Bool) (pid parentPid : Handle) (imagePath : Option UnicodeString) :
    TableRefines (classifyLocked .ok g isRoot pid parentPid imagePath o.extraFlags).1
      (m.create pid parentPid isRoot) := by
  cases hf : knFcTrackFindLocked g pid with
  | some e =>
    have hm : pid ∈ m := by
      by_contra hno
      rw [findLocked_eq, h.find_eq_none_iff.mpr hno] at hf
      exact absurd hf (by simp)
    rw [classify_present hf, TrackMap.create, if_pos hm]
    exact h
  | none =>
    have hm : pid ∉ m := h.find_eq_none_iff.mp hf
    rw [TrackMap.create, if_neg hm]
    cases isRoot with
    | true =>
      have hi := h.insertHead (live_of_origin pid parentPid pid o (imagePath.getD .empty)).1 hf
      rw [tracked_of_root] at hi
      rw [classify_root hf, if_pos rfl]
      exact hi
    | false =>
      have hl := h.lookup parentPid
      rw [← findLocked_eq] at hl
      cases hp : knFcTrackFindLocked g parentPid with
      | none =>
        rw [hp, Option.map_none] at hl
        rw [classify_miss hf hp, if_neg Bool.false_ne_true, ← hl]
        exact h
      | some p =>
        rw [hp, Option.map_some] at hl
        have hi := h.insertHead
          (live_of_origin pid parentPid p.rootPid o (imagePath.getD .empty)).2 hf
        rw [tracked_of_child] at hi
        rw [classify_child hf hp, if_neg Bool.false_ne_true, ← hl]
        exact hi

theorem markExited_some {g : KnfcTrackCtx} {pid : Handle} {e : KnfcTrackEntry}
    (h : knFcTrackFindLocked g pid = some e) :
    (knFcMarkExited g pid).1 =
      { g with buckets := trackLayout.unlink g.buckets pid, entryCount := g.entryCount - 1 } := by
  simp only [knFcMarkExited, h]
  rfl

theorem markExited_none {g : KnfcTrackCtx} {pid : Handle}
    (h : knFcTrackFindLocked g pid = none) : (knFcMarkExited g pid).1 = g := by
  simp only [knFcMarkExited, h]

theorem TableRefines.exit {g : KnfcTrackCtx} {m : TrackMap} (h : TableRefines g m)
    (pid : Handle) : TableRefines (knFcMarkExited g pid).1 (m.erase pid) := by
  cases hf : knFcTrackFindLocked g pid with
  | none =>
    rw [markExited_none hf, Layout.Refines.erase_absent h hf]
    exact h
  | some e =>
    rw [markExited_some hf]
    exact h.unlink hf

theorem TableRefines.step {g : KnfcTrackCtx} {m : TrackMap} (h : TableRefines g m)
    (up : Wchar → Wchar) (op : TrackOp) :
    TableRefines (trackStep up g op) (trackMapStep up m op) := by
  cases op with
  | create cfg origin pid parentPid imagePath => exact h.create origin _ pid parentPid imagePath
  | exit pid => exact h.exit pid
  | stop => exact tableRefines_initialize

theorem tableRefines_run (up : Wchar → Wchar) (ops : List TrackOp) {g : KnfcTrackCtx}
    {m : TrackMap} (h : TableRefines g m) :
    TableRefines (ops.foldl (trackStep up) g) (ops.foldl (trackMapStep up) m) := by
  induction ops generalizing g m with
  | nil => exact h
  | cons op ops ih => exact ih (h.step up op)

section Live

/-! Which PIDs a lookup finds, for any outcome of the allocations. -/

def Live (g : KnfcTrackCtx) (pid : Handle) : Prop := (knFcTrackFindLocked g pid).isSome = true

instance (g : KnfcTrackCtx) (pid : Handle) : Decidable (Live g pid) :=
  inferInstanceAs (Decidable (_ = _))

theorem not_live_iff {g : KnfcTrackCtx} {pid : Handle} :
    ¬ Live g pid ↔ knFcTrackFindLocked g pid = none := by
  simp [Live]

def InsertAlloc.suffices (alloc : InsertAlloc) (imagePath : Option UnicodeString) : Bool :=
  alloc.entry && (alloc.path || decide ((imagePath.getD .empty).length = 0))

theorem InsertAlloc.suffices_ok (imagePath : Option UnicodeString) :
    InsertAlloc.ok.suffices imagePath = true := rfl

variable {alloc : InsertAlloc} {g : KnfcTrackCtx} {isRoot : Bool} {pid parentPid : Handle}
  {imagePath : Option UnicodeString}

theorem insertLocked_eq (alloc : InsertAlloc) (g : KnfcTrackCtx) (pid parentPid rootPid : Handle)
    (flags : Ulong) (imagePath : Option UnicodeString) :
    knFcTrackInsertLocked alloc g pid parentPid rootPid flags imagePath =
      if alloc.suffices imagePath then
        knFcTrackInsertLocked .ok g pid parentPid rootPid flags imagePath
      else (statusInsufficientResources, g) := by
  obtain ⟨path, entry⟩ := alloc
  by_cases hl : (imagePath.getD .empty).length = 0 <;> cases path <;> cases entry <;>
    simp [knFcTrackInsertLocked, InsertAlloc.suffices, InsertAlloc.ok, hl, Nat.pos_iff_ne_zero]

theorem classifyLocked_eq (extra : Ulong) :
    (classifyLocked alloc g isRoot pid parentPid imagePath extra).1 =
      if alloc.suffices imagePath then
        (classifyLocked .ok g isRoot pid parentPid imagePath extra).1
      else g := by
  have h (rootPid : Handle) (flags : Ulong) :=
    insertLocked_eq alloc g pid parentPid rootPid flags imagePath
  cases hs : alloc.suffices imagePath with
  | true => simp only [classifyLocked, h, hs, if_true]
  | false =>
    simp only [classifyLocked, h, hs, Bool.false_eq_true, if_false]
    cases knFcTrackFindLocked g pid with
    | some e => rfl
    | none => cases isRoot <;> cases knFcTrackFindLocked g parentPid <;> rfl

/-- A classification adds an entry: the PID is free, the image is a root or the
parent is tracked, and there is memory. -/
def Inserts (alloc : InsertAlloc) (g : KnfcTrackCtx) (isRoot : Bool) (pid parentPid : Handle)
    (imagePath : Option UnicodeString) : Prop :=
  ¬ Live g pid ∧ (isRoot = true ∨ Live g parentPid) ∧ alloc.suffices imagePath = true

instance : Decidable (Inserts alloc g isRoot pid parentPid imagePath) :=
  inferInstanceAs (Decidable (_ ∧ _ ∧ _))

theorem findLocked_insertHead {e : KnfcTrackEntry} (hlive : trackLayout.live e = true)
    (g : KnfcTrackCtx) (count : Int) (k : Handle) :
    knFcTrackFindLocked
        { g with buckets := trackLayout.insertHead g.buckets e, entryCount := count } k =
      if k = e.pid then some e else knFcTrackFindLocked g k := by
  rw [findLocked_eq, Layout.find_insertHead hlive, findLocked_eq]
  rfl

theorem live_insertHead {e : KnfcTrackEntry} (hlive : trackLayout.live e = true) (pid' : Handle) :
    Live { g with buckets := trackLayout.insertHead g.buckets e, entryCount := g.entryCount + 1 }
      pid' ↔ Live g pid' ∨ pid' = e.pid := by
  rw [Live, findLocked_insertHead hlive]
  by_cases h : pid' = e.pid
  · simp [h]
  · simp [h, Live]

structure Classified (alloc : InsertAlloc) (g : KnfcTrackCtx) (isRoot : Bool)
    (pid parentPid : Handle) (imagePath : Option UnicodeString) (t : KnfcTrackCtx) : Prop where
  wf : trackLayout.Wf t.buckets
  active : t.active = g.active
  live : ∀ pid', Live t pid' ↔
    Live g pid' ∨ pid' = pid ∧ Inserts alloc g isRoot pid parentPid imagePath

theorem Classified.same (hwf : trackLayout.Wf g.buckets)
    (h : ¬ Inserts alloc g isRoot pid parentPid imagePath) :
    Classified alloc g isRoot pid parentPid imagePath g :=
  ⟨hwf, rfl, fun _ => by simp [h]⟩

theorem Classified.insertHead (hwf : trackLayout.Wf g.buckets) {e : KnfcTrackEntry}
    (hlive : trackLayout.live e = true)
    (h : Inserts alloc g isRoot e.pid parentPid imagePath) :
    Classified alloc g isRoot e.pid parentPid imagePath
      { g with buckets := trackLayout.insertHead g.buckets e, entryCount := g.entryCount + 1 } :=
  ⟨hwf.insertHead hlive (not_live_iff.mp h.1), rfl, fun pid' => by
    rw [live_insertHead hlive]
    simp [h]⟩

theorem classified (hwf : trackLayout.Wf g.buckets) (o : Origin) :
    Classified alloc g isRoot pid parentPid imagePath
      (classifyLocked alloc g isRoot pid parentPid imagePath o.extraFlags).1 := by
  rw [classifyLocked_eq]
  cases hs : alloc.suffices imagePath with
  | false => exact .same hwf fun h => by simp [Inserts, hs] at h
  | true =>
    rw [if_pos rfl]
    cases hf : knFcTrackFindLocked g pid with
    | some e =>
      rw [classify_present hf]
      exact .same hwf fun h => h.1 (by simp [Live, hf])
    | none =>
      have hno : ¬ Live g pid := not_live_iff.mpr hf
      cases isRoot with
      | true =>
        rw [classify_root hf]
        exact .insertHead hwf (live_of_origin _ _ _ o _).1 ⟨hno, Or.inl rfl, hs⟩
      | false =>
        cases hp : knFcTrackFindLocked g parentPid with
        | none =>
          rw [classify_miss hf hp]
          exact .same hwf fun h => (not_live_iff.mpr hp) (h.2.1.resolve_left Bool.false_ne_true)
        | some p =>
          rw [classify_child hf hp]
          exact .insertHead hwf (live_of_origin _ _ _ o _).2
            ⟨hno, Or.inr (by simp [Live, hp]), hs⟩

theorem markExited_wf (hwf : trackLayout.Wf g.buckets) (pid : Handle) :
    trackLayout.Wf (knFcMarkExited g pid).1.buckets := by
  cases hf : knFcTrackFindLocked g pid with
  | none => rwa [markExited_none hf]
  | some e =>
    rw [markExited_some hf]
    exact hwf.unlink pid

theorem markExited_active (pid : Handle) : (knFcMarkExited g pid).1.active = g.active := by
  cases hf : knFcTrackFindLocked g pid with
  | none => rw [markExited_none hf]
  | some e => rw [markExited_some hf]

theorem findLocked_markExited (hwf : trackLayout.Wf g.buckets) (pid k : Handle) :
    knFcTrackFindLocked (knFcMarkExited g pid).1 k =
      if k = pid then none else knFcTrackFindLocked g k := by
  cases hf : knFcTrackFindLocked g pid with
  | none =>
    rw [markExited_none hf]
    split
    · next hk => rw [hk, hf]
    · rfl
  | some e => rw [markExited_some hf, findLocked_eq, hwf.find_unlink, findLocked_eq]

theorem live_markExited (hwf : trackLayout.Wf g.buckets) (pid pid' : Handle) :
    Live (knFcMarkExited g pid).1 pid' ↔ Live g pid' ∧ pid' ≠ pid := by
  rw [Live, findLocked_markExited hwf]
  by_cases h : pid' = pid
  · simp [h]
  · simp [h, Live]

end Live

/-- After every sequence of calls a lookup answers what the reference map
answers, a PID has at most one entry, each entry lies in its bucket and is not
exited, and the counter is the size of the map. -/
theorem track_table_refines_map (up : Wchar → Wchar) (ops : List TrackOp) :
    let g := ops.foldl (trackStep up) knFcTrackInitialize
    let m := ops.foldl (trackMapStep up) ∅
    (∀ pid, (knFcTrackFindLocked g pid).map KnfcTrackEntry.tracked = m.lookup pid) ∧
      ((entries g.buckets).map KnfcTrackEntry.pid).Nodup ∧
      (∀ b, ∀ e ∈ g.buckets b, knFcHashPid e.pid = b ∧ e.flags &&& knFcTrackExited = 0) ∧
      g.entryCount = m.keys.card := by
  intro g m
  have h := tableRefines_run up ops tableRefines_initialize
  refine ⟨h.lookup, h.wf.nodup_keys, ?_, h.count⟩
  intro b e he
  exact ⟨h.wf.placed b e he, by simpa [trackLayout] using h.wf.live b e he⟩

end KnFileCatcher

import KnFileCatcher.Sweeps
import KnFileCatcher.TrackSystem

/-! The snapshot of the running processes while nothing else touches the table: its
passes are sweeps over the records. -/

namespace KnFileCatcher

open ChainedTable Sweeps

/-- The identity and age of a process that the system query lists. -/
structure KnfcSystemProcessInformation where
  createTime : Int
  uniqueProcessId : Handle
  inheritedFromUniqueProcessId : Handle
deriving DecidableEq

section Passes

variable (up : Wchar → Wchar) (cfg : KnfcConfig) (imageOf : Handle → Option UnicodeString)

/-- The body of the loop over the records; `imageOf` is what the image lookup finds. -/
def snapshotRecord (childPass : Bool) (r : KnfcTrackCtx × Nat)
    (sp : KnfcSystemProcessInformation) : KnfcTrackCtx × Nat :=
  let pid := sp.uniqueProcessId
  let ppid := sp.inheritedFromUniqueProcessId
  if pid = 0 then r
  else if (knFcTrackIsTracked r.1 pid).isSome then r
  else
    let parentTracked := childPass && (knFcTrackIsTracked r.1 ppid).isSome
    let imagePath := imageOf pid
    if childPass then
      if parentTracked then
        ((knFcClassifyAndInsert up cfg .ok r.1 pid ppid imagePath knFcTrackFromSnap).1, r.2 + 1)
      else r
    else if imageMatches up cfg imagePath then
      ((knFcClassifyAndInsert up cfg .ok r.1 pid ppid imagePath knFcTrackFromSnap).1, r.2 + 1)
    else r

/-- The table after a pass, and the changes it counted. -/
def knFcTrackSnapshotPass (buffer : List KnfcSystemProcessInformation) (childPass : Bool)
    (g : KnfcTrackCtx) : KnfcTrackCtx × Nat :=
  buffer.foldl (snapshotRecord up cfg imageOf childPass) (g, 0)

/-- The loop of child passes, with the changes that the last pass counted. -/
def childPasses (buffer : List KnfcSystemProcessInformation) :
    Nat → KnfcTrackCtx × Nat → KnfcTrackCtx × Nat
  | 0, r => r
  | iter + 1, r =>
    let r := knFcTrackSnapshotPass up cfg imageOf buffer true r.1
    if r.2 = 0 then r else childPasses buffer iter r

def knFcTrackSnapshot (buffer : List KnfcSystemProcessInformation) (g : KnfcTrackCtx) :
    KnfcTrackCtx × Nat :=
  childPasses up cfg imageOf buffer knfcChildPasses
    (knFcTrackSnapshotPass up cfg imageOf buffer false g)

/-- The table when `knFcTrackStart` takes its snapshot. -/
def startedTable : KnfcTrackCtx :=
  { knFcTrackInitialize with active := true, notifyRegistered := true }

end Passes

section Records

variable {up : Wchar → Wchar} {cfg : KnfcConfig} {imageOf : Handle → Option UnicodeString}
  {g : KnfcTrackCtx} {l : List KnfcSystemProcessInformation} {childPass : Bool} {n : Nat}
  {sp : KnfcSystemProcessInformation}

variable (up cfg imageOf) in
def Matches (pid : Handle) : Prop := imageMatches up cfg (imageOf pid) = true

variable (up cfg imageOf) in
/-- A record that the pass classifies. -/
def Classifies (childPass : Bool) (g : KnfcTrackCtx) (sp : KnfcSystemProcessInformation) : Prop :=
  sp.uniqueProcessId ≠ 0 ∧ (knFcTrackIsTracked g sp.uniqueProcessId).isSome = false ∧
    if childPass then (knFcTrackIsTracked g sp.inheritedFromUniqueProcessId).isSome = true
    else Matches up cfg imageOf sp.uniqueProcessId

variable (up cfg imageOf) in
def classifyRecord (g : KnfcTrackCtx) (sp : KnfcSystemProcessInformation) : KnfcTrackCtx :=
  (knFcClassifyAndInsert up cfg .ok g sp.uniqueProcessId sp.inheritedFromUniqueProcessId
    (imageOf sp.uniqueProcessId) knFcTrackFromSnap).1

theorem snapshotRecord_added (h : Classifies up cfg imageOf childPass g sp) :
    snapshotRecord up cfg imageOf childPass (g, n) sp =
      (classifyRecord up cfg imageOf g sp, n + 1) := by
  obtain ⟨hpid, hnew, htest⟩ := h
  cases childPass with
  | true =>
    simp only [if_true] at htest
    simp only [snapshotRecord, if_neg hpid, hnew, htest, Bool.true_and, Bool.false_eq_true,
      if_false, if_true, classifyRecord]
  | false =>
    have hmatch : imageMatches up cfg (imageOf sp.uniqueProcessId) = true := by
      simpa [Matches] using htest
    simp only [snapshotRecord, if_neg hpid, hnew, hmatch, Bool.false_eq_true, if_false, if_true,
      classifyRecord]

theorem snapshotRecord_skipped (h : ¬ Classifies up cfg imageOf childPass g sp) :
    snapshotRecord up cfg imageOf childPass (g, n) sp = (g, n) := by
  unfold snapshotRecord
  dsimp only
  split
  · rfl
  next hpid =>
  split
  · rfl
  next hnew =>
  cases childPass with
  | true =>
    simp only [Bool.true_and, if_true]
    split
    · next htracked => exact absurd ⟨hpid, by simpa using hnew, by simpa using htracked⟩ h
    · rfl
  | false =>
    simp only [Bool.false_eq_true, if_false]
    split
    · next hmatch => exact absurd ⟨hpid, by simpa using hnew, by simpa [Matches] using hmatch⟩ h
    · rfl

/-- What every classification of a pass keeps, the pass keeps. -/
theorem pass_invariant {I : KnfcTrackCtx → Prop}
    (hstep : ∀ g, I g → ∀ sp ∈ l, Classifies up cfg imageOf childPass g sp →
      I (classifyRecord up cfg imageOf g sp)) (hg : I g) :
    I (l.foldl (snapshotRecord up cfg imageOf childPass) (g, n)).1 := by
  induction l generalizing g n with
  | nil => exact hg
  | cons sp l ih =>
    have hrest : ∀ g, I g → ∀ sp ∈ l, Classifies up cfg imageOf childPass g sp →
        I (classifyRecord up cfg imageOf g sp) :=
      fun g hi sp hsp => hstep g hi sp (List.mem_cons_of_mem _ hsp)
    rw [List.foldl_cons]
    by_cases hclassifies : Classifies up cfg imageOf childPass g sp
    · rw [snapshotRecord_added hclassifies]
      exact ih hrest (hstep g hg sp List.mem_cons_self hclassifies)
    · rw [snapshotRecord_skipped hclassifies]
      exact ih hrest hg

theorem childPasses_invariant {I : KnfcTrackCtx → Prop}
    (hstep : ∀ g, I g → ∀ sp ∈ l, Classifies up cfg imageOf true g sp →
      I (classifyRecord up cfg imageOf g sp)) {r : KnfcTrackCtx × Nat} (hr : I r.1)
    (iter : Nat) : I (childPasses up cfg imageOf l iter r).1 := by
  induction iter generalizing r with
  | zero => exact hr
  | succ iter ih =>
    have hpass : I (knFcTrackSnapshotPass up cfg imageOf l true r.1).1 := pass_invariant hstep hr
    rw [childPasses]
    split
    · exact hpass
    · exact ih hpass

theorem le_changes (g : KnfcTrackCtx) (n : Nat) :
    n ≤ (l.foldl (snapshotRecord up cfg imageOf childPass) (g, n)).2 := by
  induction l generalizing g n with
  | nil => exact le_rfl
  | cons sp l ih =>
    rw [List.foldl_cons]
    by_cases hclassifies : Classifies up cfg imageOf childPass g sp
    · rw [snapshotRecord_added hclassifies]
      exact (Nat.le_succ n).trans (ih _ _)
    · rw [snapshotRecord_skipped hclassifies]
      exact ih g n

end Records

section Tracked

/-! The processes in the table, as a set that the child passes sweep. -/

variable {up : Wchar → Wchar} {cfg : KnfcConfig} {imageOf : Handle → Option UnicodeString}
  {g : KnfcTrackCtx} {l : List KnfcSystemProcessInformation} {n : Nat}
  {sp : KnfcSystemProcessInformation}

def tracked (g : KnfcTrackCtx) : Set Handle := {pid | Live g pid}

theorem mem_tracked_iff {pid : Handle} : pid ∈ tracked g ↔ Live g pid := Iff.rfl

/-- The table while a snapshot is taken. -/
structure InSnapshot (g : KnfcTrackCtx) : Prop where
  wf : trackLayout.Wf g.buckets
  active : g.active = true
  idle : ¬ Live g 0

theorem InSnapshot.isTracked_iff (h : InSnapshot g) {pid : Handle} :
    (knFcTrackIsTracked g pid).isSome = true ↔ Live g pid := by
  rw [KnFileCatcher.isTracked_iff]
  refine ⟨fun ht => ht.2.2, fun hl => ⟨h.active, ?_, hl⟩⟩
  rintro rfl
  exact h.idle hl

theorem InSnapshot.isTracked_eq_false_iff (h : InSnapshot g) {pid : Handle} :
    (knFcTrackIsTracked g pid).isSome = false ↔ ¬ Live g pid := by
  rw [← h.isTracked_iff, Bool.not_eq_true]

theorem inSnapshot_started : InSnapshot startedTable where
  wf := Layout.wf_empty
  active := rfl
  idle := by simp [Live, knFcTrackFindLocked, startedTable, knFcTrackInitialize]

theorem tracked_started : tracked startedTable = ∅ := by
  ext pid
  simp [tracked, Live, knFcTrackFindLocked, startedTable, knFcTrackInitialize]

/-- A classification that a pass makes succeeds. -/
theorem Classifies.inserts (h : InSnapshot g) {childPass : Bool}
    (hclassifies : Classifies up cfg imageOf childPass g sp) :
    Inserts .ok g (imageMatches up cfg (imageOf sp.uniqueProcessId)) sp.uniqueProcessId
      sp.inheritedFromUniqueProcessId (imageOf sp.uniqueProcessId) := by
  obtain ⟨-, hnew, htest⟩ := hclassifies
  refine ⟨h.isTracked_eq_false_iff.mp hnew, ?_, InsertAlloc.suffices_ok _⟩
  cases childPass with
  | true => exact Or.inr (h.isTracked_iff.mp (by simpa using htest))
  | false => exact Or.inl (by simpa [Matches] using htest)

theorem InSnapshot.classify (h : InSnapshot g) {childPass : Bool}
    (hclassifies : Classifies up cfg imageOf childPass g sp) :
    InSnapshot (classifyRecord up cfg imageOf g sp) ∧
      tracked (classifyRecord up cfg imageOf g sp) = insert sp.uniqueProcessId (tracked g) := by
  have hclassified := @classified .ok g (imageMatches up cfg (imageOf sp.uniqueProcessId))
    sp.uniqueProcessId sp.inheritedFromUniqueProcessId (imageOf sp.uniqueProcessId) h.wf .snapshot
  have hlive (pid : Handle) : Live (classifyRecord up cfg imageOf g sp) pid ↔
      Live g pid ∨ pid = sp.uniqueProcessId :=
    (hclassified.live pid).trans (or_congr_right (and_iff_left (hclassifies.inserts h)))
  refine ⟨⟨hclassified.wf, hclassified.active.trans h.active, ?_⟩, ?_⟩
  · rw [hlive]
    exact not_or.mpr ⟨h.idle, hclassifies.1.symm⟩
  · ext pid
    rw [mem_tracked_iff, hlive, Set.mem_insert_iff, mem_tracked_iff, or_comm]

/-- The records that a pass looks at. -/
def named (l : List KnfcSystemProcessInformation) : List KnfcSystemProcessInformation :=
  l.filter fun sp => decide (sp.uniqueProcessId ≠ 0)

abbrev sweepChildren (l : List KnfcSystemProcessInformation) : Set Handle → Set Handle :=
  sweep KnfcSystemProcessInformation.uniqueProcessId
    KnfcSystemProcessInformation.inheritedFromUniqueProcessId (named l)

/-- No record lacks only its own entry. -/
abbrev ClosedUnder (l : List KnfcSystemProcessInformation) (T : Set Handle) : Prop :=
  Closed KnfcSystemProcessInformation.uniqueProcessId
    KnfcSystemProcessInformation.inheritedFromUniqueProcessId (named l) T

theorem named_cons (sp : KnfcSystemProcessInformation) (l : List KnfcSystemProcessInformation) :
    named (sp :: l) = if sp.uniqueProcessId ≠ 0 then sp :: named l else named l := by
  simp [named, List.filter_cons]

theorem mem_named_iff : sp ∈ named l ↔ sp ∈ l ∧ sp.uniqueProcessId ≠ 0 := by
  simp [named]

theorem InSnapshot.classifies_child_iff (h : InSnapshot g) :
    Classifies up cfg imageOf true g sp ↔ sp.uniqueProcessId ≠ 0 ∧ sp.uniqueProcessId ∉ tracked g ∧
      sp.inheritedFromUniqueProcessId ∈ tracked g := by
  rw [Classifies, h.isTracked_eq_false_iff, if_pos rfl, h.isTracked_iff]
  rfl

/-- A child pass is a sweep, and counts no change when there is nothing to add. -/
theorem InSnapshot.childPass (h : InSnapshot g) :
    tracked (l.foldl (snapshotRecord up cfg imageOf true) (g, n)).1 =
        sweepChildren l (tracked g) ∧
      ((l.foldl (snapshotRecord up cfg imageOf true) (g, n)).2 = n ↔
        ClosedUnder l (tracked g)) := by
  induction l generalizing g n with
  | nil => exact ⟨rfl, iff_of_true rfl fun sp hsp => by simp [named] at hsp⟩
  | cons sp l ih =>
    rw [List.foldl_cons, sweepChildren, ClosedUnder, named_cons]
    by_cases hclassifies : Classifies up cfg imageOf true g sp
    · rw [snapshotRecord_added hclassifies]
      obtain ⟨hnext, htracked⟩ := h.classify hclassifies
      obtain ⟨hpid, hnew, hparent⟩ := h.classifies_child_iff.mp hclassifies
      obtain ⟨hset, -⟩ := ih hnext (n := n + 1)
      rw [if_pos hpid, sweep_cons]
      constructor
      · rw [hset, htracked]
        congr 1
        ext pid
        simp [mem_visit_iff, hparent, or_comm]
      · refine iff_of_false (fun hzero => ?_) fun hclosed => ?_
        · have hle : n + 1 ≤ (l.foldl (snapshotRecord up cfg imageOf true)
              (classifyRecord up cfg imageOf g sp, n + 1)).2 := le_changes _ _
          omega
        · exact hnew (hclosed sp List.mem_cons_self hparent)
    · rw [snapshotRecord_skipped hclassifies]
      obtain ⟨hset, hchanges⟩ := ih h (n := n)
      rw [hset, hchanges]
      by_cases hpid : sp.uniqueProcessId = 0
      · rw [if_neg (not_not.mpr hpid)]
        exact ⟨rfl, Iff.rfl⟩
      · have hin : sp.inheritedFromUniqueProcessId ∈ tracked g → sp.uniqueProcessId ∈ tracked g := by
          intro hparent
          by_contra hnew
          exact hclassifies (h.classifies_child_iff.mpr ⟨hpid, hnew, hparent⟩)
        rw [if_pos hpid, sweep_cons, Closed.visit_eq hin]
        refine ⟨rfl, fun hclosed r hr => ?_, fun hclosed r hr => hclosed r (List.mem_cons_of_mem _ hr)⟩
        rcases List.mem_cons.mp hr with rfl | hr
        · exact hin
        · exact hclosed r hr

variable (up cfg imageOf l) in
theorem InSnapshot.sweeps (h : InSnapshot g) :
    tracked (knFcTrackSnapshotPass up cfg imageOf l true g).1 = sweepChildren l (tracked g) ∧
      ((knFcTrackSnapshotPass up cfg imageOf l true g).2 = 0 ↔ ClosedUnder l (tracked g)) :=
  h.childPass

variable (up cfg imageOf l) in
theorem InSnapshot.pass (h : InSnapshot g) (childPass : Bool) :
    InSnapshot (knFcTrackSnapshotPass up cfg imageOf l childPass g).1 :=
  pass_invariant (fun _ hg _ _ hclassifies => (hg.classify hclassifies).1) h

/-- The loop sweeps until a pass counts no change, and so does as much as the passes it
is allowed. -/
theorem InSnapshot.childPasses {r : KnfcTrackCtx × Nat} (h : InSnapshot r.1) (iter : Nat) :
    tracked (childPasses up cfg imageOf l (iter + 1) r).1 =
        (sweepChildren l)^[iter + 1] (tracked r.1) ∧
      ((KnFileCatcher.childPasses up cfg imageOf l (iter + 1) r).2 = 0 ↔
        ClosedUnder l ((sweepChildren l)^[iter] (tracked r.1))) := by
  obtain ⟨hset, hchanges⟩ := h.sweeps up cfg imageOf l
  induction iter generalizing r with
  | zero =>
    rw [KnFileCatcher.childPasses]
    split
    · exact ⟨hset, hchanges⟩
    · exact ⟨hset, hchanges⟩
  | succ iter ih =>
    rw [KnFileCatcher.childPasses]
    split
    · next hzero =>
      have hclosed := hchanges.mp hzero
      rw [hclosed.iterate_eq, hclosed.iterate_eq, hset]
      exact ⟨hclosed.sweep_eq, hchanges⟩
    · obtain ⟨hset', hchanges'⟩ := (h.pass up cfg imageOf l true).sweeps up cfg imageOf l
      have hrest := ih (h.pass up cfg imageOf l true) hset' hchanges'
      rwa [hset, ← Function.iterate_succ_apply, ← Function.iterate_succ_apply] at hrest

variable (up cfg imageOf) in
/-- The listed processes that the first pass makes roots. -/
def rootPids (l : List KnfcSystemProcessInformation) : Set Handle :=
  {pid | Matches up cfg imageOf pid ∧ ∃ sp ∈ named l, sp.uniqueProcessId = pid}

theorem InSnapshot.classifies_root_iff (h : InSnapshot g) :
    Classifies up cfg imageOf false g sp ↔ sp.uniqueProcessId ≠ 0 ∧ sp.uniqueProcessId ∉ tracked g ∧
      Matches up cfg imageOf sp.uniqueProcessId := by
  rw [Classifies, h.isTracked_eq_false_iff, if_neg Bool.false_ne_true]
  rfl

theorem InSnapshot.rootPass (h : InSnapshot g) :
    tracked (l.foldl (snapshotRecord up cfg imageOf false) (g, n)).1 =
      tracked g ∪ rootPids up cfg imageOf l := by
  induction l generalizing g n with
  | nil => simp [rootPids, named]
  | cons sp l ih =>
    have hcons : rootPids up cfg imageOf (sp :: l) = rootPids up cfg imageOf l ∪
        {pid | Matches up cfg imageOf pid ∧ sp.uniqueProcessId ≠ 0 ∧ sp.uniqueProcessId = pid} := by
      ext pid
      simp only [rootPids, Set.mem_union, mem_named_iff, List.mem_cons]
      constructor
      · rintro ⟨hm, r, ⟨rfl | hr, hne⟩, hpid⟩
        · exact Or.inr ⟨hm, hne, hpid⟩
        · exact Or.inl ⟨hm, r, ⟨hr, hne⟩, hpid⟩
      · rintro (⟨hm, r, ⟨hr, hne⟩, hpid⟩ | ⟨hm, hne, hpid⟩)
        · exact ⟨hm, r, ⟨Or.inr hr, hne⟩, hpid⟩
        · exact ⟨hm, sp, ⟨Or.inl rfl, hne⟩, hpid⟩
    rw [List.foldl_cons, hcons, ← Set.union_assoc]
    by_cases hclassifies : Classifies up cfg imageOf false g sp
    · rw [snapshotRecord_added hclassifies]
      obtain ⟨hnext, htracked⟩ := h.classify hclassifies
      obtain ⟨hpid, -, hmatch⟩ := h.classifies_root_iff.mp hclassifies
      rw [ih hnext, htracked]
      ext pid
      simp only [Set.mem_union, Set.mem_insert_iff]
      constructor
      · rintro ((rfl | hin) | hroot)
        · exact Or.inr ⟨hmatch, hpid, rfl⟩
        · exact Or.inl (Or.inl hin)
        · exact Or.inl (Or.inr hroot)
      · rintro ((hin | hroot) | ⟨-, -, rfl⟩)
        · exact Or.inl (Or.inr hin)
        · exact Or.inr hroot
        · exact Or.inl (Or.inl rfl)
    · rw [snapshotRecord_skipped hclassifies, ih h]
      ext pid
      simp only [Set.mem_union]
      refine ⟨Or.inl, ?_⟩
      rintro (hin | ⟨hm, hne, rfl⟩)
      · exact hin
      · by_contra hnot
        exact hclassifies (h.classifies_root_iff.mpr ⟨hne, fun hin => hnot (Or.inl hin), hm⟩)

variable (up cfg imageOf l) in
/-- The snapshot of an empty table. -/
theorem snapshot_tracked :
    InSnapshot (knFcTrackSnapshot up cfg imageOf l startedTable).1 ∧
      tracked (knFcTrackSnapshot up cfg imageOf l startedTable).1 =
        (sweepChildren l)^[knfcChildPasses] (rootPids up cfg imageOf l) ∧
      ((knFcTrackSnapshot up cfg imageOf l startedTable).2 = 0 ↔
        ClosedUnder l ((sweepChildren l)^[knfcChildPasses - 1] (rootPids up cfg imageOf l))) := by
  have hroot : tracked (knFcTrackSnapshotPass up cfg imageOf l false startedTable).1 =
      rootPids up cfg imageOf l := by
    rw [knFcTrackSnapshotPass, inSnapshot_started.rootPass, tracked_started, Set.empty_union]
  have hpass := inSnapshot_started.pass up cfg imageOf l false
  have hloop := @InSnapshot.childPasses up cfg imageOf l _ hpass (knfcChildPasses - 1)
  rw [hroot] at hloop
  exact ⟨childPasses_invariant (fun _ hg _ _ hclassifies => (hg.classify hclassifies).1) hpass _,
    hloop⟩

end Tracked

end KnFileCatcher

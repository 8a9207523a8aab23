import KnFileCatcher.SnapshotLineage

/-! How many child passes a snapshot needs, and what its parent PIDs are worth. -/

namespace KnFileCatcher

open ChainedTable Sweeps

variable (up : Wchar → Wchar) (cfg : KnfcConfig) (imageOf : Handle → Option UnicodeString)

/-- A line of descent leads, along parent PIDs, to the process from one whose image
matches. -/
abbrev Descends (l : List KnfcSystemProcessInformation) : Handle → Prop :=
  Reaches KnfcSystemProcessInformation.uniqueProcessId
    KnfcSystemProcessInformation.inheritedFromUniqueProcessId (named l) (rootPids up cfg imageOf l)

/-- Such a line is met in order when the list is read `n` times. -/
abbrev DescendsWithin (l : List KnfcSystemProcessInformation) : Nat → Handle → Prop :=
  ReachesWithin KnfcSystemProcessInformation.uniqueProcessId
    KnfcSystemProcessInformation.inheritedFromUniqueProcessId (named l) (rootPids up cfg imageOf l)

section Rest

/-- What the system query lists. The idle process, which has PID 0, has no parent. -/
structure SnapshotBuffer where
  records : List KnfcSystemProcessInformation
  idle : ∀ sp ∈ records, sp.uniqueProcessId = 0 → sp.inheritedFromUniqueProcessId = 0

/-- The child passes end because one of them made no change, and no listed process lacks
only its own entry. -/
def ComesToRest (b : SnapshotBuffer) : Prop :=
  let r := knFcTrackSnapshot up cfg imageOf b.records startedTable
  r.2 = 0 ∧ ∀ sp ∈ b.records, ¬ Live r.1 sp.uniqueProcessId →
    ¬ Live r.1 sp.inheritedFromUniqueProcessId

variable {up cfg imageOf} {l : List KnfcSystemProcessInformation} {pid : Handle}

theorem live_snapshot_iff :
    Live (knFcTrackSnapshot up cfg imageOf l startedTable).1 pid ↔
      DescendsWithin up cfg imageOf l knfcChildPasses pid := by
  rw [← mem_tracked_iff, (snapshot_tracked up cfg imageOf l).2.1, mem_iterate_iff]

theorem snapshot_changes_iff :
    (knFcTrackSnapshot up cfg imageOf l startedTable).2 = 0 ↔
      ∀ pid, Descends up cfg imageOf l pid →
        DescendsWithin up cfg imageOf l (knfcChildPasses - 1) pid :=
  (snapshot_tracked up cfg imageOf l).2.2.trans closed_iterate_iff

variable (up cfg imageOf)

/-- The child passes come to rest just when every descendant is met in order in one
reading of the list fewer than there are passes. -/
theorem comesToRest_iff (b : SnapshotBuffer) :
    ComesToRest up cfg imageOf b ↔ ∀ pid, Descends up cfg imageOf b.records pid →
      DescendsWithin up cfg imageOf b.records (knfcChildPasses - 1) pid := by
  rw [← snapshot_changes_iff, ComesToRest]
  refine and_iff_left_of_imp fun hzero sp hsp hnew hparent => hnew ?_
  obtain ⟨hsnapshot, hset, hchanges⟩ := snapshot_tracked up cfg imageOf b.records
  by_cases hpid : sp.uniqueProcessId = 0
  · rw [b.idle sp hsp hpid] at hparent
    exact absurd hparent hsnapshot.idle
  · have hclosed := hchanges.mp hzero
    -- the last pass that is allowed finds nothing left to do
    have hlast := hset.trans (Function.iterate_succ_apply' _ (knfcChildPasses - 1) _)
    rw [← mem_tracked_iff, hlast.trans hclosed.sweep_eq] at hparent ⊢
    exact hclosed sp (mem_named_iff.mpr ⟨hsp, hpid⟩) hparent

/-- Process `i` of a lineage of processes 0, 1 and so on. -/
def link (i : Nat) : KnfcSystemProcessInformation :=
  ⟨i, BitVec.ofNat 64 (4 * (i + 1)), BitVec.ofNat 64 (4 * i)⟩

/-- The lineage, with each process before its parent. -/
def youngestFirst (n : Nat) : List KnfcSystemProcessInformation :=
  (List.range n).reverse.map link

def deepBuffer : SnapshotBuffer where
  records := youngestFirst 34
  idle := by decide +kernel

variable {up cfg imageOf}

/-- Where each process is listed before its parent, a reading of the list goes one
generation further. -/
theorem descendsWithin_le (hback : (named l).Pairwise fun p c =>
      c.inheritedFromUniqueProcessId ≠ p.uniqueProcessId)
    (hroots : ∀ pid ∈ rootPids up cfg imageOf l, pid.toNat ≤ 4)
    (hstep : ∀ sp ∈ named l, sp.uniqueProcessId.toNat ≤ sp.inheritedFromUniqueProcessId.toNat + 4)
    {n : Nat} (h : DescendsWithin up cfg imageOf l n pid) : pid.toNat ≤ 4 * (n + 1) := by
  replace h := mem_iterate_iff.mpr h
  induction n generalizing pid with
  | zero => exact hroots pid h
  | succ n ih =>
    rw [Function.iterate_succ_apply'] at h
    rcases mem_sweep_of_backward hback h with hin | ⟨sp, hsp, rfl, hparent⟩
    · have := ih hin
      omega
    · have hle := hstep sp hsp
      have := ih hparent
      omega

theorem rootPids_imageOfFour :
    ∀ pid ∈ rootPids id snapshotConfig imageOfFour l, pid.toNat ≤ 4 := by
  rintro pid ⟨hm, -⟩
  by_cases hpid : pid = 4
  · rw [hpid]
    decide
  · rw [Matches, imageOfFour, if_neg hpid] at hm
    cases hm

theorem descends_link {i : Nat} (hi : i < 34) :
    Descends id snapshotConfig imageOfFour deepBuffer.records (link i).uniqueProcessId := by
  induction i with
  | zero => exact ⟨[], List.nil_subset _, .base ⟨by decide, by decide +kernel⟩⟩
  | succ i ih =>
    have hlisted : link (i + 1) ∈ deepBuffer.records :=
      List.mem_map_of_mem (by simpa using hi)
    have hpid : (link (i + 1)).uniqueProcessId ≠ 0 := by
      intro hzero
      have hnat := congrArg BitVec.toNat hzero
      simp [link] at hnat
      omega
    exact (ih (by omega)).snoc (mem_named_iff.mpr ⟨hlisted, hpid⟩)

theorem deep_lineage_left_out :
    ¬ ∀ (up : Wchar → Wchar) (cfg : KnfcConfig) (imageOf : Handle → Option UnicodeString)
      (b : SnapshotBuffer), ComesToRest up cfg imageOf b := by
  intro hall
  have hzero := (hall id snapshotConfig imageOfFour deepBuffer).1
  have hwithin := snapshot_changes_iff.mp hzero _ (descends_link (show 33 < 34 by decide))
  have hle := descendsWithin_le (by decide +kernel) rootPids_imageOfFour (by decide +kernel) hwithin
  revert hle
  decide

end Rest

section Children

/-- Which process created which: none that is younger. -/
structure Creators where
  created : KnfcSystemProcessInformation → KnfcSystemProcessInformation → Prop
  earlier : ∀ p c, created p c → p.createTime ≤ c.createTime

variable (l : List KnfcSystemProcessInformation) (k : Creators)

def ListedCreator (c : KnfcSystemProcessInformation) : Prop :=
  ∃ p ∈ l, p.uniqueProcessId = c.inheritedFromUniqueProcessId ∧ k.created p c

/-- A listed process whose image does not match is a child only of its creator, and
without its creator listed it stays untracked. -/
def ChildrenOfCreators : Prop :=
  let g := (knFcTrackSnapshot up cfg imageOf l startedTable).1
  ∀ c ∈ l, ¬ Matches up cfg imageOf c.uniqueProcessId →
    ((∃ e ∈ entries g.buckets, e.pid = c.uniqueProcessId ∧ e.flags &&& knFcTrackChild ≠ 0) →
      ListedCreator l k c) ∧
    (¬ ListedCreator l k c → ¬ Live g c.uniqueProcessId)

variable {up cfg imageOf l} in
/-- A process whose image does not match is in the table as a child or not at all. -/
theorem tracked_as_child_iff {pid : Handle} (hm : ¬ Matches up cfg imageOf pid) :
    (∃ e ∈ entries (knFcTrackSnapshot up cfg imageOf l startedTable).1.buckets,
        e.pid = pid ∧ e.flags &&& knFcTrackChild ≠ 0) ↔
      Live (knFcTrackSnapshot up cfg imageOf l startedTable).1 pid := by
  have hsound := soundTable_snapshot up cfg imageOf l
  rw [hsound.live_iff]
  constructor
  · rintro ⟨e, he, hpid, -⟩
    exact ⟨e, he, hpid⟩
  · rintro ⟨e, he, rfl⟩
    obtain ⟨sp, -, hpid, -, hentry⟩ := hsound.entry e.pid e (hsound.mem_entries_iff.mp he)
    refine ⟨e, he, rfl, ?_⟩
    rw [hentry]
    exact (flags_snapshotEntry sp e.rootPid).2.mpr (hpid ▸ hm)

/-- Children are their creators' just when every listed process that descends, within the
passes there are, from one with a matching image has its parent PID from its creator. -/
theorem childrenOfCreators_iff :
    ChildrenOfCreators up cfg imageOf l k ↔
      ∀ c ∈ l, ¬ Matches up cfg imageOf c.uniqueProcessId →
        DescendsWithin up cfg imageOf l knfcChildPasses c.uniqueProcessId →
          ListedCreator l k c := by
  refine forall_congr' fun c => forall_congr' fun _ => forall_congr' fun hm => ?_
  rw [tracked_as_child_iff hm, live_snapshot_iff]
  exact ⟨And.left, fun h => ⟨h, fun hno hwithin => hno (h hwithin)⟩⟩

/-- Process 8 is older than the process that now has the PID of its parent. -/
def reusedParent : List KnfcSystemProcessInformation := [⟨5, 4, 16⟩, ⟨3, 8, 4⟩]

def byAge : Creators := ⟨fun p c => p.createTime ≤ c.createTime, fun _ _ => id⟩

theorem orphan_of_reused_pid_tracked :
    ¬ ∀ (up : Wchar → Wchar) (cfg : KnfcConfig) (imageOf : Handle → Option UnicodeString)
      (l : List KnfcSystemProcessInformation) (k : Creators),
      ChildrenOfCreators up cfg imageOf l k := by
  intro hall
  have horphan := (hall id snapshotConfig imageOfFour reusedParent byAge ⟨3, 8, 4⟩ (by decide)
    (by decide)).2
  have hlive :
      Live (knFcTrackSnapshot id snapshotConfig imageOfFour reusedParent startedTable).1 8 := by
    decide +kernel
  refine horphan ?_ hlive
  rintro ⟨p, hp, hpid, hcreated⟩
  have hage := byAge.earlier p _ hcreated
  rcases List.mem_pair.mp hp with rfl | rfl
  · exact absurd hage (by decide)
  · exact absurd hpid (by decide)

end Children

end KnFileCatcher

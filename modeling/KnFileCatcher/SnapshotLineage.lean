import KnFileCatcher.Snapshot

/-! What a snapshot of an empty table leaves in it: whose entries, of which kind and
with which root, and when its passes come to an end. -/

namespace KnFileCatcher

open ChainedTable Sweeps

variable {up : Wchar → Wchar} {cfg : KnfcConfig} {imageOf : Handle → Option UnicodeString}
  {l : List KnfcSystemProcessInformation}

section Nearest

variable (up cfg imageOf)

instance (pid : Handle) : Decidable (Matches up cfg imageOf pid) :=
  inferInstanceAs (Decidable (_ = _))

def Listed (l : List KnfcSystemProcessInformation) (pid : Handle) : Prop :=
  ∃ sp ∈ l, sp.uniqueProcessId = pid

/-- The parent PID of a listed process names a listed process. -/
def ParentListed (l : List KnfcSystemProcessInformation) (pid ppid : Handle) : Prop :=
  Listed l ppid ∧ ∃ sp ∈ l, sp.uniqueProcessId = pid ∧ sp.inheritedFromUniqueProcessId = ppid

/-- A listed process with an ancestor or itself, along parent PIDs within the list, whose
image matches a watch root. -/
def HasMatchingAncestor (l : List KnfcSystemProcessInformation) (pid : Handle) : Prop :=
  Listed l pid ∧ ∃ a, Relation.ReflTransGen (ParentListed l) pid a ∧ Matches up cfg imageOf a

/-- The first of a process, its parent, that one's parent and so on whose image matches. -/
inductive NearestRoot (l : List KnfcSystemProcessInformation) : Handle → Handle → Prop where
  | self {sp : KnfcSystemProcessInformation} (h : sp ∈ l)
      (hm : Matches up cfg imageOf sp.uniqueProcessId) :
      NearestRoot l sp.uniqueProcessId sp.uniqueProcessId
  | parent {sp : KnfcSystemProcessInformation} {root : Handle} (h : sp ∈ l)
      (hm : ¬ Matches up cfg imageOf sp.uniqueProcessId)
      (hp : NearestRoot l sp.inheritedFromUniqueProcessId root) :
      NearestRoot l sp.uniqueProcessId root

variable {up cfg imageOf} {pid root : Handle}

theorem NearestRoot.listed (h : NearestRoot up cfg imageOf l pid root) : Listed l pid := by
  cases h with
  | self h hm => exact ⟨_, h, rfl⟩
  | parent h hm hp => exact ⟨_, h, rfl⟩

theorem NearestRoot.of_subset {l' : List KnfcSystemProcessInformation} (hsub : l ⊆ l')
    (h : NearestRoot up cfg imageOf l pid root) : NearestRoot up cfg imageOf l' pid root := by
  induction h with
  | self h hm => exact .self (hsub h) hm
  | parent h hm _ ih => exact .parent (hsub h) hm ih

/-- With one record for each PID there is one nearest root. -/
theorem NearestRoot.unique
    (hdistinct : (l.map KnfcSystemProcessInformation.uniqueProcessId).Nodup)
    (h : NearestRoot up cfg imageOf l pid root) {root' : Handle}
    (h' : NearestRoot up cfg imageOf l pid root') : root = root' := by
  induction h with
  | @self sp hsp hm =>
    generalize hpid : sp.uniqueProcessId = pid at h'
    cases h' with
    | self => exact hpid.symm ▸ rfl
    | parent hsp' hm' => exact absurd (hpid ▸ hm) hm'
  | @parent sp root hsp hm hp ih =>
    generalize hpid : sp.uniqueProcessId = pid at h'
    cases h' with
    | self hsp' hm' => exact absurd (hpid ▸ hm') hm
    | parent hsp' hm' hp' =>
      obtain rfl := List.inj_on_of_nodup_map hdistinct hsp hsp' hpid
      exact ih hp'

theorem hasMatchingAncestor_iff :
    HasMatchingAncestor up cfg imageOf l pid ↔ ∃ root, NearestRoot up cfg imageOf l pid root := by
  constructor
  · rintro ⟨hlisted, a, hanc, hm⟩
    induction hanc using Relation.ReflTransGen.head_induction_on with
    | refl =>
      obtain ⟨sp, hsp, rfl⟩ := hlisted
      exact ⟨_, .self hsp hm⟩
    | head hstep _ ih =>
      obtain ⟨hparent, sp, hsp, rfl, rfl⟩ := hstep
      obtain ⟨root, hroot⟩ := ih hparent
      by_cases hown : Matches up cfg imageOf sp.uniqueProcessId
      · exact ⟨_, .self hsp hown⟩
      · exact ⟨root, .parent hsp hown hroot⟩
  · rintro ⟨root, h⟩
    refine ⟨h.listed, ?_⟩
    induction h with
    | self h hm => exact ⟨_, .refl, hm⟩
    | parent h hm hp ih =>
      obtain ⟨a, hanc, ha⟩ := ih
      exact ⟨a, .head ⟨hp.listed, _, h, rfl, rfl⟩ hanc, ha⟩

end Nearest

section Entries

variable {g : KnfcTrackCtx} {sp : KnfcSystemProcessInformation} {childPass : Bool}
  {pid root : Handle}

variable (up cfg imageOf) in
/-- The entry of a listed process under a root. -/
def snapshotEntry (sp : KnfcSystemProcessInformation) (root : Handle) : KnfcTrackEntry where
  pid := sp.uniqueProcessId
  parentPid := sp.inheritedFromUniqueProcessId
  rootPid := root
  flags :=
    (if Matches up cfg imageOf sp.uniqueProcessId then knFcTrackRoot else knFcTrackChild) |||
      knFcTrackFromSnap
  imagePath := (imageOf sp.uniqueProcessId).getD .empty

theorem snapshotEntry_root (root : Handle) (hm : Matches up cfg imageOf sp.uniqueProcessId) :
    snapshotEntry up cfg imageOf sp root = ⟨sp.uniqueProcessId, sp.inheritedFromUniqueProcessId,
      root, knFcTrackRoot ||| knFcTrackFromSnap, (imageOf sp.uniqueProcessId).getD .empty⟩ := by
  rw [snapshotEntry, if_pos hm]

theorem snapshotEntry_child (root : Handle) (hm : ¬ Matches up cfg imageOf sp.uniqueProcessId) :
    snapshotEntry up cfg imageOf sp root = ⟨sp.uniqueProcessId, sp.inheritedFromUniqueProcessId,
      root, knFcTrackChild ||| knFcTrackFromSnap, (imageOf sp.uniqueProcessId).getD .empty⟩ := by
  rw [snapshotEntry, if_neg hm]

theorem live_snapshotEntry (sp : KnfcSystemProcessInformation) (root : Handle) :
    trackLayout.live (snapshotEntry up cfg imageOf sp root) = true := by
  by_cases hm : Matches up cfg imageOf sp.uniqueProcessId
  · rw [snapshotEntry_root root hm]
    exact (live_of_origin _ _ _ .snapshot _).1
  · rw [snapshotEntry_child root hm]
    exact (live_of_origin _ _ _ .snapshot _).2

/-- The kind of an entry is told by the image. -/
theorem flags_snapshotEntry (sp : KnfcSystemProcessInformation) (root : Handle) :
    ((snapshotEntry up cfg imageOf sp root).flags &&& knFcTrackRoot ≠ 0 ↔
        Matches up cfg imageOf sp.uniqueProcessId) ∧
      ((snapshotEntry up cfg imageOf sp root).flags &&& knFcTrackChild ≠ 0 ↔
        ¬ Matches up cfg imageOf sp.uniqueProcessId) := by
  by_cases hm : Matches up cfg imageOf sp.uniqueProcessId
  · rw [snapshotEntry_root root hm]
    dsimp only
    exact ⟨iff_of_true (by decide) hm, iff_of_false (by decide) (not_not.mpr hm)⟩
  · rw [snapshotEntry_child root hm]
    dsimp only
    exact ⟨iff_of_false (by decide) hm, iff_of_true (by decide) hm⟩

/-- A classification adds the entry under its own PID or under the parent's root. -/
theorem find_classifyRecord (h : InSnapshot g)
    (hclassifies : Classifies up cfg imageOf childPass g sp) :
    ∃ root, (∀ k, knFcTrackFindLocked (classifyRecord up cfg imageOf g sp) k =
        if k = sp.uniqueProcessId then some (snapshotEntry up cfg imageOf sp root)
        else knFcTrackFindLocked g k) ∧
      (Matches up cfg imageOf sp.uniqueProcessId ∧ root = sp.uniqueProcessId ∨
        ¬ Matches up cfg imageOf sp.uniqueProcessId ∧
          ∃ p, knFcTrackFindLocked g sp.inheritedFromUniqueProcessId = some p ∧
            root = p.rootPid) := by
  obtain ⟨hnew, htest, -⟩ := hclassifies.inserts h
  have hfree := not_live_iff.mp hnew
  by_cases hm : Matches up cfg imageOf sp.uniqueProcessId
  · refine ⟨sp.uniqueProcessId, fun k => ?_, Or.inl ⟨hm, rfl⟩⟩
    have hroot : imageMatches up cfg (imageOf sp.uniqueProcessId) = true := hm
    have hentry := snapshotEntry_root sp.uniqueProcessId hm
    rw [classifyRecord, knFcClassifyAndInsert, hroot, classify_root hfree, ← hentry,
      findLocked_insertHead (live_snapshotEntry _ _)]
    rfl
  · have hchild : imageMatches up cfg (imageOf sp.uniqueProcessId) = false :=
      Bool.eq_false_iff.mpr hm
    rw [hchild] at htest
    obtain ⟨p, hp⟩ := Option.isSome_iff_exists.mp (htest.resolve_left Bool.false_ne_true)
    refine ⟨p.rootPid, fun k => ?_, Or.inr ⟨hm, p, hp, rfl⟩⟩
    have hentry := snapshotEntry_child p.rootPid hm
    rw [classifyRecord, knFcClassifyAndInsert, hchild, classify_child hfree hp, ← hentry,
      findLocked_insertHead (live_snapshotEntry _ _)]
    rfl

variable (up cfg imageOf l) in
/-- Every entry is that of a listed process under its nearest root. -/
structure SoundTable (g : KnfcTrackCtx) : Prop where
  inSnapshot : InSnapshot g
  entry : ∀ pid e, knFcTrackFindLocked g pid = some e → ∃ sp ∈ l, sp.uniqueProcessId = pid ∧
    NearestRoot up cfg imageOf l pid e.rootPid ∧ e = snapshotEntry up cfg imageOf sp e.rootPid

theorem SoundTable.classify (h : SoundTable up cfg imageOf l g) (hsp : sp ∈ l)
    (hclassifies : Classifies up cfg imageOf childPass g sp) :
    SoundTable up cfg imageOf l (classifyRecord up cfg imageOf g sp) := by
  obtain ⟨root, hfind, hroot⟩ := find_classifyRecord h.inSnapshot hclassifies
  refine ⟨(h.inSnapshot.classify hclassifies).1, fun pid e he => ?_⟩
  rw [hfind] at he
  split at he
  · next hpid =>
    obtain rfl := Option.some.inj he
    refine ⟨sp, hsp, hpid.symm, ?_, rfl⟩
    rw [hpid]
    rcases hroot with ⟨hm, rfl⟩ | ⟨hm, p, hp, rfl⟩
    · exact .self hsp hm
    · obtain ⟨_, -, -, hnearest, -⟩ := h.entry _ p hp
      exact .parent hsp hm hnearest
  · exact h.entry pid e he

variable (up cfg imageOf l) in
theorem soundTable_snapshot :
    SoundTable up cfg imageOf l (knFcTrackSnapshot up cfg imageOf l startedTable).1 := by
  have hstep {childPass : Bool} : ∀ g, SoundTable up cfg imageOf l g → ∀ sp ∈ l,
      Classifies up cfg imageOf childPass g sp →
      SoundTable up cfg imageOf l (classifyRecord up cfg imageOf g sp) :=
    fun _ hg _ hsp hclassifies => hg.classify hsp hclassifies
  have hstart : SoundTable up cfg imageOf l startedTable :=
    ⟨inSnapshot_started, fun pid e he => by
      simp [knFcTrackFindLocked, startedTable, knFcTrackInitialize] at he⟩
  exact childPasses_invariant hstep (pass_invariant hstep hstart) _

theorem SoundTable.mem_entries_iff (h : SoundTable up cfg imageOf l g) {e : KnfcTrackEntry} :
    e ∈ entries g.buckets ↔ knFcTrackFindLocked g e.pid = some e := by
  rw [Layout.mem_entries, findLocked_eq, h.inSnapshot.wf.find_eq_some_iff]
  exact (and_iff_right rfl).symm

theorem SoundTable.live_iff (h : SoundTable up cfg imageOf l g) :
    Live g pid ↔ ∃ e ∈ entries g.buckets, e.pid = pid := by
  constructor
  · intro hlive
    obtain ⟨e, he⟩ := Option.isSome_iff_exists.mp hlive
    obtain ⟨sp, -, rfl, -, hentry⟩ := h.entry pid e he
    have hpid : e.pid = sp.uniqueProcessId := by rw [hentry]; rfl
    exact ⟨e, h.mem_entries_iff.mpr (hpid ▸ he), hpid⟩
  · rintro ⟨e, he, rfl⟩
    rw [Live, h.mem_entries_iff.mp he]
    rfl

end Entries

section Stable

variable {pid root : Handle}

theorem NearestRoot.reaches (hnamed : ∀ sp ∈ l, sp.uniqueProcessId ≠ 0)
    (h : NearestRoot up cfg imageOf l pid root) :
    Reaches KnfcSystemProcessInformation.uniqueProcessId
      KnfcSystemProcessInformation.inheritedFromUniqueProcessId (named l)
      (rootPids up cfg imageOf l) pid := by
  induction h with
  | @self sp h hm =>
    exact ⟨[], List.nil_subset _, .base ⟨hm, sp, mem_named_iff.mpr ⟨h, hnamed sp h⟩, rfl⟩⟩
  | @parent sp root h hm _ ih =>
    exact ih.snoc (mem_named_iff.mpr ⟨h, hnamed sp h⟩)

/-- A snapshot that comes to rest has an entry for everything with a nearest root. -/
theorem live_snapshot_of_stable (hnamed : ∀ sp ∈ l, sp.uniqueProcessId ≠ 0)
    (hstable : (knFcTrackSnapshot up cfg imageOf l startedTable).2 = 0)
    (h : NearestRoot up cfg imageOf l pid root) :
    Live (knFcTrackSnapshot up cfg imageOf l startedTable).1 pid := by
  obtain ⟨-, hset, hchanges⟩ := snapshot_tracked up cfg imageOf l
  have hclosed := hchanges.mp hstable
  obtain ⟨c, hc, hpath⟩ := h.reaches hnamed
  rw [← mem_tracked_iff, hset]
  have hin := hclosed.mem_of_path (subset_iterate _) hc hpath
  rw [show knfcChildPasses = knfcChildPasses - 1 + 1 from rfl, Function.iterate_succ_apply']
  exact subset_sweep _ _ hin

/-- The entries that a snapshot leaves when it comes to rest. -/
theorem mem_entries_snapshot_iff
    (hdistinct : (l.map KnfcSystemProcessInformation.uniqueProcessId).Nodup)
    (hnamed : ∀ sp ∈ l, sp.uniqueProcessId ≠ 0)
    (hstable : (knFcTrackSnapshot up cfg imageOf l startedTable).2 = 0) {e : KnfcTrackEntry} :
    e ∈ entries (knFcTrackSnapshot up cfg imageOf l startedTable).1.buckets ↔
      ∃ sp ∈ l, NearestRoot up cfg imageOf l sp.uniqueProcessId e.rootPid ∧
        e = snapshotEntry up cfg imageOf sp e.rootPid := by
  have hsound := soundTable_snapshot up cfg imageOf l
  rw [hsound.mem_entries_iff]
  constructor
  · intro he
    obtain ⟨sp, hsp, hpid, hnearest, hentry⟩ := hsound.entry _ e he
    exact ⟨sp, hsp, hpid ▸ hnearest, hentry⟩
  · rintro ⟨sp, hsp, hnearest, hentry⟩
    have hlive := live_snapshot_of_stable hnamed hstable hnearest
    obtain ⟨e', he'⟩ := Option.isSome_iff_exists.mp hlive
    obtain ⟨sp', hsp', hpid, hnearest', hentry'⟩ := hsound.entry _ e' he'
    obtain rfl := List.inj_on_of_nodup_map hdistinct hsp' hsp hpid
    have hroot := hnearest'.unique hdistinct hnearest
    have hsame : e' = e := by rw [hentry', hentry, hroot]
    have hpid' : e.pid = sp'.uniqueProcessId := by rw [hentry]; rfl
    rw [hpid', he', hsame]

/-- A snapshot whose child passes come to rest holds the listed processes with a matching
ancestor or image, each once, as roots and under their nearest root as the images
tell, in whatever order they are listed. -/
theorem snapshot_lineage (up : Wchar → Wchar) (cfg : KnfcConfig)
    (imageOf : Handle → Option UnicodeString) (l : List KnfcSystemProcessInformation)
    (hdistinct : (l.map KnfcSystemProcessInformation.uniqueProcessId).Nodup)
    (hnamed : ∀ sp ∈ l, sp.uniqueProcessId ≠ 0)
    (hstable : (knFcTrackSnapshot up cfg imageOf l startedTable).2 = 0) :
    let g := (knFcTrackSnapshot up cfg imageOf l startedTable).1
    ((entries g.buckets).map KnfcTrackEntry.pid).Nodup ∧
      (∀ pid, (∃ e ∈ entries g.buckets, e.pid = pid) ↔
        HasMatchingAncestor up cfg imageOf l pid) ∧
      (∀ e ∈ entries g.buckets, (e.flags &&& knFcTrackRoot ≠ 0 ↔ Matches up cfg imageOf e.pid) ∧
        ∀ root, NearestRoot up cfg imageOf l e.pid root ↔ root = e.rootPid) ∧
      ∀ l', l'.Perm l → (knFcTrackSnapshot up cfg imageOf l' startedTable).2 = 0 →
        ∀ e, e ∈ entries (knFcTrackSnapshot up cfg imageOf l' startedTable).1.buckets ↔
          e ∈ entries g.buckets := by
  intro g
  have hsound : SoundTable up cfg imageOf l g := soundTable_snapshot up cfg imageOf l
  refine ⟨hsound.inSnapshot.wf.nodup_keys, fun pid => ?_, fun e he => ?_,
    fun l' hperm hstable' e => ?_⟩
  · rw [hasMatchingAncestor_iff, ← hsound.live_iff]
    constructor
    · intro hlive
      obtain ⟨e, he⟩ := Option.isSome_iff_exists.mp hlive
      obtain ⟨_, -, -, hnearest, -⟩ := hsound.entry pid e he
      exact ⟨e.rootPid, hnearest⟩
    · rintro ⟨root, hnearest⟩
      exact live_snapshot_of_stable hnamed hstable hnearest
  · obtain ⟨sp, -, hpid, hnearest, hentry⟩ :=
      hsound.entry e.pid e (hsound.mem_entries_iff.mp he)
    constructor
    · rw [← hpid, hentry]
      exact (flags_snapshotEntry sp e.rootPid).1
    · intro root
      refine ⟨fun h => h.unique hdistinct hnearest, ?_⟩
      rintro rfl
      exact hnearest
  · have hdistinct' : (l'.map KnfcSystemProcessInformation.uniqueProcessId).Nodup :=
      (hperm.map _).nodup_iff.mpr hdistinct
    rw [mem_entries_snapshot_iff hdistinct' (fun sp hsp => hnamed sp (hperm.subset hsp)) hstable',
      mem_entries_snapshot_iff hdistinct hnamed hstable]
    refine exists_congr fun sp => and_congr hperm.mem_iff (and_congr_left' ?_)
    exact ⟨.of_subset hperm.subset, .of_subset hperm.symm.subset⟩

def snapshotConfig : KnfcConfig := (knFcConfigAddRoot true knFcConfigInitialize (.inRoot 'a')).2

/-- Only the image of process 4 is under the watch root. -/
def imageOfFour (pid : Handle) : Option UnicodeString :=
  if pid = 4 then some (.inRoot 'a') else none

/-- Process 8 is listed before its parent. -/
def childFirst : List KnfcSystemProcessInformation := [⟨1, 8, 4⟩, ⟨0, 4, 16⟩]

theorem snapshot_lineage_childFirst :
    ∃ e ∈ entries (knFcTrackSnapshot id snapshotConfig imageOfFour childFirst startedTable).1.buckets,
      e.pid = 8 := by
  have hlisted : Listed childFirst 8 ∧ Listed childFirst 4 := by simp [Listed, childFirst]
  have hparent : ParentListed childFirst 8 4 := ⟨hlisted.2, by simp [childFirst]⟩
  have hancestor : HasMatchingAncestor id snapshotConfig imageOfFour childFirst 8 :=
    ⟨hlisted.1, 4, .single hparent, by decide⟩
  exact ((snapshot_lineage id snapshotConfig imageOfFour childFirst (by decide) (by decide)
    (by decide +kernel)).2.1 8).mpr hancestor

end Stable

end KnFileCatcher

import KnFileCatcher.Runs
import KnFileCatcher.TrackSystem

/-! Which processes the snapshot and the create notifications have put in the
table when `knFcTrackStart` returns. -/

namespace KnFileCatcher

open Runs TrackSystem

def StartPc.Queried : StartPc → Prop
  | .pass _ _ _ _ => True
  | .returned status => status = statusSuccess
  | _ => False

instance (pc : StartPc) : Decidable pc.Queried := by
  cases pc <;> simp only [StartPc.Queried] <;> infer_instance

section Complete

variable (up : Wchar → Wchar) (cfg : KnfcConfig)

/-- The watch roots stay, memory suffices, the query succeeds and no process exits. -/
def Undisturbed (s : TrackSystem) : TrackAction → Prop
  | .spawn _ _ _ => True
  | .createNotify _ env => env.config = cfg ∧ env.alloc = .ok
  | .exitNotify _ => s.start = .idle
  | .start env => env.config = cfg ∧ env.alloc = .ok ∧ env.imageAlloc = true ∧
      env.listing.isSome = true

instance (s : TrackSystem) (a : TrackAction) : Decidable (Undisturbed cfg s a) := by
  cases a <;> simp only [Undisturbed] <;> infer_instance

/-- A step after which a process with a lineage stays untracked: it was created
after the query and is announced before its parent is in the table, or the child
passes reach their limit while a listed process lacks only its own entry. -/
def LeavesOut (s : TrackSystem) : TrackAction → Prop
  | .createNotify u _ =>
    s.start.Queried ∧ (∀ r ∈ s.buffer, r.process ≠ u) ∧
      s.world.HasLineage (imageMatches up cfg) u ∧
      imageMatches up cfg (s.world.info u).imagePath = false ∧
      ¬ Live s.table (s.world.info u).parentPid
  | .start _ =>
    match s.start with
    | .pass (.child iter) [] changes _ =>
      changes ≠ 0 ∧ ¬ iter + 1 < knfcChildPasses ∧
        ∃ r ∈ s.buffer, s.world.HasLineage (imageMatches up cfg) r.process ∧
          ¬ Live s.table r.uniqueProcessId ∧ Live s.table r.inheritedFromUniqueProcessId
    | _ => False
  | _ => False

instance (s : TrackSystem) (a : TrackAction) : Decidable (LeavesOut up cfg s a) := by
  cases a with
  | start env =>
    simp only [LeavesOut]
    split <;> infer_instance
  | _ =>
    simp only [LeavesOut]
    infer_instance

/-- Every process that runs and has a lineage is in the table. -/
def Complete (s : TrackSystem) : Prop :=
  ∀ u, s.world.phase u = .running → s.world.HasLineage (imageMatches up cfg) u →
    Live s.table (s.world.info u).pid

/-- What the query makes true, and every later step keeps. -/
structure Snapshotted (s : TrackSystem) : Prop where
  active : s.table.active = true
  present : ∀ r ∈ s.buffer, s.world.Present r.process
  closed : ∀ r ∈ s.buffer, ∀ k ∈ (s.world.info r.process).parent, s.world.Present k →
    (∃ r' ∈ s.buffer, r'.process = k) ∧ s.world.phase k = .running
  late : ∀ u, s.world.phase u = .running → (∀ r ∈ s.buffer, r.process ≠ u) →
    s.world.HasLineage (imageMatches up cfg) u → Live s.table (s.world.info u).pid

/-- A listed process is tracked, or its parent, if still there, is not. -/
def Settled (s : TrackSystem) (r : SnapRecord) : Prop :=
  Live s.table r.uniqueProcessId ∨
    ∀ k ∈ (s.world.info r.process).parent, s.world.Present k →
      ¬ Live s.table r.inheritedFromUniqueProcessId

def RootsDone (s : TrackSystem) (rest : List SnapRecord) : Prop :=
  ∀ r ∈ s.buffer, r ∉ rest →
    imageMatches up cfg (s.world.info r.process).imagePath = true → Live s.table r.uniqueProcessId

def ChildrenDone (s : TrackSystem) (rest : List SnapRecord) : Prop :=
  ∀ r ∈ s.buffer, r ∉ rest → Settled s r

def RecordKnown (s : TrackSystem) (kind : PassKind) (r : SnapRecord) : RecordPc → Prop
  | .rootTest imagePath => kind = .root ∧ imagePath = (s.world.info r.process).imagePath
  | .classify imagePath => kind = .root → imageMatches up cfg imagePath = true
  | .image parentTracked => kind ≠ .root → parentTracked = false → Settled s r
  | _ => True

/-- How far the passes have come. A child pass has settled the records behind it
as long as it has made no change. -/
def Progress (s : TrackSystem) : Prop :=
  match s.start with
  | .pass .root rest _ pc =>
    RootsDone up cfg s rest ∧ ∀ r ∈ rest.head?, RecordKnown up cfg s .root r pc
  | .pass (.child iter) rest changes pc =>
    RootsDone up cfg s [] ∧ (changes = 0 →
      ChildrenDone s rest ∧ ∀ r ∈ rest.head?, RecordKnown up cfg s (.child iter) r pc)
  | .returned _ => ∀ r ∈ s.buffer, s.world.HasLineage (imageMatches up cfg) r.process →
      Live s.table r.uniqueProcessId
  | _ => True

structure Covered (s : TrackSystem) : Prop where
  wf : s.Wf
  idle : s.start = .idle → s.table.active = false
  snapshotted : s.start.Queried → Snapshotted up cfg s
  progress : s.start.Queried → Progress up cfg s

/-- A step of someone else keeps what the passes rely on. -/
structure Grows (s t : TrackSystem) : Prop where
  start : t.start = s.start
  buffer : t.buffer = s.buffer
  info : ∀ r ∈ s.buffer, t.world.info r.process = s.world.info r.process
  live : ∀ pid, Live s.table pid → Live t.table pid
  lineage : ∀ r ∈ s.buffer, t.world.HasLineage (imageMatches up cfg) r.process →
    s.world.HasLineage (imageMatches up cfg) r.process
  settled : ∀ r ∈ s.buffer, Settled s r → Settled t r

variable {up cfg}

theorem Grows.rootsDone {s t : TrackSystem} (h : Grows up cfg s t)
    {rest : List SnapRecord} (hd : RootsDone up cfg s rest) : RootsDone up cfg t rest := by
  intro r hr hrest him
  rw [h.buffer] at hr
  rw [h.info r hr] at him
  exact h.live _ (hd r hr hrest him)

theorem Grows.recordKnown {s t : TrackSystem} (h : Grows up cfg s t)
    {kind : PassKind} {r : SnapRecord} (hr : r ∈ s.buffer) {pc : RecordPc}
    (hk : RecordKnown up cfg s kind r pc) : RecordKnown up cfg t kind r pc := by
  cases pc with
  | rootTest imagePath => exact ⟨hk.1, hk.2.trans (congrArg _ (h.info r hr).symm)⟩
  | image parentTracked => exact fun hkind hp => h.settled r hr (hk hkind hp)
  | _ => exact hk

theorem Grows.progress {s t : TrackSystem} (h : Grows up cfg s t) (hw : s.Wf)
    (hp : Progress up cfg s) : Progress up cfg t := by
  unfold Progress at hp ⊢
  rw [h.start]
  split
  · next rest changes pc hst =>
    simp only [hst] at hp
    refine ⟨h.rootsDone hp.1, fun r hr => ?_⟩
    have hmem : r ∈ s.buffer := (hw.rest _ _ _ _ hst).mem (List.mem_of_mem_head? hr)
    exact h.recordKnown hmem (hp.2 r hr)
  · next iter rest changes pc hst =>
    simp only [hst] at hp
    refine ⟨h.rootsDone hp.1, fun hch => ?_⟩
    obtain ⟨hdone, hrec⟩ := hp.2 hch
    refine ⟨fun r hr hrest => ?_, fun r hr => ?_⟩
    · rw [h.buffer] at hr
      exact h.settled r hr (hdone r hr hrest)
    · have hmem : r ∈ s.buffer := (hw.rest _ _ _ _ hst).mem (List.mem_of_mem_head? hr)
      exact h.recordKnown hmem (hrec r hr)
  · next status hst =>
    simp only [hst] at hp
    intro r hr hl
    rw [h.buffer] at hr
    exact h.live _ (hp r hr (h.lineage r hr hl))
  · trivial

theorem Covered.spawn {s : TrackSystem} (h : Covered up cfg s) {parent : Option Nat}
    {pid : Handle} {imagePath : Option UnicodeString} (hs : s.world.CanSpawn parent pid) :
    Covered up cfg { s with world := s.world.spawn parent pid imagePath hs } := by
  have hbuf (r : SnapRecord) (hr : r ∈ s.buffer) : r.process < s.world.count :=
    (h.wf.records r hr).1
  have hparent (r : SnapRecord) (hr : r ∈ s.buffer) (k : Nat)
      (hk : k ∈ (s.world.info r.process).parent) : k < s.world.count :=
    (s.world.parents _ (hbuf r hr) k hk).1.trans (hbuf r hr)
  have hgrow : Grows up cfg s
      { s with world := s.world.spawn parent pid imagePath hs } := by
    refine ⟨rfl, rfl, fun r hr => World.spawn_info hs (hbuf r hr), fun _ hl => hl,
      fun r hr hl => hl.of_spawn hs (hbuf r hr), fun r hr hset => ?_⟩
    refine hset.imp id fun hno k hk hpk => ?_
    rw [World.spawn_info hs (hbuf r hr)] at hk
    exact hno k hk ((World.present_spawn hs (hparent r hr k hk)).mp hpk)
  refine ⟨h.wf.withWorld (Nat.le_succ _) fun u hu => World.spawn_info hs hu, h.idle, fun hq => ?_,
    fun hq => hgrow.progress h.wf (h.progress hq)⟩
  have hsn := h.snapshotted hq
  refine ⟨hsn.active, fun r hr => (World.present_spawn hs (hbuf r hr)).mpr (hsn.present r hr),
    fun r hr k hk hpk => ?_, fun u hrun hno hl => ?_⟩
  · rw [World.spawn_info hs (hbuf r hr)] at hk
    have hlt := hparent r hr k hk
    obtain ⟨hin, hrun⟩ := hsn.closed r hr k hk ((World.present_spawn hs hlt).mp hpk)
    exact ⟨hin, (World.spawn_phase hs hlt).trans hrun⟩
  · have hlt : u < s.world.count := by
      rcases Nat.lt_succ_iff_lt_or_eq.mp hl.present.1 with hlt | rfl
      · exact hlt
      · simp [World.spawn_phase_new] at hrun
    rw [World.spawn_phase hs hlt] at hrun
    rw [World.spawn_info hs hlt]
    exact hsn.late u hrun hno (hl.of_spawn hs hlt)

theorem live_classify (up : Wchar → Wchar) (env : ClassifyEnv) {s : TrackSystem} (hw : s.Wf)
    (hcfg : env.config = cfg) (halloc : env.alloc = .ok) (u : Nat) (pid parentPid : Handle)
    (imagePath : Option UnicodeString) (o : Origin) (pid' : Handle) :
    Live (s.classify up env u pid parentPid imagePath o.extraFlags).table pid' ↔
      Live s.table pid' ∨ pid' = pid ∧
        (imageMatches up cfg imagePath = true ∨ Live s.table parentPid) := by
  rw [(classify_table hw.table up env u pid parentPid imagePath o).live, hcfg, halloc]
  by_cases hl : Live s.table pid'
  · simp [hl]
  · simp only [hl, false_or]
    refine and_congr_right ?_
    rintro rfl
    simp [Inserts, hl, InsertAlloc.suffices_ok]

theorem live_notifyCreate (up : Wchar → Wchar) {s : TrackSystem} (hw : s.Wf) {env : ClassifyEnv}
    (hcfg : env.config = cfg) (halloc : env.alloc = .ok) (hactive : s.table.active = true)
    (u : Nat) (pid' : Handle) :
    Live (s.notifyCreate up env u).table pid' ↔
      Live s.table pid' ∨ pid' = (s.world.info u).pid ∧
        (imageMatches up cfg (s.world.info u).imagePath = true ∨
          Live s.table (s.world.info u).parentPid) := by
  rw [TrackSystem.notifyCreate, if_pos hactive]
  exact live_classify up env hw hcfg halloc u _ _ _ .notification pid'

theorem active_notifyCreate {s : TrackSystem} (hw : s.Wf) (env : ClassifyEnv) (u : Nat) :
    (s.notifyCreate up env u).table.active = s.table.active := by
  unfold TrackSystem.notifyCreate
  split
  · exact (classify_table hw.table up env u _ _ _ .notification).active
  · rfl

/-- A record names its parent by the PID that the parent has. -/
theorem TrackSystem.Wf.parent_pid {s : TrackSystem} (hw : s.Wf) {r : SnapRecord}
    (hr : r ∈ s.buffer) {k : Nat} (hk : (s.world.info r.process).parent = some k) :
    (s.world.info k).pid = r.inheritedFromUniqueProcessId := by
  obtain ⟨hlt, hrec⟩ := hw.records r hr
  exact (s.world.parents _ hlt k hk).2.2.trans (congrArg (·.3) hrec).symm

theorem Settled.createNotify {s : TrackSystem} (hw : s.Wf) (hsn : Snapshotted up cfg s)
    {env : ClassifyEnv} (hcfg : env.config = cfg) (halloc : env.alloc = .ok) {u : Nat}
    (hlt : u < s.world.count) (hu : s.world.phase u = .creating) {r : SnapRecord}
    (hr : r ∈ s.buffer) (hset : Settled s r) :
    Settled { s.notifyCreate up env u with world := s.world.created u hu } r := by
  have hlive := live_notifyCreate up hw hcfg halloc hsn.active u
  refine hset.imp (fun hl => (hlive _).mpr (Or.inl hl)) fun hno k hk hpk hl => ?_
  have hpk' : s.world.Present k := (World.present_created hu).mp hpk
  rcases (hlive _).mp hl with hl | ⟨hpid, -⟩
  · exact hno k hk hpk' hl
  -- the new entry is not the parent's: the parent of a listed process is running
  · have hparent := hw.parent_pid hr hk
    have hku : k = u := World.pid_inj hpk' ⟨hlt, by simp [hu]⟩ (hparent.trans hpid)
    have hrun := (hsn.closed r hr k hk hpk').2
    rw [hku, hu] at hrun
    cases hrun

theorem Covered.createNotify {s : TrackSystem} (h : Covered up cfg s) {env : ClassifyEnv}
    (hcfg : env.config = cfg) (halloc : env.alloc = .ok) {u : Nat} (hlt : u < s.world.count)
    (hu : s.world.phase u = .creating) (hok : ¬ LeavesOut up cfg s (.createNotify u env)) :
    Covered up cfg { s.notifyCreate up env u with world := s.world.created u hu } := by
  obtain ⟨-, hbuffer, hstart⟩ := notifyCreate_frame up s env u
  have hwf : ({ s.notifyCreate up env u with world := s.world.created u hu } : TrackSystem).Wf :=
    (h.wf.notifyCreate up env hlt).withWorld (by simp [World.created])
      fun v _ => by simp [World.created]
  refine ⟨hwf, fun hi => ?_, fun hq => ?_, fun hq => ?_⟩
  · exact (active_notifyCreate h.wf env u).trans (h.idle (hstart ▸ hi))
  · simp only [hstart] at hq
    have hsn := h.snapshotted hq
    have hlive := live_notifyCreate up h.wf hcfg halloc hsn.active u
    refine ⟨(active_notifyCreate h.wf env u).trans hsn.active, ?_, ?_, ?_⟩
    · intro r hr
      exact (World.present_created hu).mpr (hsn.present r (hbuffer ▸ hr))
    · intro r hr k hk hpk
      simp only [hbuffer] at hr ⊢
      obtain ⟨hin, hrun⟩ := hsn.closed r hr k hk ((World.present_created hu).mp hpk)
      refine ⟨hin, ?_⟩
      by_cases hku : k = u
      · simp [World.created, hku]
      · simpa [World.created, hku] using hrun
    · intro v hrun hno hl
      simp only [hbuffer] at hno
      have hl' := hl.of_created hu
      by_cases hvu : v = u
      · subst hvu
        refine (hlive _).mpr ?_
        by_contra hmiss
        simp only [true_and, not_or, Bool.not_eq_true, World.created] at hmiss
        exact hok ⟨hq, hno, hl', hmiss.2.1, hmiss.2.2⟩
      · have hrun' : s.world.phase v = .running := by simpa [World.created, hvu] using hrun
        exact (hlive _).mpr (Or.inl (hsn.late v hrun' hno hl'))
  · simp only [hstart] at hq
    have hsn := h.snapshotted hq
    have hlive := live_notifyCreate up h.wf hcfg halloc hsn.active u
    have hgrow : Grows up cfg s
        { s.notifyCreate up env u with world := s.world.created u hu } :=
      ⟨hstart, hbuffer, fun _ _ => rfl, fun pid hl => (hlive pid).mpr (Or.inl hl),
        fun _ _ hl => hl.of_created hu,
        fun r hr => Settled.createNotify h.wf hsn hcfg halloc hlt hu hr⟩
    exact hgrow.progress h.wf (h.progress hq)

theorem Snapshotted.withStart {s : TrackSystem} (h : Snapshotted up cfg s) (pc : StartPc) :
    Snapshotted up cfg { s with start := pc } :=
  ⟨h.active, h.present, h.closed, h.late⟩

theorem Covered.query {s : TrackSystem} (h : Covered up cfg s) (hst : s.start = .query)
    {order : List Nat} (hl : Lists s.world order)
    (hw : ({ s with
      buffer := order.map (record s.world)
      start := .pass .root (order.map (record s.world)) 0 .test } : TrackSystem).Wf) :
    Covered up cfg { s with
      buffer := order.map (record s.world)
      start := .pass .root (order.map (record s.world)) 0 .test } := by
  have hactive : s.table.active = true := h.wf.active (by rw [hst]; trivial)
  have hlisted {u : Nat} (hu : s.world.Present u) :
      ∃ r ∈ order.map (record s.world), r.process = u :=
    ⟨record s.world u, List.mem_map_of_mem (hl.2.2 u hu.1 hu), rfl⟩
  refine ⟨hw, fun hi => (by cases hi), fun _ => ⟨hactive, fun r hr => ?_,
    fun r hr k hk hpk => ⟨hlisted hpk, ?_⟩, fun u _ hno hlin => ?_⟩, fun _ => ⟨fun r hr hno => absurd hr hno, fun _ _ => trivial⟩⟩
  · obtain ⟨u, hu, rfl⟩ := List.mem_map.mp hr
    exact hl.2.1 u hu
  · have hcre := (s.world.parents _ (hw.records r hr).1 k hk).2.1
    cases hph : s.world.phase k with
    | creating => exact absurd hph hcre
    | running => rfl
    | exited => exact absurd hph hpk.2
  · obtain ⟨r, hr, hru⟩ := hlisted hlin.present
    exact absurd hru (hno r hr)

theorem RootsDone.advance {s : TrackSystem} {r : SnapRecord} {rest : List SnapRecord}
    (h : RootsDone up cfg s (r :: rest))
    (hr : imageMatches up cfg (s.world.info r.process).imagePath = true →
      Live s.table r.uniqueProcessId) : RootsDone up cfg s rest := by
  intro r' hr' hrest him
  by_cases he : r' = r
  · subst he
    exact hr him
  · exact h r' hr' (by simp [he, hrest]) him

theorem ChildrenDone.advance {s : TrackSystem} {r : SnapRecord} {rest : List SnapRecord}
    (h : ChildrenDone s (r :: rest)) (hr : Settled s r) : ChildrenDone s rest := by
  intro r' hr' hrest
  by_cases he : r' = r
  · subst he
    exact hr
  · exact h r' hr' (by simp [he, hrest])

section Pass

variable {s : TrackSystem} {env : StartEnv} {r : SnapRecord} {rest : List SnapRecord}
  {changes : Nat} {pc : RecordPc}

theorem Covered.record_pid (h : Covered up cfg s) (hr : r ∈ s.buffer) :
    r.uniqueProcessId = (s.world.info r.process).pid :=
  congrArg (·.2) (h.wf.records r hr).2

theorem Covered.live_of_test (h : Covered up cfg s) (hr : r ∈ s.buffer)
    (ht : r.uniqueProcessId = 0 ∨ (knFcTrackIsTracked s.table r.uniqueProcessId).isSome = true) :
    Live s.table r.uniqueProcessId := by
  rcases ht with hz | ht
  · rw [h.record_pid hr] at hz
    exact absurd hz (s.world.pid_ne_zero _ (h.wf.records r hr).1)
  · exact (isTracked_iff.mp ht).2.2

theorem Covered.rootPass (h : Covered up cfg s) (hcfg : env.config = cfg)
    (halloc : env.alloc = .ok) (himage : env.imageAlloc = true)
    (hst : s.start = .pass .root (r :: rest) changes pc) :
    Progress up cfg (s.passStep up env .root r rest changes pc) := by
  have hq : s.start.Queried := by rw [hst]; trivial
  have hr : r ∈ s.buffer := (h.wf.rest _ _ _ _ hst).mem List.mem_cons_self
  have hp := h.progress hq
  simp only [Progress, hst, List.head?_cons, Option.mem_some_iff, forall_eq'] at hp
  obtain ⟨hroots, hknown⟩ := hp
  cases pc with
  | test =>
    simp only [TrackSystem.passStep]
    split
    · next ht =>
      exact ⟨hroots.advance fun _ => h.live_of_test hr ht, fun _ _ => trivial⟩
    · exact ⟨hroots, fun _ _ hk => absurd rfl hk⟩
  | parentTest => exact ⟨hroots, fun _ _ hk => absurd rfl hk⟩
  | image parentTracked =>
    refine ⟨hroots, fun r' hr' => ⟨rfl, ?_⟩⟩
    obtain rfl : r = r' := by simpa using hr'
    rw [himage, h.record_pid hr,
      World.getImagePathByPid_of_present ((h.snapshotted hq).present r hr)]
    rfl
  | rootTest imagePath =>
    simp only [TrackSystem.passStep, hcfg]
    split
    · next hm => exact ⟨hroots, fun _ _ _ => hm⟩
    · next hm =>
      refine ⟨hroots.advance fun him => ?_, fun _ _ => trivial⟩
      rw [← hknown.2] at him
      exact absurd him hm
  | classify imagePath =>
    have hlive := live_classify up env.toClassifyEnv h.wf hcfg halloc r.process
      r.uniqueProcessId r.inheritedFromUniqueProcessId imagePath .snapshot
    refine ⟨fun r' hr' hrest him => (hlive _).mpr ?_, fun _ _ => trivial⟩
    by_cases he : r' = r
    · subst he
      exact Or.inr ⟨rfl, Or.inl (hknown rfl)⟩
    · exact Or.inl (hroots r' hr' (by simp [he, hrest]) him)

theorem Covered.childPass (h : Covered up cfg s) (hcfg : env.config = cfg)
    (halloc : env.alloc = .ok) {iter : Nat}
    (hst : s.start = .pass (.child iter) (r :: rest) changes pc) :
    Progress up cfg (s.passStep up env (.child iter) r rest changes pc) := by
  have hq : s.start.Queried := by rw [hst]; trivial
  have hr : r ∈ s.buffer := (h.wf.rest _ _ _ _ hst).mem List.mem_cons_self
  have hp := h.progress hq
  simp only [Progress, hst, List.head?_cons, Option.mem_some_iff, forall_eq'] at hp
  obtain ⟨hroots, hchild⟩ := hp
  cases pc with
  | test =>
    simp only [TrackSystem.passStep]
    split
    · next ht =>
      exact ⟨hroots, fun hch => ⟨(hchild hch).1.advance (Or.inl (h.live_of_test hr ht)),
        fun _ _ => trivial⟩⟩
    · exact ⟨hroots, fun hch => ⟨(hchild hch).1, fun _ _ => trivial⟩⟩
  | parentTest =>
    refine ⟨hroots, fun hch => ⟨(hchild hch).1, fun r' hr' _ hpt => Or.inr fun k hk hpk hl => ?_⟩⟩
    obtain rfl : r = r' := by simpa using hr'
    have hkpid := h.wf.parent_pid hr hk
    have htracked := isTracked_iff.mpr ⟨(h.snapshotted hq).active,
      hkpid ▸ s.world.pid_ne_zero k hpk.1, hl⟩
    rw [hpt] at htracked
    cases htracked
  | image parentTracked =>
    cases parentTracked with
    | true => exact ⟨hroots, fun hch => ⟨(hchild hch).1, fun _ _ hk => by cases hk⟩⟩
    | false =>
      exact ⟨hroots, fun hch => ⟨(hchild hch).1.advance ((hchild hch).2 (by simp) rfl),
        fun _ _ => trivial⟩⟩
  | rootTest imagePath =>
    have hno : changes ≠ 0 := fun hch => by
      have hk := ((hchild hch).2).1
      cases hk
    simp only [TrackSystem.passStep]
    split
    · exact ⟨hroots, fun hch => absurd hch hno⟩
    · exact ⟨hroots, fun hch => absurd hch hno⟩
  | classify imagePath =>
    have hlive := live_classify up env.toClassifyEnv h.wf hcfg halloc r.process
      r.uniqueProcessId r.inheritedFromUniqueProcessId imagePath .snapshot
    exact ⟨fun r' hr' hrest him => (hlive _).mpr (Or.inl (hroots r' hr' hrest him)),
      fun hch => absurd hch (Nat.succ_ne_zero changes)⟩

/-- When no listed process lacks only its own entry, none with a lineage lacks it. -/
theorem Covered.all_listed (h : Covered up cfg s) (hsn : Snapshotted up cfg s)
    (hroots : RootsDone up cfg s [])
    (hset : ∀ r ∈ s.buffer, s.world.HasLineage (imageMatches up cfg) r.process → Settled s r) :
    ∀ r ∈ s.buffer, s.world.HasLineage (imageMatches up cfg) r.process →
      Live s.table r.uniqueProcessId := by
  intro r hr hl
  generalize hu : r.process = u at hl
  -- along the lineage: the parent of a listed process is listed too
  induction hl generalizing r with
  | root hp hm => exact hroots r hr List.not_mem_nil (hu ▸ hm)
  | @child u k hp hk hlin ih =>
    subst hu
    obtain ⟨⟨r', hr', hrk⟩, -⟩ := hsn.closed r hr k hk hlin.present
    have hkl : Live s.table r.inheritedFromUniqueProcessId := by
      rw [← h.wf.parent_pid hr hk, ← hrk, ← h.record_pid hr']
      exact ih r' hr' hrk
    exact (hset r hr (.child hp hk hlin)).resolve_right fun hno => hno k hk hlin.present hkl

theorem Snapshotted.passStep {kind : PassKind} (hsn : Snapshotted up cfg s) (hw : s.Wf)
    (hcfg : env.config = cfg) (halloc : env.alloc = .ok) :
    Snapshotted up cfg (s.passStep up env kind r rest changes pc) := by
  by_cases hc : ∃ imagePath, pc = .classify imagePath
  · obtain ⟨imagePath, rfl⟩ := hc
    have hlive := live_classify up env.toClassifyEnv hw hcfg halloc r.process
      r.uniqueProcessId r.inheritedFromUniqueProcessId imagePath .snapshot
    have hactive := (classify_table hw.table up env.toClassifyEnv r.process r.uniqueProcessId
      r.inheritedFromUniqueProcessId imagePath .snapshot).active
    exact ⟨hactive.trans hsn.active, hsn.present, hsn.closed,
      fun u hrun hno hl => (hlive _).mpr (Or.inl (hsn.late u hrun hno hl))⟩
  · rw [passStep_frame up s env kind r rest changes fun imagePath he => hc ⟨imagePath, he⟩]
    exact hsn.withStart _

theorem Covered.passEnd (h : Covered up cfg s) {kind : PassKind}
    (hst : s.start = .pass kind [] changes pc)
    (hok : ¬ LeavesOut up cfg s (.start env)) :
    Progress up cfg { s with start := afterPass s.buffer kind changes } := by
  have hq : s.start.Queried := by rw [hst]; trivial
  have hp := h.progress hq
  cases kind with
  | root =>
    simp only [Progress, hst] at hp
    exact ⟨hp.1, fun _ => ⟨fun r hr hno => absurd hr hno, fun _ _ => trivial⟩⟩
  | child iter =>
    simp only [Progress, hst] at hp
    obtain ⟨hroots, hchild⟩ := hp
    by_cases hch : changes = 0
    · simp only [afterPass, hch, if_true, Progress]
      exact h.all_listed (h.snapshotted hq) hroots
        fun r hr _ => (hchild hch).1 r hr List.not_mem_nil
    · by_cases hit : iter + 1 < knfcChildPasses
      · simp only [afterPass, hch, hit, if_true, if_false, Progress]
        exact ⟨hroots, fun _ => ⟨fun r hr hno => absurd hr hno, fun _ _ => trivial⟩⟩
      · simp only [afterPass, hch, hit, if_false, Progress]
        refine h.all_listed (h.snapshotted hq) hroots fun r hr hl => ?_
        by_contra hset
        simp only [Settled, not_or, not_forall, not_not] at hset
        obtain ⟨hno, k, hk, hpk, hkl⟩ := hset
        simp only [LeavesOut, hst] at hok
        exact hok ⟨hch, hit, r, hr, hl, hno, hkl⟩

end Pass

theorem Covered.start {s t : TrackSystem} (h : Covered up cfg s) {env : StartEnv}
    (hd : Undisturbed cfg s (.start env)) (hok : ¬ LeavesOut up cfg s (.start env))
    (hs : s.startStep up env = some t) : Covered up cfg t := by
  obtain ⟨hcfg, halloc, himage, hlist⟩ := hd
  have hwf : t.Wf := h.wf.startStep hs
  cases hst : s.start with
  | idle =>
    simp only [TrackSystem.startStep, hst, h.idle hst, Bool.false_eq_true, if_false,
      Option.some.injEq] at hs
    subst hs
    exact ⟨hwf, fun hi => (by cases hi), False.elim, False.elim⟩
  | register =>
    rcases register_step hst hs with ⟨registered, rfl⟩ | ⟨hfail, rfl⟩
    · exact ⟨hwf, fun hi => (by cases hi), False.elim, False.elim⟩
    · have hno : ¬ (StartPc.returned env.registerStatus).Queried := by
        intro hq
        have he : env.registerStatus = statusSuccess := hq
        rw [he] at hfail
        exact absurd hfail (by decide)
      exact ⟨hwf, fun hi => (by cases hi), fun hq => absurd hq hno, fun hq => absurd hq hno⟩
  | activate =>
    simp only [TrackSystem.startStep, hst, Option.some.injEq] at hs
    subst hs
    exact ⟨hwf, fun hi => (by cases hi), False.elim, False.elim⟩
  | query =>
    rcases query_step hst hs with ⟨hno, -⟩ | ⟨order, hl, rfl⟩
    · simp [hno] at hlist
    · exact h.query hst hl hwf
  | pass kind rest changes pc =>
    have hq : s.start.Queried := by rw [hst]; trivial
    have hsn := h.snapshotted hq
    cases rest with
    | nil =>
      simp only [TrackSystem.startStep, hst, Option.some.injEq] at hs
      subst hs
      exact ⟨hwf, fun hi => absurd hi (afterPass_ne_idle _ _ _), fun _ => hsn.withStart _,
        fun _ => h.passEnd hst hok⟩
    | cons r rest =>
      simp only [TrackSystem.startStep, hst, Option.some.injEq] at hs
      subst hs
      refine ⟨hwf, fun hi => absurd hi (passStep_ne_idle _ _ _ _ _ _ _ _), fun _ => ?_,
        fun _ => ?_⟩
      · exact hsn.passStep h.wf hcfg halloc
      · cases kind with
        | root => exact h.rootPass hcfg halloc himage hst
        | child iter => exact h.childPass hcfg halloc hst
  | returned status => simp [TrackSystem.startStep, hst] at hs

theorem Covered.step {s t : TrackSystem} (h : Covered up cfg s) {a : TrackAction}
    (hd : Undisturbed cfg s a) (hok : ¬ LeavesOut up cfg s a)
    (hs : trackSystemStep up s a = some t) : Covered up cfg t := by
  cases a with
  | spawn parent pid imagePath =>
    obtain ⟨hsp, rfl⟩ := spawn_step hs
    exact h.spawn hsp
  | createNotify u env =>
    obtain ⟨hlt, hu, rfl⟩ := createNotify_step hs
    exact h.createNotify hd.1 hd.2 hlt hu hok
  | exitNotify u =>
    have hidle : s.start = .idle := hd
    have hwf := h.wf.step hs
    obtain rfl := exitNotify_step hs
    have hna : s.table.active = false := h.idle hidle
    have hno : ¬ (s.notifyExit u).start.Queried := by
      rw [(notifyExit_frame s u).2.2, hidle]
      exact id
    exact ⟨hwf, fun _ => by simp [TrackSystem.notifyExit, hna], fun hq => absurd hq hno,
      fun hq => absurd hq hno⟩
  | start env => exact h.start hd hok hs

theorem covered_init : Covered up cfg init := ⟨wf_init, fun _ => rfl, False.elim, False.elim⟩

theorem Covered.complete {s : TrackSystem} (h : Covered up cfg s)
    (hret : s.start = .returned statusSuccess) : Complete up cfg s := by
  have hq : s.start.Queried := by rw [hret]; rfl
  have hp := h.progress hq
  simp only [Progress, hret] at hp
  intro u hrun hl
  by_cases hin : ∃ r ∈ s.buffer, r.process = u
  · obtain ⟨r, hr, rfl⟩ := hin
    rw [← h.record_pid hr]
    exact hp r hr hl
  · exact (h.snapshotted hq).late u hrun (fun r hr he => hin ⟨r, hr, he⟩) hl

/-- After an undisturbed `knFcTrackStart` in which no step leaves a process out,
every running process with a lineage is tracked. -/
theorem snapshot_complete {as : List TrackAction} {s : TrackSystem}
    (hg : Guarded (trackSystemStep up)
      (fun s a => Undisturbed cfg s a ∧ ¬ LeavesOut up cfg s a) init as)
    (h : exec (trackSystemStep up) init as = some s) (hret : s.start = .returned statusSuccess) :
    Complete up cfg s :=
  (hg.invariant (fun _ _ _ hc hok hs => hc.step hok.1 hok.2 hs) h covered_init).complete hret

end Complete

section Runs

/-! Process 0 runs an image that is a root, and starts processes that do not. -/

def rootImage : UnicodeString := .inRoot 'a'

def rootConfig : KnfcConfig := (knFcConfigAddRoot true knFcConfigInitialize rootImage).2

def classifyEnv : ClassifyEnv := ⟨rootConfig, .ok⟩

def startSteps (n : Nat) (listing : List Nat) : List TrackAction :=
  List.replicate n (.start
    { classifyEnv with
      registerStatus := statusSuccess, listing := some listing, imageAlloc := true, lingers := false })

def trackedFamily : List TrackAction :=
  [.spawn none 8 (some rootImage), .createNotify 0 classifyEnv, .spawn (some 0) 12 none,
    .createNotify 1 classifyEnv] ++ startSteps 17 [0, 1] ++
    [.spawn (some 1) 16 none, .createNotify 2 classifyEnv] ++ startSteps 4 [0, 1]

theorem snapshot_complete_family :
    ∃ s, exec (trackSystemStep id) init trackedFamily = some s ∧
      s.start = .returned statusSuccess ∧ Complete id rootConfig s :=
  ⟨_, rfl, rfl, snapshot_complete
    (show Guarded _ _ init trackedFamily by decide) rfl rfl⟩

/-- Process 1 is created after the query and announced before the root pass. -/
def earlyChild : List TrackAction :=
  [.spawn none 8 (some rootImage), .createNotify 0 classifyEnv] ++ startSteps 4 [0] ++
    [.spawn (some 0) 12 none, .createNotify 1 classifyEnv] ++ startSteps 7 [0]

theorem child_of_root_is_missed :
    ¬ ∀ as s, Guarded (trackSystemStep id) (Undisturbed rootConfig) init as →
      exec (trackSystemStep id) init as = some s → s.start = .returned statusSuccess →
        Complete id rootConfig s := by
  intro hall
  obtain ⟨s, hs, hret, hrun, hl, hno⟩ : ∃ s,
      exec (trackSystemStep id) init earlyChild = some s ∧ s.start = .returned statusSuccess ∧
        s.world.phase 1 = .running ∧ s.world.HasLineage (imageMatches id rootConfig) 1 ∧
        ¬ Live s.table (s.world.info 1).pid :=
    ⟨_, rfl, rfl, rfl, by decide, by decide⟩
  exact hno (hall earlyChild s (by decide) hs hret 1 hrun hl)

end Runs

end KnFileCatcher

import KnFileCatcher.Processes
import KnFileCatcher.TrackRefinement

/-! `knFcTrackStart` with its snapshot, interleaved with the create and exit
notifications of the processes of a `World`. -/

namespace KnFileCatcher

/-- The fields of a `KNFC_SYSTEM_PROCESS_INFORMATION` the snapshot reads, and the
process the record is about. -/
structure SnapRecord where
  process : Nat
  uniqueProcessId : Handle
  inheritedFromUniqueProcessId : Handle
deriving DecidableEq

inductive RecordPc where
  | test
  | parentTest
  | image (parentTracked : Bool)
  | rootTest (imagePath : Option UnicodeString)
  | classify (imagePath : Option UnicodeString)
deriving DecidableEq

inductive PassKind where
  | root
  | child (iter : Nat)
deriving DecidableEq

def knfcChildPasses : Nat := 32

/-- Where `knFcTrackStart` is. In a pass, `rest` begins with the current record. -/
inductive StartPc where
  | idle
  | register
  | activate
  | query
  | pass (kind : PassKind) (rest : List SnapRecord) (changes : Nat) (pc : RecordPc)
  | returned (status : NtStatus)
deriving DecidableEq

def StartPc.Snapshotting : StartPc → Prop
  | .query | .pass _ _ _ _ => True
  | _ => False

structure ClassifyEnv where
  config : KnfcConfig
  alloc : InsertAlloc

/-- What a step of `knFcTrackStart` finds besides: the result of the registration,
the system query's listing in its order if it succeeds, and whether the image
lookup gets memory and still finds exited processes. -/
structure StartEnv extends ClassifyEnv where
  registerStatus : NtStatus
  listing : Option (List Nat)
  imageAlloc : Bool
  lingers : Bool

/-- The table, and the process each of its live entries was inserted for. -/
structure TrackSystem where
  world : World
  table : KnfcTrackCtx
  owner : Handle → Option Nat
  buffer : List SnapRecord
  start : StartPc

namespace TrackSystem

def init : TrackSystem where
  world := .boot
  table := knFcTrackInitialize
  owner _ := none
  buffer := []
  start := .idle

/-- The lock section of `knFcClassifyAndInsert`, called for process `u`. -/
def classify (up : Wchar → Wchar) (s : TrackSystem) (env : ClassifyEnv) (u : Nat)
    (pid parentPid : Handle) (imagePath : Option UnicodeString) (extraFlags : Ulong) :
    TrackSystem :=
  let table := (knFcClassifyAndInsert up env.config env.alloc s.table pid parentPid imagePath
    extraFlags).1
  let inserted := (knFcTrackFindLocked s.table pid).isNone && (knFcTrackFindLocked table pid).isSome
  { s with table, owner := if inserted then Function.update s.owner pid (some u) else s.owner }

def markExited (s : TrackSystem) (pid : Handle) : TrackSystem :=
  { s with
    table := (knFcMarkExited s.table pid).1
    owner := Function.update s.owner pid none }

def notifyCreate (up : Wchar → Wchar) (s : TrackSystem) (env : ClassifyEnv) (u : Nat) :
    TrackSystem :=
  if s.table.active then
    let p := s.world.info u
    s.classify up env u p.pid p.parentPid p.imagePath 0
  else s

def notifyExit (s : TrackSystem) (u : Nat) : TrackSystem :=
  if s.table.active then s.markExited (s.world.info u).pid else s

def record (w : World) (u : Nat) : SnapRecord := ⟨u, (w.info u).pid, (w.info u).parentPid⟩

/-- A listing names every present process once. -/
def Lists (w : World) (order : List Nat) : Prop :=
  order.Nodup ∧ (∀ u ∈ order, w.Present u) ∧ ∀ u < w.count, w.Present u → u ∈ order

instance (w : World) (order : List Nat) : Decidable (Lists w order) :=
  inferInstanceAs (Decidable (_ ∧ _ ∧ _))

def afterPass (buffer : List SnapRecord) : PassKind → Nat → StartPc
  | .root, _ => .pass (.child 0) buffer 0 .test
  | .child iter, changes =>
    if changes = 0 then .returned statusSuccess
    else if iter + 1 < knfcChildPasses then .pass (.child (iter + 1)) buffer 0 .test
    else .returned statusSuccess

def passStep (up : Wchar → Wchar) (s : TrackSystem) (env : StartEnv) (kind : PassKind)
    (r : SnapRecord) (rest : List SnapRecord) (changes : Nat) : RecordPc → TrackSystem
  | .test =>
    if r.uniqueProcessId = 0 ∨ (knFcTrackIsTracked s.table r.uniqueProcessId).isSome then
      { s with start := .pass kind rest changes .test }
    else match kind with
      | .root => { s with start := .pass kind (r :: rest) changes (.image false) }
      | .child _ => { s with start := .pass kind (r :: rest) changes .parentTest }
  | .parentTest =>
    let parentTracked := (knFcTrackIsTracked s.table r.inheritedFromUniqueProcessId).isSome
    { s with start := .pass kind (r :: rest) changes (.image parentTracked) }
  | .image parentTracked =>
    let imagePath := s.world.knFcUtilGetImagePathByPid env.imageAlloc env.lingers r.uniqueProcessId
    match kind with
    | .root => { s with start := .pass kind (r :: rest) changes (.rootTest imagePath) }
    | .child _ =>
      if parentTracked then { s with start := .pass kind (r :: rest) changes (.classify imagePath) }
      else { s with start := .pass kind rest changes .test }
  | .rootTest imagePath =>
    if imageMatches up env.config imagePath then
      { s with start := .pass kind (r :: rest) changes (.classify imagePath) }
    else { s with start := .pass kind rest changes .test }
  | .classify imagePath =>
    { s.classify up env.toClassifyEnv r.process r.uniqueProcessId r.inheritedFromUniqueProcessId
        imagePath knFcTrackFromSnap with
      start := .pass kind rest (changes + 1) .test }

def startStep (up : Wchar → Wchar) (s : TrackSystem) (env : StartEnv) : Option TrackSystem :=
  match s.start with
  | .idle =>
    some { s with start := if s.table.active then .returned statusSuccess else .register }
  | .register =>
    if s.table.notifyRegistered then some { s with start := .activate }
    else if ntSuccess env.registerStatus then
      some { s with table := { s.table with notifyRegistered := true }, start := .activate }
    else some { s with start := .returned env.registerStatus }
  | .activate => some { s with table := { s.table with active := true }, start := .query }
  | .query =>
    match env.listing with
    | none => some { s with start := .returned statusSuccess }
    | some order =>
      if Lists s.world order then
        let buffer := order.map (record s.world)
        some { s with buffer, start := .pass .root buffer 0 .test }
      else none
  | .pass kind [] changes _ => some { s with start := afterPass s.buffer kind changes }
  | .pass kind (r :: rest) changes pc => some (s.passStep up env kind r rest changes pc)
  | .returned _ => none

end TrackSystem

inductive TrackAction where
  | spawn (parent : Option Nat) (pid : Handle) (imagePath : Option UnicodeString)
  | createNotify (u : Nat) (env : ClassifyEnv)
  | exitNotify (u : Nat)
  | start (env : StartEnv)

def trackSystemStep (up : Wchar → Wchar) (s : TrackSystem) : TrackAction → Option TrackSystem
  | .spawn parent pid imagePath =>
    if h : s.world.CanSpawn parent pid then
      some { s with world := s.world.spawn parent pid imagePath h }
    else none
  | .createNotify u env =>
    if h : u < s.world.count ∧ s.world.phase u = .creating then
      some { s.notifyCreate up env u with world := s.world.created u h.2 }
    else none
  | .exitNotify u =>
    if u < s.world.count ∧ s.world.phase u = .running then
      some { s.notifyExit u with world := s.world.exit u }
    else none
  | .start env => s.startStep up env

section Inversion

variable {up : Wchar → Wchar} {s t : TrackSystem}

theorem spawn_step {parent : Option Nat} {pid : Handle} {imagePath : Option UnicodeString}
    (hs : trackSystemStep up s (.spawn parent pid imagePath) = some t) :
    ∃ h : s.world.CanSpawn parent pid,
      t = { s with world := s.world.spawn parent pid imagePath h } := by
  simp only [trackSystemStep] at hs
  split at hs
  · next h => exact ⟨h, (Option.some.inj hs).symm⟩
  · cases hs

theorem createNotify_step {u : Nat} {env : ClassifyEnv}
    (hs : trackSystemStep up s (.createNotify u env) = some t) :
    u < s.world.count ∧ ∃ h : s.world.phase u = .creating,
      t = { s.notifyCreate up env u with world := s.world.created u h } := by
  simp only [trackSystemStep] at hs
  split at hs
  · next h => exact ⟨h.1, h.2, (Option.some.inj hs).symm⟩
  · cases hs

theorem exitNotify_step {u : Nat} (hs : trackSystemStep up s (.exitNotify u) = some t) :
    t = { s.notifyExit u with world := s.world.exit u } := by
  simp only [trackSystemStep] at hs
  split at hs
  · exact (Option.some.inj hs).symm
  · cases hs

namespace TrackSystem

variable {env : StartEnv}

/-- The registration is there or succeeds, or its error is returned. -/
theorem register_step (hst : s.start = .register) (hs : s.startStep up env = some t) :
    (∃ registered, t = { s with
        table := { s.table with notifyRegistered := registered }, start := .activate }) ∨
      ntSuccess env.registerStatus = false ∧
        t = { s with start := .returned env.registerStatus } := by
  simp only [startStep, hst] at hs
  split at hs
  · exact Or.inl ⟨s.table.notifyRegistered, (Option.some.inj hs).symm⟩
  · split at hs
    · exact Or.inl ⟨true, (Option.some.inj hs).symm⟩
    · next hfail => exact Or.inr ⟨by simpa using hfail, (Option.some.inj hs).symm⟩

theorem query_step (hst : s.start = .query) (hs : s.startStep up env = some t) :
    env.listing = none ∧ t = { s with start := .returned statusSuccess } ∨
      ∃ order, Lists s.world order ∧ t = { s with
        buffer := order.map (record s.world)
        start := .pass .root (order.map (record s.world)) 0 .test } := by
  simp only [startStep, hst] at hs
  split at hs
  · next hno => exact Or.inl ⟨hno, (Option.some.inj hs).symm⟩
  · next order _ =>
    split at hs
    · next hl => exact Or.inr ⟨order, hl, (Option.some.inj hs).symm⟩
    · cases hs

end TrackSystem

end Inversion

theorem isTracked_iff {g : KnfcTrackCtx} {pid : Handle} :
    (knFcTrackIsTracked g pid).isSome = true ↔ g.active = true ∧ pid ≠ 0 ∧ Live g pid := by
  by_cases h : g.active = false ∨ pid = 0
  · simp only [knFcTrackIsTracked, if_pos h, Option.isSome_none, Bool.false_eq_true, false_iff]
    rintro ⟨ha, hp, -⟩
    rcases h with h | h
    · simp [h] at ha
    · exact hp h
  · simp only [knFcTrackIsTracked, if_neg h, Option.isSome_map, Live]
    simp only [not_or, Bool.not_eq_false] at h
    exact ⟨fun hl => ⟨h.1, h.2, hl⟩, fun hl => hl.2.2⟩

namespace TrackSystem

section Classify

variable {s : TrackSystem} (hwf : trackLayout.Wf s.table.buckets) (up : Wchar → Wchar)
  (env : ClassifyEnv) (u : Nat) (pid parentPid : Handle) (imagePath : Option UnicodeString)
  (o : Origin)
include hwf

theorem classify_table :
    Classified env.alloc s.table (imageMatches up env.config imagePath) pid parentPid imagePath
      (s.classify up env u pid parentPid imagePath o.extraFlags).table :=
  classified hwf o

theorem classify_owner :
    (s.classify up env u pid parentPid imagePath o.extraFlags).owner =
      if Inserts env.alloc s.table (imageMatches up env.config imagePath) pid parentPid imagePath
      then Function.update s.owner pid (some u) else s.owner := by
  have hc := classify_table hwf up env u pid parentPid imagePath o
  have hafter := hc.live pid
  by_cases hi : Inserts env.alloc s.table (imageMatches up env.config imagePath) pid parentPid
      imagePath
  · have hn := not_live_iff.mp hi.1
    have ht : (knFcTrackFindLocked (knFcClassifyAndInsert up env.config env.alloc s.table pid
        parentPid imagePath o.extraFlags).1 pid).isSome = true := hafter.mpr (Or.inr ⟨rfl, hi⟩)
    simp [classify, hi, hn, ht]
  · by_cases hl : Live s.table pid
    · have hs : (knFcTrackFindLocked s.table pid).isNone = false := by
        rw [Option.isNone_eq_false_iff]
        exact hl
      simp [classify, hi, hs]
    · have ht : (knFcTrackFindLocked (knFcClassifyAndInsert up env.config env.alloc s.table pid
          parentPid imagePath o.extraFlags).1 pid).isSome = false := by
        rw [Bool.eq_false_iff]
        exact fun h => (hafter.mp h).elim hl fun h => hi h.2
      simp [classify, hi, ht]

/-- Only the classified process can have become the owner of its PID. -/
theorem owner_of_classify {pid' : Handle} {v : Nat}
    (h : (s.classify up env u pid parentPid imagePath o.extraFlags).owner pid' = some v) :
    (v = u ∧ pid' = pid ∧ Inserts env.alloc s.table (imageMatches up env.config imagePath) pid
      parentPid imagePath) ∨ s.owner pid' = some v := by
  rw [classify_owner hwf] at h
  split at h
  · next hi =>
    by_cases hp : pid' = pid
    · obtain rfl : u = v := by simpa [hp] using h
      exact Or.inl ⟨rfl, hp, hi⟩
    · rw [Function.update_of_ne hp] at h
      exact Or.inr h
  · exact Or.inr h

end Classify

@[simp] theorem classify_world (up : Wchar → Wchar) (s : TrackSystem) (env : ClassifyEnv)
    (u : Nat) (pid parentPid : Handle) (imagePath : Option UnicodeString) (extra : Ulong) :
    (s.classify up env u pid parentPid imagePath extra).world = s.world := rfl

@[simp] theorem classify_start (up : Wchar → Wchar) (s : TrackSystem) (env : ClassifyEnv)
    (u : Nat) (pid parentPid : Handle) (imagePath : Option UnicodeString) (extra : Ulong) :
    (s.classify up env u pid parentPid imagePath extra).start = s.start := rfl

@[simp] theorem classify_buffer (up : Wchar → Wchar) (s : TrackSystem) (env : ClassifyEnv)
    (u : Nat) (pid parentPid : Handle) (imagePath : Option UnicodeString) (extra : Ulong) :
    (s.classify up env u pid parentPid imagePath extra).buffer = s.buffer := rfl

@[simp] theorem notifyCreate_frame (up : Wchar → Wchar) (s : TrackSystem) (env : ClassifyEnv)
    (u : Nat) : (s.notifyCreate up env u).world = s.world ∧
      (s.notifyCreate up env u).buffer = s.buffer ∧
      (s.notifyCreate up env u).start = s.start := by
  unfold notifyCreate
  split <;> simp

@[simp] theorem notifyExit_frame (s : TrackSystem) (u : Nat) :
    (s.notifyExit u).world = s.world ∧ (s.notifyExit u).buffer = s.buffer ∧
      (s.notifyExit u).start = s.start := by
  unfold notifyExit
  split <;> simp [markExited]

/-- What holds in every reachable state, whatever the allocations, the watch
roots and the exits. -/
structure Wf (s : TrackSystem) : Prop where
  table : trackLayout.Wf s.table.buckets
  owned : ∀ pid, Live s.table pid ↔ (s.owner pid).isSome = true
  ownerPid : ∀ pid u, s.owner pid = some u → u < s.world.count ∧ (s.world.info u).pid = pid
  records : ∀ r ∈ s.buffer, r.process < s.world.count ∧ r = record s.world r.process
  rest : ∀ kind rest changes pc, s.start = .pass kind rest changes pc → rest <:+ s.buffer
  active : s.start.Snapshotting → s.table.active = true
  inactive : s.table.active = false → ∀ pid, s.owner pid = none

theorem passStep_frame (up : Wchar → Wchar) (s : TrackSystem) (env : StartEnv) (kind : PassKind)
    (r : SnapRecord) (rest : List SnapRecord) (changes : Nat) {pc : RecordPc}
    (hpc : ∀ imagePath, pc ≠ .classify imagePath) :
    s.passStep up env kind r rest changes pc =
      { s with start := (s.passStep up env kind r rest changes pc).start } := by
  cases pc with
  | test =>
    simp only [passStep]
    split
    · rfl
    · cases kind <;> rfl
  | parentTest => rfl
  | image parentTracked =>
    cases kind with
    | root => rfl
    | child iter => cases parentTracked <;> rfl
  | rootTest imagePath =>
    simp only [passStep]
    split <;> rfl
  | classify imagePath => exact absurd rfl (hpc imagePath)

theorem passStep_ne_idle (up : Wchar → Wchar) (s : TrackSystem) (env : StartEnv)
    (kind : PassKind) (r : SnapRecord) (rest : List SnapRecord) (changes : Nat) (pc : RecordPc) :
    (s.passStep up env kind r rest changes pc).start ≠ .idle := by
  cases pc <;> cases kind <;> simp only [passStep] <;> (try split) <;> simp

/-- Only the classifications of a pass change the entries and their owners. -/
theorem startStep_frame {up : Wchar → Wchar} {s t : TrackSystem} {env : StartEnv}
    (hs : s.startStep up env = some t)
    (hno : ∀ kind r rest changes imagePath,
      s.start ≠ .pass kind (r :: rest) changes (.classify imagePath)) :
    t.world = s.world ∧ t.owner = s.owner ∧ t.table.buckets = s.table.buckets := by
  cases hst : s.start with
  | register => rcases register_step hst hs with ⟨_, rfl⟩ | ⟨-, rfl⟩ <;> exact ⟨rfl, rfl, rfl⟩
  | query => rcases query_step hst hs with ⟨-, rfl⟩ | ⟨_, -, rfl⟩ <;> exact ⟨rfl, rfl, rfl⟩
  | pass kind rest changes pc =>
    cases rest with
    | nil =>
      simp only [startStep, hst, Option.some.injEq] at hs
      subst hs
      exact ⟨rfl, rfl, rfl⟩
    | cons r rest =>
      simp only [startStep, hst, Option.some.injEq] at hs
      rw [passStep_frame up s env kind r rest changes
        fun imagePath he => hno kind r rest changes imagePath (by rw [hst, he])] at hs
      subst hs
      exact ⟨rfl, rfl, rfl⟩
  | returned status => simp [startStep, hst] at hs
  | _ =>
    simp only [startStep, hst, Option.some.injEq] at hs
    subst hs
    exact ⟨rfl, rfl, rfl⟩

theorem wf_init : init.Wf where
  table := ChainedTable.Layout.wf_empty
  owned pid := by simp [init, Live, knFcTrackInitialize, knFcTrackFindLocked]
  ownerPid pid u h := by simp [init] at h
  records r h := by simp [init] at h
  rest kind rest changes pc h := by simp [init] at h
  active h := h.elim
  inactive _ pid := rfl

theorem afterPass_eq_pass {buffer rest : List SnapRecord} {kind kind' : PassKind}
    {changes changes' : Nat} {pc : RecordPc}
    (h : afterPass buffer kind changes = .pass kind' rest changes' pc) : rest = buffer := by
  unfold afterPass at h
  split at h
  · cases h
    rfl
  · split at h
    · cases h
    · split at h <;> cases h
      rfl

theorem afterPass_ne_idle (buffer : List SnapRecord) (kind : PassKind) (changes : Nat) :
    afterPass buffer kind changes ≠ .idle := by
  unfold afterPass
  split
  · simp
  · split
    · simp
    · split <;> simp

theorem Wf.withStart {s : TrackSystem} (h : s.Wf) {pc : StartPc}
    (hrest : ∀ kind rest changes rpc, pc = .pass kind rest changes rpc → rest <:+ s.buffer)
    (hactive : pc.Snapshotting → s.table.active = true) : { s with start := pc }.Wf :=
  ⟨h.table, h.owned, h.ownerPid, h.records, hrest, hactive, h.inactive⟩

theorem Wf.classify {s : TrackSystem} (h : s.Wf) (up : Wchar → Wchar) (env : ClassifyEnv)
    {u : Nat} (hu : u < s.world.count) (parentPid : Handle) (imagePath : Option UnicodeString)
    (o : Origin) (hactive : s.table.active = true) :
    (s.classify up env u (s.world.info u).pid parentPid imagePath o.extraFlags).Wf := by
  have hc := classify_table h.table up env u (s.world.info u).pid parentPid imagePath o
  have ho := classify_owner h.table up env u (s.world.info u).pid parentPid imagePath o
  refine ⟨hc.wf, fun pid => ?_, fun pid v hv => ?_, h.records, h.rest,
    fun _ => hc.active.trans hactive, fun hna => ?_⟩
  · rw [hc.live pid, ho, h.owned pid]
    split
    · next hi =>
      by_cases hp : pid = (s.world.info u).pid
      · simp [hp, hi]
      · simp [hp]
    · next hi => simp [hi]
  · rcases owner_of_classify h.table up env u _ parentPid imagePath o hv with ⟨rfl, hp, -⟩ | hv
    · exact ⟨hu, hp.symm⟩
    · exact h.ownerPid pid v hv
  · rw [hc.active, hactive] at hna
    exact absurd hna (by simp)

theorem Wf.markExited {s : TrackSystem} (h : s.Wf) (pid : Handle) : (s.markExited pid).Wf where
  table := markExited_wf h.table pid
  owned pid' := by
    by_cases hp : pid' = pid
    · simp [TrackSystem.markExited, live_markExited h.table, hp]
    · simpa [TrackSystem.markExited, live_markExited h.table, hp] using h.owned pid'
  ownerPid pid' u hu := by
    by_cases hp : pid' = pid
    · simp [TrackSystem.markExited, hp] at hu
    · exact h.ownerPid pid' u (by simpa [TrackSystem.markExited, hp] using hu)
  records := h.records
  rest := h.rest
  active hs := (markExited_active pid).trans (h.active hs)
  inactive hna pid' := by
    have ho := h.inactive ((markExited_active pid).symm.trans hna) pid'
    by_cases hp : pid' = pid <;> simp [TrackSystem.markExited, hp, ho]

theorem Wf.notifyCreate {s : TrackSystem} (h : s.Wf) (up : Wchar → Wchar) (env : ClassifyEnv)
    {u : Nat} (hu : u < s.world.count) : (s.notifyCreate up env u).Wf := by
  unfold TrackSystem.notifyCreate
  split
  · next ha => exact h.classify up env hu _ _ .notification ha
  · exact h

theorem Wf.notifyExit {s : TrackSystem} (h : s.Wf) (u : Nat) : (s.notifyExit u).Wf := by
  unfold TrackSystem.notifyExit
  split
  · exact h.markExited _
  · exact h

theorem Wf.withWorld {s : TrackSystem} (h : s.Wf) {w : World} (hcount : s.world.count ≤ w.count)
    (hinfo : ∀ u < s.world.count, w.info u = s.world.info u) : { s with world := w }.Wf where
  table := h.table
  owned := h.owned
  ownerPid pid u hu := by
    obtain ⟨hlt, hpid⟩ := h.ownerPid pid u hu
    exact ⟨hlt.trans_le hcount, by rw [hinfo u hlt, hpid]⟩
  records r hr := by
    obtain ⟨hlt, heq⟩ := h.records r hr
    refine ⟨hlt.trans_le hcount, ?_⟩
    rw [record, hinfo r.process hlt]
    exact heq
  rest := h.rest
  active := h.active
  inactive := h.inactive

theorem Wf.passStep {up : Wchar → Wchar} {s : TrackSystem} (h : s.Wf) {env : StartEnv}
    {kind : PassKind} {r : SnapRecord} {rest : List SnapRecord} {changes : Nat} {pc : RecordPc}
    (hs : s.start = .pass kind (r :: rest) changes pc) :
    (s.passStep up env kind r rest changes pc).Wf := by
  have hsuf := h.rest _ _ _ _ hs
  have hactive : s.table.active = true := h.active (by rw [hs]; trivial)
  have hstay {ch : Nat} {k : PassKind} {rpc : RecordPc} :
      { s with start := StartPc.pass k (r :: rest) ch rpc }.Wf :=
    h.withStart (fun _ _ _ _ he => by cases he; exact hsuf) fun _ => hactive
  have hnext {ch : Nat} {k : PassKind} {rpc : RecordPc} :
      { s with start := StartPc.pass k rest ch rpc }.Wf :=
    h.withStart (fun _ _ _ _ he => by cases he; exact (List.suffix_cons r rest).trans hsuf)
      fun _ => hactive
  cases pc with
  | test =>
    simp only [TrackSystem.passStep]
    split
    · exact hnext
    · cases kind <;> exact hstay
  | parentTest => exact hstay
  | image parentTracked =>
    cases kind with
    | root => exact hstay
    | child iter =>
      simp only [TrackSystem.passStep]
      split
      · exact hstay
      · exact hnext
  | rootTest imagePath =>
    simp only [TrackSystem.passStep]
    split
    · exact hstay
    · exact hnext
  | classify imagePath =>
    obtain ⟨hlt, hrec⟩ := h.records r (hsuf.mem List.mem_cons_self)
    have hpid : r.uniqueProcessId = (s.world.info r.process).pid := congrArg (·.2) hrec
    have hc := h.classify up env.toClassifyEnv hlt r.inheritedFromUniqueProcessId imagePath .snapshot
      hactive
    rw [← hpid] at hc
    exact hc.withStart (fun _ _ _ _ he => by cases he; exact (List.suffix_cons r rest).trans hsuf)
      fun _ => hc.active (by simp only [classify_start, hs]; trivial)

theorem Wf.startStep {up : Wchar → Wchar} {s t : TrackSystem} (h : s.Wf) {env : StartEnv}
    (hs : s.startStep up env = some t) : t.Wf := by
  cases hst : s.start with
  | idle =>
    simp only [TrackSystem.startStep, hst, Option.some.injEq] at hs
    subst hs
    split
    · exact h.withStart (fun _ _ _ _ he => by cases he) False.elim
    · exact h.withStart (fun _ _ _ _ he => by cases he) False.elim
  | register =>
    rcases register_step hst hs with ⟨registered, rfl⟩ | ⟨-, rfl⟩
    · exact ⟨h.table, h.owned, h.ownerPid, h.records, fun _ _ _ _ he => (by cases he), False.elim,
        h.inactive⟩
    · exact h.withStart (fun _ _ _ _ he => by cases he) False.elim
  | activate =>
    simp only [TrackSystem.startStep, hst, Option.some.injEq] at hs
    subst hs
    exact ⟨h.table, h.owned, h.ownerPid, h.records, fun _ _ _ _ he => (by cases he), fun _ => rfl,
      fun hna => (by cases hna)⟩
  | query =>
    have hactive : s.table.active = true := h.active (by rw [hst]; trivial)
    rcases query_step hst hs with ⟨-, rfl⟩ | ⟨order, hl, rfl⟩
    · exact h.withStart (fun _ _ _ _ he => by cases he) fun _ => hactive
    · refine ⟨h.table, h.owned, h.ownerPid, fun r hr => ?_, fun _ _ _ _ he => ?_,
        fun _ => hactive, h.inactive⟩
      · obtain ⟨u, hu, rfl⟩ := List.mem_map.mp hr
        exact ⟨(hl.2.1 u hu).1, rfl⟩
      · cases he
        exact List.suffix_rfl
  | pass kind rest changes pc =>
    have hactive : s.table.active = true := h.active (by rw [hst]; trivial)
    cases rest with
    | nil =>
      simp only [TrackSystem.startStep, hst, Option.some.injEq] at hs
      subst hs
      exact h.withStart (fun _ _ _ _ he => by rw [afterPass_eq_pass he]) fun _ => hactive
    | cons r rest =>
      simp only [TrackSystem.startStep, hst, Option.some.injEq] at hs
      subst hs
      exact h.passStep hst
  | returned status => simp [TrackSystem.startStep, hst] at hs

theorem Wf.step {up : Wchar → Wchar} {s t : TrackSystem} (h : s.Wf) {a : TrackAction}
    (hs : trackSystemStep up s a = some t) : t.Wf := by
  cases a with
  | spawn parent pid imagePath =>
    obtain ⟨hsp, rfl⟩ := spawn_step hs
    exact h.withWorld (Nat.le_succ _) fun u hu => World.spawn_info hsp hu
  | createNotify u env =>
    obtain ⟨hlt, hu, rfl⟩ := createNotify_step hs
    have hn := h.notifyCreate up env hlt
    exact hn.withWorld (by simp [World.created]) fun v _ => by simp [World.created]
  | exitNotify u =>
    obtain rfl := exitNotify_step hs
    exact (h.notifyExit u).withWorld (by simp [World.exit]) fun v _ => by simp [World.exit]
  | start env => exact h.startStep hs

end TrackSystem

end KnFileCatcher

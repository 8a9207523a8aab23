import KnFileCatcher.Runs
import KnFileCatcher.TrackRefinement

/-! Where every tracked process comes from. Several threads classify at once, and
the root test of a classification precedes its lock section. -/

namespace KnFileCatcher

open Runs ChainedTable

def ProcessPush.entry (p : ProcessPush) : KnfcTrackEntry :=
  ⟨p.pid, p.parentPid, p.rootPid, p.flags, p.image.getD .empty⟩

/-- An insertion as its push reports it, with the table it met and the watch roots
that its root test read. -/
structure Insertion where
  push : ProcessPush
  roots : KnfcConfig
  before : KnfcTrackCtx

def Insertion.entry (i : Insertion) : KnfcTrackEntry := i.push.entry

inductive TrackEvent where
  | inserted (i : Insertion)
  | removed (pid : Handle)
  | purged

def TrackEvent.removes (pid : Handle) : TrackEvent → Prop
  | .inserted _ => False
  | .removed pid' => pid' = pid
  | .purged => True

/-- A call of `knFcClassifyAndInsert` between its root test and its lock section. -/
structure Classification where
  origin : Origin
  pid : Handle
  parentPid : Handle
  image : Option UnicodeString
  roots : KnfcConfig

/-- The log, newest event first, is not kept by the driver. -/
structure LineageSystem (T : Type*) where
  config : KnfcConfig
  table : KnfcTrackCtx
  calls : T → Option Classification
  log : List TrackEvent

/-- The tests before a classification or an exit (`Active`, and those of a snapshot
pass) read an earlier state, so either may come at any time. -/
inductive LineageAction (T : Type*) where
  | addRoot (alloc : Bool) (path : UnicodeString)
  | clearRoots
  | classify (t : T) (origin : Origin) (pid parentPid : Handle) (image : Option UnicodeString)
  | insert (t : T) (alloc : InsertAlloc)
  | exit (pid : Handle)
  | stop

namespace LineageSystem

variable {T : Type*}

def init (T : Type*) : LineageSystem T where
  config := knFcConfigInitialize
  table := knFcTrackInitialize
  calls _ := none
  log := []

def afterExit (s : LineageSystem T) (pid : Handle) : LineageSystem T :=
  { s with
    table := (knFcMarkExited s.table pid).1
    log := match (knFcMarkExited s.table pid).2 with
      | some _ => .removed pid :: s.log
      | none => s.log }

variable [DecidableEq T]

def afterInsert (up : Wchar → Wchar) (s : LineageSystem T) (t : T) (alloc : InsertAlloc)
    (c : Classification) : LineageSystem T :=
  let r := knFcClassifyAndInsert up c.roots alloc s.table c.pid c.parentPid c.image
    c.origin.extraFlags
  { s with
    table := r.1
    calls := Function.update s.calls t none
    log := match r.2 with
      | some push => .inserted ⟨push, c.roots, s.table⟩ :: s.log
      | none => s.log }

end LineageSystem

section Step

variable {T : Type*} [DecidableEq T]

def lineageStep (up : Wchar → Wchar) (s : LineageSystem T) :
    LineageAction T → Option (LineageSystem T)
  | .addRoot alloc path => some { s with config := (knFcConfigAddRoot alloc s.config path).2 }
  | .clearRoots => some { s with config := knFcConfigClearRoots s.config }
  | .classify t origin pid parentPid image =>
    match s.calls t with
    | some _ => none
    | none => some { s with
        calls := Function.update s.calls t (some ⟨origin, pid, parentPid, image, s.config⟩) }
  | .insert t alloc => (s.calls t).map (s.afterInsert up t alloc)
  | .exit pid => some (s.afterExit pid)
  | .stop => some { s with table := knFcTrackStop s.table, log := .purged :: s.log }

end Step

def KnfcTrackEntry.IsRoot (e : KnfcTrackEntry) : Prop := e.flags &&& knFcTrackRoot ≠ 0

def KnfcTrackEntry.IsChild (e : KnfcTrackEntry) : Prop := e.flags &&& knFcTrackChild ≠ 0

/-- `i`, inserted after the events `past`, descends from a root with PID `root`:
each parent's entry was in the table, and had stayed there, when its child came. -/
inductive Lineage (up : Wchar → Wchar) (root : Handle) : List TrackEvent → Insertion → Prop
  | root {past : List TrackEvent} {i : Insertion} (hflag : i.entry.IsRoot)
      (hmatch : imageMatches up i.roots i.push.image = true) (hpid : i.entry.pid = root)
      (hroot : i.entry.rootPid = root) : Lineage up root past i
  | child {past kept older : List TrackEvent} {parent i : Insertion} (hflag : i.entry.IsChild)
      (hpast : past = kept ++ .inserted parent :: older)
      (hkept : ∀ ev ∈ kept, ¬ ev.removes parent.entry.pid)
      (hlive : knFcTrackFindLocked i.before parent.entry.pid = some parent.entry)
      (hparent : i.entry.parentPid = parent.entry.pid)
      (hroot : i.entry.rootPid = parent.entry.rootPid)
      (h : Lineage up root older parent) : Lineage up root past i

theorem Lineage.rootPid {up : Wchar → Wchar} {root : Handle} {past : List TrackEvent}
    {i : Insertion} (h : Lineage up root past i) : i.entry.rootPid = root := by
  induction h with
  | root _ _ _ hroot => exact hroot
  | child _ _ _ _ _ hroot _ ih => exact hroot.trans ih

def Traced (up : Wchar → Wchar) (past : List TrackEvent) (i : Insertion) : Prop :=
  Lineage up i.entry.rootPid past i ∧ Xor i.entry.IsRoot i.entry.IsChild

/-- The entry of a logged insertion whose PID no later event removed. -/
def Logged (log : List TrackEvent) (pid : Handle) (e : KnfcTrackEntry) : Prop :=
  ∃ later i past, log = later ++ .inserted i :: past ∧ i.entry = e ∧
    ∀ ev ∈ later, ¬ ev.removes pid

theorem Logged.cons {log : List TrackEvent} {pid : Handle} {e : KnfcTrackEntry}
    {ev : TrackEvent} (h : Logged log pid e) (hev : ¬ ev.removes pid) :
    Logged (ev :: log) pid e := by
  obtain ⟨later, i, past, rfl, hi, hlater⟩ := h
  exact ⟨ev :: later, i, past, rfl, hi, List.forall_mem_cons.mpr ⟨hev, hlater⟩⟩

def AllTraced (up : Wchar → Wchar) (log : List TrackEvent) : Prop :=
  ∀ later i past, log = later ++ .inserted i :: past → Traced up past i

theorem AllTraced.cons {up : Wchar → Wchar} {log : List TrackEvent} {ev : TrackEvent}
    (h : AllTraced up log) (hev : ∀ i, ev = .inserted i → Traced up log i) :
    AllTraced up (ev :: log) := by
  intro later i past heq
  cases later with
  | nil =>
    obtain ⟨rfl, rfl⟩ := List.cons.inj heq
    exact hev i rfl
  | cons ev' later =>
    obtain ⟨-, rfl⟩ := List.cons.inj heq
    exact h later i past rfl

section Classify

variable {alloc : InsertAlloc} {g : KnfcTrackCtx} {isRoot : Bool} {pid parentPid : Handle}
  {image : Option UnicodeString} {extra : Ulong}

/-- What an insertion pushed by a classification says of the table it met. -/
structure Pushes (g : KnfcTrackCtx) (isRoot : Bool) (pid parentPid : Handle)
    (image : Option UnicodeString) (extra : Ulong) (push : ProcessPush) : Prop where
  free : knFcTrackFindLocked g pid = none
  pid_eq : push.pid = pid
  parentPid_eq : push.parentPid = parentPid
  image_eq : push.image = image
  kind : (isRoot = true ∧ push.rootPid = pid ∧ push.flags = knFcTrackRoot ||| extra) ∨
    ∃ p, knFcTrackFindLocked g parentPid = some p ∧ push.rootPid = p.rootPid ∧
      push.flags = knFcTrackChild ||| extra

theorem Pushes.live {o : Origin} {push : ProcessPush}
    (h : Pushes g isRoot pid parentPid image o.extraFlags push) :
    trackLayout.live push.entry = true := by
  have hlive := live_of_origin push.pid push.parentPid push.rootPid o (push.image.getD .empty)
  rcases h.kind with ⟨-, -, hflags⟩ | ⟨p, -, -, hflags⟩
  · rw [← hflags] at hlive
    exact hlive.1
  · rw [← hflags] at hlive
    exact hlive.2

theorem insertLocked_cases (alloc : InsertAlloc) (g : KnfcTrackCtx)
    (pid parentPid rootPid : Handle) (flags : Ulong) (image : Option UnicodeString) :
    knFcTrackInsertLocked alloc g pid parentPid rootPid flags image =
        (statusInsufficientResources, g) ∨
      knFcTrackInsertLocked alloc g pid parentPid rootPid flags image =
        (statusSuccess,
          { g with
            buckets := trackLayout.insertHead g.buckets
              ⟨pid, parentPid, rootPid, flags, image.getD .empty⟩
            entryCount := g.entryCount + 1 }) := by
  rw [insertLocked_eq]
  split
  · exact Or.inr (insertLocked_ok g pid parentPid rootPid flags image)
  · exact Or.inl rfl

theorem classify_cases (alloc : InsertAlloc) (g : KnfcTrackCtx) (isRoot : Bool)
    (pid parentPid : Handle) (image : Option UnicodeString) (extra : Ulong) :
    classifyLocked alloc g isRoot pid parentPid image extra = (g, none) ∨
      ∃ push, Pushes g isRoot pid parentPid image extra push ∧
        classifyLocked alloc g isRoot pid parentPid image extra =
          ({ g with
              buckets := trackLayout.insertHead g.buckets push.entry
              entryCount := g.entryCount + 1 }, some push) := by
  have hno : ntSuccess statusInsufficientResources = false := by decide
  have hyes : ntSuccess statusSuccess = true := by decide
  cases hf : knFcTrackFindLocked g pid with
  | some e => exact Or.inl (classify_present hf)
  | none =>
    cases isRoot with
    | true =>
      rcases insertLocked_cases alloc g pid parentPid pid (knFcTrackRoot ||| extra) image with
        hi | hi
      · exact Or.inl (by simp [classifyLocked, hf, hi, hno])
      · refine Or.inr ⟨⟨.created, pid, parentPid, pid, knFcTrackRoot ||| extra, image⟩,
          ⟨hf, rfl, rfl, rfl, Or.inl ⟨rfl, rfl, rfl⟩⟩, ?_⟩
        simp [classifyLocked, hf, hi, hyes, ProcessPush.entry]
    | false =>
      cases hp : knFcTrackFindLocked g parentPid with
      | none => exact Or.inl (classify_miss hf hp)
      | some p =>
        rcases insertLocked_cases alloc g pid parentPid p.rootPid (knFcTrackChild ||| extra)
          image with hi | hi
        · exact Or.inl (by simp [classifyLocked, hf, hp, hi, hno])
        · refine Or.inr ⟨⟨.created, pid, parentPid, p.rootPid, knFcTrackChild ||| extra, image⟩,
            ⟨hf, rfl, rfl, rfl, Or.inr ⟨p, hp, rfl, rfl⟩⟩, ?_⟩
          simp [classifyLocked, hf, hp, hi, hyes, ProcessPush.entry]

end Classify

theorem xor_of_root {e : KnfcTrackEntry} {o : Origin} (h : e.flags = knFcTrackRoot ||| o.extraFlags) :
    e.IsRoot ∧ ¬ e.IsChild := by
  unfold KnfcTrackEntry.IsRoot KnfcTrackEntry.IsChild
  rw [h]
  cases o <;> decide

theorem xor_of_child {e : KnfcTrackEntry} {o : Origin}
    (h : e.flags = knFcTrackChild ||| o.extraFlags) : e.IsChild ∧ ¬ e.IsRoot := by
  unfold KnfcTrackEntry.IsRoot KnfcTrackEntry.IsChild
  rw [h]
  cases o <;> decide

namespace LineageSystem

variable {T : Type*} {up : Wchar → Wchar}

structure Rooted (up : Wchar → Wchar) (s : LineageSystem T) : Prop where
  wf : trackLayout.Wf s.table.buckets
  traced : AllTraced up s.log
  live : ∀ pid e, knFcTrackFindLocked s.table pid = some e → Logged s.log pid e

theorem rooted_init : (init T).Rooted up where
  wf := Layout.wf_empty
  traced later i past h := by
    rcases List.nil_eq_append_iff.mp h with ⟨-, h⟩
    cases h
  live pid e h := by cases h

/-- The parent that a child insertion finds has a logged insertion of its own. -/
theorem Rooted.traced_push {s : LineageSystem T} (h : s.Rooted up) {c : Classification}
    {push : ProcessPush} (hp : Pushes s.table (imageMatches up c.roots c.image) c.pid c.parentPid
      c.image c.origin.extraFlags push) : Traced up s.log ⟨push, c.roots, s.table⟩ := by
  rcases hp.kind with ⟨hmatch, hroot, hflags⟩ | ⟨p, hfind, hroot, hflags⟩
  · have hx := xor_of_root (e := push.entry) hflags
    have hpid : push.entry.pid = push.entry.rootPid := hp.pid_eq.trans hroot.symm
    exact ⟨.root hx.1 (by rw [hp.image_eq]; exact hmatch) hpid rfl, Or.inl hx⟩
  · have hx := xor_of_child (e := push.entry) hflags
    obtain ⟨kept, parent, older, hlog, rfl, hkept⟩ := h.live c.parentPid p hfind
    have hkey : parent.entry.pid = c.parentPid :=
      Layout.key_of_find (show trackLayout.find s.table.buckets c.parentPid = _ from hfind)
    have hparent := (h.traced kept parent older hlog).1
    refine ⟨.child hx.1 hlog (by rw [hkey]; exact hkept) (by rw [hkey]; exact hfind)
      (hp.parentPid_eq.trans hkey.symm) hroot ?_, Or.inr hx⟩
    rwa [show (⟨push, c.roots, s.table⟩ : Insertion).entry.rootPid = parent.entry.rootPid
      from hroot]

theorem Rooted.afterExit {s : LineageSystem T} (h : s.Rooted up) (pid : Handle) :
    (s.afterExit pid).Rooted up := by
  cases hf : knFcTrackFindLocked s.table pid with
  | none =>
    have hsame : s.afterExit pid = s := by
      simp [LineageSystem.afterExit, knFcMarkExited, hf]
    rwa [hsame]
  | some e =>
    have hpush : (knFcMarkExited s.table pid).2.isSome = true := by simp [knFcMarkExited, hf]
    obtain ⟨push, hpush⟩ := Option.isSome_iff_exists.mp hpush
    simp only [LineageSystem.afterExit, hpush, markExited_some hf]
    refine ⟨h.wf.unlink pid, h.traced.cons (by rintro _ ⟨⟩), fun pid' e' hfind => ?_⟩
    rw [findLocked_eq, h.wf.find_unlink] at hfind
    split at hfind
    · cases hfind
    · next hne => exact (h.live pid' e' hfind).cons fun heq => hne heq.symm

variable [DecidableEq T]

theorem Rooted.afterInsert {s : LineageSystem T} (h : s.Rooted up) (t : T) (alloc : InsertAlloc)
    (c : Classification) : (s.afterInsert up t alloc c).Rooted up := by
  rcases classify_cases alloc s.table (imageMatches up c.roots c.image) c.pid c.parentPid c.image
    c.origin.extraFlags with hc | ⟨push, hp, hc⟩
  · simp only [LineageSystem.afterInsert, knFcClassifyAndInsert, hc]
    exact ⟨h.wf, h.traced, h.live⟩
  · simp only [LineageSystem.afterInsert, knFcClassifyAndInsert, hc]
    have hlive := hp.live
    have hfree : trackLayout.find s.table.buckets (trackLayout.key push.entry) = none := by
      rw [show trackLayout.key push.entry = c.pid from hp.pid_eq]
      exact hp.free
    refine ⟨h.wf.insertHead hlive hfree, h.traced.cons ?_, fun pid e hfind => ?_⟩
    · rintro i ⟨⟩
      exact h.traced_push hp
    · rw [findLocked_insertHead hlive] at hfind
      split at hfind
      · obtain rfl := Option.some.inj hfind
        exact ⟨[], ⟨push, c.roots, s.table⟩, s.log, rfl, rfl, by simp⟩
      · exact (h.live pid e hfind).cons id

theorem Rooted.step {s t : LineageSystem T} {a : LineageAction T} (h : s.Rooted up)
    (hs : lineageStep up s a = some t) : t.Rooted up := by
  cases a with
  | addRoot alloc path =>
    obtain rfl := Option.some.inj hs
    exact ⟨h.wf, h.traced, h.live⟩
  | clearRoots =>
    obtain rfl := Option.some.inj hs
    exact ⟨h.wf, h.traced, h.live⟩
  | classify t origin pid parentPid image =>
    simp only [lineageStep] at hs
    split at hs
    · cases hs
    · obtain rfl := Option.some.inj hs
      exact ⟨h.wf, h.traced, h.live⟩
  | insert t alloc =>
    obtain ⟨c, -, rfl⟩ := Option.map_eq_some_iff.mp hs
    exact h.afterInsert t alloc c
  | exit pid =>
    obtain rfl := Option.some.inj hs
    exact h.afterExit pid
  | stop =>
    obtain rfl := Option.some.inj hs
    exact ⟨Layout.wf_empty, h.traced.cons (by rintro _ ⟨⟩), fun pid e hfind => by cases hfind⟩

end LineageSystem

section Runs

variable {T : Type*} [DecidableEq T] {up : Wchar → Wchar}

/-- Every insertion of a run has a lineage to the process its `RootPid` names and one
of the two flags, and every entry in the table is a logged insertion. -/
theorem insertions_have_lineage (s : LineageSystem T)
    (h : Reachable (lineageStep up) (LineageSystem.init T) s) :
    (∀ later i past, s.log = later ++ .inserted i :: past →
      Lineage up i.entry.rootPid past i ∧ Xor i.entry.IsRoot i.entry.IsChild) ∧
      ∀ pid e, knFcTrackFindLocked s.table pid = some e → Logged s.log pid e := by
  have hr : s.Rooted up :=
    h.invariant (fun _ _ _ hi hs => hi.step hs) LineageSystem.rooted_init
  exact ⟨hr.traced, hr.live⟩

/-- A snapshot thread classifies a child while a notification still classifies its
parent; the parent exits before the run ends. -/
def orphanRun : List (LineageAction Bool) :=
  [.addRoot true (.inRoot 'a'), .classify true .notification 8 4 (some (.inRoot 'a')),
    .classify false .snapshot 12 8 none, .insert true .ok, .insert false .ok, .exit 8]

theorem insertions_have_lineage_orphan :
    ∃ s i past, exec (lineageStep id) (LineageSystem.init Bool) orphanRun = some s ∧
      s.log = .removed 8 :: .inserted i :: past ∧
      Lineage id i.entry.rootPid past i ∧ Xor i.entry.IsRoot i.entry.IsChild :=
  ⟨_, _, _, rfl, rfl,
    (@insertions_have_lineage Bool _ id _ ⟨orphanRun, rfl⟩).1 [.removed 8] _ _ rfl⟩

end Runs

end KnFileCatcher

import KnFileCatcher.ExitDefer

/-! Every accepted exit record is removed and freed once, and shutdown cannot hang:
one invariant carries ownership, order, wakeup and the phases of the stop. -/

namespace KnFileCatcher

open Runs

def ExitWorkerPc.held : ExitWorkerPc → List KnfcExitDefer
  | .popped e | .push e | .free e => [e]
  | _ => []

/-- The record in hand once it may have been pushed. -/
def ExitWorkerPc.handled : ExitWorkerPc → List KnfcExitDefer
  | .free e => [e]
  | _ => []

/-- Inside the drain loop, which the worker enters and leaves through the event. -/
def ExitWorkerPc.draining : ExitWorkerPc → Bool
  | .drain | .popped _ | .push _ | .free _ => true
  | _ => false

def ExitStopPc.held : ExitStopPc → List KnfcExitDefer
  | .free e => [e]
  | _ => []

def ExitStopPc.closed : ExitStopPc → Bool
  | .notCalled | .testRunning | .close => false
  | _ => true

def ExitStopPc.announced : ExitStopPc → Bool
  | .notCalled | .testRunning | .close | .signal => false
  | _ => true

def ExitStopPc.joined : ExitStopPc → Bool
  | .drain | .free _ | .returned => true
  | _ => false

def DeferPc.carries : DeferPc → Bool
  | .testRunning | .allocate | .insert => true
  | .signal | .free => false

theorem DeferPc.ne_signal_of_carries {pc : DeferPc} (h : pc.carries = true) : pc ≠ .signal := by
  rintro rfl
  cases h

namespace ExitDeferSystem

variable {P : Type*}

/-- The caller has inserted its record and not yet set the event. -/
def Owes (s : ExitDeferSystem P) (p : P) : Prop := ∃ e, s.callers p = some (e, .signal)

def WorkerBlocked (s : ExitDeferSystem P) : Prop :=
  s.worker = .waiting ∧ () ∈ s.ctx.event.waiters

/-- The flags that the stop has set and the thread it has joined. -/
structure Phases (s : ExitDeferSystem P) : Prop where
  stop_eq : s.ctx.stop = s.stopper.closed
  running_eq : s.ctx.running = !s.stopper.closed
  thread : s.stopper.joined = false → s.ctx.thread = true
  exited : s.worker = .exited → s.stopper.closed = true
  joined : s.stopper.joined = true → s.worker = .exited
  drained : s.stopper = .returned → s.ctx.list = []

/-- Where each accepted record is. -/
structure Records (s : ExitDeferSystem P) : Prop where
  listed : s.ctx.history.accepted = s.ctx.history.removed ++ s.ctx.list
  owned : s.ctx.history.removed = s.ctx.history.freed ++ (s.worker.held ++ s.stopper.held)
  pushed : s.ctx.history.pushed.Sublist (s.ctx.history.freed ++ s.worker.handled)

structure Wakeups (s : ExitDeferSystem P) : Prop where
  owed : s.ctx.list ≠ [] → s.ctx.event.signaled = false → ∃ p, s.Owes p
  released : s.ctx.event.signaled = true → s.ctx.event.waiters = ∅
  draining : s.worker.draining = true → s.ctx.event.signaled = true
  waiting : s.worker = .waiting → s.ctx.event.signaled = false → () ∈ s.ctx.event.waiters
  woken : s.stopper.announced = true → s.worker = .wait ∨ s.worker = .waiting →
    s.ctx.event.signaled = true

theorem phases_init : (init P).Phases where
  stop_eq := rfl
  running_eq := rfl
  thread _ := rfl
  exited h := by cases h
  joined h := by cases h
  drained h := by cases h

theorem records_init : (init P).Records := ⟨rfl, rfl, List.Sublist.refl _⟩

theorem wakeups_init : (init P).Wakeups where
  owed h := absurd rfl h
  released h := by cases h
  draining h := by cases h
  waiting h := by cases h
  woken h := by cases h

structure Sound (s : ExitDeferSystem P) : Prop extends s.Phases, s.Records, s.Wakeups

theorem sound_init : (init P).Sound := ⟨phases_init, records_init, wakeups_init⟩

variable {s t : ExitDeferSystem P}

theorem Phases.not_joined (h : s.Phases) (hw : s.worker ≠ .exited) : s.stopper.joined = false := by
  by_contra hj
  exact hw (h.joined (by simpa using hj))

theorem Phases.stopper_held (h : s.Phases) (hw : s.worker ≠ .exited) : s.stopper.held = [] := by
  have hj := h.not_joined hw
  cases hst : s.stopper with
  | free e =>
    rw [hst] at hj
    cases hj
  | _ => rfl

theorem not_announced {pc : ExitStopPc} (h : pc.closed = false) : pc.announced = false := by
  cases pc <;> first | rfl | cases h

/-- What a step of `knFcExitDeferEnqueue` does: the record stays with its caller (or was
refused before), is refused, is inserted, or is announced. -/
theorem knFcExitDeferEnqueue_cases (g : KnfcExitCtx) (alloc : Bool) (e : KnfcExitDefer)
    (pc : DeferPc) :
    ((knFcExitDeferEnqueue g alloc e pc).1 = g ∧ pc ≠ .signal ∧
        (knFcExitDeferEnqueue g alloc e pc).2.any DeferPc.carries = pc.carries) ∨
      ((knFcExitDeferEnqueue g alloc e pc).1 = g.refuse e ∧ pc.carries = true ∧
        (knFcExitDeferEnqueue g alloc e pc).2.any DeferPc.carries = false) ∨
      (g.running = true ∧ g.stop = false ∧ pc.carries = true ∧ knFcExitDeferEnqueue g alloc e pc =
        ({ g with
            list := g.list ++ [e]
            history := { g.history with accepted := g.history.accepted ++ [e] } },
          some .signal)) ∨
      (pc = .signal ∧
        knFcExitDeferEnqueue g alloc e pc = ({ g with event := g.event.set }, none)) := by
  cases pc with
  | insert =>
    by_cases hc : g.running = false ∨ g.stop = true
    · exact Or.inr (Or.inl ⟨by simp [knFcExitDeferEnqueue, hc], rfl, by
        simp [knFcExitDeferEnqueue, hc, DeferPc.carries]⟩)
    · have hrun : g.running = true := by simpa using fun h => hc (Or.inl h)
      have hstop : g.stop = false := by simpa using fun h => hc (Or.inr h)
      exact Or.inr (Or.inr (Or.inl ⟨hrun, hstop, rfl, by
        simp [knFcExitDeferEnqueue, hrun, hstop]⟩))
  | signal => exact Or.inr (Or.inr (Or.inr ⟨rfl, rfl⟩))
  | testRunning =>
    cases hrun : g.running with
    | true => exact Or.inl ⟨by simp [knFcExitDeferEnqueue, hrun], by simp, by
        simp [knFcExitDeferEnqueue, hrun, DeferPc.carries]⟩
    | false => exact Or.inr (Or.inl ⟨by simp [knFcExitDeferEnqueue, hrun], rfl, by
        simp [knFcExitDeferEnqueue, hrun]⟩)
  | allocate =>
    cases alloc with
    | true => exact Or.inl ⟨rfl, by simp, rfl⟩
    | false => exact Or.inr (Or.inl ⟨rfl, rfl, rfl⟩)
  | free => exact Or.inl ⟨rfl, by simp, rfl⟩

theorem exitWorkerMove_flags {g g' : KnfcExitCtx} {pc pc' : ExitWorkerPc}
    (h : ExitWorkerMove g pc g' pc') : g'.stop = g.stop ∧ g'.running = g.running ∧
      g'.thread = g.thread ∧ (pc' = .exited → g.stop = true) := by
  cases h with
  | leave hstop => exact ⟨rfl, rfl, rfl, fun _ => hstop⟩
  | _ => exact ⟨rfl, rfl, rfl, fun he => by cases he⟩

theorem Phases.stop {g : KnfcExitCtx} {pc : ExitStopPc} (hs : s.Phases)
    (h : knFcExitDeferStop s.ctx s.worker s.stopper = some (g, pc)) :
    ({ s with ctx := g, stopper := pc } : ExitDeferSystem P).Phases := by
  obtain ⟨hstop, hrunning, hthread, hexited, hjoined, -⟩ := hs
  have hmove := exitStopMove h
  generalize s.stopper = place at hmove hstop hrunning hthread hexited hjoined
  cases hmove with
  | stopped hnot =>
    rw [hnot] at hrunning
    cases hrunning
  | noThread hnot =>
    rw [hthread rfl] at hnot
    cases hnot
  | close => exact ⟨rfl, rfl, hthread, fun _ => rfl, hjoined, fun he => by cases he⟩
  | join hw =>
    exact ⟨hstop, hrunning, fun hj => (by cases hj), fun _ => rfl, fun _ => hw,
      fun he => by cases he⟩
  | empty hlist =>
    exact ⟨hstop, hrunning, fun hj => (by cases hj), fun _ => rfl, hjoined, fun _ => hlist⟩
  | pop | free =>
    exact ⟨hstop, hrunning, fun hj => (by cases hj), fun _ => rfl, hjoined,
      fun he => by cases he⟩
  | call | running | signal | thread =>
    exact ⟨hstop, hrunning, hthread, hexited, hjoined, fun he => by cases he⟩

/-- A worker step moves no record, removes the head, pushes the one in hand, or frees it. -/
theorem knFcExitDeferWorker_records {g g' : KnfcExitCtx} {pc pc' : ExitWorkerPc}
    (h : knFcExitDeferWorker g pc = some (g', pc')) :
    (g'.list = g.list ∧ g'.history = g.history ∧ pc'.held = pc.held ∧
        pc.handled.Sublist pc'.handled) ∨
      (∃ e rest, pc = .drain ∧ g.list = e :: rest ∧ g' = g.removeHead e rest ∧ pc' = .popped e) ∨
      (∃ e, pc = .push e ∧ pc' = .free e ∧
        g' = { g with history := { g.history with pushed := g.history.pushed ++ [e] } }) ∨
      (∃ e, pc = .free e ∧ pc' = .drain ∧ g' = g.free e) := by
  cases exitWorkerMove h with
  | pop e rest hlist => exact Or.inr (Or.inl ⟨e, rest, rfl, hlist, rfl, rfl⟩)
  | push e => exact Or.inr (Or.inr (Or.inl ⟨e, rfl, rfl, rfl⟩))
  | free e => exact Or.inr (Or.inr (Or.inr ⟨e, rfl, rfl, rfl⟩))
  | _ => exact Or.inl ⟨rfl, rfl, rfl, List.nil_sublist _⟩

theorem Records.worker {g : KnfcExitCtx} {pc : ExitWorkerPc} (hs : s.Records) (hp : s.Phases)
    (h : knFcExitDeferWorker s.ctx s.worker = some (g, pc)) :
    ({ s with ctx := g, worker := pc } : ExitDeferSystem P).Records := by
  obtain ⟨hlisted, howned, hpushed⟩ := hs
  have hheld : s.stopper.held = [] := hp.stopper_held fun he => by rw [he] at h; cases h
  rcases knFcExitDeferWorker_records h with ⟨hlist, hhist, hpc, hhandled⟩ |
    ⟨e, rest, hpc, hlist, rfl, rfl⟩ | ⟨e, hpc, rfl, rfl⟩ | ⟨e, hpc, rfl, rfl⟩
  · refine ⟨?_, ?_, ?_⟩
    · rw [hhist, hlist]
      exact hlisted
    · rw [hhist, hpc]
      exact howned
    · rw [hhist]
      exact hpushed.trans (List.Sublist.append (.refl _) hhandled)
  · rw [hpc] at howned hpushed
    refine ⟨?_, ?_, hpushed⟩
    · simp [KnfcExitCtx.removeHead, hlisted, hlist]
    · simp only [KnfcExitCtx.removeHead, howned, hheld]
      simp [ExitWorkerPc.held]
  · rw [hpc] at howned hpushed
    refine ⟨hlisted, howned, ?_⟩
    exact List.Sublist.append (by simpa [ExitWorkerPc.handled] using hpushed) (.refl _)
  · rw [hpc] at howned hpushed
    refine ⟨hlisted, ?_, by simpa [KnfcExitCtx.free, ExitWorkerPc.handled] using hpushed⟩
    simpa [KnfcExitCtx.free, hheld, ExitWorkerPc.held] using howned

/-- So does a step of the stop, which pushes nothing. -/
theorem knFcExitDeferStop_records {g g' : KnfcExitCtx} {worker : ExitWorkerPc}
    {pc pc' : ExitStopPc} (h : knFcExitDeferStop g worker pc = some (g', pc')) :
    (g'.list = g.list ∧ g'.history = g.history ∧ pc'.held = pc.held) ∨
      (∃ e rest, pc = .drain ∧ g.list = e :: rest ∧ g' = g.removeHead e rest ∧ pc' = .free e) ∨
      (∃ e, pc = .free e ∧ pc' = .drain ∧ g' = g.free e) := by
  cases exitStopMove h with
  | pop e rest hlist => exact Or.inr (Or.inl ⟨e, rest, rfl, hlist, rfl, rfl⟩)
  | free e => exact Or.inr (Or.inr ⟨e, rfl, rfl, rfl⟩)
  | _ => exact Or.inl ⟨rfl, rfl, rfl⟩

theorem Records.stop {g : KnfcExitCtx} {pc : ExitStopPc} (hs : s.Records) (hp : s.Phases)
    (h : knFcExitDeferStop s.ctx s.worker s.stopper = some (g, pc)) :
    ({ s with ctx := g, stopper := pc } : ExitDeferSystem P).Records := by
  obtain ⟨hlisted, howned, hpushed⟩ := hs
  rcases knFcExitDeferStop_records h with ⟨hlist, hhist, hpc⟩ | ⟨e, rest, hpc, hlist, rfl, rfl⟩ |
    ⟨e, hpc, rfl, rfl⟩
  · refine ⟨?_, ?_, ?_⟩
    · rw [hhist, hlist]
      exact hlisted
    · rw [hhist, hpc]
      exact howned
    · rw [hhist]
      exact hpushed
  · have hw : s.worker = .exited := hp.joined (by rw [hpc]; rfl)
    rw [hpc, hw] at howned
    refine ⟨?_, ?_, hpushed⟩
    · simp [KnfcExitCtx.removeHead, hlisted, hlist]
    · simp only [KnfcExitCtx.removeHead, howned, hw]
      simp [ExitWorkerPc.held, ExitStopPc.held]
  · have hw : s.worker = .exited := hp.joined (by rw [hpc]; rfl)
    rw [hpc, hw] at howned
    rw [hw] at hpushed
    refine ⟨hlisted, ?_, ?_⟩
    · simpa [KnfcExitCtx.free, hw, ExitWorkerPc.held, ExitStopPc.held] using howned
    · rw [hw]
      simp only [KnfcExitCtx.free, ExitWorkerPc.handled, List.append_nil] at hpushed ⊢
      exact hpushed.trans (List.sublist_append_left _ _)

variable [DecidableEq P]

theorem Phases.step {a : ExitDeferAction P} (hs : s.Phases) (h : exitDeferStep s a = some t) :
    t.Phases := by
  cases a with
  | call p e =>
    obtain ⟨-, rfl⟩ := exitDeferStep_call h
    exact { hs with }
  | caller p alloc =>
    obtain ⟨e, pc, -, rfl⟩ := exitDeferStep_caller h
    rcases knFcExitDeferEnqueue_cases s.ctx alloc e pc with ⟨hctx, -⟩ | ⟨hctx, -⟩ |
      ⟨-, hstop, -, he⟩ | ⟨-, he⟩
    · rw [hctx]
      exact { hs with }
    · rw [hctx]
      exact { hs with }
    · rw [he]
      refine { hs with drained := fun hret => ?_ }
      have hopen : s.stopper.closed = false := hs.stop_eq.symm.trans hstop
      rw [show s.stopper = .returned from hret] at hopen
      cases hopen
    · rw [he]
      exact { hs with }
  | worker =>
    obtain ⟨g, pc, hw, rfl⟩ := exitDeferStep_worker h
    have hrun : s.worker ≠ .exited := by
      intro he
      rw [he] at hw
      cases hw
    have hj := hs.not_joined hrun
    have hret : s.stopper ≠ .returned := by
      intro he
      rw [he] at hj
      cases hj
    obtain ⟨hstop, hrunning, hthread, hexit⟩ := exitWorkerMove_flags (exitWorkerMove hw)
    exact ⟨hstop.trans hs.stop_eq, hrunning.trans hs.running_eq,
      fun _ => hthread.trans (hs.thread hj), fun he => hs.stop_eq ▸ hexit he,
      fun h => absurd (hj ▸ h) (by simp), fun he => absurd he hret⟩
  | stop =>
    obtain ⟨g, pc, hst, rfl⟩ := exitDeferStep_stop h
    exact hs.stop hst

theorem Records.step {a : ExitDeferAction P} (hs : s.Records) (hp : s.Phases)
    (h : exitDeferStep s a = some t) : t.Records := by
  obtain ⟨hlisted, howned, hpushed⟩ := hs
  cases a with
  | call p e =>
    obtain ⟨-, rfl⟩ := exitDeferStep_call h
    exact ⟨hlisted, howned, hpushed⟩
  | caller p alloc =>
    obtain ⟨e, pc, -, rfl⟩ := exitDeferStep_caller h
    rcases knFcExitDeferEnqueue_cases s.ctx alloc e pc with ⟨hctx, -⟩ | ⟨hctx, -⟩ |
      ⟨-, -, -, he⟩ | ⟨-, he⟩
    · rw [hctx]
      exact ⟨hlisted, howned, hpushed⟩
    · rw [hctx]
      exact ⟨hlisted, howned, hpushed⟩
    · rw [he]
      exact ⟨by simp [hlisted], howned, hpushed⟩
    · rw [he]
      exact ⟨hlisted, howned, hpushed⟩
  | worker =>
    obtain ⟨g, pc, hw, rfl⟩ := exitDeferStep_worker h
    exact Records.worker ⟨hlisted, howned, hpushed⟩ hp hw
  | stop =>
    obtain ⟨g, pc, hst, rfl⟩ := exitDeferStep_stop h
    exact Records.stop ⟨hlisted, howned, hpushed⟩ hp hst

theorem Owes.update {p q : P} {c : Option (KnfcExitDefer × DeferPc)} {g : KnfcExitCtx}
    (h : s.Owes q) (hqp : q ≠ p) :
    ({ s with ctx := g, callers := Function.update s.callers p c } : ExitDeferSystem P).Owes q := by
  obtain ⟨e, he⟩ := h
  exact ⟨e, by simpa [hqp] using he⟩

theorem Wakeups.call {p : P} {e : KnfcExitDefer} (hs : s.Wakeups)
    (h : exitDeferStep s (.call p e) = some t) : t.Wakeups := by
  obtain ⟨hidle, rfl⟩ := exitDeferStep_call h
  refine { hs with owed := fun hne hsig => ?_ }
  obtain ⟨q, hq⟩ := hs.owed hne hsig
  have hqp : q ≠ p := by
    rintro rfl
    obtain ⟨e', he'⟩ := hq
    rw [hidle] at he'
    cases he'
  exact ⟨q, hq.update hqp⟩

theorem Wakeups.caller {p : P} {alloc : Bool} (hs : s.Wakeups)
    (h : exitDeferStep s (.caller p alloc) = some t) : t.Wakeups := by
  obtain ⟨e, pc, hp, rfl⟩ := exitDeferStep_caller h
  have howed (hpc : pc ≠ .signal) (c : Option (KnfcExitDefer × DeferPc)) (g : KnfcExitCtx)
      (hne : s.ctx.list ≠ []) (hsig : s.ctx.event.signaled = false) :
      ∃ q, ({ s with ctx := g, callers := Function.update s.callers p c } :
        ExitDeferSystem P).Owes q := by
    obtain ⟨q, hq⟩ := hs.owed hne hsig
    have hqp : q ≠ p := by
      rintro rfl
      obtain ⟨e', he'⟩ := hq
      rw [hp] at he'
      cases he'
      exact hpc rfl
    exact ⟨q, hq.update hqp⟩
  rcases knFcExitDeferEnqueue_cases s.ctx alloc e pc with ⟨hctx, hpc, -⟩ | ⟨hctx, hc, -⟩ |
    ⟨-, -, -, he⟩ | ⟨-, he⟩
  · rw [hctx]
    exact { hs with owed := howed hpc _ _ }
  · rw [hctx]
    exact { hs with owed := howed (DeferPc.ne_signal_of_carries hc) _ _ }
  · rw [he]
    exact { hs with owed := fun _ _ => ⟨p, e, by simp⟩ }
  · rw [he]
    exact ⟨fun _ hsig => (by cases hsig), fun _ => rfl, fun _ => rfl, fun _ hsig => (by cases hsig),
      fun _ _ => rfl⟩

/-- Inside the drain loop the event stays set; it is cleared by the lock section that
finds the list empty. -/
theorem Wakeups.worker (hs : s.Wakeups) (hp : s.Phases)
    (h : exitDeferStep s .worker = some t) : t.Wakeups := by
  obtain ⟨g, pc, hw, rfl⟩ := exitDeferStep_worker h
  obtain ⟨howed, hreleased, hdraining, hwaiting, hwoken⟩ := hs
  have hmove := exitWorkerMove hw
  generalize s.worker = place at hmove hdraining hwaiting hwoken
  -- where the event is set, nothing else is owed
  have hset (hsig : s.ctx.event.signaled = true) {g : KnfcExitCtx}
      (hevent : g.event = s.ctx.event) (pc : ExitWorkerPc) :
      ({ s with ctx := g, worker := pc } : ExitDeferSystem P).Wakeups := by
    have hno (hns : g.event.signaled = false) : False := by
      rw [hevent, hsig] at hns
      cases hns
    refine ⟨fun _ hns => (hno hns).elim, ?_, fun _ => ?_, fun _ hns => (hno hns).elim, fun _ _ => ?_⟩
    · rw [hevent]
      exact hreleased
    · exact hevent ▸ hsig
    · exact hevent ▸ hsig
  cases hmove with
  | leave hstop =>
    exact ⟨howed, hreleased, fun hd => (by cases hd), fun hd => (by cases hd),
      fun _ hwt => (by rcases hwt with hwt | hwt <;> cases hwt)⟩
  | stay hstop =>
    refine ⟨howed, hreleased, fun hd => (by cases hd), fun hd => (by cases hd), fun ha => ?_⟩
    rw [not_announced (hp.stop_eq.symm.trans hstop)] at ha
    cases ha
  | pass hsig => exact hset hsig rfl _
  | block hns =>
    refine ⟨howed, fun hs => ?_, fun hd => (by cases hd), fun _ _ => Finset.mem_insert_self () _,
      fun ha _ => hwoken ha (Or.inl rfl)⟩
    exact absurd (hns.symm.trans hs) Bool.false_ne_true
  | wake hout =>
    refine hset ?_ rfl _
    by_contra hns
    exact hout (hwaiting rfl (by simpa using hns))
  | clear hlist =>
    exact ⟨fun hne => absurd hlist hne, fun hs => (by cases hs), fun hd => (by cases hd),
      fun hd => (by cases hd), fun _ hwt => (by rcases hwt with hwt | hwt <;> cases hwt)⟩
  | pop | drop | keep | push | free =>
    refine hset (hdraining rfl) ?_ _
    rfl

/-- The stop sets the event in the step that makes it announced, and takes records only
from a list it has closed. -/
theorem knFcExitDeferStop_wakeups {g g' : KnfcExitCtx} {worker : ExitWorkerPc}
    {pc pc' : ExitStopPc} (hrun : pc = .testRunning → g.running = true)
    (h : knFcExitDeferStop g worker pc = some (g', pc')) :
    (g'.event = g.event ∧ pc'.announced = pc.announced ∧ (g'.list ≠ [] → g.list ≠ [])) ∨
      g'.event = g.event.set := by
  cases exitStopMove h with
  | signal => exact Or.inr rfl
  | stopped hnot =>
    rw [hrun rfl] at hnot
    cases hnot
  | pop e rest hlist => exact Or.inl ⟨rfl, rfl, fun _ => by simp [hlist]⟩
  | _ => exact Or.inl ⟨rfl, rfl, id⟩

theorem Wakeups.stop (hs : s.Wakeups) (hp : s.Phases)
    (h : exitDeferStep s .stop = some t) : t.Wakeups := by
  obtain ⟨g, pc, hst, rfl⟩ := exitDeferStep_stop h
  obtain ⟨howed, hreleased, hdraining, hwaiting, hwoken⟩ := hs
  have hrun (hpc : s.stopper = .testRunning) : s.ctx.running = true := by
    rw [hp.running_eq, hpc]
    rfl
  rcases knFcExitDeferStop_wakeups hrun hst with ⟨he, ha, hlist⟩ | he
  · refine ⟨fun hne hns => howed (hlist hne) (he ▸ hns), ?_, ?_, ?_, ?_⟩
    · rw [he]
      exact hreleased
    · rw [he]
      exact hdraining
    · rw [he]
      exact hwaiting
    · rw [he, ha]
      exact hwoken
  · have hsig : g.event.signaled = true := by rw [he]; rfl
    have hnone : g.event.waiters = ∅ := by rw [he]; rfl
    have hno (hns : g.event.signaled = false) : False := by
      rw [hsig] at hns
      cases hns
    exact ⟨fun _ hns => (hno hns).elim, fun _ => hnone, fun _ => hsig,
      fun _ hns => (hno hns).elim, fun _ _ => hsig⟩

theorem Sound.step {a : ExitDeferAction P} (hs : s.Sound) (h : exitDeferStep s a = some t) :
    t.Sound := by
  refine ⟨hs.toPhases.step h, hs.toRecords.step hs.toPhases h, ?_⟩
  cases a with
  | call p e => exact hs.toWakeups.call h
  | caller p alloc => exact hs.toWakeups.caller h
  | worker => exact hs.toWakeups.worker hs.toPhases h
  | stop => exact hs.toWakeups.stop hs.toPhases h

theorem reachable_sound (h : Reachable exitDeferStep (init P) s) : s.Sound :=
  h.invariant (fun _ _ _ hs ht => hs.step ht) sound_init

end ExitDeferSystem

end KnFileCatcher

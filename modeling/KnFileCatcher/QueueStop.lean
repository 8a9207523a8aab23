import KnFileCatcher.Runs
import KnFileCatcher.Queue

/-! Whether the unload thread can wait forever for a worker that no one wakes. -/

namespace KnFileCatcher

open Runs

def UnloadPc.Started (pc : UnloadPc) : Prop := pc ≠ .notCalled

def UnloadPc.Signaled : UnloadPc → Prop
  | .join _ | .drain | .done => True
  | _ => False

instance (pc : UnloadPc) : Decidable pc.Signaled := by
  cases pc <;> simp only [UnloadPc.Signaled] <;> infer_instance

section Stop

variable {P : Type*}

/-- The unload thread joins a worker that blocks on a cleared event, and no
continuation sets the event. -/
def QueueSystem.Stuck [DecidableEq P] (up : Wchar → Wchar) (s : QueueSystem P) : Prop :=
  ∃ i, s.unload = .join i ∧ s.workers i = .waiting ∧ i ∈ s.queue.event.waiters ∧
    ∀ t, Reachable (queueStep up) s t → t.queue.event.signaled = false

/-- A worker finds the list empty and clears the event, after the unload thread
set it and while another worker stands between its `Stop` test and its wait. -/
def ClearsBeforeWait (s : QueueSystem P) : QueueAction P → Prop
  | .worker i _ => s.workers i = .drain ∧ s.queue.list = [] ∧ s.unload.Signaled ∧
      ∃ j, s.workers j = .wait
  | _ => False

instance (s : QueueSystem P) (a : QueueAction P) : Decidable (ClearsBeforeWait s a) := by
  cases a <;> simp only [ClearsBeforeWait] <;> infer_instance

/-- Once the last set is done no worker waits for another one, and any worker
about to wait finds the event signaled. -/
structure LastSetHeard (s : QueueSystem P) : Prop where
  stopped : s.unload.Started → s.queue.stop = true
  released : s.unload.Signaled → s.queue.event.waiters = ∅
  heard : s.unload.Signaled → ∀ j, s.workers j = .wait → s.queue.event.signaled = true

theorem lastSetHeard_init : LastSetHeard (QueueSystem.init P) where
  stopped h := absurd rfl h
  released h := h.elim
  heard h := h.elim

theorem UnloadPc.Signaled.started {pc : UnloadPc} (h : pc.Signaled) : pc.Started := by
  rintro rfl
  exact h

variable {up : Wchar → Wchar}

theorem LastSetHeard.worker {s : QueueSystem P} {i : WorkerId} {env : SendEnv} {q : KnfcQueue}
    {pc : WorkerPc} (hi : LastSetHeard s) (hg : ¬ ClearsBeforeWait s (.worker i env))
    (h : knFcQueueWorker up s.queue env i (s.workers i) = some (q, pc)) :
    LastSetHeard { s with queue := q, workers := Function.update s.workers i pc } := by
  obtain ⟨hstop, hwait, hevent⟩ := knFcQueueWorker_event h
  have hold : s.unload.Signaled → ∀ j, Function.update s.workers i pc j = .wait →
      s.workers j = .wait := by
    intro hu j hj
    by_cases hji : j = i
    · have hpc : pc = .wait := by simpa [hji] using hj
      have hrun : s.queue.stop = false := (hwait hpc).1
      simp [hi.stopped hu.started] at hrun
    · simpa [hji] using hj
  refine ⟨fun hu => hstop.trans (hi.stopped hu), fun hu => ?_, fun hu j hj => ?_⟩
  · rcases hevent with he | ⟨-, -, he⟩ | ⟨hw, hns, -⟩
    · exact (congrArg Waits.Event.waiters he).trans (hi.released hu)
    · exact (congrArg Waits.Event.waiters he).trans (hi.released hu)
    · simp [hi.heard hu i hw] at hns
  · have hwj := hold hu j hj
    rcases hevent with he | ⟨hd, hl, -⟩ | ⟨hw, hns, -⟩
    · exact (congrArg Waits.Event.signaled he).trans (hi.heard hu j hwj)
    -- a clear while `j` has not waited yet is what the guard excludes
    · exact absurd ⟨hd, hl, hu, j, hwj⟩ hg
    · simp [hi.heard hu i hw] at hns

theorem knFcQueueUninitialize_signaled {q q' : KnfcQueue} {workers : WorkerId → WorkerPc}
    {pc pc' : UnloadPc} (h : knFcQueueUninitialize q workers pc = some (q', pc')) :
    pc'.Signaled → pc = .signal ∨ pc.Signaled := by
  cases pc with
  | awaitRundown =>
    by_cases hz : q.producerRundown.holders = 0
    · obtain ⟨-, rfl⟩ : q = q' ∧ UnloadPc.signal = pc' := by
        simpa [hz, knFcQueueUninitialize] using h
      exact fun hs => Or.inr hs
    · simp [hz, knFcQueueUninitialize] at h
  | notCalled | closeRundown =>
    obtain ⟨-, rfl⟩ : _ ∧ _ = pc' := by simpa [Prod.mk.injEq, knFcQueueUninitialize] using h
    exact fun hs => Or.inr hs
  | signal => exact fun _ => Or.inl rfl
  | _ => exact fun _ => Or.inr trivial

theorem LastSetHeard.unload {s : QueueSystem P} {q : KnfcQueue} {pc : UnloadPc}
    (hi : LastSetHeard s)
    (h : knFcQueueUninitialize s.queue s.workers s.unload = some (q, pc)) :
    LastSetHeard { s with queue := q, unload := pc } := by
  have hsig := knFcQueueUninitialize_signaled h
  rcases knFcQueueUninitialize_event h with ⟨hn, hstop, -, rfl⟩ | ⟨hn, hstop, hevent⟩
  · exact ⟨fun _ => hstop, fun hu => hu.elim, fun hu => hu.elim⟩
  · refine ⟨fun _ => hstop.trans (hi.stopped hn), fun hu => ?_, fun hu j hj => ?_⟩
    · rcases hevent with ⟨-, he⟩ | ⟨hns, he⟩
      · exact (congrArg Waits.Event.waiters he).trans rfl
      · exact (congrArg Waits.Event.waiters he).trans
          (hi.released ((hsig hu).resolve_left hns))
    · rcases hevent with ⟨-, he⟩ | ⟨hns, he⟩
      · exact (congrArg Waits.Event.signaled he).trans rfl
      · exact (congrArg Waits.Event.signaled he).trans
          (hi.heard ((hsig hu).resolve_left hns) j hj)

variable [DecidableEq P]

theorem LastSetHeard.call {s t : QueueSystem P} {p : P} {pc : ProducerPc} (hi : LastSetHeard s)
    (h : s.call p pc = some t) : LastSetHeard t := by
  obtain rfl := s.call_eq_some h
  exact ⟨hi.stopped, hi.released, hi.heard⟩

theorem LastSetHeard.producer {s : QueueSystem P} {p : P} {env : SendEnv} {q : KnfcQueue}
    {pc : ProducerPc} (hi : LastSetHeard s)
    (h : producerStep s.queue env (s.producers p) = some (q, pc)) :
    LastSetHeard { s with queue := q, producers := Function.update s.producers p pc } := by
  obtain ⟨hstop, hevent⟩ := producerStep_event h
  refine ⟨fun hu => hstop.trans (hi.stopped hu), fun hu => ?_, fun hu j hj => ?_⟩
  · rcases hevent with he | he
    · exact (congrArg Waits.Event.waiters he).trans (hi.released hu)
    · exact (congrArg Waits.Event.waiters he).trans rfl
  · rcases hevent with he | he
    · exact (congrArg Waits.Event.signaled he).trans (hi.heard hu j hj)
    · exact (congrArg Waits.Event.signaled he).trans rfl

theorem LastSetHeard.step {s t : QueueSystem P} {a : QueueAction P} (hi : LastSetHeard s)
    (hg : ¬ ClearsBeforeWait s a) (h : queueStep up s a = some t) : LastSetHeard t := by
  cases a with
  | callEnqueue p r => exact hi.call h
  | callSendSync p r => exact hi.call h
  | producer p env =>
    obtain ⟨q, pc, hs, rfl⟩ := queueStep_producer h
    exact hi.producer hs
  | worker i env =>
    obtain ⟨q, pc, hs, rfl⟩ := queueStep_worker h
    exact hi.worker hg hs
  | unload =>
    obtain ⟨q, pc, hs, rfl⟩ := queueStep_unload h
    exact hi.unload hs

/-- In a run without such a clear, the unload thread never joins a worker that
stays blocked. -/
theorem unload_never_stuck {as : List (QueueAction P)} {s : QueueSystem P}
    (hg : Guarded (queueStep up) (fun s a => ¬ ClearsBeforeWait s a) (QueueSystem.init P) as)
    (h : exec (queueStep up) (QueueSystem.init P) as = some s) : ¬ s.Stuck up := by
  have hi : LastSetHeard s :=
    hg.invariant (fun _ _ _ hi hok hs => hi.step hok hs) h lastSetHeard_init
  rintro ⟨i, hu, -, hw, -⟩
  rw [hi.released (by rw [hu]; trivial)] at hw
  exact absurd hw (Finset.notMem_empty i)

end Stop

section Runs

/-! Two shutdowns of a queue that no one uses. -/

def quietEnv : SendEnv where
  exclude := knFcExcludeInitialize
  alloc := true
  connected := false
  outcome := ⟨statusSuccess, none⟩

def workerSteps (n : Nat) (i : WorkerId) : List (QueueAction Empty) :=
  List.replicate n (.worker i quietEnv)

def quietShutdown : List (QueueAction Empty) :=
  workerSteps 2 0 ++ workerSteps 2 1 ++ workerSteps 2 2 ++ workerSteps 2 3 ++
    List.replicate 4 .unload ++ workerSteps 3 1

theorem unload_never_stuck_quiet :
    ∃ s, exec (queueStep id) (QueueSystem.init Empty) quietShutdown = some s ∧
      s.unload = .join 0 ∧ ¬ s.Stuck id :=
  ⟨_, rfl, rfl, unload_never_stuck
    (show Guarded _ _ (QueueSystem.init Empty) quietShutdown by decide) rfl⟩

/-- Worker 0 has passed its `Stop` test and not yet waited; worker 1 was waiting,
is woken by the last set, and clears the event again. -/
def lostWakeup : List (QueueAction Empty) :=
  workerSteps 1 0 ++ workerSteps 2 1 ++ List.replicate 4 .unload ++ workerSteps 3 1 ++
    workerSteps 1 2 ++ workerSteps 1 3 ++ workerSteps 1 0

theorem lostWakeup_final {s : QueueSystem Empty}
    (h : exec (queueStep id) (QueueSystem.init Empty) lostWakeup = some s)
    (a : QueueAction Empty) : queueStep id s a = none := by
  obtain rfl := Option.some.inj h
  cases a with
  | callEnqueue p r => exact p.elim
  | callSendSync p r => exact p.elim
  | producer p env => exact p.elim
  | worker i env => fin_cases i <;> rfl
  | unload => rfl

theorem unload_can_be_stuck :
    ¬ ∀ s, Reachable (queueStep id) (QueueSystem.init Empty) s → ¬ s.Stuck id := by
  intro hall
  obtain ⟨s, hs⟩ : ∃ s, exec (queueStep id) (QueueSystem.init Empty) lostWakeup = some s := ⟨_, rfl⟩
  have hstill (t : QueueSystem Empty) (ht : Reachable (queueStep id) s t) : t = s :=
    ht.invariant (I := fun t => t = s)
      (fun u a v hu hv => by subst hu; simp [lostWakeup_final hs a] at hv) rfl
  refine hall s ⟨lostWakeup, hs⟩ ⟨0, ?_, ?_, ?_, fun t ht => ?_⟩
  · obtain rfl := Option.some.inj hs
    rfl
  · obtain rfl := Option.some.inj hs
    rfl
  · obtain rfl := Option.some.inj hs
    decide
  · rw [hstill t ht]
    obtain rfl := Option.some.inj hs
    rfl

end Runs

end KnFileCatcher

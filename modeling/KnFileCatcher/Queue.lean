import KnFileCatcher.Waits
import KnFileCatcher.Send

/-! The backup queue as a machine: producers, the four workers and the unload
thread take atomic steps on one `KNFC_QUEUE`. -/

namespace KnFileCatcher

def knfcQueueMaxDepth : Int := 16384
abbrev knfcQueueWorkerCount : Nat := 4

instance : NeZero knfcQueueWorkerCount := ⟨by decide⟩

abbrev WorkerId := Fin knfcQueueWorkerCount

inductive ItemFate where
  | sent
  | failed
  | excluded
  | discarded
deriving DecidableEq

/-- What happened so far. The driver keeps none of it. -/
structure QueueHistory where
  allocated : List KnfcQueueItem
  accepted : List KnfcQueueItem
  finished : List (KnfcQueueItem × ItemFate)
  freed : List KnfcQueueItem
  handed : List KnfcBackupRequest
deriving DecidableEq

/-- The queue of backup requests. Its counters, LONG and LONG64 in the driver, are taken not to
wrap. -/
structure KnfcQueue where
  producerRundown : Waits.Rundown
  list : List KnfcQueueItem
  event : Waits.Event WorkerId
  depth : Int
  dropped : Nat
  sent : Nat
  sendFailed : Nat
  syncSent : Nat
  syncFailed : Nat
  nextId : Nat
  stop : Bool
  history : QueueHistory

def knFcQueueInitialize : KnfcQueue where
  producerRundown := .create
  list := []
  event := .create
  depth := 0
  dropped := 0
  sent := 0
  sendFailed := 0
  syncSent := 0
  syncFailed := 0
  nextId := 0
  stop := false
  history := ⟨[], [], [], [], []⟩

inductive EnqueuePc where
  | enter
  | stopTest
  | increment
  | allocate
  | undo
  | countDrop
  | insert (item : KnfcQueueItem)
  | signal
  | release (status : NtStatus)
deriving DecidableEq

/-- A step of `knFcQueueEnqueue`; on the right, the status it returns. The item
is allocated and numbered in one step, since nothing else sees it before. -/
def knFcQueueEnqueue (q : KnfcQueue) (alloc : Bool) (r : CleanupRequest) :
    EnqueuePc → KnfcQueue × (EnqueuePc ⊕ NtStatus)
  | .enter =>
    if r.path.length = 0 then (q, .inr statusInvalidParameter)
    else match q.producerRundown.acquire with
      | none => (q, .inr statusDeviceNotReady)
      | some rundown => ({ q with producerRundown := rundown }, .inl .stopTest)
  | .stopTest => (q, .inl (if q.stop then .release statusDeviceNotReady else .increment))
  | .increment =>
    ({ q with depth := q.depth + 1 },
      .inl (if q.depth + 1 > knfcQueueMaxDepth then .undo else .allocate))
  | .allocate =>
    if alloc then
      let item : KnfcQueueItem := ⟨q.nextId + 1, r⟩
      ({ q with
          nextId := q.nextId + 1
          history := { q.history with allocated := q.history.allocated ++ [item] } },
        .inl (.insert item))
    else (q, .inl .undo)
  | .undo => ({ q with depth := q.depth - 1 }, .inl .countDrop)
  | .countDrop =>
    ({ q with dropped := q.dropped + 1 }, .inl (.release statusInsufficientResources))
  | .insert item =>
    ({ q with
        list := q.list ++ [item]
        history := { q.history with accepted := q.history.accepted ++ [item] } },
      .inl .signal)
  | .signal => ({ q with event := q.event.set }, .inl (.release statusSuccess))
  | .release status =>
    ({ q with producerRundown := q.producerRundown.release }, .inr status)

inductive SyncPc where
  | enter
  | stopTest
  | allocate
  | exchange (requestId : Nat)
  | effects (rest : List SendEffect) (status : NtStatus)
  | release (status : NtStatus)
deriving DecidableEq

/-- What one thread of a tracked process, in a cleanup callback, is doing. A
synchronous send waits for its fallback in `nested`. -/
inductive ProducerPc where
  | idle (last : Option NtStatus)
  | enqueue (r : CleanupRequest) (pc : EnqueuePc)
  | sync (r : CleanupRequest) (pc : SyncPc)
  | nested (r fallback : CleanupRequest) (pc : EnqueuePc) (rest : List SendEffect)
      (status : NtStatus)
deriving DecidableEq

def KnfcQueue.perform (q : KnfcQueue) : SendEffect → KnfcQueue
  | .message msg _ =>
    { q with history := { q.history with handed := q.history.handed ++ [msg] } }
  | .sent => { q with sent := q.sent + 1 }
  | .sendFailed => { q with sendFailed := q.sendFailed + 1 }
  | .syncSent => { q with syncSent := q.syncSent + 1 }
  | .syncFailed => { q with syncFailed := q.syncFailed + 1 }
  | .excluded => q
  | .enqueue _ => q

def syncStep (q : KnfcQueue) (env : SendEnv) (r : CleanupRequest) :
    SyncPc → KnfcQueue × ProducerPc
  | .enter =>
    if r.path.length = 0 then (q, .idle (some statusInvalidParameter))
    else match q.producerRundown.acquire with
      | none => (q, .idle (some statusDeviceNotReady))
      | some rundown => ({ q with producerRundown := rundown }, .sync r .stopTest)
  | .stopTest => (q, .sync r (if q.stop then .release statusDeviceNotReady else .allocate))
  | .allocate =>
    if env.alloc then ({ q with nextId := q.nextId + 1 }, .sync r (.exchange (q.nextId + 1)))
    else (q, .sync r (.effects [.syncFailed] statusInsufficientResources))
  | .exchange requestId =>
    let (effects, status) := syncExchange env requestId r
    (q, .sync r (.effects effects status))
  | .effects [] status => (q, .sync r (.release status))
  | .effects (.enqueue fallback :: rest) status => (q, .nested r fallback .enter rest status)
  | .effects (effect :: rest) status => (q.perform effect, .sync r (.effects rest status))
  | .release status =>
    ({ q with producerRundown := q.producerRundown.release }, .idle (some status))

def producerStep (q : KnfcQueue) (env : SendEnv) : ProducerPc → Option (KnfcQueue × ProducerPc)
  | .idle _ => none
  | .enqueue r pc =>
    match knFcQueueEnqueue q env.alloc r pc with
    | (q', .inl pc') => some (q', .enqueue r pc')
    | (q', .inr status) => some (q', .idle (some status))
  | .sync r pc => some (syncStep q env r pc)
  | .nested r fallback pc rest status =>
    match knFcQueueEnqueue q env.alloc fallback pc with
    | (q', .inl pc') => some (q', .nested r fallback pc' rest status)
    | (q', .inr _) => some (q', .sync r (.effects rest status))

inductive WorkerPc where
  | test
  | wait
  | waiting
  | drain
  | popped (item : KnfcQueueItem)
  | send (item : KnfcQueueItem)
  | effects (item : KnfcQueueItem) (rest : List SendEffect)
  | free (item : KnfcQueueItem)
  | discard (item : KnfcQueueItem)
  | exited
deriving DecidableEq

def SendEffect.fate : SendEffect → Option ItemFate
  | .sent => some .sent
  | .sendFailed => some .failed
  | .excluded => some .excluded
  | _ => none

def KnfcQueue.finish (q : KnfcQueue) (item : KnfcQueueItem) (fate : Option ItemFate) : KnfcQueue :=
  { q with history := { q.history with
      finished := q.history.finished ++ (fate.map fun f => (item, f)).toList } }

def KnfcQueue.free (q : KnfcQueue) (item : KnfcQueueItem) : KnfcQueue :=
  { q with history := { q.history with freed := q.history.freed ++ [item] } }

/-- A step of worker `i`; `none` while the event has not released it, and once it
has left its loop. -/
def knFcQueueWorker (up : Wchar → Wchar) (q : KnfcQueue) (env : SendEnv) (i : WorkerId) :
    WorkerPc → Option (KnfcQueue × WorkerPc)
  | .test => some (q, if q.stop then .exited else .wait)
  | .wait =>
    if q.event.signaled then some (q, .drain)
    else some ({ q with event := q.event.block i }, .waiting)
  | .waiting => if i ∈ q.event.waiters then none else some (q, .drain)
  | .drain =>
    match q.list with
    | item :: list => some ({ q with list := list, depth := q.depth - 1 }, .popped item)
    | [] => some ({ q with event := q.event.clear }, .test)
  | .popped item => some (q, if q.stop then .discard item else .send item)
  | .send item => some (q, .effects item (knFcQueueSendOne up env item))
  | .effects item [] => some (q, .free item)
  | .effects item (effect :: rest) =>
    some ((q.perform effect).finish item effect.fate, .effects item rest)
  | .free item => some (q.free item, .drain)
  | .discard item => some ((q.finish item (some .discarded)).free item, .drain)
  | .exited => none

inductive UnloadPc where
  | notCalled
  | closeRundown
  | awaitRundown
  | signal
  | join (i : WorkerId)
  | drain
  | done
deriving DecidableEq

def UnloadPc.afterJoin (i : WorkerId) : UnloadPc :=
  if h : i.val + 1 < knfcQueueWorkerCount then .join ⟨i.val + 1, h⟩ else .drain

def knFcQueueUninitialize (q : KnfcQueue) (workers : WorkerId → WorkerPc) :
    UnloadPc → Option (KnfcQueue × UnloadPc)
  | .notCalled => some ({ q with stop := true }, .closeRundown)
  | .closeRundown =>
    some ({ q with producerRundown := q.producerRundown.close }, .awaitRundown)
  | .awaitRundown => if q.producerRundown.holders = 0 then some (q, .signal) else none
  | .signal => some ({ q with event := q.event.set }, .join 0)
  | .join i => if workers i = .exited then some (q, .afterJoin i) else none
  | .drain =>
    match q.list with
    | item :: list =>
      some ((({ q with list := list, depth := q.depth - 1 } : KnfcQueue).finish item
        (some .discarded)).free item, .drain)
    | [] => some (q, .done)
  | .done => none

structure QueueSystem (P : Type*) where
  queue : KnfcQueue
  producers : P → ProducerPc
  workers : WorkerId → WorkerPc
  unload : UnloadPc

def QueueSystem.init (P : Type*) : QueueSystem P where
  queue := knFcQueueInitialize
  producers := fun _ => .idle none
  workers := fun _ => .test
  unload := .notCalled

inductive QueueAction (P : Type*) where
  | callEnqueue (p : P) (r : CleanupRequest)
  | callSendSync (p : P) (r : CleanupRequest)
  | producer (p : P) (env : SendEnv)
  | worker (i : WorkerId) (env : SendEnv)
  | unload

section Step

variable {P : Type*} [DecidableEq P]

def QueueSystem.call (s : QueueSystem P) (p : P) (pc : ProducerPc) : Option (QueueSystem P) :=
  match s.producers p with
  | .idle _ => some { s with producers := Function.update s.producers p pc }
  | _ => none

def queueStep (up : Wchar → Wchar) (s : QueueSystem P) : QueueAction P → Option (QueueSystem P)
  | .callEnqueue p r => s.call p (.enqueue r .enter)
  | .callSendSync p r => s.call p (.sync r .enter)
  | .producer p env => (producerStep s.queue env (s.producers p)).map fun (q, pc) =>
      { s with queue := q, producers := Function.update s.producers p pc }
  | .worker i env => (knFcQueueWorker up s.queue env i (s.workers i)).map fun (q, pc) =>
      { s with queue := q, workers := Function.update s.workers i pc }
  | .unload =>
    Option.map (fun (q, pc) => { s with queue := q, unload := pc }) <|
      knFcQueueUninitialize s.queue s.workers s.unload

theorem QueueSystem.call_eq_some {s t : QueueSystem P} {p : P} {pc : ProducerPc}
    (h : s.call p pc = some t) : t = { s with producers := Function.update s.producers p pc } := by
  unfold QueueSystem.call at h
  split at h
  · exact (Option.some.inj h).symm
  · exact absurd h (by simp)

theorem queueStep_producer {up : Wchar → Wchar} {s t : QueueSystem P} {p : P} {env : SendEnv}
    (h : queueStep up s (.producer p env) = some t) :
    ∃ q pc, producerStep s.queue env (s.producers p) = some (q, pc) ∧
      t = { s with queue := q, producers := Function.update s.producers p pc } := by
  obtain ⟨⟨q, pc⟩, hs, rfl⟩ := Option.map_eq_some_iff.mp h
  exact ⟨q, pc, hs, rfl⟩

theorem queueStep_worker {up : Wchar → Wchar} {s t : QueueSystem P} {i : WorkerId}
    {env : SendEnv} (h : queueStep up s (.worker i env) = some t) :
    ∃ q pc, knFcQueueWorker up s.queue env i (s.workers i) = some (q, pc) ∧
      t = { s with queue := q, workers := Function.update s.workers i pc } := by
  obtain ⟨⟨q, pc⟩, hs, rfl⟩ := Option.map_eq_some_iff.mp h
  exact ⟨q, pc, hs, rfl⟩

theorem queueStep_unload {up : Wchar → Wchar} {s t : QueueSystem P}
    (h : queueStep up s .unload = some t) :
    ∃ q pc, knFcQueueUninitialize s.queue s.workers s.unload = some (q, pc) ∧
      t = { s with queue := q, unload := pc } := by
  obtain ⟨⟨q, pc⟩, hs, rfl⟩ := Option.map_eq_some_iff.mp h
  exact ⟨q, pc, hs, rfl⟩

theorem producerStep_enqueue {q q' : KnfcQueue} {env : SendEnv} {r : CleanupRequest}
    {pc : EnqueuePc} {pc' : ProducerPc} (h : producerStep q env (.enqueue r pc) = some (q', pc')) :
    q' = (knFcQueueEnqueue q env.alloc r pc).1 ∧
      ((∃ epc, (knFcQueueEnqueue q env.alloc r pc).2 = .inl epc ∧ pc' = .enqueue r epc) ∨
        ∃ status, (knFcQueueEnqueue q env.alloc r pc).2 = .inr status ∧
          pc' = .idle (some status)) := by
  simp only [producerStep] at h
  split at h <;> next heq =>
    obtain ⟨rfl, rfl⟩ := Prod.mk.inj (Option.some.inj h)
    simp [heq]

theorem producerStep_sync {q q' : KnfcQueue} {env : SendEnv} {r : CleanupRequest} {pc : SyncPc}
    {pc' : ProducerPc} (h : producerStep q env (.sync r pc) = some (q', pc')) :
    q' = (syncStep q env r pc).1 ∧ pc' = (syncStep q env r pc).2 := by
  rw [producerStep, Option.some.injEq] at h
  simp [h]

theorem producerStep_nested {q q' : KnfcQueue} {env : SendEnv} {r fallback : CleanupRequest}
    {pc : EnqueuePc} {rest : List SendEffect} {status : NtStatus} {pc' : ProducerPc}
    (h : producerStep q env (.nested r fallback pc rest status) = some (q', pc')) :
    q' = (knFcQueueEnqueue q env.alloc fallback pc).1 ∧
      ((∃ epc, (knFcQueueEnqueue q env.alloc fallback pc).2 = .inl epc ∧
          pc' = .nested r fallback epc rest status) ∨
        ∃ result, (knFcQueueEnqueue q env.alloc fallback pc).2 = .inr result ∧
          pc' = .sync r (.effects rest status)) := by
  simp only [producerStep] at h
  split at h <;> next heq =>
    obtain ⟨rfl, rfl⟩ := Prod.mk.inj (Option.some.inj h)
    simp [heq]

end Step

section Event

/-! What each party does to the stop flag and the event. -/

theorem knFcQueueEnqueue_event (q : KnfcQueue) (alloc : Bool) (r : CleanupRequest)
    (pc : EnqueuePc) :
    (knFcQueueEnqueue q alloc r pc).1.stop = q.stop ∧
      ((knFcQueueEnqueue q alloc r pc).1.event = q.event ∨
        (knFcQueueEnqueue q alloc r pc).1.event = q.event.set) := by
  cases pc with
  | enter =>
    simp only [knFcQueueEnqueue]
    split
    · simp
    · split <;> simp
  | allocate =>
    simp only [knFcQueueEnqueue]
    split <;> simp
  | _ => simp [knFcQueueEnqueue]

@[simp] theorem perform_stop (q : KnfcQueue) (e : SendEffect) : (q.perform e).stop = q.stop := by
  cases e <;> rfl

@[simp] theorem perform_event (q : KnfcQueue) (e : SendEffect) :
    (q.perform e).event = q.event := by
  cases e <;> rfl

@[simp] theorem perform_list (q : KnfcQueue) (e : SendEffect) : (q.perform e).list = q.list := by
  cases e <;> rfl

@[simp] theorem perform_nextId (q : KnfcQueue) (e : SendEffect) :
    (q.perform e).nextId = q.nextId := by
  cases e <;> rfl

@[simp] theorem perform_accepted (q : KnfcQueue) (e : SendEffect) :
    (q.perform e).history.accepted = q.history.accepted := by
  cases e <;> rfl

@[simp] theorem perform_finished (q : KnfcQueue) (e : SendEffect) :
    (q.perform e).history.finished = q.history.finished := by
  cases e <;> rfl

theorem syncStep_event (q : KnfcQueue) (env : SendEnv) (r : CleanupRequest) (pc : SyncPc) :
    (syncStep q env r pc).1.stop = q.stop ∧ (syncStep q env r pc).1.event = q.event := by
  cases pc with
  | enter =>
    simp only [syncStep]
    split
    · simp
    · split <;> simp
  | allocate =>
    simp only [syncStep]
    split <;> simp
  | effects rest status =>
    cases rest with
    | nil => simp [syncStep]
    | cons e rest => cases e <;> simp [syncStep]
  | _ => simp [syncStep]

theorem producerStep_event {q q' : KnfcQueue} {env : SendEnv} {pc pc' : ProducerPc}
    (h : producerStep q env pc = some (q', pc')) :
    q'.stop = q.stop ∧ (q'.event = q.event ∨ q'.event = q.event.set) := by
  cases pc with
  | idle last => simp [producerStep] at h
  | sync r pc =>
    obtain ⟨rfl, -⟩ := producerStep_sync h
    obtain ⟨hs, he⟩ := syncStep_event q env r pc
    exact ⟨hs, Or.inl he⟩
  | enqueue r pc =>
    obtain ⟨rfl, -⟩ := producerStep_enqueue h
    exact knFcQueueEnqueue_event q env.alloc r pc
  | nested r fallback pc rest status =>
    obtain ⟨rfl, -⟩ := producerStep_nested h
    exact knFcQueueEnqueue_event q env.alloc fallback pc

theorem knFcQueueWorker_event {up : Wchar → Wchar} {q q' : KnfcQueue} {env : SendEnv}
    {i : WorkerId} {pc pc' : WorkerPc} (h : knFcQueueWorker up q env i pc = some (q', pc')) :
    q'.stop = q.stop ∧ (pc' = .wait → q.stop = false ∧ q'.event = q.event) ∧
      (q'.event = q.event ∨
        (pc = .drain ∧ q.list = [] ∧ q'.event = q.event.clear) ∨
        (pc = .wait ∧ q.event.signaled = false ∧ q'.event = q.event.block i)) := by
  cases pc with
  | test =>
    obtain ⟨rfl, rfl⟩ : q = q' ∧ _ := by simpa [knFcQueueWorker] using h
    cases hs : q.stop <;> simp
  | wait =>
    cases hs : q.event.signaled with
    | true =>
      obtain ⟨rfl, rfl⟩ : q = q' ∧ _ := by simpa [knFcQueueWorker, hs] using h
      simp
    | false =>
      obtain ⟨rfl, rfl⟩ : _ = q' ∧ _ := by simpa [knFcQueueWorker, hs] using h
      simp
  | waiting =>
    by_cases hb : i ∈ q.event.waiters
    · simp [knFcQueueWorker, hb] at h
    · obtain ⟨rfl, rfl⟩ : q = q' ∧ _ := by simpa [knFcQueueWorker, hb] using h
      simp
  | drain =>
    cases hl : q.list with
    | nil =>
      obtain ⟨rfl, rfl⟩ : _ = q' ∧ _ := by simpa [knFcQueueWorker, hl] using h
      simp
    | cons item list =>
      obtain ⟨rfl, rfl⟩ : _ = q' ∧ _ := by simpa [knFcQueueWorker, hl] using h
      simp
  | popped item =>
    obtain ⟨rfl, rfl⟩ : q = q' ∧ _ := by simpa [knFcQueueWorker] using h
    cases hs : q.stop <;> simp
  | effects item rest =>
    cases rest with
    | nil =>
      obtain ⟨rfl, rfl⟩ : q = q' ∧ _ := by simpa [knFcQueueWorker] using h
      simp
    | cons e rest =>
      obtain ⟨rfl, rfl⟩ : _ = q' ∧ _ := by simpa [knFcQueueWorker] using h
      simp [KnfcQueue.finish]
  | exited => simp [knFcQueueWorker] at h
  | _ =>
    obtain ⟨rfl, rfl⟩ : _ = q' ∧ _ := by simpa [knFcQueueWorker] using h
    simp [KnfcQueue.finish, KnfcQueue.free]

theorem knFcQueueUninitialize_event {q q' : KnfcQueue} {workers : WorkerId → WorkerPc}
    {pc pc' : UnloadPc} (h : knFcQueueUninitialize q workers pc = some (q', pc')) :
    (pc = .notCalled ∧ q'.stop = true ∧ q'.event = q.event ∧ pc' = .closeRundown) ∨
    (pc ≠ .notCalled ∧ q'.stop = q.stop ∧
      ((pc = .signal ∧ q'.event = q.event.set) ∨ (pc ≠ .signal ∧ q'.event = q.event))) := by
  cases pc with
  | awaitRundown =>
    by_cases hz : q.producerRundown.holders = 0
    · obtain ⟨rfl, rfl⟩ : q = q' ∧ _ := by simpa [hz, knFcQueueUninitialize] using h
      simp
    · simp [hz, knFcQueueUninitialize] at h
  | join i =>
    by_cases hw : workers i = .exited
    · obtain ⟨rfl, rfl⟩ : q = q' ∧ _ := by simpa [hw, knFcQueueUninitialize] using h
      simp
    · simp [hw, knFcQueueUninitialize] at h
  | drain =>
    cases hl : q.list with
    | nil =>
      obtain ⟨rfl, rfl⟩ : q = q' ∧ _ := by simpa [hl, knFcQueueUninitialize] using h
      simp
    | cons item list =>
      obtain ⟨rfl, rfl⟩ : _ = q' ∧ _ := by simpa [hl, knFcQueueUninitialize] using h
      simp [KnfcQueue.finish, KnfcQueue.free]
  | done => cases h
  | _ =>
    obtain ⟨rfl, rfl⟩ : _ = q' ∧ _ := by simpa [Prod.mk.injEq, knFcQueueUninitialize] using h
    simp

end Event

end KnFileCatcher

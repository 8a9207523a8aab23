import KnFileCatcher.QueueDepth
import KnFileCatcher.QueueStop

/-! A request that the depth check refuses holds its unit of `Depth` until it gives
it back, and meanwhile another request may be refused for it. -/

namespace KnFileCatcher

open Runs Tally

/-- On the way to returning `STATUS_INSUFFICIENT_RESOURCES`. -/
def EnqueuePc.refused : EnqueuePc → Bool
  | .undo | .countDrop => true
  | .release status => status = statusInsufficientResources
  | _ => false

def ProducerPc.refused (pc : ProducerPc) : Bool := pc.enqueuePc.any EnqueuePc.refused

/-- About to make the depth check. -/
def ProducerPc.checking (pc : ProducerPc) : Bool := pc.enqueuePc = some .increment

/-- Refused, with its unit of `Depth` not yet given back. -/
def ProducerPc.undoing (pc : ProducerPc) : Bool := pc.enqueuePc = some .undo

section Refused

/-- A call that returns `STATUS_INSUFFICIENT_RESOURCES` was on its way there. -/
theorem knFcQueueEnqueue_returns {q : KnfcQueue} {alloc : Bool} {r : CleanupRequest}
    {pc : EnqueuePc}
    (h : (knFcQueueEnqueue q alloc r pc).2 = .inr statusInsufficientResources) :
    pc.refused = true := by
  cases pc with
  | enter =>
    simp only [knFcQueueEnqueue] at h
    split at h
    · exact absurd (Sum.inr.inj h) (by decide)
    · split at h
      · exact absurd (Sum.inr.inj h) (by decide)
      · cases h
  | allocate =>
    simp only [knFcQueueEnqueue] at h
    split at h <;> cases h
  | release status =>
    obtain rfl := Sum.inr.inj h
    rfl
  | _ => cases h

/-- Where items are allocated, only the depth check refuses. -/
theorem knFcQueueEnqueue_refused (q : KnfcQueue) (r : CleanupRequest) (pc : EnqueuePc) :
    (knFcQueueEnqueue q true r pc).2.getLeft?.any EnqueuePc.refused = true ↔
      (pc = .increment ∧ knfcQueueMaxDepth < q.depth + 1) ∨ pc = .undo ∨ pc = .countDrop := by
  cases pc with
  | enter =>
    simp only [knFcQueueEnqueue]
    split
    · simp
    · split <;> simp [EnqueuePc.refused]
  | stopTest =>
    simp only [knFcQueueEnqueue]
    split <;> simp [EnqueuePc.refused, statusDeviceNotReady, statusInsufficientResources]
  | increment =>
    by_cases hfull : q.depth + 1 > knfcQueueMaxDepth
    · simp [knFcQueueEnqueue, hfull, EnqueuePc.refused]
    · simp [knFcQueueEnqueue, hfull, EnqueuePc.refused]
  | signal =>
    simp [knFcQueueEnqueue, EnqueuePc.refused, statusSuccess, statusInsufficientResources]
  | _ => simp [knFcQueueEnqueue, EnqueuePc.refused]

theorem syncStep_refused (q : KnfcQueue) (env : SendEnv) (r : CleanupRequest) (pc : SyncPc) :
    (syncStep q env r pc).2.refused = false := by
  cases pc with
  | enter =>
    simp only [syncStep]
    split
    · rfl
    · split <;> rfl
  | allocate =>
    simp only [syncStep]
    split <;> rfl
  | effects rest status =>
    cases rest with
    | nil => rfl
    | cons e rest => cases e <;> rfl
  | _ => rfl

theorem producerStep_enqueuePc {q q' : KnfcQueue} {env : SendEnv} {pc pc' : ProducerPc}
    {epc : EnqueuePc} (h : producerStep q env pc = some (q', pc')) (hpc : pc.enqueuePc = some epc) :
    ∃ r, pc'.enqueuePc = (knFcQueueEnqueue q env.alloc r epc).2.getLeft? := by
  cases pc with
  | idle last => cases hpc
  | sync r pc => cases hpc
  | enqueue r pc =>
    obtain rfl : pc = epc := Option.some.inj hpc
    refine ⟨r, ?_⟩
    obtain ⟨-, ⟨epc', hepc, rfl⟩ | ⟨status, hret, rfl⟩⟩ := producerStep_enqueue h
    · rw [hepc]
      rfl
    · rw [hret]
      rfl
  | nested r fallback pc rest status =>
    obtain rfl : pc = epc := Option.some.inj hpc
    refine ⟨fallback, ?_⟩
    obtain ⟨-, ⟨epc', hepc, rfl⟩ | ⟨result, hret, rfl⟩⟩ := producerStep_nested h
    · rw [hepc]
      rfl
    · rw [hret]
      rfl

theorem producerStep_refused {q q' : KnfcQueue} {env : SendEnv} {pc pc' : ProducerPc}
    (ha : env.alloc = true) (h : producerStep q env pc = some (q', pc')) :
    pc'.refused = true ↔ (pc.checking = true ∧ knfcQueueMaxDepth < q.depth + 1) ∨
      pc.undoing = true ∨ pc.enqueuePc = some .countDrop := by
  unfold ProducerPc.checking ProducerPc.undoing
  cases hpc : pc.enqueuePc with
  | none =>
    have hno : pc'.refused = false := by
      cases pc with
      | idle last => cases h
      | sync r pc =>
        obtain ⟨-, rfl⟩ := producerStep_sync h
        exact syncStep_refused q env r pc
      | enqueue r epc => cases hpc
      | nested r fallback epc rest status => cases hpc
    simp [hno]
  | some epc =>
    obtain ⟨r, hr⟩ := producerStep_enqueuePc h hpc
    rw [ha] at hr
    simpa [ProducerPc.refused, hr] using knFcQueueEnqueue_refused q r epc

end Refused

section Room

variable {P : Type*}

/-- The requests in the list, and those past the depth check that are about to join
it. A request at its own depth check is neither. -/
noncomputable def QueueSystem.accepted (s : QueueSystem P) : ℕ :=
  s.queue.list.length + ({p | (s.producers p).admitted} : Set P).ncard

/-- The units of `Depth` held for requests that have been refused. -/
noncomputable def QueueSystem.undone (s : QueueSystem P) : ℕ :=
  ({p | (s.producers p).undoing} : Set P).ncard

theorem ProducerPc.reserved_iff (pc : ProducerPc) :
    pc.reserved = true ↔ pc.admitted = true ∨ pc.undoing = true := by
  cases hpc : pc.enqueuePc with
  | none => simp [ProducerPc.reserved, ProducerPc.admitted, ProducerPc.undoing, hpc]
  | some epc =>
    cases epc <;> simp [ProducerPc.reserved, ProducerPc.admitted, ProducerPc.undoing, hpc,
      EnqueuePc.reserved, EnqueuePc.admitted]

theorem ProducerPc.not_admitted_of_undoing {pc : ProducerPc} (h : pc.undoing = true) :
    pc.admitted = false := by
  have hpc : pc.enqueuePc = some .undo := by simpa [ProducerPc.undoing] using h
  simp [ProducerPc.admitted, hpc, EnqueuePc.admitted]

/-- `Depth` counts the refused requests with the accepted ones. -/
theorem reachable_depth_eq [DecidableEq P] {up : Wchar → Wchar} {s : QueueSystem P}
    (h : Reachable (queueStep up) (QueueSystem.init P) s) :
    s.queue.depth = s.accepted + s.undone := by
  obtain ⟨hr, hdepth⟩ := reachable_depth h
  have hsplit : {p | (s.producers p).reserved} =
      {p | (s.producers p).admitted} ∪ {p | (s.producers p).undoing} := by
    ext p
    exact ProducerPc.reserved_iff _
  have hfin := hr.finite_reserved
  rw [hsplit, Set.finite_union] at hfin
  have hdisjoint : Disjoint {p | (s.producers p).admitted} {p | (s.producers p).undoing} := by
    refine Set.disjoint_left.mpr fun p hadmitted hundoing => ?_
    have hno := ProducerPc.not_admitted_of_undoing hundoing
    exact absurd hadmitted (by simp [hno])
  rw [hsplit, Set.ncard_union_eq hdisjoint hfin.1 hfin.2] at hdepth
  rw [hdepth, QueueSystem.accepted, QueueSystem.undone]
  push_cast
  ring

end Room

section Checked

variable {P : Type*}

/-- The queue, and for each producer the state it made its last depth check in. -/
structure CheckedQueue (P : Type*) where
  system : QueueSystem P
  checkedAt : P → Option (QueueSystem P)

def CheckedQueue.init (P : Type*) : CheckedQueue P where
  system := QueueSystem.init P
  checkedAt := fun _ => none

variable [DecidableEq P] {up : Wchar → Wchar}

def CheckedQueue.note (c : CheckedQueue P) : QueueAction P → P → Option (QueueSystem P)
  | .producer p _ =>
    if (c.system.producers p).checking then Function.update c.checkedAt p (some c.system)
    else c.checkedAt
  | _ => c.checkedAt

def checkedStep (up : Wchar → Wchar) (c : CheckedQueue P) (a : QueueAction P) :
    Option (CheckedQueue P) :=
  (queueStep up c.system a).map fun s => ⟨s, c.note a⟩

theorem checkedStep_eq_some {c d : CheckedQueue P} {a : QueueAction P} :
    checkedStep up c a = some d ↔
      queueStep up c.system a = some d.system ∧ d.checkedAt = c.note a := by
  obtain ⟨s, checkedAt⟩ := d
  simp [checkedStep, eq_comm]

omit [DecidableEq P] in
/-- A refused producer found the limit reached by other requests at its depth check. -/
def CheckedQueue.RefusedAtCap (c : CheckedQueue P) : Prop :=
  ∀ p, (c.system.producers p).refused = true →
    ∃ s, c.checkedAt p = some s ∧ knfcQueueMaxDepth ≤ s.accepted

/-- A depth check finds the limit reached by accepted requests, or room beyond the
units still held for refused ones. -/
def CheckedQueue.RoomKept (c : CheckedQueue P) : QueueAction P → Prop
  | .producer p _ => (c.system.producers p).checking = true →
      knfcQueueMaxDepth ≤ c.system.accepted ∨
        c.system.accepted + c.system.undone < knfcQueueMaxDepth
  | _ => True

def QueueAction.Allocates : QueueAction P → Prop
  | .producer _ env => env.alloc = true
  | _ => True

theorem CheckedQueue.refusedAtCap_update {c : CheckedQueue P} (h : c.RefusedAtCap) {p : P}
    {q : KnfcQueue} {pc : ProducerPc} {checkedAt : P → Option (QueueSystem P)}
    (hother : ∀ p', p' ≠ p → checkedAt p' = c.checkedAt p') :
    CheckedQueue.RefusedAtCap ⟨{ c.system with
        queue := q, producers := Function.update c.system.producers p pc }, checkedAt⟩ ↔
      (pc.refused = true → ∃ s, checkedAt p = some s ∧ knfcQueueMaxDepth ≤ s.accepted) := by
  constructor
  · intro hall hrefused
    exact hall p (by simpa using hrefused)
  · intro hp p' hrefused
    by_cases hpp : p' = p
    · subst hpp
      exact hp (by simpa using hrefused)
    · obtain ⟨s, hs, hfull⟩ := h p' (by simpa [hpp] using hrefused)
      exact ⟨s, (hother p' hpp).trans hs, hfull⟩

theorem CheckedQueue.RefusedAtCap.producer {c : CheckedQueue P} (h : c.RefusedAtCap)
    (hreach : Reachable (queueStep up) (QueueSystem.init P) c.system) {p : P} {env : SendEnv}
    (ha : env.alloc = true) {q : KnfcQueue} {pc : ProducerPc}
    (hs : producerStep c.system.queue env (c.system.producers p) = some (q, pc)) :
    c.RoomKept (.producer p env) ↔ CheckedQueue.RefusedAtCap ⟨{ c.system with
      queue := q, producers := Function.update c.system.producers p pc },
        c.note (.producer p env)⟩ := by
  have hrefused := producerStep_refused ha hs
  have hdepth := reachable_depth_eq hreach
  cases hcheck : (c.system.producers p).checking with
  | true =>
    have hpc : (c.system.producers p).enqueuePc = some .increment := by
      simpa [ProducerPc.checking] using hcheck
    simp only [CheckedQueue.note, hcheck, if_true]
    rw [refusedAtCap_update h fun p' hp' => Function.update_of_ne hp' _ _]
    simp only [CheckedQueue.RoomKept, hcheck, forall_const, Function.update_self,
      Option.some.injEq, exists_eq_left', hrefused, ProducerPc.undoing, hpc, true_and]
    simp only [reduceCtorEq, decide_false, Bool.false_eq_true, or_false]
    omega
  | false =>
    have hold (hnew : pc.refused = true) : (c.system.producers p).refused = true := by
      rcases hrefused.mp hnew with ⟨htrue, -⟩ | hundo | hdrop
      · exact absurd htrue (by simp [hcheck])
      · have hpc : (c.system.producers p).enqueuePc = some .undo := by
          simpa [ProducerPc.undoing] using hundo
        simp [ProducerPc.refused, hpc, EnqueuePc.refused]
      · simp [ProducerPc.refused, hdrop, EnqueuePc.refused]
    simp only [CheckedQueue.note, hcheck, Bool.false_eq_true, if_false]
    rw [refusedAtCap_update h fun _ _ => rfl]
    simp only [CheckedQueue.RoomKept, hcheck, Bool.false_eq_true, false_implies, true_iff]
    exact fun hnew => h p (hold hnew)

theorem CheckedQueue.RefusedAtCap.step {c d : CheckedQueue P} {a : QueueAction P}
    (h : c.RefusedAtCap) (hreach : Reachable (queueStep up) (QueueSystem.init P) c.system)
    (ha : a.Allocates) (hs : checkedStep up c a = some d) : c.RoomKept a ↔ d.RefusedAtCap := by
  obtain ⟨hstep, hnote⟩ := checkedStep_eq_some.mp hs
  obtain ⟨t, checkedAt⟩ := d
  simp only at hstep hnote
  subst hnote
  have hcall {p : P} {pc : ProducerPc} (hpc : pc.refused = false)
      (ht : c.system.call p pc = some t) : CheckedQueue.RefusedAtCap ⟨t, c.checkedAt⟩ := by
    obtain rfl := c.system.call_eq_some ht
    exact (refusedAtCap_update (q := c.system.queue) h fun _ _ => rfl).mpr
      fun hnew => absurd hnew (by simp [hpc])
  cases a with
  | callEnqueue p r => exact iff_of_true trivial (hcall rfl hstep)
  | callSendSync p r => exact iff_of_true trivial (hcall rfl hstep)
  | producer p env =>
    obtain ⟨q, pc, hp, rfl⟩ := queueStep_producer hstep
    exact h.producer hreach ha hp
  | worker i env =>
    obtain ⟨q, pc, -, rfl⟩ := queueStep_worker hstep
    exact iff_of_true trivial h
  | unload =>
    obtain ⟨q, pc, -, rfl⟩ := queueStep_unload hstep
    exact iff_of_true trivial h

theorem producerStep_of_checking {q : KnfcQueue} {env : SendEnv} {pc : ProducerPc}
    (h : pc.checking = true) : (producerStep q env pc).isSome = true := by
  cases pc with
  | idle last => cases h
  | sync r pc => rfl
  | enqueue r epc =>
    simp only [producerStep]
    split <;> rfl
  | nested r fallback epc rest status =>
    simp only [producerStep]
    split <;> rfl

/-- Where allocations succeed, a run refuses requests only at the limit exactly when
no depth check of it finds the last of the room held for refused requests. -/
theorem refusals_at_cap_iff (up : Wchar → Wchar) (as : List (QueueAction P))
    (ha : ∀ a ∈ as, a.Allocates) :
    Guarded (checkedStep up) CheckedQueue.RoomKept (.init P) as ↔
      Always (checkedStep up) CheckedQueue.RefusedAtCap (.init P) as := by
  refine guarded_iff_always_of
    (I := fun c => Reachable (queueStep up) (QueueSystem.init P) c.system) ?_ ?_ ?_ as ha
    (.refl _) ?_
  · intro c a d hc hs
    exact hc.snoc (checkedStep_eq_some.mp hs).1
  · intro c a d hallocates hc hcap hs
    exact hcap.step hc hallocates hs
  · intro c a hnone
    cases a with
    | producer p env =>
      intro hcheck
      have hsome := @producerStep_of_checking c.system.queue env _ hcheck
      simp only [checkedStep, queueStep, Option.map_eq_none_iff] at hnone
      rw [hnone] at hsome
      cases hsome
    | _ => trivial
  · intro p hrefused
    cases hrefused

end Checked

section Burst

/-! Two producers at the limit and one worker: the unit of the first refused request
keeps out the second, after the worker has made room for it. -/

variable {P : Type*}

def producerSteps (n : Nat) (p : P) : List (QueueAction P) :=
  List.replicate n (.producer p quietEnv)

def callToCheck (p : P) : List (QueueAction P) := .callEnqueue p doomedFile :: producerSteps 2 p

def refusedCall (p : P) : List (QueueAction P) := callToCheck p ++ producerSteps 1 p

def wholeCall (p : P) : List (QueueAction P) := callToCheck p ++ producerSteps 5 p

/-- Between calls, with `n` requests in the list and no worker started. -/
structure QueueSystem.Filled (n : Nat) (s : QueueSystem P) : Prop where
  idle : ∀ p, ∃ last, s.producers p = .idle last
  workers : ∀ i, s.workers i = .test
  admits : s.queue.producerRundown.closing = false
  running : s.queue.stop = false
  signaled : 0 < n → s.queue.event.signaled = true
  length : s.queue.list.length = n
  depth : s.queue.depth = n

variable [DecidableEq P] {up : Wchar → Wchar}

theorem exec_callToCheck {s : QueueSystem P} {p : P} {last : Option NtStatus}
    (hidle : s.producers p = .idle last) (hadmits : s.queue.producerRundown.closing = false)
    (hrunning : s.queue.stop = false) :
    exec (queueStep up) s (callToCheck p) = some { s with
      queue := { s.queue with
        producerRundown := ⟨false, s.queue.producerRundown.holders + 1⟩ }
      producers := Function.update s.producers p (.enqueue doomedFile .increment) } := by
  have hpath : doomedFile.path.length ≠ 0 := by decide
  simp [callToCheck, producerSteps, exec, queueStep, QueueSystem.call, hidle, producerStep,
    knFcQueueEnqueue, Waits.Rundown.acquire, hadmits, hrunning, hpath]

theorem queueStep_check {s : QueueSystem P} {p : P} {r : CleanupRequest}
    (hpc : s.producers p = .enqueue r .increment) :
    queueStep up s (.producer p quietEnv) = some { s with
      queue := { s.queue with depth := s.queue.depth + 1 }
      producers := Function.update s.producers p (.enqueue r
        (if s.queue.depth + 1 > knfcQueueMaxDepth then .undo else .allocate)) } := by
  simp [queueStep, hpc, producerStep, knFcQueueEnqueue]

theorem exec_insertion {s : QueueSystem P} {p : P} {r : CleanupRequest}
    (hpc : s.producers p = .enqueue r .allocate) :
    exec (queueStep up) s (producerSteps 4 p) = some { s with
      queue := { s.queue with
        list := s.queue.list ++ [⟨s.queue.nextId + 1, r⟩]
        event := s.queue.event.set
        nextId := s.queue.nextId + 1
        producerRundown := s.queue.producerRundown.release
        history := { s.queue.history with
          allocated := s.queue.history.allocated ++ [⟨s.queue.nextId + 1, r⟩]
          accepted := s.queue.history.accepted ++ [⟨s.queue.nextId + 1, r⟩] } }
      producers := Function.update s.producers p (.idle (some statusSuccess)) } := by
  have ha : quietEnv.alloc = true := rfl
  simp [producerSteps, exec, queueStep, hpc, producerStep, knFcQueueEnqueue, ha]

theorem exec_wholeCall {s : QueueSystem P} {p : P} {last : Option NtStatus}
    (hidle : s.producers p = .idle last) (hadmits : s.queue.producerRundown.closing = false)
    (hrunning : s.queue.stop = false) (hroom : s.queue.depth + 1 ≤ knfcQueueMaxDepth) :
    exec (queueStep up) s (wholeCall p) = some { s with
      queue := { s.queue with
        list := s.queue.list ++ [⟨s.queue.nextId + 1, doomedFile⟩]
        event := s.queue.event.set
        depth := s.queue.depth + 1
        nextId := s.queue.nextId + 1
        producerRundown := ⟨false, s.queue.producerRundown.holders⟩
        history := { s.queue.history with
          allocated := s.queue.history.allocated ++ [⟨s.queue.nextId + 1, doomedFile⟩]
          accepted := s.queue.history.accepted ++ [⟨s.queue.nextId + 1, doomedFile⟩] } }
      producers := Function.update s.producers p (.idle (some statusSuccess)) } := by
  have hcheck : ¬ s.queue.depth + 1 > knfcQueueMaxDepth := not_lt.mpr hroom
  refine exec_trans (exec_callToCheck hidle hadmits hrunning) ?_
  refine exec_cons_eq_some.mpr ⟨_, queueStep_check (Function.update_self ..), ?_⟩
  simp only [hcheck, if_false]
  refine (exec_insertion (Function.update_self ..)).trans ?_
  simp [Waits.Rundown.release]

theorem QueueSystem.Filled.enqueue {n : Nat} {s : QueueSystem P} (h : s.Filled n)
    (up : Wchar → Wchar) (hn : (n : ℤ) < knfcQueueMaxDepth) (p : P) :
    ∃ t, exec (queueStep up) s (wholeCall p) = some t ∧ t.Filled (n + 1) := by
  obtain ⟨last, hidle⟩ := h.idle p
  have hroom : s.queue.depth + 1 ≤ knfcQueueMaxDepth := by
    have hdepth := h.depth
    omega
  refine ⟨_, exec_wholeCall hidle h.admits h.running hroom, ?_⟩
  refine ⟨fun p' => ?_, h.workers, rfl, h.running, fun _ => rfl, ?_, ?_⟩
  · by_cases hp : p' = p
    · subst hp
      exact ⟨_, Function.update_self ..⟩
    · obtain ⟨last', hlast⟩ := h.idle p'
      exact ⟨last', by simpa [hp] using hlast⟩
  · simp [h.length]
  · simp [h.depth]

/-- A producer that calls again and again fills the list up to the limit. -/
theorem exec_fill (up : Wchar → Wchar) (p : P) (n : Nat) (hn : (n : ℤ) ≤ knfcQueueMaxDepth) :
    ∃ s, exec (queueStep up) (QueueSystem.init P) (List.replicate n (wholeCall p)).flatten =
      some s ∧ s.Filled n := by
  induction n with
  | zero => exact ⟨_, rfl, fun _ => ⟨none, rfl⟩, fun _ => rfl, rfl, rfl, by simp, rfl, rfl⟩
  | succ n ih =>
    push_cast at hn
    obtain ⟨s, hs, hfilled⟩ := ih (by omega)
    obtain ⟨t, ht, hnext⟩ := hfilled.enqueue up (by omega) p
    refine ⟨t, ?_, hnext⟩
    rw [List.replicate_succ', List.flatten_append]
    exact exec_trans hs (by simpa using ht)

theorem exec_refusedCall {s : QueueSystem P} {p : P} {last : Option NtStatus}
    (hidle : s.producers p = .idle last) (hadmits : s.queue.producerRundown.closing = false)
    (hrunning : s.queue.stop = false) (hfull : s.queue.depth + 1 > knfcQueueMaxDepth) :
    exec (queueStep up) s (refusedCall p) = some { s with
      queue := { s.queue with
        depth := s.queue.depth + 1
        producerRundown := ⟨false, s.queue.producerRundown.holders + 1⟩ }
      producers := Function.update s.producers p (.enqueue doomedFile .undo) } := by
  refine exec_trans (exec_callToCheck hidle hadmits hrunning) ?_
  refine exec_cons_eq_some.mpr ⟨_, queueStep_check (Function.update_self ..), ?_⟩
  simp [hfull]

theorem exec_pop {s : QueueSystem P} {i : WorkerId} {item : KnfcQueueItem}
    {list : List KnfcQueueItem} (htest : s.workers i = .test) (hrunning : s.queue.stop = false)
    (hsignaled : s.queue.event.signaled = true) (hlist : s.queue.list = item :: list) :
    exec (queueStep up) s (List.replicate 3 (.worker i quietEnv)) = some { s with
      queue := { s.queue with list := list, depth := s.queue.depth - 1 }
      workers := Function.update s.workers i (.popped item) } := by
  simp [exec, queueStep, htest, knFcQueueWorker, hrunning, hsignaled, hlist]

/-- At a full list: `p` is refused and holds its unit, a worker takes an item, and
`p'` comes to its depth check. -/
def crowding (p p' : P) : List (QueueAction P) :=
  refusedCall p ++ List.replicate 3 (.worker 0 quietEnv) ++ callToCheck p'

theorem QueueSystem.Filled.exec_crowding {n : Nat} {s : QueueSystem P} (h : s.Filled n)
    (up : Wchar → Wchar) (hn : (n : ℤ) = knfcQueueMaxDepth) {p p' : P} (hne : p' ≠ p) :
    ∃ t, exec (queueStep up) s (crowding p p') = some t ∧ t.queue.depth = n ∧
      t.queue.list.length + 1 = n ∧ t.producers = Function.update
        (Function.update s.producers p (.enqueue doomedFile .undo)) p'
          (.enqueue doomedFile .increment) := by
  obtain ⟨last, hidle⟩ := h.idle p
  obtain ⟨last', hidle'⟩ := h.idle p'
  have hdepth := h.depth
  have hfull : s.queue.depth + 1 > knfcQueueMaxDepth := by omega
  have hpos : 0 < n := by
    have hmax : (0 : ℤ) < knfcQueueMaxDepth := by decide
    omega
  obtain ⟨item, list, hlist⟩ := List.exists_cons_of_length_pos (h.length.symm ▸ hpos)
  have hlength := h.length
  rw [hlist, List.length_cons] at hlength
  have hrefused : exec (queueStep up) s (refusedCall p) = some _ :=
    exec_refusedCall hidle h.admits h.running hfull
  have hpop := exec_trans hrefused (exec_pop (h.workers 0) h.running (h.signaled hpos) hlist)
  have hother : Function.update s.producers p (.enqueue doomedFile .undo) p' = .idle last' :=
    (Function.update_of_ne hne _ _).trans hidle'
  exact ⟨_, exec_trans hpop (exec_callToCheck hother rfl h.running), by simp [hdepth], hlength, rfl⟩

theorem exec_checked {c : CheckedQueue P} {as : List (QueueAction P)} {s : QueueSystem P}
    (h : exec (queueStep up) c.system as = some s) :
    ∃ d, exec (checkedStep up) c as = some d ∧ d.system = s := by
  induction as generalizing c with
  | nil =>
    obtain rfl : c.system = s := by simpa using h
    exact ⟨c, rfl, rfl⟩
  | cons a as ih =>
    obtain ⟨t, ht, hrest⟩ := exec_cons_eq_some.mp h
    have hstep : checkedStep up c a = some ⟨t, c.note a⟩ := checkedStep_eq_some.mpr ⟨ht, rfl⟩
    obtain ⟨d, hd, hs⟩ := ih (c := ⟨t, c.note a⟩) hrest
    exact ⟨d, exec_cons_eq_some.mpr ⟨_, hstep, hd⟩, hs⟩

theorem QueueSystem.Filled.exec_refused {n : Nat} {c : CheckedQueue P} (h : c.system.Filled n)
    (up : Wchar → Wchar) (hn : (n : ℤ) = knfcQueueMaxDepth) {p p' : P} (hne : p' ≠ p) :
    ∃ d, exec (checkedStep up) c (crowding p p' ++ producerSteps 1 p') = some d ∧
      ¬ d.RefusedAtCap := by
  obtain ⟨t, ht, hdepth, hlength, hproducers⟩ := h.exec_crowding up hn hne
  obtain ⟨b, hb, rfl⟩ := exec_checked ht
  have hpc : b.system.producers p' = .enqueue doomedFile .increment := by simp [hproducers]
  have hnone : ({q | (b.system.producers q).admitted} : Set P) = ∅ := by
    refine Set.eq_empty_of_forall_notMem fun q hq => ?_
    change (b.system.producers q).admitted = true at hq
    rw [hproducers] at hq
    by_cases hq' : q = p'
    · subst hq'
      simp [ProducerPc.admitted, ProducerPc.enqueuePc, EnqueuePc.admitted] at hq
    · by_cases hqp : q = p
      · subst hqp
        simp [hq', ProducerPc.admitted, ProducerPc.enqueuePc, EnqueuePc.admitted] at hq
      · obtain ⟨last, hlast⟩ := h.idle q
        simp [hq', hqp, hlast, ProducerPc.admitted, ProducerPc.enqueuePc] at hq
  have hroom : b.system.accepted + 1 = n := by
    rw [QueueSystem.accepted, hnone, Set.ncard_empty]
    exact hlength
  have hnote : b.note (.producer p' quietEnv) p' = some b.system := by
    simp [CheckedQueue.note, hpc, ProducerPc.checking, ProducerPc.enqueuePc]
  have hcheck : queueStep up b.system (.producer p' quietEnv) = some _ := queueStep_check hpc
  have hstep := checkedStep_eq_some (c := b) (d := ⟨_, _⟩).mpr ⟨hcheck, rfl⟩
  refine ⟨_, exec_trans hb (exec_cons_eq_some.mpr ⟨_, hstep, rfl⟩), fun hcap => ?_⟩
  obtain ⟨s, hs, hfull⟩ := hcap p' (by
    have hgt : b.system.queue.depth + 1 > knfcQueueMaxDepth := by omega
    simp [hgt, ProducerPc.refused, ProducerPc.enqueuePc, EnqueuePc.refused])
  obtain rfl := Option.some.inj (hnote.symm.trans hs)
  omega

/-- The first producer fills the list and is then refused. The second, which comes when a
worker has made room, is refused for the unit of the first. -/
def burst : List (QueueAction (Fin 2)) :=
  (List.replicate knfcQueueMaxDepth.toNat (wholeCall 0)).flatten ++
    (crowding 0 1 ++ producerSteps 1 1)

theorem mem_burst {a : QueueAction (Fin 2)} (ha : a ∈ burst) :
    (∃ p, a = .callEnqueue p doomedFile) ∨ (∃ p, a = .producer p quietEnv) ∨
      a = .worker 0 quietEnv := by
  simp only [burst, crowding, refusedCall, wholeCall, callToCheck, producerSteps] at ha
  simp only [List.mem_append, List.mem_flatten, List.mem_replicate, List.mem_cons] at ha
  grind

theorem burst_allocates (a : QueueAction (Fin 2)) (ha : a ∈ burst) : a.Allocates := by
  rcases mem_burst ha with ⟨p, rfl⟩ | ⟨p, rfl⟩ | rfl <;> trivial

theorem exec_burst :
    ∃ c, exec (checkedStep id) (.init (Fin 2)) burst = some c ∧ ¬ c.RefusedAtCap := by
  have hmax : (knfcQueueMaxDepth.toNat : ℤ) = knfcQueueMaxDepth := Int.toNat_of_nonneg (by decide)
  obtain ⟨s, hs, hfilled⟩ := exec_fill id (0 : Fin 2) _ hmax.le
  obtain ⟨c, hc, rfl⟩ := exec_checked (c := .init (Fin 2)) hs
  obtain ⟨d, hd, hno⟩ := hfilled.exec_refused id hmax (show (1 : Fin 2) ≠ 0 by decide)
  exact ⟨d, exec_trans hc hd, hno⟩

theorem refused_beside_room :
    (∀ a ∈ burst, a.Allocates) ∧ .unload ∉ burst ∧
      ∃ c, exec (checkedStep id) (.init (Fin 2)) burst = some c ∧ ¬ c.RefusedAtCap := by
  refine ⟨burst_allocates, fun h => ?_, exec_burst⟩
  rcases mem_burst h with ⟨p, h⟩ | ⟨p, h⟩ | h <;> cases h

theorem refusals_at_cap_burst :
    ¬ Guarded (checkedStep id) CheckedQueue.RoomKept (.init (Fin 2)) burst := by
  intro hguard
  obtain ⟨c, hc, hno⟩ := exec_burst
  exact hno ((refusals_at_cap_iff id burst burst_allocates).mp hguard burst c List.prefix_rfl hc)

end Burst

end KnFileCatcher

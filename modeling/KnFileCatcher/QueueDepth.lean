import KnFileCatcher.QueueFlow

/-! `Depth` is a reservation counter: it is raised before an item is inserted and
outside the lock that protects the list. -/

namespace KnFileCatcher

open Runs Tally

/-- Past the depth check, and not yet in the list. -/
def EnqueuePc.admitted : EnqueuePc → Bool
  | .allocate | .insert _ => true
  | _ => false

/-- The call of `knFcQueueEnqueue` a producer is in, its own or a nested one. -/
def ProducerPc.enqueuePc : ProducerPc → Option EnqueuePc
  | .enqueue _ pc => some pc
  | .nested _ _ pc _ _ => some pc
  | _ => none

/-- Between the increment of `Depth` and the insertion or the decrement. -/
def ProducerPc.reserved (pc : ProducerPc) : Bool := pc.enqueuePc.any EnqueuePc.reserved

def ProducerPc.admitted (pc : ProducerPc) : Bool := pc.enqueuePc.any EnqueuePc.admitted

theorem ProducerPc.admitted_le (pc : ProducerPc) (h : pc.admitted = true) :
    pc.reserved = true := by
  obtain ⟨epc, hpc, ha⟩ := (Option.any_eq_true _ _).mp h
  rw [ProducerPc.reserved, hpc]
  cases epc <;> first | rfl | cases ha

section Listed

/-! What each party does to the list. -/

theorem knFcQueueEnqueue_list (q : KnfcQueue) (alloc : Bool) (r : CleanupRequest)
    (pc : EnqueuePc) :
    ((knFcQueueEnqueue q alloc r pc).1.list = q.list ∧ ∀ pc',
      (knFcQueueEnqueue q alloc r pc).2 = .inl pc' → pc'.admitted = true →
        pc.admitted = true ∨ q.depth + 1 ≤ knfcQueueMaxDepth) ∨
    (∃ item, pc = .insert item ∧ (knFcQueueEnqueue q alloc r pc).1.list = q.list ++ [item] ∧
      (knFcQueueEnqueue q alloc r pc).2 = .inl .signal) := by
  cases pc with
  | enter =>
    refine Or.inl ?_
    simp only [knFcQueueEnqueue]
    split
    · exact ⟨rfl, by rintro _ ⟨⟩⟩
    · split
      · exact ⟨rfl, by rintro _ ⟨⟩⟩
      · refine ⟨rfl, ?_⟩
        rintro _ ⟨⟩ h
        cases h
  | stopTest =>
    refine Or.inl ⟨rfl, ?_⟩
    simp only [knFcQueueEnqueue]
    split <;> rintro _ ⟨⟩ h <;> cases h
  | increment =>
    refine Or.inl ⟨rfl, fun pc' hpc' h => Or.inr ?_⟩
    simp only [knFcQueueEnqueue] at hpc'
    split at hpc'
    · obtain rfl := Sum.inl.inj hpc'
      cases h
    · omega
  | allocate =>
    refine Or.inl ⟨?_, fun _ _ _ => Or.inl rfl⟩
    simp only [knFcQueueEnqueue]
    split <;> rfl
  | insert item => exact Or.inr ⟨item, rfl, rfl, rfl⟩
  | release status => exact Or.inl ⟨rfl, by rintro _ ⟨⟩⟩
  | _ =>
    refine Or.inl ⟨rfl, ?_⟩
    rintro _ ⟨⟩ h
    cases h

/-- A synchronous send does not touch the list, `Depth` or a reservation itself. -/
theorem syncStep_list (q : KnfcQueue) (env : SendEnv) (r : CleanupRequest) (pc : SyncPc) :
    (syncStep q env r pc).1.list = q.list ∧ (syncStep q env r pc).2.admitted = false := by
  cases pc with
  | enter =>
    simp only [syncStep]
    split
    · exact ⟨rfl, rfl⟩
    · split <;> exact ⟨rfl, rfl⟩
  | allocate =>
    simp only [syncStep]
    split <;> exact ⟨rfl, rfl⟩
  | effects rest status =>
    cases rest with
    | nil => exact ⟨rfl, rfl⟩
    | cons e rest => cases e <;> exact ⟨rfl, rfl⟩
  | _ => exact ⟨rfl, rfl⟩

theorem producerStep_list {q q' : KnfcQueue} {env : SendEnv} {pc pc' : ProducerPc}
    (h : producerStep q env pc = some (q', pc')) :
    (q'.list = q.list ∧ (pc'.admitted = true →
      pc.admitted = true ∨ q.depth + 1 ≤ knfcQueueMaxDepth)) ∨
    ((∃ item, q'.list = q.list ++ [item]) ∧ pc.admitted = true ∧
      pc'.enqueuePc = some .signal) := by
  cases pc with
  | idle last => cases h
  | enqueue r pc =>
    obtain ⟨rfl, hpc'⟩ := producerStep_enqueue h
    rcases knFcQueueEnqueue_list q env.alloc r pc with ⟨hlist, ha⟩ | ⟨item, rfl, hlist, hsignal⟩
    · refine Or.inl ⟨hlist, fun hnew => ?_⟩
      rcases hpc' with ⟨epc, hepc, rfl⟩ | ⟨status, -, rfl⟩
      · exact ha epc hepc hnew
      · cases hnew
    · rcases hpc' with ⟨epc, hepc, rfl⟩ | ⟨status, hresult, -⟩
      · obtain rfl := Sum.inl.inj (hepc.symm.trans hsignal)
        exact Or.inr ⟨⟨item, hlist⟩, rfl, rfl⟩
      · cases hresult.symm.trans hsignal
  | sync r pc =>
    obtain ⟨rfl, rfl⟩ := producerStep_sync h
    obtain ⟨hl, ha⟩ := syncStep_list q env r pc
    exact Or.inl ⟨hl, fun hnew => absurd hnew (by rw [ha]; decide)⟩
  | nested r fallback pc rest status =>
    obtain ⟨rfl, hpc'⟩ := producerStep_nested h
    rcases knFcQueueEnqueue_list q env.alloc fallback pc with ⟨hlist, ha⟩ | ⟨item, rfl, hlist, hsignal⟩
    · refine Or.inl ⟨hlist, fun hnew => ?_⟩
      rcases hpc' with ⟨epc, hepc, rfl⟩ | ⟨result, -, rfl⟩
      · exact ha epc hepc hnew
      · cases hnew
    · rcases hpc' with ⟨epc, hepc, rfl⟩ | ⟨result, hresult, -⟩
      · obtain rfl := Sum.inl.inj (hepc.symm.trans hsignal)
        exact Or.inr ⟨⟨item, hlist⟩, rfl, rfl⟩
      · cases hresult.symm.trans hsignal

theorem knFcQueueWorker_list {up : Wchar → Wchar} {q q' : KnfcQueue} {env : SendEnv}
    {i : WorkerId} {pc pc' : WorkerPc} (h : knFcQueueWorker up q env i pc = some (q', pc')) :
    q'.list = q.list ∨ ∃ item, q.list = item :: q'.list := by
  cases pc with
  | drain =>
    cases hl : q.list with
    | nil =>
      obtain ⟨rfl, -⟩ : _ = q' ∧ _ := by simpa [knFcQueueWorker, hl] using h
      exact Or.inl rfl
    | cons item list =>
      obtain ⟨rfl, -⟩ : _ = q' ∧ _ := by simpa [knFcQueueWorker, hl] using h
      exact Or.inr ⟨item, rfl⟩
  | wait =>
    simp only [knFcQueueWorker] at h
    split at h <;> obtain ⟨rfl, -⟩ := Prod.mk.inj (Option.some.inj h) <;> exact Or.inl rfl
  | waiting =>
    simp only [knFcQueueWorker] at h
    split at h
    · cases h
    · obtain ⟨rfl, -⟩ := Prod.mk.inj (Option.some.inj h)
      exact Or.inl rfl
  | effects item rest =>
    cases rest with
    | nil =>
      obtain ⟨rfl, -⟩ := Prod.mk.inj (Option.some.inj h)
      exact Or.inl rfl
    | cons e rest =>
      obtain ⟨rfl, -⟩ := Prod.mk.inj (Option.some.inj h)
      cases e <;> exact Or.inl rfl
  | exited => cases h
  | _ =>
    obtain ⟨rfl, -⟩ := Prod.mk.inj (Option.some.inj h)
    exact Or.inl rfl

theorem knFcQueueUninitialize_list {q q' : KnfcQueue} {workers : WorkerId → WorkerPc}
    {pc pc' : UnloadPc} (h : knFcQueueUninitialize q workers pc = some (q', pc')) :
    q'.list = q.list ∨ ∃ item, q.list = item :: q'.list := by
  cases pc with
  | awaitRundown | join =>
    unfold knFcQueueUninitialize at h
    dsimp only at h
    split at h
    · obtain ⟨rfl, -⟩ := Prod.mk.inj (Option.some.inj h)
      exact Or.inl rfl
    · cases h
  | drain =>
    cases hl : q.list with
    | nil =>
      obtain ⟨rfl, -⟩ : q = q' ∧ _ := by simpa [hl, knFcQueueUninitialize] using h
      exact Or.inl hl
    | cons item list =>
      obtain ⟨rfl, -⟩ : _ = q' ∧ _ := by simpa [hl, knFcQueueUninitialize] using h
      exact Or.inr ⟨item, rfl⟩
  | done => cases h
  | _ =>
    obtain ⟨rfl, -⟩ := Prod.mk.inj (Option.some.inj h)
    exact Or.inl rfl

end Listed

section Depth

def depthWeights : QueueWeights where
  enqueue pc := if pc.reserved then 1 else 0
  sync _ := 0
  worker _ := 0
  queue q := q.list.length - q.depth

theorem depthWeights_producer (pc : ProducerPc) :
    depthWeights.producer pc = if pc.reserved then 1 else 0 := by
  cases pc with
  | nested r fallback pc rest status => exact zero_add _
  | _ => rfl

theorem depthWeights_flow (up : Wchar → Wchar) : depthWeights.Flow (· = ·) up where
  frame q q' hlist hdepth _ _ _ _ := by simp [depthWeights, hlist, hdepth]
  outside pc h := by simp [depthWeights, h]
  reserve q pc h := by
    have hpc : pc.reserved = true := by rcases h with rfl | rfl <;> rfl
    simp only [depthWeights, hpc, if_true]
    ring
  allocate q r := rfl
  noItem := rfl
  undo q := by
    simp only [depthWeights, EnqueuePc.reserved, if_true]
    ring
  insert q item := by
    simp only [depthWeights, EnqueuePc.reserved, if_true, List.length_append, List.length_singleton]
    push_cast
    ring
  syncOutside := ⟨rfl, rfl, rfl, fun _ => rfl⟩
  number q := zero_add _
  noMessage _ := rfl
  exchange _ _ _ _ := rfl
  fallback _ _ _ := rfl
  syncPerform q e rest status _ := by cases e <;> rfl
  syncDone _ := rfl
  empty := ⟨rfl, rfl, rfl, rfl, rfl⟩
  pop q item list h := by
    simp only [depthWeights, h, List.length_cons]
    push_cast
    ring
  judge _ := ⟨rfl, rfl⟩
  send _ _ := rfl
  perform q item e rest := by cases e <;> rfl
  done _ := rfl
  free q item := (zero_add _).symm
  discard q item := (zero_add _).symm

variable {P : Type*} [DecidableEq P] {up : Wchar → Wchar}

theorem reachable_depth {s : QueueSystem P}
    (h : Reachable (queueStep up) (QueueSystem.init P) s) :
    s.Regular ∧
      s.queue.depth = s.queue.list.length + ({p | (s.producers p).reserved} : Set P).ncard := by
  obtain ⟨hr, htotal⟩ := (depthWeights_flow up).reachable comparison_eq h
  have hproducers : tally depthWeights.producer s.producers =
      ({p | (s.producers p).reserved} : Set P).ncard := by
    rw [funext depthWeights_producer]
    exact tally_indicator (by simp [ProducerPc.reserved, ProducerPc.enqueuePc]) hr.started
  have hworkers : tally depthWeights.worker s.workers = 0 := finsum_zero
  rw [QueueSystem.total, hproducers, hworkers] at htotal
  refine ⟨hr, ?_⟩
  simp only [depthWeights, knFcQueueInitialize, List.length_nil] at htotal
  omega

end Depth

section Bound

variable {P : Type*}

noncomputable def QueueSystem.inFlight (s : QueueSystem P) : ℤ :=
  tally (fun pc => if pc.admitted then (1 : ℤ) else 0) s.producers

def QueueSystem.Bounded (s : QueueSystem P) : Prop :=
  s.queue.list.length + s.inFlight ≤ knfcQueueMaxDepth

theorem QueueSystem.Regular.inFlight_eq {s : QueueSystem P} (h : s.Regular) :
    s.inFlight = ({p | (s.producers p).admitted} : Set P).ncard :=
  tally_indicator (by simp [ProducerPc.admitted, ProducerPc.enqueuePc]) h.started

theorem QueueSystem.Regular.finite_reserved {s : QueueSystem P} (h : s.Regular) :
    ({p | (s.producers p).reserved} : Set P).Finite := by
  refine h.started.subset fun p hp hidle => ?_
  simp [hidle, ProducerPc.reserved, ProducerPc.enqueuePc] at hp

/-- Every admitted request has its reservation. -/
theorem QueueSystem.Regular.inFlight_le {s : QueueSystem P} (h : s.Regular) :
    s.inFlight ≤ ({p | (s.producers p).reserved} : Set P).ncard := by
  rw [h.inFlight_eq]
  exact_mod_cast Set.ncard_le_ncard (fun p hp => ProducerPc.admitted_le _ hp) h.finite_reserved

variable [DecidableEq P] {up : Wchar → Wchar}

theorem QueueSystem.Regular.inFlight_update {s : QueueSystem P} (h : s.Regular) (p : P)
    (pc : ProducerPc) (q : KnfcQueue) :
    ({ s with queue := q, producers := Function.update s.producers p pc } :
        QueueSystem P).inFlight =
      s.inFlight - (if (s.producers p).admitted then 1 else 0) +
        (if pc.admitted then 1 else 0) :=
  tally_update (a := .idle none) rfl h.started p pc

theorem QueueSystem.Bounded.call {s t : QueueSystem P} {p : P} {pc : ProducerPc}
    (hb : s.Bounded) (hr : s.Regular) (hpc : pc.admitted = false) (hs : s.call p pc = some t) :
    t.Bounded := by
  obtain rfl := s.call_eq_some hs
  have hu := hr.inFlight_update p pc s.queue
  simp only [QueueSystem.Bounded, hpc] at hb hu ⊢
  rw [hu]
  split <;> simp <;> omega

theorem QueueSystem.Bounded.producer {s : QueueSystem P} {p : P} {env : SendEnv} {q : KnfcQueue}
    {pc : ProducerPc} (hb : s.Bounded) (hr : s.Regular)
    (hdepth : s.queue.depth =
      s.queue.list.length + ({p | (s.producers p).reserved} : Set P).ncard)
    (hs : producerStep s.queue env (s.producers p) = some (q, pc)) :
    ({ s with queue := q, producers := Function.update s.producers p pc } :
      QueueSystem P).Bounded := by
  have hle := hr.inFlight_le
  rw [QueueSystem.Bounded, hr.inFlight_update]
  rw [QueueSystem.Bounded] at hb
  rcases producerStep_list hs with ⟨hlist, hadmit⟩ | ⟨⟨item, hlist⟩, hold, hnew⟩
  · rw [hlist]
    cases hpc : pc.admitted with
    | false =>
      simp only [Bool.false_eq_true, if_false]
      split <;> omega
    | true =>
      rcases hadmit hpc with hold | hroom
      · simp only [hold, if_true]
        omega
      · simp only [if_true]
        split <;> omega
  · have hpc : pc.admitted = false := by simp [ProducerPc.admitted, hnew, EnqueuePc.admitted]
    simp only [hlist, hold, hpc, if_true, Bool.false_eq_true, if_false, List.length_append,
      List.length_singleton]
    push_cast
    omega

theorem QueueSystem.Bounded.step {s t : QueueSystem P} {a : QueueAction P} (hb : s.Bounded)
    (hr : s.Regular) (hdepth : s.queue.depth =
      s.queue.list.length + ({p | (s.producers p).reserved} : Set P).ncard)
    (hs : queueStep up s a = some t) : t.Bounded := by
  have hshorter {list : List KnfcQueueItem}
      (h : list = s.queue.list ∨ ∃ item, s.queue.list = item :: list) :
      list.length ≤ s.queue.list.length := by
    rcases h with rfl | ⟨item, h⟩
    · exact le_rfl
    · simp [h]
  cases a with
  | callEnqueue p r => exact hb.call hr rfl hs
  | callSendSync p r => exact hb.call hr rfl hs
  | producer p env =>
    obtain ⟨q, pc, hp, rfl⟩ := queueStep_producer hs
    exact hb.producer hr hdepth hp
  | worker i env =>
    obtain ⟨q, pc, hw, rfl⟩ := queueStep_worker hs
    have hl := hshorter (knFcQueueWorker_list hw)
    exact (add_le_add_left (Nat.cast_le.mpr hl) _).trans hb
  | unload =>
    obtain ⟨q, pc, hu, rfl⟩ := queueStep_unload hs
    have hl := hshorter (knFcQueueUninitialize_list hu)
    exact (add_le_add_left (Nat.cast_le.mpr hl) _).trans hb

omit [DecidableEq P] in
theorem bounded_init : (QueueSystem.init P).Bounded := by
  have hnone : (QueueSystem.init P).inFlight = 0 := tally_const rfl
  rw [QueueSystem.Bounded, hnone, add_zero]
  exact show (0 : ℤ) ≤ knfcQueueMaxDepth by decide

theorem reachable_bounded {s : QueueSystem P}
    (h : Reachable (queueStep up) (QueueSystem.init P) s) : s.Bounded := by
  refine h.induction (fun s a t hs hb hstep => ?_) bounded_init
  obtain ⟨hr, hdepth⟩ := reachable_depth hs
  exact hb.step hr hdepth hstep

/-- In every reachable state `Depth` is the list and the reservations, and the list
and what is about to join it stay within the limit. -/
theorem depth_counts_reservations (s : QueueSystem P)
    (h : Reachable (queueStep up) (QueueSystem.init P) s) :
    s.queue.depth = s.queue.list.length + ({p | (s.producers p).reserved} : Set P).ncard ∧
      0 ≤ s.queue.depth ∧
      s.queue.list.length + ({p | (s.producers p).admitted} : Set P).ncard ≤
        knfcQueueMaxDepth := by
  obtain ⟨hr, hdepth⟩ := reachable_depth h
  have hbound := reachable_bounded h
  rw [QueueSystem.Bounded, hr.inFlight_eq] at hbound
  exact ⟨hdepth, by omega, hbound⟩

end Bound

end KnFileCatcher

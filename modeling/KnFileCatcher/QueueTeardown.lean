import KnFileCatcher.QueueWake
import KnFileCatcher.QueueLedger

/-! What `knFcQueueUninitialize` leaves behind: nobody past the gate, nothing in the
list, and every item freed once. -/

namespace KnFileCatcher

open Runs Tally

section Rundown

def EnqueuePc.gates (pc : EnqueuePc) : Nat := if pc = .enter then 0 else 1

/-- How often a producer holds the rundown protection. -/
def ProducerPc.gates : ProducerPc → Nat
  | .idle _ => 0
  | .enqueue _ pc => pc.gates
  | .sync _ pc => if pc = .enter then 0 else 1
  | .nested _ _ pc _ _ => 1 + pc.gates

/-- A step that holds the protection as often as it has taken it, and takes it
no more once it is closed. -/
structure RundownStep (q q' : KnfcQueue) (gates gates' : Nat) : Prop where
  closing : q'.producerRundown.closing = q.producerRundown.closing
  held : gates' + q.producerRundown.holders ≤ gates + q'.producerRundown.holders
  refused : q.producerRundown.closing = true →
    q'.producerRundown.holders ≤ q.producerRundown.holders

theorem RundownStep.same {q q' : KnfcQueue} {gates gates' : Nat}
    (h : q'.producerRundown = q.producerRundown) (hg : gates' ≤ gates) :
    RundownStep q q' gates gates' :=
  ⟨by rw [h], by rw [h]; omega, fun _ => by rw [h]⟩

theorem RundownStep.acquired {q q' : KnfcQueue} {rundown : Waits.Rundown} {k : Nat}
    (h : q.producerRundown.acquire = some rundown) (hq : q'.producerRundown = rundown) :
    RundownStep q q' k (k + 1) := by
  unfold Waits.Rundown.acquire at h
  split at h
  · cases h
  · next hopen =>
    obtain rfl := Option.some.inj h
    exact ⟨by rw [hq], by rw [hq]; simp only; omega, fun hc => absurd hc hopen⟩

theorem RundownStep.released {q q' : KnfcQueue} {k : Nat}
    (h : q'.producerRundown = q.producerRundown.release) :
    RundownStep q q' (k + 1) k := by
  refine ⟨by rw [h]; rfl, ?_, fun _ => ?_⟩ <;> rw [h] <;> simp only [Waits.Rundown.release] <;> omega

theorem RundownStep.add {q q' : KnfcQueue} {gates gates' : Nat} (h : RundownStep q q' gates gates')
    (n : Nat) : RundownStep q q' (n + gates) (n + gates') :=
  ⟨h.closing, by have := h.held; omega, h.refused⟩

theorem knFcQueueEnqueue_rundown (q : KnfcQueue) (alloc : Bool) (r : CleanupRequest)
    (pc : EnqueuePc) :
    RundownStep q (knFcQueueEnqueue q alloc r pc).1 pc.gates
      (Sum.elim EnqueuePc.gates (fun _ => 0) (knFcQueueEnqueue q alloc r pc).2) := by
  cases pc with
  | enter =>
    simp only [knFcQueueEnqueue]
    split
    · exact .same rfl le_rfl
    · split
      · exact .same rfl le_rfl
      · next hacq => exact .acquired (k := 0) hacq rfl
  | stopTest =>
    simp only [knFcQueueEnqueue]
    split <;> exact .same rfl le_rfl
  | increment =>
    simp only [knFcQueueEnqueue]
    split <;> exact .same rfl le_rfl
  | allocate =>
    simp only [knFcQueueEnqueue]
    split <;> exact .same rfl le_rfl
  | release status => exact .released (k := 0) rfl
  | _ => exact .same rfl le_rfl

theorem syncStep_rundown (q : KnfcQueue) (env : SendEnv) (r : CleanupRequest) (pc : SyncPc) :
    RundownStep q (syncStep q env r pc).1 (ProducerPc.sync r pc).gates
      (syncStep q env r pc).2.gates := by
  cases pc with
  | enter =>
    simp only [syncStep]
    split
    · exact .same rfl le_rfl
    · split
      · exact .same rfl le_rfl
      · next hacq => exact .acquired (k := 0) hacq rfl
  | stopTest =>
    simp only [syncStep]
    split <;> exact .same rfl le_rfl
  | allocate =>
    simp only [syncStep]
    split <;> exact .same rfl le_rfl
  | exchange requestId => exact .same rfl le_rfl
  | effects rest status =>
    cases rest with
    | nil => exact .same rfl le_rfl
    | cons e rest => cases e <;> exact .same rfl le_rfl
  | release status => exact .released (k := 0) rfl

theorem producerStep_rundown {q q' : KnfcQueue} {env : SendEnv} {pc pc' : ProducerPc}
    (h : producerStep q env pc = some (q', pc')) : RundownStep q q' pc.gates pc'.gates := by
  cases pc with
  | idle last => cases h
  | enqueue r pc =>
    have hr := knFcQueueEnqueue_rundown q env.alloc r pc
    obtain ⟨rfl, ⟨epc, hpc', rfl⟩ | ⟨status, hpc', rfl⟩⟩ := producerStep_enqueue h <;>
      · rw [hpc'] at hr
        exact hr
  | sync r pc =>
    obtain ⟨rfl, rfl⟩ := producerStep_sync h
    exact syncStep_rundown q env r pc
  | nested r fallback pc rest status =>
    have hr := (knFcQueueEnqueue_rundown q env.alloc fallback pc).add 1
    obtain ⟨rfl, ⟨epc, hpc', rfl⟩ | ⟨result, hpc', rfl⟩⟩ := producerStep_nested h <;>
      · rw [hpc'] at hr
        exact hr

end Rundown

section Closing

def UnloadPc.closed : UnloadPc → Bool
  | .notCalled | .closeRundown => false
  | _ => true

def UnloadPc.drained : UnloadPc → Bool
  | .signal | .join _ | .drain | .done => true
  | _ => false

/-- The workers that the unload thread has waited for. -/
def UnloadPc.joined : UnloadPc → Nat
  | .join i => i
  | .drain | .done => knfcQueueWorkerCount
  | _ => 0

variable {P : Type*}

structure QueueSystem.Closing (s : QueueSystem P) : Prop where
  regular : s.Regular
  gated : tally (fun pc : ProducerPc => (pc.gates : ℤ)) s.producers ≤
    s.queue.producerRundown.holders
  closed : s.unload.closed = true → s.queue.producerRundown.closing = true
  drained : s.unload.drained = true → s.queue.producerRundown.holders = 0
  joined : ∀ i : WorkerId, i.val < s.unload.joined → s.workers i = .exited
  emptied : s.unload = .done → s.queue.list = []

theorem closing_init : (QueueSystem.init P).Closing where
  regular := regular_init
  gated := (tally_const rfl).le
  closed h := nomatch h
  drained h := nomatch h
  joined _ h := absurd h (Nat.not_lt_zero _)
  emptied h := nomatch h

theorem UnloadPc.closed_of_drained {pc : UnloadPc} (h : pc.drained = true) : pc.closed = true := by
  cases pc <;> first | rfl | cases h

theorem knFcQueueWorker_rundown {up : Wchar → Wchar} {q q' : KnfcQueue} {env : SendEnv}
    {i : WorkerId} {pc pc' : WorkerPc} (h : knFcQueueWorker up q env i pc = some (q', pc')) :
    q'.producerRundown = q.producerRundown := by
  cases pc with
  | wait =>
    simp only [knFcQueueWorker] at h
    split at h <;> obtain ⟨rfl, -⟩ := Prod.mk.inj (Option.some.inj h) <;> rfl
  | waiting =>
    simp only [knFcQueueWorker] at h
    split at h
    · cases h
    · obtain ⟨rfl, -⟩ := Prod.mk.inj (Option.some.inj h)
      rfl
  | drain =>
    simp only [knFcQueueWorker] at h
    split at h <;> obtain ⟨rfl, -⟩ := Prod.mk.inj (Option.some.inj h) <;> rfl
  | effects item rest =>
    cases rest with
    | nil =>
      obtain ⟨rfl, -⟩ := Prod.mk.inj (Option.some.inj h)
      rfl
    | cons e rest =>
      obtain ⟨rfl, -⟩ := Prod.mk.inj (Option.some.inj h)
      cases e <;> rfl
  | exited => cases h
  | _ =>
    obtain ⟨rfl, -⟩ := Prod.mk.inj (Option.some.inj h)
    rfl

theorem QueueSystem.Closing.worker {up : Wchar → Wchar} {s : QueueSystem P} {i : WorkerId}
    {env : SendEnv} {q : KnfcQueue} {pc : WorkerPc} (hi : s.Closing)
    (h : knFcQueueWorker up s.queue env i (s.workers i) = some (q, pc)) :
    ({ s with queue := q, workers := Function.update s.workers i pc } :
      QueueSystem P).Closing := by
  have hrundown := knFcQueueWorker_rundown h
  have hrun : s.workers i ≠ .exited := by
    intro hexit
    rw [hexit] at h
    cases h
  refine ⟨⟨hi.regular.started, hi.regular.plain⟩, by simpa only [hrundown] using hi.gated,
    fun hc => by rw [hrundown]; exact hi.closed hc, fun hd => by rw [hrundown]; exact hi.drained hd,
    fun j hj => ?_, fun hdone => ?_⟩
  · have hexit := hi.joined j hj
    have hji : j ≠ i := by
      rintro rfl
      exact hrun hexit
    simpa [hji] using hexit
  · have hd : s.unload = .done := hdone
    exact absurd (hi.joined i (by rw [hd]; exact i.isLt)) hrun

theorem QueueSystem.Closing.unload {s : QueueSystem P} {q : KnfcQueue} {pc : UnloadPc}
    (hi : s.Closing) (h : knFcQueueUninitialize s.queue s.workers s.unload = some (q, pc)) :
    ({ s with queue := q, unload := pc } : QueueSystem P).Closing := by
  have hregular {q : KnfcQueue} {pc : UnloadPc} :
      ({ s with queue := q, unload := pc } : QueueSystem P).Regular :=
    ⟨hi.regular.started, hi.regular.plain⟩
  have hgated := hi.gated
  have hclosed := hi.closed
  have hdrained := hi.drained
  have hjoined := hi.joined
  cases hpc : s.unload with
  | notCalled =>
    rw [hpc] at h
    obtain ⟨rfl, rfl⟩ := Prod.mk.inj (Option.some.inj h)
    exact ⟨hregular, hgated, (by rintro ⟨⟩), (by rintro ⟨⟩),
      fun _ hj => absurd hj (Nat.not_lt_zero _), (by rintro ⟨⟩)⟩
  | closeRundown =>
    rw [hpc] at h
    obtain ⟨rfl, rfl⟩ := Prod.mk.inj (Option.some.inj h)
    exact ⟨hregular, hgated, fun _ => rfl, (by rintro ⟨⟩),
      fun _ hj => absurd hj (Nat.not_lt_zero _), (by rintro ⟨⟩)⟩
  | awaitRundown =>
    rw [hpc] at h hclosed
    unfold knFcQueueUninitialize at h
    dsimp only at h
    split at h
    · next hzero =>
      obtain ⟨rfl, rfl⟩ := Prod.mk.inj (Option.some.inj h)
      exact ⟨hregular, hgated, fun _ => hclosed rfl, fun _ => hzero,
        fun _ hj => absurd hj (Nat.not_lt_zero _), (by rintro ⟨⟩)⟩
    · cases h
  | signal =>
    rw [hpc] at h hclosed hdrained
    obtain ⟨rfl, rfl⟩ := Prod.mk.inj (Option.some.inj h)
    exact ⟨hregular, hgated, fun _ => hclosed rfl, fun _ => hdrained rfl,
      fun _ hj => absurd hj (Nat.not_lt_zero _), (by rintro ⟨⟩)⟩
  | join i =>
    rw [hpc] at h hclosed hdrained hjoined
    unfold knFcQueueUninitialize at h
    dsimp only at h
    split at h
    · next hexit =>
      obtain ⟨rfl, rfl⟩ := Prod.mk.inj (Option.some.inj h)
      have hnext (j : WorkerId) (hj : j.val < i.val + 1) : s.workers j = .exited := by
        rcases Nat.lt_succ_iff_lt_or_eq.mp hj with hlt | heq
        · exact hjoined j hlt
        · rwa [Fin.ext heq]
      unfold UnloadPc.afterJoin
      split
      · exact ⟨hregular, hgated, fun _ => hclosed rfl, fun _ => hdrained rfl, hnext, (by rintro ⟨⟩)⟩
      · exact ⟨hregular, hgated, fun _ => hclosed rfl, fun _ => hdrained rfl,
          fun j _ => hnext j (by omega), (by rintro ⟨⟩)⟩
    · cases h
  | drain =>
    rw [hpc] at h hclosed hdrained hjoined
    unfold knFcQueueUninitialize at h
    dsimp only at h
    split at h
    · obtain ⟨rfl, rfl⟩ := Prod.mk.inj (Option.some.inj h)
      exact ⟨hregular, hgated, fun _ => hclosed rfl, fun _ => hdrained rfl, hjoined, (by rintro ⟨⟩)⟩
    · next hempty =>
      obtain ⟨rfl, rfl⟩ := Prod.mk.inj (Option.some.inj h)
      exact ⟨hregular, hgated, fun _ => hclosed rfl, fun _ => hdrained rfl, hjoined,
        fun _ => hempty⟩
  | done =>
    rw [hpc] at h
    cases h

variable [DecidableEq P]

theorem QueueSystem.Closing.gates_le {s : QueueSystem P} (hi : s.Closing) (p : P) :
    (s.producers p).gates ≤ s.queue.producerRundown.holders := by
  have hle := le_tally (w := fun pc : ProducerPc => (pc.gates : ℤ)) (fun _ => Int.natCast_nonneg _)
    rfl hi.regular.started p
  exact_mod_cast hle.trans hi.gated

theorem ProducerPc.gates_of_reserved {pc : ProducerPc} (h : pc.reserved = true) :
    0 < pc.gates := by
  cases pc with
  | enqueue r pc => cases pc <;> first | exact Nat.one_pos | cases h
  | nested r fallback pc rest status => exact Nat.add_pos_left Nat.one_pos _
  | _ => cases h

theorem QueueSystem.Closing.producer {s : QueueSystem P} {p : P} {env : SendEnv} {q : KnfcQueue}
    {pc : ProducerPc} (hi : s.Closing)
    (h : producerStep s.queue env (s.producers p) = some (q, pc)) :
    ({ s with queue := q, producers := Function.update s.producers p pc } :
      QueueSystem P).Closing := by
  have hr := producerStep_rundown h
  have hdrained (hd : s.unload.drained = true) : q.producerRundown.holders = 0 := by
    have hle := hr.refused (hi.closed (UnloadPc.closed_of_drained hd))
    rw [hi.drained hd] at hle
    exact Nat.le_zero.mp hle
  refine ⟨hi.regular.update (producerStep_plain (hi.regular.plain p) h), ?_,
    fun hc => hr.closing.trans (hi.closed hc), hdrained, hi.joined, fun hdone => ?_⟩
  · have htally := tally_update (w := fun pc : ProducerPc => (pc.gates : ℤ)) (a := .idle none) rfl
      hi.regular.started p pc
    have hgated := hi.gated
    have hheld := hr.held
    simp only at htally ⊢
    rw [htally]
    omega
  · have hd : s.unload = .done := hdone
    rcases producerStep_list h with ⟨hlist, -⟩ | ⟨-, hadmitted, -⟩
    · exact hlist.trans (hi.emptied hd)
    · have hpos := ProducerPc.gates_of_reserved (ProducerPc.admitted_le _ hadmitted)
      have hle := hi.gates_le p
      rw [hi.drained (by rw [hd]; rfl)] at hle
      omega

theorem QueueSystem.Closing.call {s t : QueueSystem P} {p : P} {pc : ProducerPc}
    (hi : s.Closing) (hpc : pc.gates = 0) (hplain : pc.Plain) (h : s.call p pc = some t) :
    t.Closing := by
  obtain rfl := s.call_eq_some h
  refine ⟨hi.regular.update hplain, ?_, hi.closed, hi.drained, hi.joined, hi.emptied⟩
  have htally := tally_update (w := fun pc : ProducerPc => (pc.gates : ℤ)) (a := .idle none) rfl
    hi.regular.started p pc
  have hgated := hi.gated
  simp only at htally ⊢
  rw [htally, hpc]
  omega

theorem QueueSystem.Closing.step {up : Wchar → Wchar} {s t : QueueSystem P} {a : QueueAction P}
    (hi : s.Closing) (h : queueStep up s a = some t) : t.Closing := by
  cases a with
  | callEnqueue p r =>
    exact hi.call (show (ProducerPc.enqueue r .enter).gates = 0 from rfl) trivial h
  | callSendSync p r =>
    exact hi.call (show (ProducerPc.sync r .enter).gates = 0 from rfl) trivial h
  | producer p env =>
    obtain ⟨q, pc, hs, rfl⟩ := queueStep_producer h
    exact hi.producer hs
  | worker i env =>
    obtain ⟨q, pc, hs, rfl⟩ := queueStep_worker h
    exact hi.worker hs
  | unload =>
    obtain ⟨q, pc, hs, rfl⟩ := queueStep_unload h
    exact hi.unload hs

end Closing

section Freed

/-- The item a worker must still free. -/
def WorkerPc.owned : WorkerPc → List KnfcQueueItem
  | .popped item | .send item | .effects item _ | .free item | .discard item => [item]
  | _ => []

def ownerWeights (x : KnfcQueueItem) : QueueWeights where
  enqueue
    | .insert item => [item].count x
    | _ => 0
  sync _ := 0
  worker pc := pc.owned.count x
  queue q := q.list.count x + q.history.freed.count x - q.history.allocated.count x

@[simp] theorem perform_freed (q : KnfcQueue) (e : SendEffect) :
    (q.perform e).history.freed = q.history.freed := by
  cases e <;> rfl

@[simp] theorem perform_allocated (q : KnfcQueue) (e : SendEffect) :
    (q.perform e).history.allocated = q.history.allocated := by
  cases e <;> rfl

theorem ownerWeights_perform (x : KnfcQueueItem) (q : KnfcQueue) (e : SendEffect) :
    (ownerWeights x).queue (q.perform e) = (ownerWeights x).queue q := by
  simp only [ownerWeights, perform_list, perform_freed, perform_allocated]

theorem ownerWeights_free (x : KnfcQueueItem) (q : KnfcQueue) (item : KnfcQueueItem) :
    (ownerWeights x).queue (q.free item) = [item].count x + (ownerWeights x).queue q := by
  simp only [ownerWeights, KnfcQueue.free, List.count_append]
  push_cast
  ring

theorem ownerWeights_flow (x : KnfcQueueItem) (up : Wchar → Wchar) :
    (ownerWeights x).Flow (· = ·) up where
  frame q q' hlist _ _ _ _ hhistory := by simp only [ownerWeights, hlist, hhistory]
  outside pc h := by cases pc <;> first | rfl | cases h
  reserve q pc h := by rcases h with rfl | rfl <;> exact zero_add _
  allocate q r := by
    simp only [ownerWeights, List.count_append]
    push_cast
    ring
  noItem := rfl
  undo _ := (zero_add _).symm
  insert q item := by
    simp only [ownerWeights, List.count_append]
    push_cast
    ring
  syncOutside := ⟨rfl, rfl, rfl, fun _ => rfl⟩
  number _ := zero_add _
  noMessage _ := rfl
  exchange _ _ _ _ := rfl
  fallback _ _ _ := rfl
  syncPerform q e rest status _ := congrArg (0 + ·) (ownerWeights_perform x q e)
  syncDone _ := rfl
  empty := ⟨rfl, rfl, rfl, rfl, rfl⟩
  pop q item list h := by
    simp only [ownerWeights, WorkerPc.owned, h, ← List.singleton_append (l := list),
      List.count_append]
    push_cast
    ring
  judge _ := ⟨rfl, rfl⟩
  send _ _ := rfl
  perform q item e rest := congrArg (_ + ·) (ownerWeights_perform x q e)
  done _ := rfl
  free q item := ownerWeights_free x q item
  discard q item := ownerWeights_free x (q.finish item (some .discarded)) item

/-- A number is drawn for one allocation at most. -/
def allocationWeights (n : Nat) : QueueWeights where
  enqueue _ := 0
  sync _ := 0
  worker _ := 0
  queue q := (q.history.allocated.map KnfcQueueItem.requestId).count n -
    (List.range' 1 q.nextId).count n

theorem allocationWeights_flow (n : Nat) (up : Wchar → Wchar) :
    (allocationWeights n).Flow (· ≤ ·) up where
  frame q q' _ _ _ _ hid hhistory := by simp only [allocationWeights, hid, hhistory]
  outside _ _ := rfl
  reserve _ _ _ := (zero_add _).le
  allocate q r := by
    simp only [allocationWeights, count_range'_succ, List.map_append, List.map_cons, List.map_nil,
      List.count_append, List.count_singleton, beq_iff_eq]
    push_cast
    omega
  noItem := le_rfl
  undo _ := (zero_add _).ge
  insert _ _ := (zero_add _).ge
  syncOutside := ⟨rfl, rfl, rfl, fun _ => rfl⟩
  number q := by
    simp only [allocationWeights, count_range'_succ]
    push_cast
    split <;> omega
  noMessage _ := le_rfl
  exchange _ _ _ _ := le_rfl
  fallback _ _ _ := le_rfl
  syncPerform q e rest status _ := by cases e <;> exact le_rfl
  syncDone _ := le_rfl
  empty := ⟨rfl, rfl, rfl, rfl, rfl⟩
  pop _ _ _ _ := (zero_add _).le
  judge _ := ⟨le_rfl, le_rfl⟩
  send _ _ := le_rfl
  perform q item e rest := by cases e <;> exact le_rfl
  done _ := le_rfl
  free _ _ := (zero_add _).ge
  discard _ _ := (zero_add _).ge

end Freed

section Teardown

variable {P : Type*}

/-- Idle, or at the gate of a call and not past it. -/
def ProducerPc.Outside : ProducerPc → Prop
  | .idle _ => True
  | .enqueue _ pc => pc = .enter
  | .sync _ pc => pc = .enter
  | .nested _ _ _ _ _ => False

theorem ProducerPc.outside_of_gates {pc : ProducerPc} (h : pc.gates = 0) : pc.Outside := by
  cases pc with
  | idle last => trivial
  | enqueue r pc => simpa [ProducerPc.gates, EnqueuePc.gates, ProducerPc.Outside] using h
  | sync r pc => simpa [ProducerPc.gates, ProducerPc.Outside] using h
  | nested r fallback pc rest status => simp [ProducerPc.gates] at h

/-- Nobody is past the gate, nothing is listed, and each item allocated was freed
once. -/
structure QueueSystem.TornDown (s : QueueSystem P) : Prop where
  list : s.queue.list = []
  depth : s.queue.depth = 0
  workers : ∀ i, s.workers i = .exited
  producers : ∀ p, (s.producers p).Outside
  freed : s.queue.history.freed.Perm s.queue.history.allocated
  once : s.queue.history.freed.Nodup

variable [DecidableEq P] {up : Wchar → Wchar}

theorem reachable_closing {s : QueueSystem P}
    (h : Reachable (queueStep up) (QueueSystem.init P) s) : s.Closing :=
  h.invariant (fun _ _ _ hi hs => hi.step hs) closing_init

theorem reachable_allocated {s : QueueSystem P}
    (h : Reachable (queueStep up) (QueueSystem.init P) s) :
    (s.queue.history.allocated.map KnfcQueueItem.requestId).Nodup := by
  rw [List.nodup_iff_count_le_one]
  intro n
  obtain ⟨-, htotal⟩ := (allocationWeights_flow n up).reachable comparison_le h
  have hworkers : tally (allocationWeights n).worker s.workers = 0 := finsum_zero
  have hinit : (allocationWeights n).queue knFcQueueInitialize = 0 := rfl
  have honce : (List.range' 1 s.queue.nextId).count n ≤ 1 :=
    List.nodup_iff_count_le_one.mp List.nodup_range' n
  rw [QueueSystem.total, tally_producer_zero (fun _ => rfl) (fun _ => rfl), hworkers, hinit]
    at htotal
  change _ + _ + (_ - _) ≤ (0 : ℤ) at htotal
  omega

theorem QueueSystem.Closing.outside {s : QueueSystem P} (hi : s.Closing)
    (hd : s.unload.drained = true) (p : P) : (s.producers p).gates = 0 := by
  have hle := hi.gates_le p
  rw [hi.drained hd] at hle
  exact Nat.le_zero.mp hle

theorem reachable_freed {s : QueueSystem P}
    (h : Reachable (queueStep up) (QueueSystem.init P) s) (hd : s.unload = .done) :
    s.queue.history.freed.Perm s.queue.history.allocated := by
  have hi := reachable_closing h
  rw [List.perm_iff_count]
  intro x
  obtain ⟨-, htotal⟩ := (ownerWeights_flow x up).reachable comparison_eq h
  have hproducers : tally (ownerWeights x).producer s.producers = 0 := by
    refine finsum_eq_zero_of_forall_eq_zero fun p => ?_
    have hout := ProducerPc.outside_of_gates (hi.outside (by rw [hd]; rfl) p)
    cases hp : s.producers p with
    | idle last => rfl
    | enqueue r pc =>
      rw [hp] at hout
      obtain rfl : pc = .enter := hout
      rfl
    | sync r pc => rfl
    | nested r fallback pc rest status =>
      rw [hp] at hout
      exact hout.elim
  have hworkers : tally (ownerWeights x).worker s.workers = 0 := by
    refine finsum_eq_zero_of_forall_eq_zero fun i => ?_
    rw [hi.joined i (by rw [hd]; exact i.isLt)]
    rfl
  have hinit : (ownerWeights x).queue knFcQueueInitialize = 0 := rfl
  rw [QueueSystem.total, hproducers, hworkers, hinit] at htotal
  simp only [ownerWeights, hi.emptied hd, List.count_nil] at htotal
  omega

theorem reachable_tornDown {s : QueueSystem P}
    (h : Reachable (queueStep up) (QueueSystem.init P) s) (hd : s.unload = .done) :
    s.TornDown := by
  have hi := reachable_closing h
  have hgates := hi.outside (by rw [hd]; rfl)
  have hfreed := reachable_freed h hd
  refine ⟨hi.emptied hd, ?_, fun i => hi.joined i (by rw [hd]; exact i.isLt),
    fun p => ProducerPc.outside_of_gates (hgates p), hfreed,
    hfreed.nodup_iff.mpr (reachable_allocated h).of_map⟩
  have hnone : {p | (s.producers p).reserved} = (∅ : Set P) := by
    refine Set.eq_empty_iff_forall_notMem.mpr fun p hp => ?_
    have hpos := ProducerPc.gates_of_reserved (show (s.producers p).reserved = true from hp)
    rw [hgates p] at hpos
    exact absurd hpos (Nat.lt_irrefl 0)
  rw [(reachable_depth h).2, hi.emptied hd, hnone]
  simp

theorem acquire_of_closing {r : Waits.Rundown} (h : r.closing = true) : r.acquire = none := by
  simp [Waits.Rundown.acquire, h]

theorem producerStep_closed {q q' : KnfcQueue} {env : SendEnv} {pc pc' : ProducerPc}
    (hc : q.producerRundown.closing = true) (hout : pc.Outside)
    (h : producerStep q env pc = some (q', pc')) : q' = q := by
  have hacq := acquire_of_closing hc
  cases pc with
  | idle last => cases h
  | enqueue r pc =>
    obtain rfl : pc = .enter := hout
    obtain ⟨rfl, -⟩ := producerStep_enqueue h
    simp only [knFcQueueEnqueue, hacq]
    split <;> rfl
  | sync r pc =>
    obtain rfl : pc = .enter := hout
    obtain ⟨rfl, -⟩ := producerStep_sync h
    simp only [syncStep, hacq]
    split <;> rfl
  | nested r fallback pc rest status => exact hout.elim

theorem producerStep_notReady {q : KnfcQueue} (hc : q.producerRundown.closing = true)
    (env : SendEnv) {pc : ProducerPc} {r : CleanupRequest}
    (hpc : pc = .enqueue r .enter ∨ pc = .sync r .enter) (hr : r.path.length ≠ 0) :
    producerStep q env pc = some (q, .idle (some statusDeviceNotReady)) := by
  have hacq := acquire_of_closing hc
  rcases hpc with rfl | rfl
  · simp [producerStep, knFcQueueEnqueue, hr, hacq]
  · simp [producerStep, syncStep, hr, hacq]

theorem QueueSystem.Closing.after {s t : QueueSystem P} {a : QueueAction P} (hi : s.Closing)
    (hd : s.unload = .done) (h : queueStep up s a = some t) :
    t.queue = s.queue ∧ t.unload = .done := by
  have hout (p : P) := ProducerPc.outside_of_gates (hi.outside (by rw [hd]; rfl) p)
  cases a with
  | callEnqueue p r =>
    obtain rfl := s.call_eq_some h
    exact ⟨rfl, hd⟩
  | callSendSync p r =>
    obtain rfl := s.call_eq_some h
    exact ⟨rfl, hd⟩
  | producer p env =>
    obtain ⟨q, pc, hs, rfl⟩ := queueStep_producer h
    exact ⟨producerStep_closed (hi.closed (by rw [hd]; rfl)) (hout p) hs, hd⟩
  | worker i env =>
    obtain ⟨q, pc, hs, rfl⟩ := queueStep_worker h
    rw [hi.joined i (by rw [hd]; exact i.isLt)] at hs
    cases hs
  | unload =>
    obtain ⟨q, pc, hs, rfl⟩ := queueStep_unload h
    rw [hd] at hs
    cases hs

/-- Once `knFcQueueUninitialize` has returned the queue is torn down and stays as it
is, and a call with a path is refused. -/
theorem queue_stays_torn_down (s : QueueSystem P)
    (h : Reachable (queueStep up) (QueueSystem.init P) s) (hd : s.unload = .done)
    (t : QueueSystem P) (ht : Reachable (queueStep up) s t) :
    t.TornDown ∧ t.queue = s.queue ∧ t.unload = .done ∧
      ∀ p env r, (t.producers p = .enqueue r .enter ∨ t.producers p = .sync r .enter) →
        r.path.length ≠ 0 → producerStep t.queue env (t.producers p) =
          some (t.queue, .idle (some statusDeviceNotReady)) := by
  obtain ⟨hqueue, hdone⟩ : t.queue = s.queue ∧ t.unload = .done := by
    refine ht.induction (I := fun t => t.queue = s.queue ∧ t.unload = .done)
      (fun u a v hu hi hs => ?_) ⟨rfl, hd⟩
    obtain ⟨hq, hv⟩ := (reachable_closing (h.trans hu)).after hi.2 hs
    exact ⟨hq.trans hi.1, hv⟩
  have hclosing := (reachable_closing (h.trans ht)).closed (by rw [hdone]; rfl)
  exact ⟨reachable_tornDown (h.trans ht) hdone, hqueue, hdone,
    fun p env r hpc hr => producerStep_notReady hclosing env hpc hr⟩

/-- One item is still in the list when the unload thread has joined the workers;
the other producer calls when all is over. -/
def lateCaller : List (QueueAction Bool) :=
  .callEnqueue true doomedFile :: List.replicate 7 (.producer true quietEnv) ++
    .unload :: (List.finRange knfcQueueWorkerCount).map (fun i => .worker i quietEnv) ++
    List.replicate 9 .unload ++ [.callSendSync false doomedFile]

theorem queue_stays_torn_down_lateCaller :
    ∃ s t, exec (queueStep id) (QueueSystem.init Bool) lateCaller.dropLast = some s ∧
      queueStep id s (.callSendSync false doomedFile) = some t ∧ t.TornDown ∧
      t.queue.history.freed.length = 1 ∧
      producerStep t.queue quietEnv (t.producers false) =
        some (t.queue, .idle (some statusDeviceNotReady)) := by
  have hall := @queue_stays_torn_down Bool _ id _ ⟨lateCaller.dropLast, rfl⟩ rfl _
    ⟨[.callSendSync false doomedFile], rfl⟩
  exact ⟨_, _, rfl, rfl, hall.1, rfl,
    hall.2.2.2 false quietEnv doomedFile (Or.inr rfl) (by decide)⟩

end Teardown

end KnFileCatcher

import KnFileCatcher.QueueFlow
import KnFileCatcher.QueueStop

/-! Where every accepted item is: in the list, with one worker, or finished. The
books balance for each item, each number and each counter on its own. -/

namespace KnFileCatcher

open Runs Tally

/-- The item a worker has and whose fate it has not recorded yet. -/
def WorkerPc.held : WorkerPc → List KnfcQueueItem
  | .popped item | .send item | .discard item => [item]
  | .effects item rest => (rest.filterMap SendEffect.fate).map fun _ => item
  | _ => []

/-- The numbers given out so far, as the messages carry them. -/
def issuedIds (nextId : Nat) : List Ulonglong := (List.range' 1 nextId).map (BitVec.ofNat 64)

def messageIds (effects : List SendEffect) : List Ulonglong :=
  effects.filterMap fun
    | .message msg _ => some msg.requestId
    | _ => none

theorem sendOne_fates (up : Wchar → Wchar) (env : SendEnv) (item : KnfcQueueItem) :
    (WorkerPc.effects item (knFcQueueSendOne up env item)).held = [item] := by
  obtain ⟨msgs, last, h, hlast, hmsgs⟩ := sendOne_shape up env item
  obtain ⟨fate, hfate⟩ := Option.isSome_iff_exists.mp hlast
  rw [WorkerPc.held, h]
  rcases hmsgs with rfl | rfl
  · simp [hfate]
  · simp [hfate, show ∀ msg t, (SendEffect.message msg t).fate = none from fun _ _ => rfl]

theorem sendOne_messageIds (up : Wchar → Wchar) (env : SendEnv) (item : KnfcQueueItem) :
    (messageIds (knFcQueueSendOne up env item)).Sublist [BitVec.ofNat 64 item.requestId] := by
  obtain ⟨msgs, last, h, hlast, hmsgs⟩ := sendOne_shape up env item
  have hnone : messageIds [last] = [] := by
    cases last <;> first | rfl | cases hlast
  rw [h, messageIds, List.filterMap_append]
  change (messageIds msgs ++ messageIds [last]).Sublist _
  rw [hnone, List.append_nil]
  rcases hmsgs with rfl | rfl
  · exact List.nil_sublist _
  · exact List.Sublist.refl _

theorem syncExchange_messageIds (env : SendEnv) (requestId : Nat) (r : CleanupRequest) :
    (messageIds (syncExchange env requestId r).1).Sublist [BitVec.ofNat 64 requestId] := by
  obtain ⟨msgs, rest, h, hrest, hmsgs⟩ := syncExchange_shape env requestId r
  have hnone : messageIds rest = [] := by rcases hrest with rfl | rfl <;> rfl
  rw [h, messageIds, List.filterMap_append]
  change (messageIds msgs ++ messageIds rest).Sublist _
  rw [hnone, List.append_nil]
  rcases hmsgs with rfl | rfl
  · exact List.nil_sublist _
  · exact List.Sublist.refl _

section Perform

theorem perform_handed (q : KnfcQueue) (e : SendEffect) :
    (q.perform e).history.handed.map KnfcBackupRequest.requestId =
      q.history.handed.map KnfcBackupRequest.requestId ++ messageIds [e] := by
  cases e <;> simp [KnfcQueue.perform, messageIds]

theorem held_cons (item : KnfcQueueItem) (e : SendEffect) (rest : List SendEffect) :
    (WorkerPc.effects item (e :: rest)).held =
      (e.fate.map fun _ => item).toList ++ (WorkerPc.effects item rest).held := by
  cases e <;> rfl

end Perform

section Weights

def itemWeights (x : KnfcQueueItem) : QueueWeights where
  enqueue _ := 0
  sync _ := 0
  worker pc := pc.held.count x
  queue q := q.list.count x + (q.history.finished.map Prod.fst).count x - q.history.accepted.count x

theorem itemWeights_flow (x : KnfcQueueItem) (up : Wchar → Wchar) :
    (itemWeights x).Flow (· = ·) up where
  frame q q' hlist _ _ _ _ hhistory := by simp only [itemWeights, hlist, hhistory]
  outside _ _ := rfl
  reserve _ _ _ := zero_add _
  allocate _ _ := rfl
  noItem := rfl
  undo _ := (zero_add _).symm
  insert q item := by
    simp only [itemWeights, List.count_append]
    push_cast
    ring
  syncOutside := ⟨rfl, rfl, rfl, fun _ => rfl⟩
  number _ := zero_add _
  noMessage _ := rfl
  exchange _ _ _ _ := rfl
  fallback _ _ _ := rfl
  syncPerform q e rest status _ := by cases e <;> rfl
  syncDone _ := rfl
  empty := ⟨rfl, rfl, rfl, rfl, rfl⟩
  pop q item list h := by
    simp only [itemWeights, WorkerPc.held, h, ← List.singleton_append (l := list),
      List.count_append]
    push_cast
    ring
  judge _ := ⟨rfl, rfl⟩
  send env item := congrArg (fun l : List KnfcQueueItem => (l.count x : ℤ))
    (sendOne_fates up env item)
  perform q item e rest := by
    simp only [itemWeights, held_cons, KnfcQueue.finish, perform_list, perform_accepted,
      perform_finished, List.map_append, List.count_append]
    cases e.fate with
    | none => simp
    | some f =>
      simp
      ring
  done _ := rfl
  free q item := (zero_add _).symm
  discard q item := by
    simp only [itemWeights, WorkerPc.held, KnfcQueue.finish, KnfcQueue.free, Option.map_some,
      Option.toList_some, List.map_append, List.map_cons, List.map_nil, List.count_append]
    push_cast
    ring

/-- A number belongs to at most one insertion, whichever producer drew it. -/
def idWeights (n : Nat) : QueueWeights where
  enqueue
    | .insert item => if item.requestId = n then 1 else 0
    | _ => 0
  sync _ := 0
  worker _ := 0
  queue q := (q.history.accepted.map KnfcQueueItem.requestId).count n -
    (List.range' 1 q.nextId).count n

theorem count_range'_succ (k n : Nat) :
    (List.range' 1 (k + 1)).count n = (List.range' 1 k).count n + if k + 1 = n then 1 else 0 := by
  rw [List.range'_concat, List.count_append, List.count_singleton]
  simp [Nat.add_comm]

theorem idWeights_flow (n : Nat) (up : Wchar → Wchar) : (idWeights n).Flow (· ≤ ·) up where
  frame q q' _ _ _ _ hid hhistory := by simp only [idWeights, hid, hhistory]
  outside pc h := by cases pc <;> first | rfl | cases h
  reserve q pc h := by rcases h with rfl | rfl <;> exact (zero_add _).le
  allocate q r := by
    simp only [idWeights, count_range'_succ]
    push_cast
    split <;> omega
  noItem := le_rfl
  undo _ := (zero_add _).ge
  insert q item := by
    simp only [idWeights, List.map_append, List.map_cons, List.map_nil, List.count_append,
      List.count_singleton, beq_iff_eq]
    push_cast
    omega
  syncOutside := ⟨rfl, rfl, rfl, fun _ => rfl⟩
  number q := by
    simp only [idWeights, count_range'_succ]
    push_cast
    split <;> omega
  noMessage _ := le_rfl
  exchange _ _ _ _ := le_rfl
  fallback _ _ _ := le_rfl
  syncPerform q e rest status _ := by cases e <;> exact le_rfl
  syncDone _ := le_rfl
  empty := ⟨rfl, rfl, rfl, rfl, rfl⟩
  pop q item list h := (zero_add _).le
  judge _ := ⟨le_rfl, le_rfl⟩
  send _ _ := le_rfl
  perform q item e rest := by cases e <;> exact le_rfl
  done _ := le_rfl
  free q item := (zero_add _).ge
  discard q item := (zero_add _).ge

/-- The messages with the identifier `v` that went out or may still go out. -/
def messageWeights (v : Ulonglong) : QueueWeights where
  enqueue
    | .insert item => [BitVec.ofNat 64 item.requestId].count v
    | _ => 0
  sync
    | .exchange requestId => [BitVec.ofNat 64 requestId].count v
    | .effects rest _ => (messageIds rest).count v
    | _ => 0
  worker
    | .popped item | .send item => [BitVec.ofNat 64 item.requestId].count v
    | .effects _ rest => (messageIds rest).count v
    | _ => 0
  queue q := (q.list.map fun item => BitVec.ofNat 64 item.requestId).count v +
    (q.history.handed.map KnfcBackupRequest.requestId).count v - (issuedIds q.nextId).count v

theorem count_issuedIds_succ (k : Nat) (v : Ulonglong) :
    (issuedIds (k + 1)).count v = (issuedIds k).count v + [BitVec.ofNat 64 (k + 1)].count v := by
  rw [issuedIds, List.range'_concat, List.map_append, List.count_append]
  simp [issuedIds, Nat.add_comm]

theorem messageIds_cons (e : SendEffect) (rest : List SendEffect) :
    messageIds (e :: rest) = messageIds [e] ++ messageIds rest := by
  cases e <;> rfl

theorem messageWeights_flow (v : Ulonglong) (up : Wchar → Wchar) :
    (messageWeights v).Flow (· ≤ ·) up where
  frame q q' hlist _ _ _ hid hhistory := by simp only [messageWeights, hlist, hid, hhistory]
  outside pc h := by cases pc <;> first | rfl | cases h
  reserve q pc h := by rcases h with rfl | rfl <;> exact (zero_add _).le
  allocate q r := by
    simp only [messageWeights, count_issuedIds_succ]
    push_cast
    omega
  noItem := le_rfl
  undo _ := (zero_add _).ge
  insert q item := by
    simp only [messageWeights, List.map_append, List.map_cons, List.map_nil, List.count_append]
    push_cast
    omega
  syncOutside := ⟨rfl, rfl, rfl, fun _ => rfl⟩
  number q := by
    simp only [messageWeights, count_issuedIds_succ]
    push_cast
    omega
  noMessage _ := le_rfl
  exchange env requestId r _ :=
    Int.ofNat_le.mpr ((syncExchange_messageIds env requestId r).count_le v)
  fallback _ _ _ := le_rfl
  syncPerform q e rest status _ := by
    simp only [messageWeights, perform_list, perform_nextId, perform_handed, messageIds_cons e rest,
      List.count_append]
    push_cast
    omega
  syncDone _ := le_rfl
  empty := ⟨rfl, rfl, rfl, rfl, rfl⟩
  pop q item list h := by
    simp only [messageWeights, h, List.map_cons,
      ← List.singleton_append (l := List.map _ list), List.count_append]
    push_cast
    omega
  judge item := ⟨le_rfl, Int.natCast_nonneg _⟩
  send env item :=
    Int.ofNat_le.mpr ((sendOne_messageIds up env item).count_le v)
  perform q item e rest := by
    simp only [messageWeights, KnfcQueue.finish, perform_list, perform_nextId, perform_handed,
      messageIds_cons e rest, List.count_append]
    push_cast
    omega
  done _ := le_rfl
  free q item := (zero_add _).ge
  discard q item := (zero_add _).ge

/-- What the driver counts of the items that met one fate. -/
def KnfcQueue.counted (q : KnfcQueue) : ItemFate → Nat
  | .sent => q.sent
  | .failed => q.sendFailed
  | .excluded => 0
  | .discarded => 0

def KnfcQueue.met (q : KnfcQueue) (fate : ItemFate) : Nat :=
  q.history.finished.countP fun x => x.2 = fate

theorem counted_perform {fate : ItemFate} (hfate : fate = .sent ∨ fate = .failed) (q : KnfcQueue)
    (e : SendEffect) :
    (q.perform e).counted fate = q.counted fate + if e.fate = some fate then 1 else 0 := by
  rcases hfate with rfl | rfl <;> cases e <;> rfl

theorem met_finish (q : KnfcQueue) (item : KnfcQueueItem) (met : Option ItemFate)
    (fate : ItemFate) :
    (q.finish item met).met fate = q.met fate + if met = some fate then 1 else 0 := by
  cases met with
  | none => simp [KnfcQueue.met, KnfcQueue.finish]
  | some f => simp [KnfcQueue.met, KnfcQueue.finish, List.countP_singleton]

theorem met_perform (q : KnfcQueue) (e : SendEffect) (fate : ItemFate) :
    (q.perform e).met fate = q.met fate := by
  cases e <;> rfl

def fateWeights (fate : ItemFate) : QueueWeights where
  enqueue _ := 0
  sync _ := 0
  worker _ := 0
  queue q := q.counted fate - q.met fate

theorem fateWeights_flow {fate : ItemFate} (hfate : fate = .sent ∨ fate = .failed)
    (up : Wchar → Wchar) : (fateWeights fate).Flow (· = ·) up where
  frame q q' _ _ hsent hfailed _ hhistory := by
    rcases hfate with rfl | rfl <;>
      simp only [fateWeights, KnfcQueue.counted, KnfcQueue.met, hsent, hfailed, hhistory]
  outside _ _ := rfl
  reserve _ _ _ := zero_add _
  allocate _ _ := rfl
  noItem := rfl
  undo _ := (zero_add _).symm
  insert _ _ := (zero_add _).symm
  syncOutside := ⟨rfl, rfl, rfl, fun _ => rfl⟩
  number _ := zero_add _
  noMessage _ := rfl
  exchange _ _ _ _ := rfl
  fallback _ _ _ := rfl
  syncPerform q e _ _ he := by
    simp only [fateWeights, counted_perform hfate, met_perform, he]
    simp
  syncDone _ := rfl
  empty := ⟨rfl, rfl, rfl, rfl, rfl⟩
  pop _ _ _ _ := zero_add _
  judge _ := ⟨rfl, rfl⟩
  send _ _ := rfl
  perform q item e rest := by
    have hcounted : ((q.perform e).finish item e.fate).counted fate = (q.perform e).counted fate :=
      rfl
    simp only [fateWeights, hcounted, counted_perform hfate, met_finish, met_perform]
    push_cast
    ring
  done _ := rfl
  free _ _ := (zero_add _).symm
  discard q item := by
    have hmet := met_finish q item (some .discarded) fate
    rw [if_neg (by rcases hfate with rfl | rfl <;> nofun), add_zero] at hmet
    exact (congrArg (fun n : Nat => (q.counted fate : ℤ) - n) hmet).trans (zero_add _).symm

end Weights

section Ledger

variable {P : Type*}

def QueueSystem.held (s : QueueSystem P) : List KnfcQueueItem :=
  (List.finRange knfcQueueWorkerCount).flatMap fun i => (s.workers i).held

theorem QueueSystem.count_held (s : QueueSystem P) (x : KnfcQueueItem) :
    (s.held.count x : ℤ) = tally (fun pc : WorkerPc => (pc.held.count x : ℤ)) s.workers := by
  rw [tally_eq_sum, QueueSystem.held, List.count_flatMap, Fin.sum_univ_def]
  simp [Function.comp_def]

theorem tally_producer_zero {w : QueueWeights} (henqueue : ∀ pc, w.enqueue pc = 0)
    (hsync : ∀ pc, w.sync pc = 0) (s : QueueSystem P) : tally w.producer s.producers = 0 := by
  have hzero (pc : ProducerPc) : w.producer pc = 0 := by
    cases pc <;> simp [QueueWeights.producer, henqueue, hsync]
  simp [tally, hzero]

theorem tally_producer_nonneg {w : QueueWeights} (henqueue : ∀ pc, 0 ≤ w.enqueue pc)
    (hsync : ∀ pc, 0 ≤ w.sync pc) (s : QueueSystem P) : 0 ≤ tally w.producer s.producers := by
  refine tally_nonneg (fun pc => ?_) _
  cases pc with
  | idle last => exact le_rfl
  | enqueue r pc => exact henqueue pc
  | sync r pc => exact hsync pc
  | nested r fallback pc rest status => exact add_nonneg (hsync _) (henqueue pc)

theorem nodup_issuedIds {nextId : Nat} (h : nextId ≤ 2 ^ 64) : (issuedIds nextId).Nodup := by
  refine List.Nodup.map_on (fun m hm n hn hmn => ?_) List.nodup_range'
  have hmod := congrArg BitVec.toNat hmn
  simp only [BitVec.toNat_ofNat] at hmod
  simp only [List.mem_range'_1] at hm hn
  omega

/-- Every accepted item is in one place, and what was handed to the client was
issued once for each time it was handed. -/
structure QueueSystem.Accounted (s : QueueSystem P) : Prop where
  distinct : (s.queue.history.accepted.map KnfcQueueItem.requestId).Nodup
  placed : s.queue.history.accepted.Perm
    (s.queue.list ++ s.held ++ s.queue.history.finished.map Prod.fst)
  counted : s.queue.history.accepted.length = s.queue.list.length + s.held.length +
    s.queue.sent + s.queue.sendFailed + s.queue.met .excluded + s.queue.met .discarded
  issued : (s.queue.history.handed.map KnfcBackupRequest.requestId).Subperm
    (issuedIds s.queue.nextId)
  once : s.queue.nextId ≤ 2 ^ 64 →
    (s.queue.history.handed.map KnfcBackupRequest.requestId).Nodup

variable [DecidableEq P] {up : Wchar → Wchar}

theorem reachable_placed {s : QueueSystem P}
    (h : Reachable (queueStep up) (QueueSystem.init P) s) :
    s.queue.history.accepted.Perm
      (s.queue.list ++ s.held ++ s.queue.history.finished.map Prod.fst) := by
  rw [List.perm_iff_count]
  intro x
  obtain ⟨-, htotal⟩ := (itemWeights_flow x up).reachable comparison_eq h
  have hworkers : tally (itemWeights x).worker s.workers = s.held.count x := (s.count_held x).symm
  rw [QueueSystem.total, tally_producer_zero (fun _ => rfl) (fun _ => rfl), hworkers] at htotal
  simp only [itemWeights, knFcQueueInitialize, List.count_nil, List.map_nil] at htotal
  simp only [List.count_append]
  omega

theorem reachable_distinct {s : QueueSystem P}
    (h : Reachable (queueStep up) (QueueSystem.init P) s) :
    (s.queue.history.accepted.map KnfcQueueItem.requestId).Nodup := by
  rw [List.nodup_iff_count_le_one]
  intro n
  obtain ⟨-, htotal⟩ := (idWeights_flow n up).reachable comparison_le h
  have hproducers : 0 ≤ tally (idWeights n).producer s.producers :=
    tally_producer_nonneg (fun pc => by cases pc <;> simp only [idWeights] <;> positivity)
      (fun _ => le_rfl) s
  have hworkers : tally (idWeights n).worker s.workers = 0 := finsum_zero
  have honce : (List.range' 1 s.queue.nextId).count n ≤ 1 :=
    List.nodup_iff_count_le_one.mp List.nodup_range' n
  have hinit : (idWeights n).queue knFcQueueInitialize = 0 := rfl
  rw [QueueSystem.total, hworkers, hinit] at htotal
  change _ + _ + (_ - _) ≤ (0 : ℤ) at htotal
  omega

theorem reachable_issued {s : QueueSystem P}
    (h : Reachable (queueStep up) (QueueSystem.init P) s) :
    (s.queue.history.handed.map KnfcBackupRequest.requestId).Subperm
      (issuedIds s.queue.nextId) := by
  rw [List.subperm_ext_iff]
  intro v _
  obtain ⟨-, htotal⟩ := (messageWeights_flow v up).reachable comparison_le h
  have hproducers : 0 ≤ tally (messageWeights v).producer s.producers :=
    tally_producer_nonneg (fun pc => by cases pc <;> simp only [messageWeights] <;> positivity)
      (fun pc => by cases pc <;> simp only [messageWeights] <;> positivity) s
  have hworkers : 0 ≤ tally (messageWeights v).worker s.workers :=
    tally_nonneg (fun pc => by cases pc <;> simp only [messageWeights] <;> positivity) _
  have hinit : (messageWeights v).queue knFcQueueInitialize = 0 := rfl
  have hlist : 0 ≤ ((s.queue.list.map fun item =>
      (BitVec.ofNat 64 item.requestId : Ulonglong)).count v : ℤ) := by positivity
  rw [QueueSystem.total, hinit] at htotal
  change _ + _ + (_ + _ - _) ≤ (0 : ℤ) at htotal
  omega

theorem reachable_met {s : QueueSystem P} {fate : ItemFate}
    (hfate : fate = .sent ∨ fate = .failed)
    (h : Reachable (queueStep up) (QueueSystem.init P) s) :
    s.queue.counted fate = s.queue.met fate := by
  obtain ⟨-, htotal⟩ := (fateWeights_flow hfate up).reachable comparison_eq h
  have hworkers : tally (fateWeights fate).worker s.workers = 0 := finsum_zero
  have hinit : (fateWeights fate).queue knFcQueueInitialize = 0 := by
    rcases hfate with rfl | rfl <;> rfl
  rw [QueueSystem.total, tally_producer_zero (fun _ => rfl) (fun _ => rfl), hworkers,
    hinit] at htotal
  simp only [fateWeights] at htotal
  omega

theorem length_finished (q : KnfcQueue) :
    q.history.finished.length = q.met .sent + q.met .failed + q.met .excluded +
      q.met .discarded := by
  unfold KnfcQueue.met
  induction q.history.finished with
  | nil => rfl
  | cons x l ih =>
    obtain ⟨item, fate⟩ := x
    cases fate <;> simp [ih] <;> omega

theorem accepted_items_accounted (s : QueueSystem P)
    (h : Reachable (queueStep up) (QueueSystem.init P) s) : s.Accounted where
  distinct := reachable_distinct h
  placed := reachable_placed h
  counted := by
    have hplaced := (reachable_placed h).length_eq
    have hsent : s.queue.sent = s.queue.met .sent := reachable_met (Or.inl rfl) h
    have hfailed : s.queue.sendFailed = s.queue.met .failed := reachable_met (Or.inr rfl) h
    have hfinished := length_finished s.queue
    simp only [List.length_append, List.length_map] at hplaced
    omega
  issued := reachable_issued h
  once hbound := by
    obtain ⟨ids, hperm, hsub⟩ := reachable_issued h
    exact hperm.nodup_iff.mp ((nodup_issuedIds hbound).sublist hsub)

/-- Two requests are accepted; a worker fails to send the first. -/
def oneFailed : List (QueueAction Bool) :=
  [true, false].flatMap (fun p =>
    .callEnqueue p doomedFile :: List.replicate 7 (.producer p quietEnv)) ++
    List.replicate 6 (.worker 0 quietEnv)

theorem accepted_items_accounted_oneFailed :
    ∃ s, exec (queueStep id) (QueueSystem.init Bool) oneFailed = some s ∧
      s.queue.history.accepted.length = 2 ∧ s.queue.list.length = 1 ∧ s.queue.sendFailed = 1 ∧
      s.Accounted :=
  ⟨_, rfl, rfl, rfl, rfl, @accepted_items_accounted Bool _ id _ ⟨oneFailed, rfl⟩⟩

end Ledger

end KnFileCatcher

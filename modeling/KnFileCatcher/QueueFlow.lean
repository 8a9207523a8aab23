import KnFileCatcher.Runs
import KnFileCatcher.Tally
import KnFileCatcher.Queue
import KnFileCatcher.SendHonesty

/-! Totals over the queue, its producers and its workers. A total that each party's
own step keeps, or lowers, is kept or lowered by every run. -/

namespace KnFileCatcher

open Runs Tally

section Plain

/-- A synchronous send has no effect that finishes a queued item. -/
def ProducerPc.Plain : ProducerPc → Prop
  | .sync _ (.effects rest _) => ∀ e ∈ rest, e.fate = none
  | .nested _ _ _ rest _ => ∀ e ∈ rest, e.fate = none
  | _ => True

/-- A queued item is excluded, or its message goes out or not, and it is counted. -/
theorem sendOne_shape (up : Wchar → Wchar) (env : SendEnv) (item : KnfcQueueItem) :
    ∃ msgs fate, knFcQueueSendOne up env item = msgs ++ [fate] ∧ fate.fate.isSome = true ∧
      (msgs = [] ∨
        msgs = [.message (backupMessage item.requestId item.request) knfcReplyTimeout]) := by
  cases hx : (knFcExcludeMatches up env.exclude item.request.path).1 with
  | true => exact ⟨[], .excluded, by simp [knFcQueueSendOne, hx], rfl, Or.inl rfl⟩
  | false =>
    by_cases h : env.alloc = false ∨ env.connected = false
    · exact ⟨[], .sendFailed, sendOne_unsent hx h, rfl, Or.inl rfl⟩
    · simp only [not_or, Bool.not_eq_false] at h
      refine ⟨_, _, sendOne_sent hx h.1 h.2, ?_, Or.inr rfl⟩
      split <;> rfl

theorem syncExchange_shape (env : SendEnv) (requestId : Nat) (r : CleanupRequest) :
    ∃ msgs rest, (syncExchange env requestId r).1 = msgs ++ rest ∧
      (rest = [.syncSent] ∨ rest = [.syncFailed, .enqueue r]) ∧
      (msgs = [] ∨
        msgs = [.message (backupMessage requestId r) (syncTimeout r.fileSizeHint)]) := by
  cases hc : env.connected with
  | false => exact ⟨[], _, syncExchange_disconnected hc _ r, Or.inr rfl, Or.inl rfl⟩
  | true =>
    refine ⟨_, _, syncExchange_connected hc _ r, ?_, Or.inr rfl⟩
    cases countsAsReplied env with
    | true => exact Or.inl rfl
    | false => exact Or.inr rfl

theorem syncExchange_plain (env : SendEnv) (requestId : Nat) (r : CleanupRequest) :
    ∀ e ∈ (syncExchange env requestId r).1, e.fate = none := by
  obtain ⟨msgs, rest, h, hrest, hmsgs⟩ := syncExchange_shape env requestId r
  intro e he
  rw [h] at he
  rcases hmsgs with rfl | rfl <;> rcases hrest with rfl | rfl <;> simp at he
  · exact he ▸ rfl
  · rcases he with rfl | rfl <;> rfl
  · rcases he with rfl | rfl <;> rfl
  · rcases he with rfl | rfl | rfl <;> rfl

theorem syncStep_plain {q : KnfcQueue} {env : SendEnv} {r : CleanupRequest} {pc : SyncPc}
    (h : (ProducerPc.sync r pc).Plain) : (syncStep q env r pc).2.Plain := by
  cases pc with
  | enter =>
    simp only [syncStep]
    split
    · trivial
    · split <;> trivial
  | stopTest =>
    simp only [syncStep]
    split <;> trivial
  | allocate =>
    simp only [syncStep]
    split
    · trivial
    · intro e he
      obtain rfl := List.mem_singleton.mp he
      rfl
  | exchange requestId => exact syncExchange_plain env requestId r
  | effects rest status =>
    cases rest with
    | nil => trivial
    | cons e rest =>
      have hrest : ∀ e ∈ rest, e.fate = none := fun e' he' => h e' (List.mem_cons_of_mem e he')
      cases e <;> exact hrest
  | release status => trivial

theorem producerStep_plain {q q' : KnfcQueue} {env : SendEnv} {pc pc' : ProducerPc}
    (h : pc.Plain) (hs : producerStep q env pc = some (q', pc')) : pc'.Plain := by
  cases pc with
  | idle last => cases hs
  | enqueue r pc =>
    obtain ⟨-, ⟨epc, -, rfl⟩ | ⟨status, -, rfl⟩⟩ := producerStep_enqueue hs <;> trivial
  | sync r pc =>
    obtain ⟨-, rfl⟩ := producerStep_sync hs
    exact syncStep_plain h
  | nested r fallback pc rest status =>
    obtain ⟨-, ⟨epc, -, rfl⟩ | ⟨result, -, rfl⟩⟩ := producerStep_nested hs <;> exact h

end Plain

variable {P : Type*}

/-- Finitely many producers have called, and none is amid effects of a worker. -/
structure QueueSystem.Regular (s : QueueSystem P) : Prop where
  started : Started (.idle none) s.producers
  plain : ∀ p, (s.producers p).Plain

theorem regular_init : (QueueSystem.init P).Regular :=
  ⟨started_const _, fun _ => trivial⟩

variable [DecidableEq P] {up : Wchar → Wchar}

theorem QueueSystem.Regular.update {s : QueueSystem P} (h : s.Regular) {p : P} {pc : ProducerPc}
    (hpc : pc.Plain) {q : KnfcQueue} :
    ({ s with queue := q, producers := Function.update s.producers p pc } :
      QueueSystem P).Regular := by
  refine ⟨h.started.update p pc, ?_⟩
  exact (Function.forall_update_iff s.producers fun _ pc => pc.Plain).mpr
    ⟨hpc, fun p' _ => h.plain p'⟩

theorem QueueSystem.Regular.step {s t : QueueSystem P} {a : QueueAction P} (h : s.Regular)
    (hs : queueStep up s a = some t) : t.Regular := by
  cases a with
  | callEnqueue p r =>
    obtain rfl := s.call_eq_some hs
    exact @QueueSystem.Regular.update P _ s h p (.enqueue r .enter) trivial s.queue
  | callSendSync p r =>
    obtain rfl := s.call_eq_some hs
    exact @QueueSystem.Regular.update P _ s h p (.sync r .enter) trivial s.queue
  | producer p env =>
    obtain ⟨q, pc, hp, rfl⟩ := queueStep_producer hs
    exact h.update (producerStep_plain (h.plain p) hp)
  | worker i env =>
    obtain ⟨q, pc, hw, rfl⟩ := queueStep_worker hs
    exact ⟨h.started, h.plain⟩
  | unload =>
    obtain ⟨q, pc, hu, rfl⟩ := queueStep_unload hs
    exact ⟨h.started, h.plain⟩

structure QueueWeights where
  enqueue : EnqueuePc → ℤ
  sync : SyncPc → ℤ
  worker : WorkerPc → ℤ
  queue : KnfcQueue → ℤ

/-- A synchronous send that waits for its fallback counts as both. -/
def QueueWeights.producer (w : QueueWeights) : ProducerPc → ℤ
  | .idle _ => 0
  | .enqueue _ pc => w.enqueue pc
  | .sync _ pc => w.sync pc
  | .nested _ _ pc rest status => w.sync (.effects rest status) + w.enqueue pc

noncomputable def QueueSystem.total (w : QueueWeights) (s : QueueSystem P) : ℤ :=
  tally w.producer s.producers + tally w.worker s.workers + w.queue s.queue

def EnqueuePc.reserved : EnqueuePc → Bool
  | .allocate | .undo | .insert _ => true
  | _ => false

/-- The moves of the parties that a total can see, and what each does to it. The
queue's share depends on the list, the numbers and the history alone. -/
structure QueueWeights.Flow (w : QueueWeights) (rel : ℤ → ℤ → Prop) (up : Wchar → Wchar) :
    Prop where
  frame : ∀ q q', q'.list = q.list → q'.depth = q.depth → q'.sent = q.sent →
    q'.sendFailed = q.sendFailed → q'.nextId = q.nextId → q'.history = q.history →
    w.queue q' = w.queue q
  outside : ∀ pc, pc.reserved = false → w.enqueue pc = 0
  reserve : ∀ q pc, pc = .allocate ∨ pc = .undo →
    rel (w.enqueue pc + w.queue { q with depth := q.depth + 1 }) (w.queue q)
  allocate : ∀ q r, rel
    (w.enqueue (.insert ⟨q.nextId + 1, r⟩) + w.queue { q with
      nextId := q.nextId + 1
      history := { q.history with
        allocated := q.history.allocated ++ [⟨q.nextId + 1, r⟩] } })
    (w.enqueue .allocate + w.queue q)
  noItem : rel (w.enqueue .undo) (w.enqueue .allocate)
  undo : ∀ q, rel (w.queue { q with depth := q.depth - 1 }) (w.enqueue .undo + w.queue q)
  insert : ∀ q item, rel
    (w.queue { q with
      list := q.list ++ [item]
      history := { q.history with accepted := q.history.accepted ++ [item] } })
    (w.enqueue (.insert item) + w.queue q)
  syncOutside : w.sync .enter = 0 ∧ w.sync .stopTest = 0 ∧ w.sync .allocate = 0 ∧
    ∀ status, w.sync (.release status) = 0
  number : ∀ q, rel (w.sync (.exchange (q.nextId + 1)) + w.queue { q with nextId := q.nextId + 1 })
    (w.queue q)
  noMessage : ∀ status, rel (w.sync (.effects [.syncFailed] status)) 0
  exchange : ∀ env id r status,
    rel (w.sync (.effects (syncExchange env id r).1 status)) (w.sync (.exchange id))
  fallback : ∀ r rest status, rel (w.sync (.effects rest status))
    (w.sync (.effects (.enqueue r :: rest) status))
  syncPerform : ∀ q e rest status, e.fate = none →
    rel (w.sync (.effects rest status) + w.queue (q.perform e))
      (w.sync (.effects (e :: rest) status) + w.queue q)
  syncDone : ∀ status, rel 0 (w.sync (.effects [] status))
  empty : w.worker .test = 0 ∧ w.worker .wait = 0 ∧ w.worker .waiting = 0 ∧ w.worker .drain = 0 ∧
    w.worker .exited = 0
  pop : ∀ q item list, q.list = item :: list →
    rel (w.worker (.popped item) + w.queue { q with list := list, depth := q.depth - 1 }) (w.queue q)
  judge : ∀ item, rel (w.worker (.send item)) (w.worker (.popped item)) ∧
    rel (w.worker (.discard item)) (w.worker (.popped item))
  send : ∀ env item, rel (w.worker (.effects item (knFcQueueSendOne up env item)))
    (w.worker (.send item))
  perform : ∀ q item e rest,
    rel (w.worker (.effects item rest) + w.queue ((q.perform e).finish item e.fate))
      (w.worker (.effects item (e :: rest)) + w.queue q)
  done : ∀ item, rel (w.worker (.free item)) (w.worker (.effects item []))
  free : ∀ q item, rel (w.queue (q.free item)) (w.worker (.free item) + w.queue q)
  discard : ∀ q item, rel (w.queue ((q.finish item (some .discarded)).free item))
    (w.worker (.discard item) + w.queue q)

section Flow

variable {w : QueueWeights} {rel : ℤ → ℤ → Prop}

theorem QueueWeights.Flow.unseen (hf : w.Flow rel up) (hrel : Comparison rel) {q q' : KnfcQueue}
    {x y : ℤ} (hxy : x = y) (hlist : q'.list = q.list) (hdepth : q'.depth = q.depth)
    (hsent : q'.sent = q.sent) (hfailed : q'.sendFailed = q.sendFailed)
    (hid : q'.nextId = q.nextId) (hhistory : q'.history = q.history) :
    rel (x + w.queue q') (y + w.queue q) := by
  rw [hxy, hf.frame q q' hlist hdepth hsent hfailed hid hhistory]
  exact hrel.refl _

theorem QueueWeights.Flow.enqueue (hf : w.Flow rel up) (hrel : Comparison rel) (q : KnfcQueue)
    (alloc : Bool) (r : CleanupRequest) (pc : EnqueuePc) :
    rel (Sum.elim w.enqueue (fun _ => 0) (knFcQueueEnqueue q alloc r pc).2 +
      w.queue (knFcQueueEnqueue q alloc r pc).1) (w.enqueue pc + w.queue q) := by
  have hout (pc : EnqueuePc) (h : pc.reserved = false) : w.enqueue pc = 0 := hf.outside pc h
  have hquiet {q' : KnfcQueue} {x : ℤ} (hpc : pc.reserved = false) (hx : x = 0)
      (h : w.queue q' = w.queue q) : rel (x + w.queue q') (w.enqueue pc + w.queue q) := by
    rw [h, hout pc hpc, hx]
    exact hrel.refl _
  cases pc with
  | enter =>
    simp only [knFcQueueEnqueue]
    split
    · exact hquiet rfl rfl rfl
    · split
      · exact hquiet rfl rfl rfl
      · refine hquiet rfl (hout .stopTest rfl) ?_
        exact hf.frame q _ rfl rfl rfl rfl rfl rfl
  | stopTest =>
    simp only [knFcQueueEnqueue]
    split
    · exact hquiet rfl (hout _ rfl) rfl
    · exact hquiet rfl (hout _ rfl) rfl
  | increment =>
    simp only [knFcQueueEnqueue, Sum.elim_inl, hout .increment rfl, zero_add]
    split
    · exact hf.reserve q _ (Or.inr rfl)
    · exact hf.reserve q _ (Or.inl rfl)
  | allocate =>
    simp only [knFcQueueEnqueue]
    split
    · exact hf.allocate q r
    · exact hrel.add _ hf.noItem
  | undo =>
    simp only [knFcQueueEnqueue, Sum.elim_inl, hout .countDrop rfl, zero_add]
    exact hf.undo q
  | countDrop =>
    refine hquiet rfl (hout _ rfl) ?_
    exact hf.frame q _ rfl rfl rfl rfl rfl rfl
  | insert item =>
    simp only [knFcQueueEnqueue, Sum.elim_inl, hout .signal rfl, zero_add]
    exact hf.insert q item
  | signal =>
    refine hquiet rfl (hout _ rfl) ?_
    exact hf.frame q _ rfl rfl rfl rfl rfl rfl
  | release status =>
    refine hquiet rfl rfl ?_
    exact hf.frame q _ rfl rfl rfl rfl rfl rfl

theorem QueueWeights.Flow.sync (hf : w.Flow rel up) (hrel : Comparison rel) (q : KnfcQueue)
    (env : SendEnv) (r : CleanupRequest) (pc : SyncPc) (hpc : (ProducerPc.sync r pc).Plain) :
    rel (w.producer (syncStep q env r pc).2 + w.queue (syncStep q env r pc).1)
      (w.sync pc + w.queue q) := by
  obtain ⟨henter, hstop, halloc, hrelease⟩ := hf.syncOutside
  cases pc with
  | enter =>
    simp only [syncStep]
    split
    · simp only [QueueWeights.producer, henter]
      exact hrel.refl _
    · split
      · simp only [QueueWeights.producer, henter]
        exact hrel.refl _
      · simp only [QueueWeights.producer, henter, hstop]
        exact hf.unseen hrel rfl rfl rfl rfl rfl rfl rfl
  | stopTest =>
    simp only [syncStep, QueueWeights.producer, hstop]
    split
    · rw [hrelease]
      exact hrel.refl _
    · rw [halloc]
      exact hrel.refl _
  | allocate =>
    simp only [syncStep]
    split
    · simp only [QueueWeights.producer, halloc, zero_add]
      exact hf.number q
    · simp only [QueueWeights.producer, halloc]
      exact hrel.add _ (hf.noMessage _)
  | exchange id => exact hrel.add _ (hf.exchange env id r _)
  | effects rest status =>
    cases rest with
    | nil =>
      simp only [syncStep, QueueWeights.producer, hrelease]
      exact hrel.add _ (hf.syncDone status)
    | cons e rest =>
      have hperform := hf.syncPerform q e rest status (hpc e List.mem_cons_self)
      cases e with
      | enqueue fallback =>
        simp only [syncStep, QueueWeights.producer, hf.outside .enter rfl, add_zero]
        exact hrel.add _ (hf.fallback fallback rest status)
      | _ => exact hperform
  | release status =>
    simp only [syncStep, QueueWeights.producer, hrelease]
    exact hf.unseen hrel rfl rfl rfl rfl rfl rfl rfl

theorem QueueWeights.Flow.worker (hf : w.Flow rel up) (hrel : Comparison rel) {q q' : KnfcQueue}
    {env : SendEnv} {i : WorkerId} {pc pc' : WorkerPc}
    (hs : knFcQueueWorker up q env i pc = some (q', pc')) :
    rel (w.worker pc' + w.queue q') (w.worker pc + w.queue q) := by
  obtain ⟨htest, hwait, hwaiting, hdrain, hexited⟩ := hf.empty
  cases pc with
  | test =>
    obtain ⟨rfl, rfl⟩ := Prod.mk.inj (Option.some.inj hs)
    split
    · rw [hexited, htest]
      exact hrel.refl _
    · rw [hwait, htest]
      exact hrel.refl _
  | wait =>
    simp only [knFcQueueWorker] at hs
    split at hs <;> obtain ⟨rfl, rfl⟩ := Prod.mk.inj (Option.some.inj hs)
    · rw [hwait, hdrain]
      exact hrel.refl _
    · rw [hwait, hwaiting]
      exact hf.unseen hrel rfl rfl rfl rfl rfl rfl rfl
  | waiting =>
    simp only [knFcQueueWorker] at hs
    split at hs
    · cases hs
    · obtain ⟨rfl, rfl⟩ := Prod.mk.inj (Option.some.inj hs)
      rw [hwaiting, hdrain]
      exact hrel.refl _
  | drain =>
    simp only [knFcQueueWorker] at hs
    split at hs <;> next hl =>
      obtain ⟨rfl, rfl⟩ := Prod.mk.inj (Option.some.inj hs)
      first
        | exact (by simpa only [hdrain, zero_add] using hf.pop q _ _ hl)
        | exact (by
            rw [htest, hdrain]
            exact hf.unseen hrel rfl rfl rfl rfl rfl rfl rfl)
  | popped item =>
    obtain ⟨rfl, rfl⟩ := Prod.mk.inj (Option.some.inj hs)
    split
    · exact hrel.add _ (hf.judge item).2
    · exact hrel.add _ (hf.judge item).1
  | send item =>
    obtain ⟨rfl, rfl⟩ := Prod.mk.inj (Option.some.inj hs)
    exact hrel.add _ (hf.send env item)
  | effects item rest =>
    cases rest with
    | nil =>
      obtain ⟨rfl, rfl⟩ := Prod.mk.inj (Option.some.inj hs)
      exact hrel.add _ (hf.done item)
    | cons e rest =>
      obtain ⟨rfl, rfl⟩ := Prod.mk.inj (Option.some.inj hs)
      exact hf.perform q item e rest
  | free item =>
    obtain ⟨rfl, rfl⟩ := Prod.mk.inj (Option.some.inj hs)
    rw [hdrain, zero_add]
    exact hf.free q item
  | discard item =>
    obtain ⟨rfl, rfl⟩ := Prod.mk.inj (Option.some.inj hs)
    rw [hdrain, zero_add]
    exact hf.discard q item
  | exited => cases hs

/-- The unload thread pops and discards in one step. -/
theorem QueueWeights.Flow.unload (hf : w.Flow rel up) (hrel : Comparison rel) {q q' : KnfcQueue}
    {workers : WorkerId → WorkerPc} {pc pc' : UnloadPc}
    (hs : knFcQueueUninitialize q workers pc = some (q', pc')) : rel (w.queue q') (w.queue q) := by
  cases pc with
  | awaitRundown =>
    unfold knFcQueueUninitialize at hs
    dsimp only at hs
    split at hs
    · obtain ⟨rfl, -⟩ := Prod.mk.inj (Option.some.inj hs)
      exact hrel.refl _
    · cases hs
  | join i =>
    unfold knFcQueueUninitialize at hs
    dsimp only at hs
    split at hs
    · obtain ⟨rfl, -⟩ := Prod.mk.inj (Option.some.inj hs)
      exact hrel.refl _
    · cases hs
  | drain =>
    cases hl : q.list with
    | nil =>
      simp only [hl, knFcQueueUninitialize] at hs
      obtain ⟨rfl, -⟩ := Prod.mk.inj (Option.some.inj hs)
      exact hrel.refl _
    | cons item list =>
      simp only [hl, knFcQueueUninitialize] at hs
      obtain ⟨rfl, -⟩ := Prod.mk.inj (Option.some.inj hs)
      have hpop := hf.pop q item list hl
      have hjudge := hrel.add (w.queue { q with list := list, depth := q.depth - 1 })
        (hf.judge item).2
      exact hrel.trans (hf.discard _ item) (hrel.trans hjudge hpop)
  | done => cases hs
  | _ =>
    obtain ⟨rfl, -⟩ := Prod.mk.inj (Option.some.inj hs)
    rw [← zero_add (w.queue q), ← zero_add (w.queue _)]
    exact hf.unseen hrel rfl rfl rfl rfl rfl rfl rfl

theorem QueueWeights.Flow.producer (hf : w.Flow rel up) (hrel : Comparison rel) {q q' : KnfcQueue}
    {env : SendEnv} {pc pc' : ProducerPc} (hpc : pc.Plain)
    (hs : producerStep q env pc = some (q', pc')) :
    rel (w.producer pc' + w.queue q') (w.producer pc + w.queue q) := by
  cases pc with
  | idle last => cases hs
  | enqueue r pc =>
    have h := hf.enqueue hrel q env.alloc r pc
    obtain ⟨rfl, ⟨epc, hpc', rfl⟩ | ⟨status, hpc', rfl⟩⟩ := producerStep_enqueue hs <;>
      · rw [hpc'] at h
        exact h
  | sync r pc =>
    obtain ⟨rfl, rfl⟩ := producerStep_sync hs
    exact hf.sync hrel q env r pc hpc
  | nested r fallback pc rest status =>
    have h := hrel.add (w.sync (.effects rest status)) (hf.enqueue hrel q env.alloc fallback pc)
    obtain ⟨rfl, ⟨epc, hpc', rfl⟩ | ⟨result, hpc', rfl⟩⟩ := producerStep_nested hs <;>
      · rw [hpc'] at h
        convert h using 1 <;> simp [QueueWeights.producer] <;> ring

omit [DecidableEq P] in
theorem QueueWeights.Flow.total_init (hf : w.Flow rel up) :
    (QueueSystem.init P).total w = w.queue knFcQueueInitialize := by
  simp only [QueueSystem.total, QueueSystem.init]
  rw [tally_const (show w.producer (.idle none) = 0 from rfl), tally_const hf.empty.1, zero_add,
    zero_add]

theorem total_call {s t : QueueSystem P} (hr : s.Regular)
    {p : P} {pc : ProducerPc} (hpc : w.producer pc = 0) (hs : s.call p pc = some t) :
    t.total w = s.total w := by
  have hidle : w.producer (s.producers p) = 0 := by
    unfold QueueSystem.call at hs
    split at hs
    · next last hp => rw [hp, QueueWeights.producer]
    · cases hs
  obtain rfl := s.call_eq_some hs
  simp only [QueueSystem.total]
  rw [tally_update (show w.producer (.idle none) = 0 from rfl) hr.started, hidle, hpc, sub_zero,
    add_zero]

theorem QueueWeights.Flow.step (hf : w.Flow rel up) (hrel : Comparison rel) {s t : QueueSystem P}
    {a : QueueAction P} (hr : s.Regular) (hs : queueStep up s a = some t) :
    rel (t.total w) (s.total w) := by
  cases a with
  | callEnqueue p r =>
    rw [total_call hr (show w.producer (.enqueue r .enter) = 0 from hf.outside .enter rfl) hs]
    exact hrel.refl _
  | callSendSync p r =>
    rw [total_call hr (show w.producer (.sync r .enter) = 0 from hf.syncOutside.1) hs]
    exact hrel.refl _
  | producer p env =>
    obtain ⟨q, pc, hp, rfl⟩ := queueStep_producer hs
    have hlocal := hrel.add (tally w.producer s.producers - w.producer (s.producers p) +
      tally w.worker s.workers) (hf.producer hrel (hr.plain p) hp)
    simp only [QueueSystem.total]
    rw [tally_update (show w.producer (.idle none) = 0 from rfl) hr.started]
    convert hlocal using 1 <;> ring
  | worker i env =>
    obtain ⟨q, pc, hw, rfl⟩ := queueStep_worker hs
    have hlocal := hrel.add (tally w.producer s.producers - w.worker (s.workers i) +
      tally w.worker s.workers) (hf.worker hrel hw)
    simp only [QueueSystem.total]
    rw [tally_update hf.empty.1 (started_of_finite .test s.workers)]
    convert hlocal using 1 <;> ring
  | unload =>
    obtain ⟨q, pc, hu, rfl⟩ := queueStep_unload hs
    have hlocal := hrel.add (tally w.producer s.producers + tally w.worker s.workers)
      (hf.unload hrel hu)
    simp only [QueueSystem.total]
    convert hlocal using 1 <;> ring

/-- The run rule for totals. -/
theorem QueueWeights.Flow.reachable (hf : w.Flow rel up) (hrel : Comparison rel)
    {s : QueueSystem P} (h : Reachable (queueStep up) (QueueSystem.init P) s) :
    s.Regular ∧ rel (s.total w) (w.queue knFcQueueInitialize) := by
  refine h.invariant (I := fun s => s.Regular ∧ rel (s.total w) (w.queue knFcQueueInitialize))
    (fun s a t hi hs => ⟨hi.1.step hs, hrel.trans (hf.step hrel hi.1 hs) hi.2⟩)
    ⟨regular_init, ?_⟩
  rw [hf.total_init]
  exact hrel.refl _

end Flow

end KnFileCatcher

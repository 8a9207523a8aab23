import KnFileCatcher.QueueStop
import KnFileCatcher.QueueDepth

/-! The list and its event change in separate steps. Whoever leaves an item under a
cleared event still owes the set that announces it. -/

namespace KnFileCatcher

open Runs

variable {P : Type*}

/-- The producer has inserted its item and not yet set the event. -/
def ProducerPc.owesSet (pc : ProducerPc) : Prop := pc.enqueuePc = some .signal

theorem ProducerPc.owesSet.step {q q' : KnfcQueue} {env : SendEnv} {pc pc' : ProducerPc}
    (hpc : pc.owesSet) (h : producerStep q env pc = some (q', pc')) : q'.event = q.event.set := by
  cases pc with
  | enqueue r pc =>
    obtain rfl : pc = .signal := Option.some.inj hpc
    obtain ⟨rfl, -⟩ := producerStep_enqueue h
    rfl
  | nested r fallback pc rest status =>
    obtain rfl : pc = .signal := Option.some.inj hpc
    obtain ⟨rfl, -⟩ := producerStep_nested h
    rfl
  | idle last => cases hpc
  | sync r pc => cases hpc

structure QueueSystem.Announced (s : QueueSystem P) : Prop where
  owed : s.queue.list ≠ [] → s.queue.event.signaled = false → ∃ p, (s.producers p).owesSet
  released : s.queue.event.signaled = true → s.queue.event.waiters = ∅

theorem announced_init : (QueueSystem.init P).Announced where
  owed h := absurd rfl h
  released h := nomatch h

variable {up : Wchar → Wchar}

theorem QueueSystem.Announced.worker {s : QueueSystem P} {i : WorkerId} {env : SendEnv}
    {q : KnfcQueue} {pc : WorkerPc} (hi : s.Announced)
    (h : knFcQueueWorker up s.queue env i (s.workers i) = some (q, pc)) :
    ({ s with queue := q, workers := Function.update s.workers i pc } :
      QueueSystem P).Announced := by
  obtain ⟨-, -, hevent⟩ := knFcQueueWorker_event h
  have hlist := knFcQueueWorker_list h
  have hold (hne : q.list ≠ []) : s.queue.list ≠ [] := by
    rcases hlist with hl | ⟨item, hl⟩
    · rwa [← hl]
    · simp [hl]
  rcases hevent with he | ⟨-, hempty, he⟩ | ⟨-, hns, he⟩
  · exact ⟨fun hne hs => hi.owed (hold hne) (he ▸ hs), fun hs => he ▸ hi.released (he ▸ hs)⟩
  -- the event is cleared under the lock that shows the list empty
  · exact ⟨fun hne _ => absurd hempty (hold hne), fun hs => by simp [he, Waits.Event.clear] at hs⟩
  · refine ⟨fun hne _ => hi.owed (hold hne) hns, fun hs => ?_⟩
    simp [he, Waits.Event.block, hns] at hs

theorem QueueSystem.Announced.unload {s : QueueSystem P} {q : KnfcQueue} {pc : UnloadPc}
    (hi : s.Announced) (h : knFcQueueUninitialize s.queue s.workers s.unload = some (q, pc)) :
    ({ s with queue := q, unload := pc } : QueueSystem P).Announced := by
  have hlist := knFcQueueUninitialize_list h
  have hold (hne : q.list ≠ []) : s.queue.list ≠ [] := by
    rcases hlist with hl | ⟨item, hl⟩
    · rwa [← hl]
    · simp [hl]
  have hevent : q.event = s.queue.event ∨ q.event = s.queue.event.set := by
    rcases knFcQueueUninitialize_event h with ⟨-, -, he, -⟩ | ⟨-, -, ⟨-, he⟩ | ⟨-, he⟩⟩
    · exact Or.inl he
    · exact Or.inr he
    · exact Or.inl he
  rcases hevent with he | he
  · exact ⟨fun hne hs => hi.owed (hold hne) (he ▸ hs), fun hs => he ▸ hi.released (he ▸ hs)⟩
  · exact ⟨fun _ hs => by simp [he, Waits.Event.set] at hs, fun _ => by simp [he, Waits.Event.set]⟩

variable [DecidableEq P]

theorem QueueSystem.Announced.producer {s : QueueSystem P} {p : P} {env : SendEnv}
    {q : KnfcQueue} {pc : ProducerPc} (hi : s.Announced)
    (h : producerStep s.queue env (s.producers p) = some (q, pc)) :
    ({ s with queue := q, producers := Function.update s.producers p pc } :
      QueueSystem P).Announced := by
  have hset (he : q.event = s.queue.event.set) :
      ({ s with queue := q, producers := Function.update s.producers p pc } :
        QueueSystem P).Announced :=
    ⟨fun _ hs => by simp [he, Waits.Event.set] at hs, fun _ => by simp [he, Waits.Event.set]⟩
  rcases (producerStep_event h).2 with he | he
  · refine ⟨fun hne hs => ?_, fun hs => he ▸ hi.released (he ▸ hs)⟩
    rcases producerStep_list h with ⟨hlist, -⟩ | ⟨-, -, hpc⟩
    · obtain ⟨p', hp'⟩ := hi.owed (hlist ▸ hne) (he ▸ hs)
      by_cases hpp : p' = p
      · subst hpp
        rw [hp'.step h] at hs
        cases hs
      · exact ⟨p', by simpa [hpp] using hp'⟩
    · exact ⟨p, by simpa [ProducerPc.owesSet] using hpc⟩
  · exact hset he

theorem QueueSystem.Announced.call {s t : QueueSystem P} {p : P} {pc : ProducerPc}
    (hi : s.Announced) (h : s.call p pc = some t) : t.Announced := by
  have hidle : ∃ last, s.producers p = .idle last := by
    unfold QueueSystem.call at h
    split at h
    · next last hp => exact ⟨last, hp⟩
    · cases h
  obtain ⟨last, hlast⟩ := hidle
  obtain rfl := s.call_eq_some h
  refine ⟨fun hne hs => ?_, hi.released⟩
  obtain ⟨p', hp'⟩ := hi.owed hne hs
  have hpp : p' ≠ p := by
    rintro rfl
    rw [hlast] at hp'
    cases hp'
  exact ⟨p', by simpa [hpp] using hp'⟩

theorem QueueSystem.Announced.step {s t : QueueSystem P} {a : QueueAction P} (hi : s.Announced)
    (h : queueStep up s a = some t) : t.Announced := by
  cases a with
  | callEnqueue p r => exact hi.call h
  | callSendSync p r => exact hi.call h
  | producer p env =>
    obtain ⟨q, pc, hs, rfl⟩ := queueStep_producer h
    exact hi.producer hs
  | worker i env =>
    obtain ⟨q, pc, hs, rfl⟩ := queueStep_worker h
    exact hi.worker hs
  | unload =>
    obtain ⟨q, pc, hs, rfl⟩ := queueStep_unload h
    exact hi.unload hs

theorem reachable_announced {s : QueueSystem P}
    (h : Reachable (queueStep up) (QueueSystem.init P) s) : s.Announced :=
  h.invariant (fun _ _ _ hi hs => hi.step hs) announced_init

/-- Only a wait on the event can block a worker. -/
theorem knFcQueueWorker_eq_none {q : KnfcQueue} {env : SendEnv} {i : WorkerId} {pc : WorkerPc}
    (h : knFcQueueWorker up q env i pc = none) :
    pc = .exited ∨ (pc = .waiting ∧ i ∈ q.event.waiters) := by
  cases pc with
  | exited => exact Or.inl rfl
  | waiting =>
    refine Or.inr ⟨rfl, ?_⟩
    simp only [knFcQueueWorker] at h
    split at h
    · assumption
    · cases h
  | wait =>
    simp only [knFcQueueWorker] at h
    split at h <;> cases h
  | drain =>
    simp only [knFcQueueWorker] at h
    split at h <;> cases h
  | effects item rest => cases rest <;> cases h
  | _ => cases h

/-- A list left under a cleared event has a producer that owes the set. Once all
producers have returned, pending work keeps the event signaled and no worker blocked. -/
theorem wakeup_never_lost (s : QueueSystem P)
    (h : Reachable (queueStep up) (QueueSystem.init P) s) :
    (s.queue.list ≠ [] → s.queue.event.signaled = false → ∃ p, (s.producers p).owesSet) ∧
      ((∀ p, ∃ last, s.producers p = .idle last) → s.queue.list ≠ [] →
        s.queue.event.signaled = true ∧ ∀ i env, s.workers i ≠ .exited →
          ∃ t, queueStep up s (.worker i env) = some t) := by
  have hi := reachable_announced h
  refine ⟨hi.owed, fun hidle hne => ?_⟩
  have hsignaled : s.queue.event.signaled = true := by
    by_contra hns
    obtain ⟨p, hp⟩ := hi.owed hne (by simpa using hns)
    obtain ⟨last, hlast⟩ := hidle p
    rw [hlast] at hp
    cases hp
  refine ⟨hsignaled, fun i env hrun => ?_⟩
  cases hw : knFcQueueWorker up s.queue env i (s.workers i) with
  | some step => exact ⟨_, by rw [queueStep, hw]; rfl⟩
  | none =>
    rcases knFcQueueWorker_eq_none hw with hexit | ⟨-, hmem⟩
    · exact absurd hexit hrun
    · rw [hi.released hsignaled] at hmem
      exact absurd hmem (Finset.notMem_empty i)

section Runs

/-- One producer owes the set for its item, another has only reserved its place. -/
def twoCallers : List (QueueAction Bool) :=
  .callEnqueue true doomedFile :: List.replicate 5 (.producer true quietEnv) ++
    .callEnqueue false doomedFile :: List.replicate 3 (.producer false quietEnv)

theorem wakeup_never_lost_twoCallers :
    ∃ s, exec (queueStep id) (QueueSystem.init Bool) twoCallers = some s ∧
      s.queue.list ≠ [] ∧ s.queue.event.signaled = false ∧ ∃ p, (s.producers p).owesSet :=
  ⟨_, rfl, List.cons_ne_nil _ _, rfl,
    (@wakeup_never_lost Bool id _ _ ⟨twoCallers, rfl⟩).1 (List.cons_ne_nil _ _) rfl⟩

theorem depth_counts_reservations_twoCallers :
    ∃ s, exec (queueStep id) (QueueSystem.init Bool) twoCallers = some s ∧
      s.queue.list.length = 1 ∧
      s.queue.depth = s.queue.list.length + ({p | (s.producers p).reserved} : Set Bool).ncard :=
  ⟨_, rfl, rfl, (@depth_counts_reservations Bool _ id _ ⟨twoCallers, rfl⟩).1⟩

end Runs

end KnFileCatcher

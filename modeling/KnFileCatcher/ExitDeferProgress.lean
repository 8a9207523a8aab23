import KnFileCatcher.ExitDeferSafety

/-! No accepted exit record is left behind: the worker runs out of work only with an
empty list or after a stop, and the stop then frees what is left. -/

namespace KnFileCatcher

open Runs

def ExitWorkerPc.rank : ExitWorkerPc → Nat
  | .testStop | .popped _ => 3
  | .wait | .push _ => 2
  | .waiting | .free _ => 1
  | .drain | .exited => 0

def ExitStopPc.rank : ExitStopPc → Nat
  | .notCalled => 8
  | .testRunning => 7
  | .close => 6
  | .signal => 5
  | .testThread => 4
  | .join => 3
  | .free _ => 2
  | .drain => 1
  | .returned => 0

namespace ExitDeferSystem

variable {P : Type*} {s t : ExitDeferSystem P}

/-- How many steps the worker can still take by itself. -/
def workerWork (s : ExitDeferSystem P) : Nat :=
  4 * s.ctx.list.length + 4 * s.ctx.event.signaled.toNat + s.worker.rank

def stopWork (s : ExitDeferSystem P) : Nat := 2 * s.ctx.list.length + s.stopper.rank

theorem Sound.not_signaled (hs : s.Sound) (h : s.WorkerBlocked) : s.ctx.event.signaled = false := by
  by_contra hsig
  have hnone := hs.released (by simpa using hsig)
  have hmem := h.2
  rw [hnone] at hmem
  exact absurd hmem (Finset.notMem_empty ())

/-- Once the stop has announced itself, the event never holds the worker. -/
theorem Sound.not_blocked (hs : s.Sound) (h : s.stopper.announced = true) : ¬ s.WorkerBlocked := by
  intro hb
  have hsig := hs.woken h (Or.inr hb.1)
  rw [hs.not_signaled hb] at hsig
  cases hsig

theorem Sound.freed_of_returned (hs : s.Sound) (h : s.stopper = .returned) :
    s.ctx.list = [] ∧ s.ctx.history.freed = s.ctx.history.accepted := by
  have hlist := hs.drained h
  have hw : s.worker = .exited := hs.joined (by rw [h]; rfl)
  have howned := hs.owned
  rw [h, hw] at howned
  refine ⟨hlist, ?_⟩
  rw [hs.listed, hlist, howned]
  simp [ExitWorkerPc.held, ExitStopPc.held]

/-- A worker blocked over an empty list has freed everything. -/
theorem Sound.freed_of_blocked (hs : s.Sound) (h : s.WorkerBlocked) (hlist : s.ctx.list = []) :
    s.ctx.history.freed = s.ctx.history.accepted := by
  have hrun : s.worker ≠ .exited := by rw [h.1]; simp
  have howned := hs.owned
  rw [hs.stopper_held hrun, h.1] at howned
  rw [hs.listed, hlist, howned]
  simp [ExitWorkerPc.held]

variable [DecidableEq P]

theorem Sound.workerWork_lt (hs : s.Sound) (h : exitDeferStep s .worker = some t) :
    t.workerWork < s.workerWork := by
  obtain ⟨g, pc, hw, rfl⟩ := exitDeferStep_worker h
  have hdraining := hs.draining
  have hmove := exitWorkerMove hw
  unfold workerWork
  generalize s.worker = place at hmove hdraining ⊢
  cases hmove with
  | pop e rest hlist =>
    simp only [KnfcExitCtx.removeHead, ExitWorkerPc.rank, hlist, List.length_cons]
    omega
  | clear =>
    have hsig := hdraining rfl
    simp [ExitWorkerPc.rank, Waits.Event.clear, hsig]
  | _ => simp [ExitWorkerPc.rank, Waits.Event.block, KnfcExitCtx.free]

theorem stopWork_lt (h : exitDeferStep s .stop = some t) : t.stopWork < s.stopWork := by
  obtain ⟨g, pc, hst, rfl⟩ := exitDeferStep_stop h
  have hmove := exitStopMove hst
  unfold stopWork
  generalize s.stopper = place at hmove ⊢
  cases hmove with
  | pop e rest hlist =>
    simp only [KnfcExitCtx.removeHead, ExitStopPc.rank, hlist, List.length_cons]
    omega
  | _ => simp [ExitStopPc.rank, KnfcExitCtx.free]

/-- The worker can take no step: it has left its loop, or it is blocked. -/
theorem worker_eq_none (h : exitDeferStep s .worker = none) :
    s.worker = .exited ∨ s.WorkerBlocked := by
  have hw : knFcExitDeferWorker s.ctx s.worker = none := Option.map_eq_none_iff.mp h
  cases hpc : s.worker with
  | exited => exact Or.inl rfl
  | waiting =>
    rw [hpc] at hw
    simp only [knFcExitDeferWorker] at hw
    split at hw
    · next hmem => exact Or.inr ⟨hpc, hmem⟩
    · cases hw
  | wait =>
    rw [hpc] at hw
    simp only [knFcExitDeferWorker] at hw
    split at hw <;> cases hw
  | drain =>
    rw [hpc] at hw
    simp only [knFcExitDeferWorker] at hw
    split at hw <;> cases hw
  | _ =>
    rw [hpc] at hw
    cases hw

/-- A worker step accepts nothing, and clears the event only over an empty list. -/
theorem knFcExitDeferWorker_keeps {g g' : KnfcExitCtx} {pc pc' : ExitWorkerPc}
    (h : knFcExitDeferWorker g pc = some (g', pc')) :
    g'.history.accepted = g.history.accepted ∧
      ((g.list ≠ [] → g.event.signaled = true) → g'.list ≠ [] → g'.event.signaled = true) := by
  cases exitWorkerMove h with
  | pop e rest hlist => exact ⟨rfl, fun hsig _ => hsig (by simp [hlist])⟩
  | clear hlist => exact ⟨rfl, fun _ hne => absurd hlist hne⟩
  | _ => exact ⟨rfl, id⟩

/-- The worker alone: it ends its loop or blocks, and frees all it takes. -/
theorem Sound.worker_runs_out (hs : s.Sound) :
    ∃ n t, exec exitDeferStep s (List.replicate n .worker) = some t ∧ t.Sound ∧
      (t.worker = .exited ∨ t.WorkerBlocked) ∧ t.stopper = s.stopper ∧
      t.ctx.history.accepted = s.ctx.history.accepted ∧
      ((s.ctx.list ≠ [] → s.ctx.event.signaled = true) →
        t.ctx.list ≠ [] → t.ctx.event.signaled = true) := by
  let I (t : ExitDeferSystem P) : Prop := t.Sound ∧ t.stopper = s.stopper ∧
    t.ctx.history.accepted = s.ctx.history.accepted ∧
    ((s.ctx.list ≠ [] → s.ctx.event.signaled = true) →
      t.ctx.list ≠ [] → t.ctx.event.signaled = true)
  have hstep : ∀ t u, I t → exitDeferStep t .worker = some u →
      I u ∧ u.workerWork < t.workerWork := by
    intro t u ht hu
    obtain ⟨hts, hst, hacc, hsig⟩ := ht
    refine ⟨⟨hts.step hu, ?_⟩, hts.workerWork_lt hu⟩
    obtain ⟨g, pc, hw, rfl⟩ := exitDeferStep_worker hu
    obtain ⟨hacc', hlist⟩ := knFcExitDeferWorker_keeps hw
    exact ⟨hst, hacc'.trans hacc, fun h hne => hlist (hsig h) hne⟩
  obtain ⟨n, t, ht, hend, hts, hst, hacc, hsig⟩ :=
    runs_out workerWork hstep (s := s) ⟨hs, rfl, rfl, id⟩
  exact ⟨n, t, ht, hts, worker_eq_none hend, hst, hacc, hsig⟩

theorem knFcExitDeferStop_accepted {g g' : KnfcExitCtx} {worker : ExitWorkerPc}
    {pc pc' : ExitStopPc} (h : knFcExitDeferStop g worker pc = some (g', pc')) :
    g'.history.accepted = g.history.accepted := by
  rcases knFcExitDeferStop_records h with ⟨-, hhist, -⟩ | ⟨e, rest, -, -, rfl, -⟩ |
    ⟨e, -, -, rfl⟩
  · rw [hhist]
  · rfl
  · rfl

theorem stop_eq_none (hw : s.worker = .exited) (h : exitDeferStep s .stop = none) :
    s.stopper = .returned := by
  have hst : knFcExitDeferStop s.ctx s.worker s.stopper = none := Option.map_eq_none_iff.mp h
  cases hpc : s.stopper with
  | returned => rfl
  | join =>
    rw [hpc, hw] at hst
    cases hst
  | drain =>
    rw [hpc] at hst
    simp only [knFcExitDeferStop] at hst
    split at hst <;> cases hst
  | _ =>
    rw [hpc] at hst
    cases hst

/-- The stop alone, once the worker is gone: it returns. -/
theorem Sound.stop_runs_out (hs : s.Sound) (hw : s.worker = .exited) :
    ∃ n t, exec exitDeferStep s (List.replicate n .stop) = some t ∧ t.Sound ∧
      t.stopper = .returned ∧ t.ctx.history.accepted = s.ctx.history.accepted := by
  let I (t : ExitDeferSystem P) : Prop := t.Sound ∧ t.worker = .exited ∧
    t.ctx.history.accepted = s.ctx.history.accepted
  have hstep : ∀ t u, I t → exitDeferStep t .stop = some u → I u ∧ u.stopWork < t.stopWork := by
    intro t u ht hu
    obtain ⟨hts, htw, hacc⟩ := ht
    refine ⟨⟨hts.step hu, ?_⟩, stopWork_lt hu⟩
    obtain ⟨g, pc, hst, rfl⟩ := exitDeferStep_stop hu
    exact ⟨htw, (knFcExitDeferStop_accepted hst).trans hacc⟩
  obtain ⟨n, t, ht, hend, hts, htw, hacc⟩ := runs_out stopWork hstep (s := s) ⟨hs, hw, rfl⟩
  exact ⟨n, t, ht, hts, stop_eq_none htw hend, hacc⟩

/-- An owed set is one step away. -/
theorem Sound.announce (hs : s.Sound) : ∃ as t, exec exitDeferStep s as = some t ∧ t.Sound ∧
    t.ctx.history.accepted = s.ctx.history.accepted ∧
    (t.ctx.list ≠ [] → t.ctx.event.signaled = true) := by
  by_cases hann : s.ctx.list ≠ [] → s.ctx.event.signaled = true
  · exact ⟨[], s, rfl, hs, rfl, hann⟩
  · obtain ⟨hne, hns⟩ : s.ctx.list ≠ [] ∧ s.ctx.event.signaled = false := by
      simpa using hann
    obtain ⟨p, e, hp⟩ := hs.owed hne hns
    have hstep : exitDeferStep s (.caller p true) = some { s with
        ctx := { s.ctx with event := s.ctx.event.set }
        callers := Function.update s.callers p none } := by
      simp [exitDeferStep, hp, knFcExitDeferEnqueue]
    exact ⟨[.caller p true], _, exec_cons_eq_some.mpr ⟨_, hstep, rfl⟩, hs.step hstep, rfl,
      fun _ => rfl⟩

/-- From every reachable state the threads that are there can free all that was accepted. -/
theorem Sound.frees_all (hs : s.Sound) : ∃ as t, exec exitDeferStep s as = some t ∧
    t.ctx.history.accepted = s.ctx.history.accepted ∧
    t.ctx.history.freed = s.ctx.history.accepted := by
  obtain ⟨as, t, ht, hts, hacc, hann⟩ := hs.announce
  obtain ⟨n, u, hu, hus, hend, -, hacc', hann'⟩ := hts.worker_runs_out
  have hsu : exec exitDeferStep s (as ++ List.replicate n .worker) = some u := by
    rw [exec_append, ht]
    exact hu
  rcases hend with hexit | hblocked
  · obtain ⟨m, v, hv, hvs, hret, hacc''⟩ := hus.stop_runs_out hexit
    have hall : v.ctx.history.accepted = s.ctx.history.accepted :=
      hacc''.trans (hacc'.trans hacc)
    refine ⟨as ++ List.replicate n .worker ++ List.replicate m .stop, v, ?_, hall,
      (hvs.freed_of_returned hret).2.trans hall⟩
    rw [exec_append, hsu]
    exact hv
  · have hlist : u.ctx.list = [] := by
      by_contra hne
      have hsig := hann' hann hne
      rw [hus.not_signaled hblocked] at hsig
      cases hsig
    have hall := hacc'.trans hacc
    exact ⟨_, u, hsu, hall, (hus.freed_of_blocked hblocked hlist).trans hall⟩

/-- Records leave the list in its order, once each; none is left behind; wakeups are
owed or given; the stop waits only for a worker that comes to its end. -/
theorem exit_deferral_sound (s : ExitDeferSystem P)
    (h : Reachable exitDeferStep (init P) s) :
    (s.ctx.history.accepted = s.ctx.history.removed ++ s.ctx.list ∧
        s.ctx.history.removed = s.ctx.history.freed ++ (s.worker.held ++ s.stopper.held)) ∧
      (∃ as t, exec exitDeferStep s as = some t ∧
        t.ctx.history.accepted = s.ctx.history.accepted ∧
        t.ctx.history.freed = s.ctx.history.accepted) ∧
      s.ctx.history.pushed.Sublist s.ctx.history.accepted ∧
      (s.ctx.list ≠ [] → s.ctx.event.signaled = false → ∃ p, s.Owes p) ∧
      (s.stopper = .join → ¬ s.WorkerBlocked ∧
        ∃ n t, exec exitDeferStep s (List.replicate n .worker) = some t ∧ t.worker = .exited) ∧
      (s.stopper = .returned → s.ctx.list = [] ∧
        s.ctx.history.freed = s.ctx.history.accepted) := by
  have hs := reachable_sound h
  refine ⟨⟨hs.listed, hs.owned⟩, hs.frees_all, ?_, hs.owed, fun hjoin => ?_,
    hs.freed_of_returned⟩
  · have hhandled : s.worker.handled.Sublist (s.worker.held ++ s.stopper.held) := by
      cases s.worker <;> simp [ExitWorkerPc.handled, ExitWorkerPc.held]
    rw [hs.listed, hs.owned]
    exact (hs.pushed.trans (List.Sublist.append (.refl _) hhandled)).trans
      (List.sublist_append_left _ _)
  · have hann : s.stopper.announced = true := by rw [hjoin]; rfl
    refine ⟨hs.not_blocked hann, ?_⟩
    obtain ⟨n, t, ht, hts, hend, hst, -, -⟩ := hs.worker_runs_out
    rcases hend with hexit | hblocked
    · exact ⟨n, t, ht, hexit⟩
    · exact absurd hblocked (hts.not_blocked (hst ▸ hann))

/-- A caller has inserted its record, the stop has closed the list and waits, and the
worker is in its wait. -/
def stopDuringInsert : List (ExitDeferAction Unit) :=
  [.call () ⟨1, 8, 4, 8, 5⟩, .caller () true, .caller () true, .caller () true, .worker] ++
    List.replicate 5 .stop

theorem exit_deferral_sound_stopDuringInsert :
    ∃ s, exec exitDeferStep (init Unit) stopDuringInsert = some s ∧ s.stopper = .join ∧
      s.ctx.list = [⟨1, 8, 4, 8, 5⟩] ∧ s.worker = .wait ∧
      ∃ n t, exec exitDeferStep s (List.replicate n .worker) = some t ∧ t.worker = .exited :=
  ⟨_, rfl, rfl, rfl, rfl,
    ((exit_deferral_sound _ ⟨stopDuringInsert, rfl⟩).2.2.2.2.1 rfl).2⟩

end ExitDeferSystem

end KnFileCatcher

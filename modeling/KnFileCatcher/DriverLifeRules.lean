import KnFileCatcher.DriverLife

/-! What each call of the driver needs and takes, and what the parts of a start and of a stop
leave held. -/

namespace KnFileCatcher.DriverLife

open Custody Program Terms

section Rules

/-- What the driver holds between its calls. Of the ports it is the server port; the client port
comes and goes with the connections. -/
inductive DriverThing where
  | lock (l : LockName)
  | thread (w : Worker)
  | handle (w : Worker)
  | running
  | object (w : Worker)
  | filter
  | descriptor
  | serverPort
deriving DecidableEq

/-- What the driver holds, a thread until it has been waited for and `Running` until it is
cleared, and how far its workers have been told to stop. `failure` is the status of the start
that failed. -/
structure Standing where
  held : Multiset DriverThing
  stop : WorkerKind → Bool
  event : WorkerKind → Bool
  rundown : Bool
  failure : Option NtStatus

def Standing.fresh : Standing := ⟨0, fun _ => false, fun _ => false, false, none⟩

def Standing.give (g : Standing) (x : DriverThing) : Standing := { g with held := g.held.erase x }

/-- A start gives `things` if it succeeds. -/
def Standing.start (g : Standing) (things : Multiset DriverThing) (status : NtStatus) : Standing :=
  if ntSuccess status then { g with held := things + g.held }
  else { g with failure := some status }

/-- What is held when the workers of a kind start. -/
def setRunning : WorkerKind → Multiset DriverThing → Multiset DriverThing
  | .queue, m => m
  | .exitDefer, m => .running ::ₘ m

def resetRunning : WorkerKind → Multiset DriverThing → Multiset DriverThing
  | .queue, m => m
  | .exitDefer, m => m.erase .running

def NoWorker (k : WorkerKind) (m : Multiset DriverThing) : Prop :=
  ∀ w : Worker, w.kind = k → .thread w ∉ m

def NoWorkers (m : Multiset DriverThing) : Prop := ∀ w, .thread w ∉ m

def legalCall (g : Standing) : DriverOp → Prop
  | .initLock l => .lock l ∉ g.held
  -- the track lock is deleted before the filter is unregistered
  | .deleteLock l => .lock l ∈ g.held ∧ NoWorkers g.held ∧ (l ≠ .track → .filter ∉ g.held)
  | .zeroWorkers k => NoWorker k g.held
  | .createThread w => g.failure = none ∧ g.stop w.kind = false ∧ .thread w ∉ g.held
  | .referenceThread w => g.failure = none ∧ .handle w ∈ g.held
  | .closeHandle w => .handle w ∈ g.held
  | .dereference w => .object w ∈ g.held
  | .clearRunning | .isRunning | .hasThread _ | .hasServerPort | .hasClient => True
  | .setStop _ | .setEvent _ => True
  | .waitRundown => g.stop .queue = true
  | .waitHandle w => .handle w ∈ g.held ∧ g.stop w.kind = true ∧ g.event w.kind = true
  | .waitObject w => .object w ∈ g.held ∧ g.stop w.kind = true ∧ g.event w.kind = true
  | .drain k => g.stop k = true ∧ NoWorker k g.held ∧ (k = .queue → g.rundown = true)
  | .registerFilter => g.failure = none ∧ .filter ∉ g.held ∧ ∀ l, .lock l ∈ g.held
  | .unregisterFilter => .filter ∈ g.held ∧ .serverPort ∉ g.held ∧ NoWorkers g.held
  | .startFiltering => g.failure = none ∧ .filter ∈ g.held ∧ .serverPort ∈ g.held ∧
      .thread .exitDefer ∈ g.held ∧ ∀ i < knfcQueueWorkerCount, .thread (.queue i) ∈ g.held
  | .buildDescriptor => g.failure = none
  | .freeDescriptor => .descriptor ∈ g.held
  | .createPort => g.failure = none ∧ .filter ∈ g.held ∧ .descriptor ∈ g.held ∧
      .serverPort ∉ g.held
  | .closeServerPort => .serverPort ∈ g.held ∧ NoWorkers g.held
  | .closeClientPort => .filter ∈ g.held ∧ NoWorkers g.held
  | .stopTracking => .lock .track ∈ g.held
  | .clearRoots => .lock .config ∈ g.held
  | .clearPatterns => .lock .exclude ∈ g.held

def afterCall (g : Standing) : (op : DriverOp) → op.Answer → Standing
  | .initLock l, _ => { g with held := .lock l ::ₘ g.held }
  | .deleteLock l, _ => g.give (.lock l)
  | .zeroWorkers k, _ =>
    { g with
      held := setRunning k g.held
      stop := Function.update g.stop k false
      event := Function.update g.event k false
      rundown := if k = .queue then false else g.rundown }
  | .createThread w, status => g.start {.handle w, .thread w} status
  | .referenceThread w, status => g.start {.object w} status
  | .closeHandle w, _ => g.give (.handle w)
  | .dereference w, _ => g.give (.object w)
  | .clearRunning, _ => g.give .running
  | .setStop k, _ =>
    { g with held := resetRunning k g.held, stop := Function.update g.stop k true }
  | .setEvent k, _ => { g with event := Function.update g.event k true }
  | .waitRundown, _ => { g with rundown := true }
  | .waitHandle w, _ | .waitObject w, _ => g.give (.thread w)
  | .registerFilter, status => g.start {.filter} status
  | .unregisterFilter, _ => g.give .filter
  | .startFiltering, status => g.start 0 status
  | .buildDescriptor, status => g.start {.descriptor} status
  | .freeDescriptor, _ => g.give .descriptor
  | .createPort, status => g.start {.serverPort} status
  | .closeServerPort, _ => g.give .serverPort
  | .isRunning, _ | .hasThread _, _ | .hasServerPort, _ | .hasClient, _ | .drain _, _
  | .closeClientPort, _ | .stopTracking, _ | .clearRoots, _ | .clearPatterns, _ => g

/-- A variable of the driver says what is held. -/
def promisedAnswer (g : Standing) : (op : DriverOp) → op.Answer → Prop
  | .isRunning, answer => answer = decide (.running ∈ g.held)
  | .hasThread w, answer => answer = decide (.object w ∈ g.held)
  | .hasServerPort, answer => answer = decide (.serverPort ∈ g.held)
  | _, _ => True

def rules : Terms DriverOp DriverOp.Answer Standing where
  legal := legalCall
  promised := promisedAnswer
  after := afterCall

end Rules

section Parts

variable {g : Standing} {h : Multiset DriverThing}

/-- A part of the start gives `things`, or nothing and the status that it failed with. -/
structure Started (things : Multiset DriverThing) (g : Standing) (status : NtStatus)
    (g' : Standing) : Prop where
  held : g'.held = (if ntSuccess status then things else 0) + g.held
  failure : g'.failure = if ntSuccess status then none else some status

/-- A part of the stop leaves `h`. -/
structure Left (h : Multiset DriverThing) (g g' : Standing) : Prop where
  held : g'.held = h
  failure : g'.failure = g.failure

theorem Started.failed {things : Multiset DriverThing} {status : NtStatus} {g' : Standing}
    (hstatus : ntSuccess status = false) (hheld : g'.held = g.held)
    (hfailure : g'.failure = some status) : Started things g status g' where
  held := by rw [hheld, hstatus, if_neg Bool.false_ne_true, zero_add]
  failure := by rw [hfailure, hstatus, if_neg Bool.false_ne_true]

theorem Started.succeeded {things : Multiset DriverThing} {status : NtStatus} {g' : Standing}
    (hstatus : ntSuccess status = true) (hheld : g'.held = things + g.held)
    (hfailure : g'.failure = none) : Started things g status g' where
  held := by rw [hheld, if_pos hstatus]
  failure := by rw [hfailure, if_pos hstatus]

theorem Started.of_failed {things : Multiset DriverThing} {status : NtStatus} {g' : Standing}
    (hs : Started things g status g') (hstatus : ntSuccess status = false) :
    g'.held = g.held ∧ g'.failure = some status := by
  obtain ⟨hheld, hfailure⟩ := hs
  rw [hstatus, if_neg Bool.false_ne_true] at hheld hfailure
  exact ⟨hheld.trans (zero_add _), hfailure⟩

theorem Started.of_success {things : Multiset DriverThing} {status : NtStatus} {g' : Standing}
    (hs : Started things g status g') (hstatus : ntSuccess status = true) :
    g'.held = things + g.held ∧ g'.failure = none := by
  obtain ⟨hheld, hfailure⟩ := hs
  rw [if_pos hstatus] at hheld hfailure
  exact ⟨hheld, hfailure⟩

theorem success_statusSuccess : ntSuccess statusSuccess = true := by decide

theorem Standing.start_of_failed {things : Multiset DriverThing} {status : NtStatus}
    (hstatus : ntSuccess status = false) :
    g.start things status = { g with failure := some status } :=
  if_neg (by rw [hstatus]; exact Bool.false_ne_true)

theorem Standing.start_of_success {things : Multiset DriverThing} {status : NtStatus}
    (hstatus : ¬ ntSuccess status = false) :
    g.start things status = { g with held := things + g.held } :=
  if_pos (by simpa using hstatus)

theorem started_start (things : Multiset DriverThing) (status : NtStatus)
    (hok : g.failure = none) : Started things g status (g.start things status) := by
  by_cases hstatus : ntSuccess status = false
  · rw [Standing.start_of_failed hstatus]
    exact .failed hstatus rfl rfl
  · rw [Standing.start_of_success hstatus]
    exact .succeeded (by simpa using hstatus) rfl hok

theorem notMem_cons {x y : DriverThing} (hne : y ≠ x) (hy : y ∉ h) : y ∉ x ::ₘ h :=
  fun hmem => hy ((Multiset.mem_cons.mp hmem).resolve_left hne)

theorem NoWorkers.lock {l : LockName} (hnone : NoWorkers h) : NoWorkers (.lock l ::ₘ h) :=
  fun w => notMem_cons nofun (hnone w)

theorem mem_single {x : DriverThing} (hheld : g.held = {x} + h) : x ∈ g.held := by
  rw [hheld, Multiset.singleton_add]
  exact Multiset.mem_cons_self _ _

theorem notMem_single {x y : DriverThing} (hheld : g.held = {x} + h) (hne : y ≠ x) (hy : y ∉ h) :
    y ∉ g.held := by
  rw [hheld, Multiset.singleton_add]
  exact notMem_cons hne hy

theorem wp_give {op : DriverOp} {x : DriverThing} (hheld : g.held = {x} + h)
    (hlegal : legalCall g op) (hgive : ∀ answer, afterCall g op answer = g.give x) :
    rules.wp (perform op) g fun _ g' => Left h g g' := by
  refine ⟨hlegal, fun answer _ => ?_⟩
  show Left h g (afterCall g op answer)
  rw [hgive]
  refine ⟨?_, rfl⟩
  show g.held.erase x = h
  rw [hheld, Multiset.singleton_add, Multiset.erase_cons_head]

theorem update_kind (f : WorkerKind → Bool) (k : WorkerKind) (b : Bool) :
    Function.update f k b k = b :=
  Function.update_self ..

theorem resetRunning_cons {k : WorkerKind} {m : Multiset DriverThing} (x : DriverThing)
    (hx : x ≠ .running) : resetRunning k (x ::ₘ m) = x ::ₘ resetRunning k m := by
  cases k with
  | queue => rfl
  | exitDefer => exact Multiset.erase_cons_tail _ hx

theorem resetRunning_setRunning {k : WorkerKind} {m : Multiset DriverThing} :
    resetRunning k (setRunning k m) = m := by
  cases k with
  | queue => rfl
  | exitDefer => exact Multiset.erase_cons_head _ _

/-- A worker that runs and could not be referenced is stopped through its handle. -/
theorem wp_stopUnreferenced {w : Worker} (hheld : g.held = .handle w ::ₘ .thread w ::ₘ h) :
    rules.wp (stopUnreferenced w) g fun _ g' => Left (resetRunning w.kind h) g g' := by
  have hstop : resetRunning w.kind g.held =
      .handle w ::ₘ .thread w ::ₘ resetRunning w.kind h := by
    rw [hheld, resetRunning_cons (.handle w) nofun, resetRunning_cons (.thread w) nofun]
  have hjoined : (resetRunning w.kind g.held).erase (.thread w) =
      .handle w ::ₘ resetRunning w.kind h := by
    rw [hstop, Multiset.erase_cons_tail_of_mem (Multiset.mem_cons_self _ _),
      Multiset.erase_cons_head]
  refine wp_call trivial fun _ _ => ?_
  refine wp_call trivial fun _ _ => ?_
  have hopen : .handle w ∈ resetRunning w.kind g.held := by
    rw [hstop]
    exact Multiset.mem_cons_self _ _
  refine wp_call ⟨hopen, update_kind g.stop w.kind true, update_kind g.event w.kind true⟩
    fun _ _ => ?_
  refine ⟨?_, fun _ _ => ⟨?_, rfl⟩⟩
  · show .handle w ∈ (resetRunning w.kind g.held).erase (.thread w)
    rw [hjoined]
    exact Multiset.mem_cons_self _ _
  · show ((resetRunning w.kind g.held).erase (.thread w)).erase (.handle w) = resetRunning w.kind h
    rw [hjoined, Multiset.erase_cons_head]

end Parts

section Workers

variable {g : Standing} {h : Multiset DriverThing} {α : Type}

theorem wp_started {things : Multiset DriverThing} {status : NtStatus} {p q : DriverProgram α}
    {Q : α → Standing → Prop}
    (hfailed : ntSuccess status = false → rules.wp p { g with failure := some status } Q)
    (hstarted : ntSuccess status = true → rules.wp q { g with held := things + g.held } Q) :
    rules.wp (if ntSuccess status = false then p else q) (g.start things status) Q := by
  refine wp_ite (fun hstatus => ?_) fun hstatus => ?_
  · rw [Standing.start_of_failed hstatus]
    exact hfailed hstatus
  · rw [Standing.start_of_success hstatus]
    exact hstarted (by simpa using hstatus)

/-- A worker that could not be referenced is joined before the start goes on as if it had
never run. -/
theorem wp_startWorker {w : Worker} {refused failed : NtStatus → DriverProgram α}
    {p : DriverProgram α} {Q : α → Standing → Prop} (hok : g.failure = none)
    (hstop : g.stop w.kind = false) (hnew : .thread w ∉ g.held)
    (hrefused : ∀ status g', ntSuccess status = false → g'.held = g.held →
      g'.failure = some status → rules.wp (refused status) g' Q)
    (hfailed : ∀ status g', ntSuccess status = false → g'.held = resetRunning w.kind g.held →
      g'.failure = some status → rules.wp (failed status) g' Q)
    (hstarted : rules.wp p { g with held := .object w ::ₘ .thread w ::ₘ g.held } Q) :
    rules.wp (do
      let status ← psCreateSystemThread w
      if ntSuccess status = false then refused status
      else
        let status ← obReferenceObjectByHandle w
        if ntSuccess status = false then
          stopUnreferenced w
          failed status
        else
          call (.closeHandle w)
          p) g Q := by
  refine wp_call ⟨hok, hstop, hnew⟩ fun status _ => wp_started (fun hstatus => ?_) fun _ => ?_
  · exact hrefused status _ hstatus rfl rfl
  rw [Multiset.insert_eq_cons, Multiset.cons_add, Multiset.singleton_add]
  refine wp_call ⟨hok, Multiset.mem_cons_self _ _⟩ fun status _ =>
    wp_started (fun hstatus => ?_) fun _ => ?_
  · refine wp_bind ((wp_stopUnreferenced rfl).mono fun _ g' hleft => ?_)
    exact hfailed status g' hstatus hleft.held hleft.failure
  rw [Multiset.singleton_add]
  refine wp_call (Multiset.mem_cons_of_mem (Multiset.mem_cons_self _ _)) fun _ _ => ?_
  have hclosed : (.object w ::ₘ .handle w ::ₘ .thread w ::ₘ g.held).erase (DriverThing.handle w) =
      .object w ::ₘ .thread w ::ₘ g.held := by
    rw [Multiset.erase_cons_tail_of_mem (Multiset.mem_cons_self _ _), Multiset.erase_cons_head]
  rw [← hclosed] at hstarted
  exact hstarted

def exitDeferThings : Multiset DriverThing :=
  {.object .exitDefer, .thread .exitDefer, .running}

theorem exitDeferThings_add :
    exitDeferThings + h = .object .exitDefer ::ₘ .thread .exitDefer ::ₘ .running ::ₘ h := by
  rw [exitDeferThings, Multiset.insert_eq_cons, Multiset.insert_eq_cons, Multiset.cons_add,
    Multiset.cons_add, Multiset.singleton_add]

theorem wp_knFcExitDeferStart (hok : g.failure = none) (hnew : NoWorker .exitDefer g.held) :
    rules.wp knFcExitDeferStart g fun status g' => Started exitDeferThings g status g' := by
  have hrunning : .thread .exitDefer ∉ DriverThing.running ::ₘ g.held :=
    notMem_cons nofun (hnew .exitDefer rfl)
  refine wp_call hnew fun _ _ => ?_
  refine wp_startWorker hok (update_kind g.stop .exitDefer false) hrunning
    (fun status g' hstatus hheld hfailure => ?_) (fun status g' hstatus hheld hfailure => ?_) ?_
  · refine wp_call trivial fun _ _ => .failed hstatus ?_ hfailure
    show g'.held.erase .running = g.held
    rw [hheld]
    exact Multiset.erase_cons_head _ _
  · exact .failed hstatus (hheld.trans resetRunning_setRunning) hfailure
  · exact .succeeded success_statusSuccess exitDeferThings_add.symm hok

/-- The worker has ended and is no longer referenced. -/
theorem erase_worker {w : Worker} :
    ((DriverThing.object w ::ₘ .thread w ::ₘ h).erase (.thread w)).erase (.object w) = h := by
  rw [Multiset.erase_cons_tail_of_mem (Multiset.mem_cons_self _ _), Multiset.erase_cons_head,
    Multiset.erase_cons_head]

theorem object_mem_joined {w : Worker} :
    DriverThing.object w ∈ (DriverThing.object w ::ₘ .thread w ::ₘ h).erase (.thread w) := by
  rw [Multiset.erase_cons_tail_of_mem (Multiset.mem_cons_self _ _)]
  exact Multiset.mem_cons_self _ _

theorem wp_joinThread {w : Worker} (hheld : g.held = .object w ::ₘ .thread w ::ₘ h)
    (hstop : g.stop w.kind = true) (hevent : g.event w.kind = true) :
    rules.wp (joinThread w) g fun _ g' => g' = { g with held := h } := by
  obtain ⟨held, stop, event, rundown, failure⟩ := g
  subst hheld
  refine wp_call trivial fun thread hthread => ?_
  obtain rfl : thread = true := hthread.trans (decide_eq_true (Multiset.mem_cons_self _ _))
  refine wp_call ⟨Multiset.mem_cons_self _ _, hstop, hevent⟩ fun _ _ => ?_
  refine ⟨object_mem_joined, fun _ _ => ?_⟩
  exact congrArg (Standing.mk · stop event rundown failure) erase_worker

theorem wp_knFcExitDeferStop (hheld : g.held = exitDeferThings + h)
    (hnone : NoWorker .exitDefer h) :
    rules.wp knFcExitDeferStop g fun _ g' => Left h g g' := by
  rw [exitDeferThings_add] at hheld
  have hstopped : resetRunning .exitDefer g.held =
      .object .exitDefer ::ₘ .thread .exitDefer ::ₘ h := by
    rw [hheld, resetRunning_cons (.object _) nofun, resetRunning_cons (.thread _) nofun]
    exact congrArg (_ ::ₘ _ ::ₘ ·) (Multiset.erase_cons_head _ _)
  refine wp_call trivial fun running hrunning => ?_
  obtain rfl : running = true := hrunning.trans (decide_eq_true (by rw [hheld]; simp))
  refine wp_call trivial fun _ _ => ?_
  refine wp_call trivial fun _ _ => ?_
  refine wp_bind (wp.mono (wp_joinThread hstopped (update_kind g.stop .exitDefer true)
    (update_kind g.event .exitDefer true)) fun _ g' hjoined => ?_)
  subst hjoined
  exact ⟨⟨update_kind g.stop .exitDefer true, hnone, nofun⟩, fun _ _ => ⟨rfl, rfl⟩⟩

/-- The workers of the queue from `i` on. -/
def workerThings : Nat → Nat → Multiset DriverThing
  | 0, _ => 0
  | n + 1, i => .object (.queue i) ::ₘ .thread (.queue i) ::ₘ workerThings n (i + 1)

theorem thread_mem_workerThings {n i j : Nat} :
    .thread (.queue j) ∈ workerThings n i ↔ i ≤ j ∧ j < i + n := by
  induction n generalizing i with
  | zero => simp [workerThings]
  | succ n ih =>
    simp only [workerThings, Multiset.mem_cons, reduceCtorEq, false_or, ih,
      DriverThing.thread.injEq, Worker.queue.injEq]
    omega

/-- The workers that were started from `i` on are counted, up to the one that failed. -/
structure Batch (n i : Nat) (g : Standing) (r : NtStatus × Nat) (m : Nat) (g' : Standing) :
    Prop where
  count : r.2 = i + m
  held : g'.held = workerThings m i + g.held
  failure : g'.failure = if ntSuccess r.1 then none else some r.1
  all : ntSuccess r.1 = true → m = n

theorem wp_startWorkers {n i : Nat} (hok : g.failure = none) (hstop : g.stop .queue = false)
    (hnew : ∀ j, i ≤ j → .thread (.queue j) ∉ g.held) :
    rules.wp (startWorkers n i) g fun r g' => ∃ m, Batch n i g r m g' := by
  induction n generalizing g i with
  | zero =>
    refine ⟨0, rfl, (zero_add _).symm, ?_, fun _ => rfl⟩
    rw [hok, if_pos success_statusSuccess]
  | succ n ih =>
    have hfailed (status : NtStatus) (g' : Standing) (hstatus : ntSuccess status = false)
        (hheld : g'.held = g.held) (hfailure : g'.failure = some status) :
        ∃ m, Batch (n + 1) i g (status, i) m g' := by
      refine ⟨0, rfl, hheld.trans (zero_add _).symm, ?_, fun hsuccess => ?_⟩
      · rw [hfailure, hstatus, if_neg Bool.false_ne_true]
      · exact absurd (hstatus.symm.trans hsuccess) Bool.false_ne_true
    refine wp_startWorker hok hstop (hnew i le_rfl) hfailed hfailed ?_
    have hnext : ∀ j, i + 1 ≤ j → .thread (.queue j) ∉
        (DriverThing.object (.queue i) ::ₘ .thread (.queue i) ::ₘ g.held) := by
      intro j hj hmem
      simp only [Multiset.mem_cons, reduceCtorEq, false_or, DriverThing.thread.injEq,
        Worker.queue.injEq] at hmem
      rcases hmem with rfl | hmem
      · omega
      · exact hnew j (by omega) hmem
    refine wp.mono (ih hok hstop hnext) fun r g' ⟨m, hcount, hheld, hfailure, hall⟩ => ?_
    refine ⟨m + 1, by omega, ?_, hfailure, fun hsuccess => by rw [hall hsuccess]⟩
    rw [hheld, workerThings, Multiset.add_cons, Multiset.add_cons, Multiset.cons_add,
      Multiset.cons_add]

/-- Joining takes the workers and nothing else. -/
theorem wp_joinWorkers {n i : Nat} (hheld : g.held = workerThings n i + h)
    (hstop : g.stop .queue = true) (hevent : g.event .queue = true) :
    rules.wp (joinWorkers n i) g fun _ g' => g' = { g with held := h } := by
  induction n generalizing g i with
  | zero =>
    obtain ⟨held, stop, event, rundown, failure⟩ := g
    rw [workerThings, zero_add] at hheld
    subst hheld
    rfl
  | succ n ih =>
    rw [workerThings, Multiset.cons_add, Multiset.cons_add] at hheld
    refine wp_bind (wp.mono (wp_joinThread hheld hstop hevent) fun _ g' hjoined => ?_)
    subst hjoined
    exact ih rfl hstop hevent

theorem wp_knFcQueueUninitialize {n : Nat} (hheld : g.held = workerThings n 0 + h)
    (hnone : NoWorker .queue h) :
    rules.wp (n |> knFcQueueUninitialize) g fun _ g' => Left h g g' := by
  refine wp_call trivial fun _ _ => ?_
  refine wp_call (update_kind g.stop .queue true) fun _ _ => ?_
  refine wp_call trivial fun _ _ => ?_
  refine wp_bind (wp.mono (wp_joinWorkers hheld (update_kind g.stop .queue true)
    (update_kind g.event .queue true)) fun _ g' hjoined => ?_)
  subst hjoined
  exact ⟨⟨update_kind g.stop .queue true, hnone, fun _ => rfl⟩, fun _ _ => ⟨rfl, rfl⟩⟩

theorem wp_knFcQueueInitialize (hok : g.failure = none) (hnew : NoWorker .queue g.held) :
    rules.wp knFcQueueInitialize g fun status g' =>
      Started (workerThings knfcQueueWorkerCount 0) g status g' := by
  refine wp_call hnew fun _ _ => ?_
  refine wp_bind (wp.mono (wp_startWorkers hok (update_kind g.stop .queue false)
    fun j _ => hnew (.queue j) rfl) fun r g' ⟨m, hcount, hheld, hfailure, hall⟩ => ?_)
  obtain ⟨status, count⟩ := r
  rw [zero_add] at hcount
  dsimp only at hcount hfailure hall
  subst hcount
  refine wp_ite (fun hstatus => ?_) fun hstatus => ?_
  · have hstopped := wp_knFcQueueUninitialize hheld hnew
    refine wp_bind (hstopped.mono fun _ g'' hleft => ?_)
    refine .failed hstatus hleft.held ?_
    rw [hleft.failure, hfailure, hstatus, if_neg Bool.false_ne_true]
  · have hsuccess : ntSuccess status = true := by simpa using hstatus
    refine .succeeded success_statusSuccess ?_ (by rw [hfailure, if_pos hsuccess])
    rw [hheld, hall hsuccess]
    rfl

end Workers

section Stages

variable {g : Standing} {h : Multiset DriverThing}

def trackThings : Multiset DriverThing := .lock .track ::ₘ exitDeferThings

theorem wp_knFcTrackInitialize (hok : g.failure = none) (hnew : NoWorkers g.held)
    (hlock : .lock .track ∉ g.held) :
    rules.wp knFcTrackInitialize g fun status g' => Started trackThings g status g' := by
  have hworkers : NoWorkers (.lock .track ::ₘ g.held) := hnew.lock
  refine wp_call hlock fun _ _ => ?_
  refine wp_bind (wp.mono (wp_knFcExitDeferStart hok fun w _ => hworkers w)
    fun status g' hstarted => ?_)
  refine wp_ite (fun hstatus => ?_) fun hstatus => ?_
  · obtain ⟨hheld, hfailure⟩ := hstarted.of_failed hstatus
    refine ⟨⟨?_, ?_, fun hne => absurd rfl hne⟩, fun _ _ => .failed hstatus ?_ hfailure⟩
    · rw [hheld]
      exact Multiset.mem_cons_self _ _
    · rw [hheld]
      exact hworkers
    · show g'.held.erase (.lock .track) = g.held
      rw [hheld]
      exact Multiset.erase_cons_head _ _
  · obtain ⟨hheld, hfailure⟩ := hstarted.of_success (by simpa using hstatus)
    refine .succeeded success_statusSuccess ?_ hfailure
    rw [hheld, trackThings, Multiset.cons_add]
    exact Multiset.add_cons _ _ _

theorem wp_knFcTrackUninitialize (hheld : g.held = trackThings + h) (hnone : NoWorkers h) :
    rules.wp knFcTrackUninitialize g fun _ g' => Left h g g' := by
  rw [trackThings, Multiset.cons_add, ← Multiset.add_cons] at hheld
  refine wp_call ?_ fun _ _ => ?_
  · show .lock .track ∈ g.held
    rw [hheld]
    exact Multiset.mem_add.mpr (.inr (Multiset.mem_cons_self _ _))
  refine wp_bind (wp.mono (wp_knFcExitDeferStop hheld fun w _ => hnone.lock w) fun _ g' hleft => ?_)
  refine ⟨⟨?_, ?_, fun hne => absurd rfl hne⟩, fun _ _ => ⟨?_, hleft.failure⟩⟩
  · rw [hleft.held]
    exact Multiset.mem_cons_self _ _
  · rw [hleft.held]
    exact hnone.lock
  · show g'.held.erase (.lock .track) = h
    rw [hleft.held, Multiset.erase_cons_head]

theorem wp_fltRegisterFilter (hok : g.failure = none) (hnew : .filter ∉ g.held)
    (hlocks : ∀ l, .lock l ∈ g.held) :
    rules.wp fltRegisterFilter g fun status g' => Started {.filter} g status g' :=
  ⟨⟨hok, hnew, hlocks⟩, fun status _ => started_start {DriverThing.filter} status hok⟩

theorem wp_fltStartFiltering (hok : g.failure = none) (hfilter : .filter ∈ g.held)
    (hport : .serverPort ∈ g.held) (hexit : .thread .exitDefer ∈ g.held)
    (hqueue : ∀ i < knfcQueueWorkerCount, .thread (.queue i) ∈ g.held) :
    rules.wp fltStartFiltering g fun status g' => Started 0 g status g' :=
  ⟨⟨hok, hfilter, hport, hexit, hqueue⟩, fun status _ => started_start 0 status hok⟩

theorem wp_knFcCommInitialize (hok : g.failure = none) (hfilter : .filter ∈ g.held)
    (hnew : .serverPort ∉ g.held) :
    rules.wp knFcCommInitialize g fun status g' => Started {.serverPort} g status g' := by
  refine wp_call hok fun status _ => wp_started (fun hstatus => ?_) fun _ => ?_
  · exact .failed hstatus rfl rfl
  rw [Multiset.singleton_add]
  refine wp_call ⟨hok, Multiset.mem_cons_of_mem hfilter, Multiset.mem_cons_self _ _,
    notMem_cons nofun hnew⟩ fun status _ => ?_
  -- the descriptor is freed before the status is looked at
  show rules.wp _ (Standing.start _ {.serverPort} status) _
  by_cases hstatus : ntSuccess status = false
  · rw [Standing.start_of_failed hstatus]
    refine wp_call (Multiset.mem_cons_self _ _) fun _ _ => wp_ite (fun _ => ?_) fun hne => ?_
    · exact .failed hstatus (Multiset.erase_cons_head _ _) rfl
    · exact absurd hstatus hne
  · have hfreed : (DriverThing.serverPort ::ₘ .descriptor ::ₘ g.held).erase .descriptor =
        .serverPort ::ₘ g.held := by
      rw [Multiset.erase_cons_tail_of_mem (Multiset.mem_cons_self _ _), Multiset.erase_cons_head]
    rw [Standing.start_of_success hstatus, Multiset.singleton_add]
    refine wp_call (Multiset.mem_cons_of_mem (Multiset.mem_cons_self _ _)) fun _ _ =>
      wp_ite (fun hfail => absurd hfail hstatus) fun _ => ?_
    exact .succeeded success_statusSuccess (hfreed.trans (Multiset.singleton_add _ _).symm) hok

theorem wp_knFcCommUninitialize (hheld : g.held = {.serverPort} + h) (hfilter : .filter ∈ h)
    (hnone : NoWorkers h) :
    rules.wp knFcCommUninitialize g fun _ g' => Left h g g' := by
  have hworkers : NoWorkers g.held := fun w => notMem_single hheld nofun (hnone w)
  have hclose : rules.wp (do
      let server ← call .hasServerPort
      doWhen server (call .closeServerPort)) g fun _ g' => Left h g g' := by
    refine wp_call trivial fun server hserver => ?_
    obtain rfl : server = true := hserver.trans (decide_eq_true (mem_single hheld))
    exact wp_give hheld ⟨mem_single hheld, hworkers⟩ fun _ => rfl
  refine wp_call trivial fun client _ => ?_
  cases client with
  | false => exact hclose
  | true =>
    refine wp_call ⟨?_, hworkers⟩ fun _ _ => hclose
    show .filter ∈ g.held
    rw [hheld]
    exact Multiset.mem_add.mpr (.inr hfilter)

theorem wp_fltUnregisterFilter (hheld : g.held = {.filter} + h) (hport : .serverPort ∉ h)
    (hnone : NoWorkers h) : rules.wp (call .unregisterFilter) g fun _ g' => Left h g g' :=
  wp_give hheld ⟨mem_single hheld, notMem_single hheld nofun hport,
    fun w => notMem_single hheld nofun (hnone w)⟩ fun _ => rfl

theorem wp_initLock {l : LockName} (hok : g.failure = none) (hnew : .lock l ∉ g.held) :
    rules.wp (do call (.initLock l); pure statusSuccess) g fun status g' =>
      Started {.lock l} g status g' :=
  wp_call hnew fun _ _ => .succeeded success_statusSuccess (Multiset.singleton_add _ _).symm hok

theorem wp_deleteLock {l : LockName} (hheld : g.held = {.lock l} + h) (hnone : NoWorkers h)
    (hfilter : .filter ∉ h) : rules.wp (call (.deleteLock l)) g fun _ g' => Left h g g' :=
  wp_give hheld ⟨mem_single hheld, fun w => notMem_single hheld nofun (hnone w),
    fun _ => notMem_single hheld nofun hfilter⟩ fun _ => rfl

theorem wp_knFcConfigUninitialize (hheld : g.held = {.lock .config} + h) (hnone : NoWorkers h)
    (hfilter : .filter ∉ h) : rules.wp knFcConfigUninitialize g fun _ g' => Left h g g' :=
  wp_call (mem_single hheld) fun _ _ => wp_deleteLock hheld hnone hfilter

theorem wp_knFcExcludeUninitialize (hheld : g.held = {.lock .exclude} + h) (hnone : NoWorkers h)
    (hfilter : .filter ∉ h) : rules.wp knFcExcludeUninitialize g fun _ g' => Left h g g' :=
  wp_call (mem_single hheld) fun _ _ => wp_deleteLock hheld hnone hfilter

end Stages

end KnFileCatcher.DriverLife

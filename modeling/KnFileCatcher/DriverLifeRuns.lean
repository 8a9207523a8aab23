import KnFileCatcher.DriverLifeRules

/-! `DriverEntry` leaves everything standing or nothing at all, and the unload takes down what
stands. -/

namespace KnFileCatcher.DriverLife

open Custody Program Terms

section Life

variable {g : Standing} {h : Multiset DriverThing}

def only (b : Bool) (things : Multiset DriverThing) : Multiset DriverThing :=
  if b then things else 0

@[simp] theorem mem_only {x : DriverThing} {b : Bool} {things : Multiset DriverThing} :
    x ∈ only b things ↔ b = true ∧ x ∈ things := by
  cases b <;> simp [only]

/-- What is held of the parts that have no worker. -/
def Ready.idle (r : Ready) : Multiset DriverThing :=
  only r.comm {.serverPort} +
    (only r.filter {.filter} + (only r.exclude {.lock .exclude} + only r.config {.lock .config}))

def Ready.things (r : Ready) : Multiset DriverThing :=
  only r.queue (workerThings knfcQueueWorkerCount 0) + (only r.track trackThings + r.idle)

def allReady : Ready := ⟨true, true, true, true, true, true⟩

theorem noWorkers_idle (r : Ready) : NoWorkers r.idle := by
  simp [NoWorkers, Ready.idle]

/-- `DriverEntry` holds what is ready, and has stopped at the first status that is an error. -/
structure BroughtUp (r : NtStatus × Ready) (g : Standing) : Prop where
  held : g.held = r.2.things
  failure : g.failure = if ntSuccess r.1 then none else some r.1
  port : r.2.comm = true → r.2.filter = true
  all : ntSuccess r.1 = true → r.2 = allReady

theorem wp_step {ready : Ready} (next : Ready) {start : DriverProgram NtStatus}
    {rest : DriverProgram (NtStatus × Ready)} {things : Multiset DriverThing}
    (hheld : g.held = ready.things) (hport : ready.comm = true → ready.filter = true)
    (hstart : rules.wp start g fun status g' => Started things g status g')
    (hthings : things + ready.things = next.things)
    (hrest : ∀ g', g'.held = next.things → g'.failure = none → rules.wp rest g' BroughtUp) :
    rules.wp (step ready start rest) g BroughtUp := by
  refine wp_bind (wp.mono hstart fun status g' hstarted => ?_)
  refine wp_ite (fun hstatus => ?_) fun hstatus => ?_
  · have hkept := (hstarted.of_failed hstatus).1
    refine ⟨hkept.trans hheld, hstarted.failure, hport, fun hsuccess => ?_⟩
    exact absurd (hstatus.symm.trans hsuccess) Bool.false_ne_true
  · obtain ⟨hgained, hnext⟩ := hstarted.of_success (by simpa using hstatus)
    refine hrest g' ?_ hnext
    rw [hgained, hheld, hthings]

theorem wp_bringUp : rules.wp bringUp .fresh BroughtUp := by
  refine wp_step ⟨true, false, false, false, false, false⟩ rfl nofun
    (wp_initLock rfl (by decide)) (by decide) fun g hheld hok => ?_
  refine wp_step ⟨true, true, false, false, false, false⟩ hheld nofun
    (wp_initLock hok (by rw [hheld]; decide)) (by decide) fun g hheld hok => ?_
  refine wp_step ⟨true, true, true, false, false, false⟩ hheld nofun
    (wp_knFcTrackInitialize hok ?track (by rw [hheld]; decide)) (by decide) fun g hheld hok => ?_
  case track =>
    rw [hheld]
    simp [NoWorkers, Ready.things, Ready.idle]
  refine wp_step ⟨true, true, true, true, false, false⟩ hheld nofun
    (wp_fltRegisterFilter hok (by rw [hheld]; decide) ?locks) (by decide) fun g hheld hok => ?_
  case locks =>
    intro l
    rw [hheld]
    cases l <;> decide
  refine wp_step ⟨true, true, true, true, true, false⟩ hheld (fun _ => rfl)
    (wp_knFcCommInitialize hok (by rw [hheld]; decide) (by rw [hheld]; decide)) (by decide)
    fun g hheld hok => ?_
  refine wp_step allReady hheld (fun _ => rfl) (wp_knFcQueueInitialize hok ?queue) (by decide)
    fun g hheld hok => ?_
  case queue =>
    rw [hheld]
    intro w hw
    cases w with
    | queue i => simp [Ready.things, Ready.idle, trackThings, exitDeferThings]
    | exitDefer => cases hw
  refine wp_step allReady hheld (fun _ => rfl)
    (wp_fltStartFiltering hok (by rw [hheld]; decide) (by rw [hheld]; decide)
      (by rw [hheld]; decide) ?workers) (zero_add _) fun g hheld hok => ?_
  case workers =>
    intro i hi
    rw [hheld]
    refine Multiset.mem_add.mpr (.inl (mem_only.mpr ⟨rfl, thread_mem_workerThings.mpr ?_⟩))
    omega
  exact ⟨hheld, hok, fun _ => rfl, fun _ => rfl⟩

theorem wp_doWhen {b : Bool} {p : DriverProgram Unit} {things : Multiset DriverThing}
    (hheld : g.held = only b things + h)
    (hp : b = true → g.held = things + h → rules.wp p g fun _ g' => Left h g g') :
    rules.wp (doWhen b p) g fun _ g' => Left h g g' := by
  cases b with
  | false => exact ⟨hheld.trans (zero_add _), rfl⟩
  | true => exact hp rfl hheld

theorem Left.trans {h' : Multiset DriverThing} {g' g'' : Standing} (hl : Left h g g')
    (hl' : Left h' g' g'') : Left h' g g'' where
  held := hl'.held
  failure := hl'.failure.trans hl.failure

/-- Each part is stopped when nothing is left that needs it. -/
theorem wp_tearDown {r : Ready} (hheld : g.held = r.things)
    (hport : r.comm = true → r.filter = true) :
    rules.wp (tearDown r) g fun _ g' => Left 0 g g' := by
  have hworkers : NoWorker .queue (only r.track trackThings + r.idle) := by
    intro w hw
    cases w with
    | queue i => simp [Ready.idle, trackThings, exitDeferThings]
    | exitDefer => cases hw
  have hidle := noWorkers_idle r
  refine wp_bind (wp.mono (wp_doWhen hheld fun _ hqueue =>
    wp_knFcQueueUninitialize hqueue hworkers) fun _ _ hqueue => ?_)
  refine wp_bind (wp.mono (wp_doWhen hqueue.held fun _ htrack =>
    wp_knFcTrackUninitialize htrack hidle) fun _ _ htrack => ?_)
  refine wp_bind (wp.mono (wp_doWhen htrack.held fun hready hcomm =>
    wp_knFcCommUninitialize hcomm (by simp [hport hready]) (by simp [NoWorkers]))
    fun _ _ hcomm => ?_)
  refine wp_bind (wp.mono (wp_doWhen hcomm.held fun _ hfilter =>
    wp_fltUnregisterFilter hfilter (by simp) (by simp [NoWorkers])) fun _ _ hfilter => ?_)
  refine wp_bind (wp.mono (wp_doWhen hfilter.held fun _ hexclude =>
    wp_knFcExcludeUninitialize hexclude (by simp [NoWorkers]) (by simp)) fun _ _ hexclude => ?_)
  refine wp.mono (wp_doWhen (hexclude.held.trans (add_zero _).symm) fun _ hconfig =>
    wp_knFcConfigUninitialize hconfig (by simp [NoWorkers]) (by simp)) fun _ _ hconfig => ?_
  exact (((((hqueue.trans htrack).trans hcomm).trans hfilter).trans hexclude).trans hconfig)

theorem wp_driverEntry :
    rules.wp driverEntry .fresh fun status g' => Started allReady.things .fresh status g' := by
  refine wp_bind (wp.mono wp_bringUp fun r g hup => ?_)
  obtain ⟨status, ready⟩ := r
  obtain ⟨hheld, hfailure, hport, hall⟩ := hup
  dsimp only at hheld hfailure hport hall
  refine wp_ite (fun hsuccess => ?_) fun hstatus => ?_
  · refine .succeeded hsuccess ?_ (by rw [hfailure, if_pos hsuccess])
    rw [hheld, hall hsuccess]
    exact (add_zero _).symm
  · refine wp_bind (wp.mono (wp_tearDown hheld hport) fun _ g' hleft => ?_)
    refine .failed (by simpa using hstatus) hleft.held ?_
    rw [hleft.failure, hfailure, if_neg hstatus]

/-- The failure path of `DriverEntry` stops the parts in the order in which the unload does. -/
theorem knFcFilterUnload_eq : knFcFilterUnload = tearDown allReady := rfl

variable {status : NtStatus} {entry : List (Exchange DriverOp DriverOp.Answer)}

/-- Whichever start of `DriverEntry` fails, nothing is called out of order and nothing is left
behind; if none does, all parts stand until `knFcFilterUnload` has taken them down. -/
theorem driver_life_runs (hentry : driverEntry.Runs entry status)
    (hpromised : rules.Honest .fresh entry) :
    rules.Legal .fresh entry ∧
    (rules.final .fresh entry).failure = (if ntSuccess status then none else some status) ∧
    (ntSuccess status = false → (rules.final .fresh entry).held = 0) ∧
    (ntSuccess status = true → (rules.final .fresh entry).held = allReady.things ∧
      ∀ unload, knFcFilterUnload.Runs unload () →
        rules.Honest (rules.final .fresh entry) unload →
        rules.Legal (rules.final .fresh entry) unload ∧
        (rules.final (rules.final .fresh entry) unload).held = 0) := by
  obtain ⟨hlegal, hstarted⟩ := wp_sound wp_driverEntry hentry hpromised
  refine ⟨hlegal, hstarted.failure, fun hstatus => ?_, fun hstatus => ?_⟩
  · exact (hstarted.of_failed hstatus).1
  have hstanding : (rules.final .fresh entry).held = allReady.things :=
    (hstarted.of_success hstatus).1.trans (add_zero _)
  refine ⟨hstanding, fun unload hunload hunloadPromised => ?_⟩
  rw [knFcFilterUnload_eq] at hunload
  obtain ⟨hunloadLegal, hleft⟩ :=
    wp_sound (wp_tearDown hstanding fun _ => rfl) hunload hunloadPromised
  exact ⟨hunloadLegal, hleft.held⟩

/-- The answers while `n` more starts succeed. -/
def kernelAnswer (n : Nat) (g : Standing) : (op : DriverOp) → op.Answer
  | .createThread _ | .referenceThread _ | .registerFilter | .startFiltering | .buildDescriptor
  | .createPort => if n = 0 then statusInsufficientResources else statusSuccess
  | .isRunning => decide (.running ∈ g.held)
  | .hasThread w => decide (.object w ∈ g.held)
  | .hasServerPort => decide (.serverPort ∈ g.held)
  | .hasClient => true
  | .initLock _ | .deleteLock _ | .zeroWorkers _ | .closeHandle _ | .dereference _
  | .clearRunning | .setStop _ | .setEvent _ | .waitRundown | .waitHandle _ | .waitObject _
  | .drain _ | .unregisterFilter | .freeDescriptor | .closeServerPort | .closeClientPort
  | .stopTracking | .clearRoots | .clearPatterns => ()

def starts : DriverOp → Nat
  | .createThread _ | .referenceThread _ | .registerFilter | .startFiltering | .buildDescriptor
  | .createPort => 1
  | _ => 0

def kernel (s : Nat × Standing) (op : DriverOp) : op.Answer × Nat × Standing :=
  (kernelAnswer s.1 s.2 op, s.1 - starts op, rules.after s.2 op (kernelAnswer s.1 s.2 op))

theorem honest_kernel {α : Type} (p : DriverProgram α) (n : Nat) (g : Standing) :
    rules.Honest g (p.drive kernel (n, g)).1 := by
  refine honest_drive (I := fun s g => s.2 = g) (fun s g op hs => ?_) p rfl
  subst hs
  cases op <;> exact ⟨by trivial, rfl⟩

/-- The second worker of the queue runs and cannot be referenced; with six starts more, all
parts stand and are unloaded. -/
theorem driver_life_runs_unreferenced :
    (let failed := driverEntry.drive kernel (8, .fresh)
     ntSuccess failed.2 = false ∧ (rules.final .fresh failed.1).held = 0) ∧
    let started := driverEntry.drive kernel (14, .fresh)
    let standing := rules.final .fresh started.1
    let unload := knFcFilterUnload.drive kernel (0, standing)
    ntSuccess started.2 = true ∧ rules.Legal standing unload.1 ∧
      (rules.final standing unload.1).held = 0 := by
  have hfails : ntSuccess (driverEntry.drive kernel (8, .fresh)).2 = false := by decide
  have hstarts : ntSuccess (driverEntry.drive kernel (14, .fresh)).2 = true := by decide
  refine ⟨⟨hfails, ?_⟩, hstarts, ?_⟩
  · exact (driver_life_runs (runs_drive kernel driverEntry (8, .fresh))
      (honest_kernel driverEntry 8 .fresh)).2.2.1 hfails
  · exact ((driver_life_runs (runs_drive kernel driverEntry (14, .fresh))
      (honest_kernel driverEntry 14 .fresh)).2.2.2 hstarts).2 _
        (runs_drive kernel knFcFilterUnload (0, _)) (honest_kernel knFcFilterUnload 0 _)

end Life

end KnFileCatcher.DriverLife

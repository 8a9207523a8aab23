import KnFileCatcher.Runs
import KnFileCatcher.Track
import KnFileCatcher.Waits

/-! The deferred pushes of exit events: callers of `knFcExitDeferEnqueue`, the one
worker and `knFcExitDeferStop` take atomic steps on one `KNFC_EXIT_CTX`. -/

namespace KnFileCatcher

/-- `link` stands for the list entry, which tells two records apart. -/
structure KnfcExitDefer where
  link : Nat
  pid : Handle
  ppid : Handle
  root : Handle
  flags : Ulong
deriving DecidableEq

/-- What happened to the records so far. The driver keeps none of it. -/
structure ExitHistory where
  refused : List KnfcExitDefer
  accepted : List KnfcExitDefer
  removed : List KnfcExitDefer
  pushed : List KnfcExitDefer
  freed : List KnfcExitDefer

structure KnfcExitCtx where
  list : List KnfcExitDefer
  event : Waits.Event Unit
  thread : Bool
  stop : Bool
  running : Bool
  history : ExitHistory

/-- The context that a successful `knFcExitDeferStart` leaves. -/
def knFcExitDeferStart : KnfcExitCtx where
  list := []
  event := .create
  thread := true
  stop := false
  running := true
  history := ⟨[], [], [], [], []⟩

def KnfcExitCtx.refuse (g : KnfcExitCtx) (e : KnfcExitDefer) : KnfcExitCtx :=
  { g with history := { g.history with refused := g.history.refused ++ [e] } }

inductive DeferPc where
  | testRunning
  | allocate
  | insert
  | signal
  | free
deriving DecidableEq

/-- A step of `knFcExitDeferEnqueue`; `none` on the right once it returned. The test
and the insertion under the lock are one step. -/
def knFcExitDeferEnqueue (g : KnfcExitCtx) (alloc : Bool) (e : KnfcExitDefer) :
    DeferPc → KnfcExitCtx × Option DeferPc
  | .testRunning => if g.running then (g, some .allocate) else (g.refuse e, none)
  | .allocate => if alloc then (g, some .insert) else (g.refuse e, none)
  | .insert =>
    if g.running = false ∨ g.stop then (g.refuse e, some .free)
    else
      ({ g with
          list := g.list ++ [e]
          history := { g.history with accepted := g.history.accepted ++ [e] } },
        some .signal)
  | .signal => ({ g with event := g.event.set }, none)
  | .free => (g, none)

inductive ExitWorkerPc where
  | testStop
  | wait
  | waiting
  | drain
  | popped (e : KnfcExitDefer)
  | push (e : KnfcExitDefer)
  | free (e : KnfcExitDefer)
  | exited
deriving DecidableEq

def KnfcExitCtx.removeHead (g : KnfcExitCtx) (e : KnfcExitDefer) (rest : List KnfcExitDefer) :
    KnfcExitCtx :=
  { g with list := rest, history := { g.history with removed := g.history.removed ++ [e] } }

def KnfcExitCtx.free (g : KnfcExitCtx) (e : KnfcExitDefer) : KnfcExitCtx :=
  { g with history := { g.history with freed := g.history.freed ++ [e] } }

/-- A step of the worker; `none` while the event has not released it, and once it
has left its loop. -/
def knFcExitDeferWorker (g : KnfcExitCtx) : ExitWorkerPc → Option (KnfcExitCtx × ExitWorkerPc)
  | .testStop => some (g, if g.stop then .exited else .wait)
  | .wait =>
    if g.event.signaled then some (g, .drain)
    else some ({ g with event := g.event.block () }, .waiting)
  | .waiting => if () ∈ g.event.waiters then none else some (g, .drain)
  | .drain =>
    match g.list with
    | e :: rest => some (g.removeHead e rest, .popped e)
    | [] => some ({ g with event := g.event.clear }, .testStop)
  | .popped e => some (g, if g.stop then .free e else .push e)
  | .push e =>
    some ({ g with history := { g.history with pushed := g.history.pushed ++ [e] } }, .free e)
  | .free e => some (g.free e, .drain)
  | .exited => none

inductive ExitStopPc where
  | notCalled
  | testRunning
  | close
  | signal
  | testThread
  | join
  | drain
  | free (e : KnfcExitDefer)
  | returned
deriving DecidableEq

def knFcExitDeferStop (g : KnfcExitCtx) (worker : ExitWorkerPc) :
    ExitStopPc → Option (KnfcExitCtx × ExitStopPc)
  | .notCalled => some (g, .testRunning)
  | .testRunning => some (g, if g.running then .close else .returned)
  | .close => some ({ g with stop := true, running := false }, .signal)
  | .signal => some ({ g with event := g.event.set }, .testThread)
  | .testThread => some (g, if g.thread then .join else .drain)
  | .join => if worker = .exited then some ({ g with thread := false }, .drain) else none
  | .drain =>
    match g.list with
    | e :: rest => some (g.removeHead e rest, .free e)
    | [] => some (g, .returned)
  | .free e => some (g.free e, .drain)
  | .returned => none

/-- What a step of the worker can be. -/
inductive ExitWorkerMove (g : KnfcExitCtx) : ExitWorkerPc → KnfcExitCtx → ExitWorkerPc → Prop where
  | leave (stop : g.stop = true) : ExitWorkerMove g .testStop g .exited
  | stay (stop : g.stop = false) : ExitWorkerMove g .testStop g .wait
  | pass (signaled : g.event.signaled = true) : ExitWorkerMove g .wait g .drain
  | block (signaled : g.event.signaled = false) :
      ExitWorkerMove g .wait { g with event := g.event.block () } .waiting
  | wake (released : () ∉ g.event.waiters) : ExitWorkerMove g .waiting g .drain
  | pop (e : KnfcExitDefer) (rest : List KnfcExitDefer) (list : g.list = e :: rest) :
      ExitWorkerMove g .drain (g.removeHead e rest) (.popped e)
  | clear (list : g.list = []) :
      ExitWorkerMove g .drain { g with event := g.event.clear } .testStop
  | drop (e : KnfcExitDefer) (stop : g.stop = true) : ExitWorkerMove g (.popped e) g (.free e)
  | keep (e : KnfcExitDefer) (stop : g.stop = false) : ExitWorkerMove g (.popped e) g (.push e)
  | push (e : KnfcExitDefer) : ExitWorkerMove g (.push e)
      { g with history := { g.history with pushed := g.history.pushed ++ [e] } } (.free e)
  | free (e : KnfcExitDefer) : ExitWorkerMove g (.free e) (g.free e) .drain

theorem exitWorkerMove {g g' : KnfcExitCtx} {pc pc' : ExitWorkerPc}
    (h : knFcExitDeferWorker g pc = some (g', pc')) : ExitWorkerMove g pc g' pc' := by
  cases pc with
  | testStop =>
    cases h
    cases hstop : g.stop with
    | true => exact .leave hstop
    | false => exact .stay hstop
  | wait =>
    simp only [knFcExitDeferWorker] at h
    split at h
    · next hsignaled =>
      cases h
      exact .pass hsignaled
    · next hsignaled =>
      cases h
      exact .block (by simpa using hsignaled)
  | waiting =>
    simp only [knFcExitDeferWorker] at h
    split at h
    · cases h
    · next hreleased =>
      cases h
      exact .wake hreleased
  | drain =>
    simp only [knFcExitDeferWorker] at h
    split at h
    · next e rest hlist =>
      cases h
      exact .pop e rest hlist
    · next hlist =>
      cases h
      exact .clear hlist
  | popped e =>
    cases h
    cases hstop : g.stop with
    | true => exact .drop e hstop
    | false => exact .keep e hstop
  | push e =>
    cases h
    exact .push e
  | free e =>
    cases h
    exact .free e
  | exited => cases h

/-- What a step of the stop can be. -/
inductive ExitStopMove (g : KnfcExitCtx) (worker : ExitWorkerPc) :
    ExitStopPc → KnfcExitCtx → ExitStopPc → Prop where
  | call : ExitStopMove g worker .notCalled g .testRunning
  | running (running : g.running = true) : ExitStopMove g worker .testRunning g .close
  | stopped (running : g.running = false) : ExitStopMove g worker .testRunning g .returned
  | close : ExitStopMove g worker .close { g with stop := true, running := false } .signal
  | signal : ExitStopMove g worker .signal { g with event := g.event.set } .testThread
  | thread (thread : g.thread = true) : ExitStopMove g worker .testThread g .join
  | noThread (thread : g.thread = false) : ExitStopMove g worker .testThread g .drain
  | join (exited : worker = .exited) :
      ExitStopMove g worker .join { g with thread := false } .drain
  | pop (e : KnfcExitDefer) (rest : List KnfcExitDefer) (list : g.list = e :: rest) :
      ExitStopMove g worker .drain (g.removeHead e rest) (.free e)
  | empty (list : g.list = []) : ExitStopMove g worker .drain g .returned
  | free (e : KnfcExitDefer) : ExitStopMove g worker (.free e) (g.free e) .drain

theorem exitStopMove {g g' : KnfcExitCtx} {worker : ExitWorkerPc} {pc pc' : ExitStopPc}
    (h : knFcExitDeferStop g worker pc = some (g', pc')) : ExitStopMove g worker pc g' pc' := by
  cases pc with
  | notCalled =>
    cases h
    exact .call
  | testRunning =>
    cases h
    cases hrunning : g.running with
    | true => exact .running hrunning
    | false => exact .stopped hrunning
  | close =>
    cases h
    exact .close
  | signal =>
    cases h
    exact .signal
  | testThread =>
    cases h
    cases hthread : g.thread with
    | true => exact .thread hthread
    | false => exact .noThread hthread
  | join =>
    simp only [knFcExitDeferStop] at h
    split at h
    · next hexited =>
      cases h
      exact .join hexited
    · cases h
  | drain =>
    simp only [knFcExitDeferStop] at h
    split at h
    · next e rest hlist =>
      cases h
      exact .pop e rest hlist
    · next hlist =>
      cases h
      exact .empty hlist
  | free e =>
    cases h
    exact .free e
  | returned => cases h

/-- Each caller is a thread in an exit notification, with the record it brings. -/
structure ExitDeferSystem (P : Type*) where
  ctx : KnfcExitCtx
  callers : P → Option (KnfcExitDefer × DeferPc)
  worker : ExitWorkerPc
  stopper : ExitStopPc

def ExitDeferSystem.init (P : Type*) : ExitDeferSystem P where
  ctx := knFcExitDeferStart
  callers _ := none
  worker := .testStop
  stopper := .notCalled

inductive ExitDeferAction (P : Type*) where
  | call (p : P) (e : KnfcExitDefer)
  | caller (p : P) (alloc : Bool)
  | worker
  | stop

section Step

variable {P : Type*} [DecidableEq P]

def exitDeferStep (s : ExitDeferSystem P) : ExitDeferAction P → Option (ExitDeferSystem P)
  | .call p e =>
    match s.callers p with
    | some _ => none
    | none => some { s with callers := Function.update s.callers p (some (e, .testRunning)) }
  | .caller p alloc => (s.callers p).map fun (e, pc) =>
      let r := knFcExitDeferEnqueue s.ctx alloc e pc
      { s with ctx := r.1, callers := Function.update s.callers p (r.2.map fun pc => (e, pc)) }
  | .worker => (knFcExitDeferWorker s.ctx s.worker).map fun (ctx, worker) =>
      { s with ctx, worker }
  | .stop => (knFcExitDeferStop s.ctx s.worker s.stopper).map fun (ctx, stopper) =>
      { s with ctx, stopper }

variable {s t : ExitDeferSystem P}

theorem exitDeferStep_call {p : P} {e : KnfcExitDefer}
    (h : exitDeferStep s (.call p e) = some t) :
    s.callers p = none ∧
      t = { s with callers := Function.update s.callers p (some (e, .testRunning)) } := by
  simp only [exitDeferStep] at h
  split at h
  · cases h
  · next hidle => exact ⟨hidle, (Option.some.inj h).symm⟩

theorem exitDeferStep_caller {p : P} {alloc : Bool}
    (h : exitDeferStep s (.caller p alloc) = some t) :
    ∃ e pc, s.callers p = some (e, pc) ∧
      t = { s with
        ctx := (knFcExitDeferEnqueue s.ctx alloc e pc).1
        callers := Function.update s.callers p
          ((knFcExitDeferEnqueue s.ctx alloc e pc).2.map fun pc => (e, pc)) } := by
  obtain ⟨⟨e, pc⟩, hp, rfl⟩ := Option.map_eq_some_iff.mp h
  exact ⟨e, pc, hp, rfl⟩

theorem exitDeferStep_worker (h : exitDeferStep s .worker = some t) :
    ∃ ctx worker, knFcExitDeferWorker s.ctx s.worker = some (ctx, worker) ∧
      t = { s with ctx, worker } := by
  obtain ⟨⟨ctx, worker⟩, hw, rfl⟩ := Option.map_eq_some_iff.mp h
  exact ⟨ctx, worker, hw, rfl⟩

theorem exitDeferStep_stop (h : exitDeferStep s .stop = some t) :
    ∃ ctx stopper, knFcExitDeferStop s.ctx s.worker s.stopper = some (ctx, stopper) ∧
      t = { s with ctx, stopper } := by
  obtain ⟨⟨ctx, stopper⟩, hst, rfl⟩ := Option.map_eq_some_iff.mp h
  exact ⟨ctx, stopper, hst, rfl⟩

end Step

end KnFileCatcher

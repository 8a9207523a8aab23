import KnFileCatcher.Custody
import KnFileCatcher.Queue

/-! The driver from `DriverEntry` to `knFcFilterUnload`, with every start that can fail on the
way. -/

namespace KnFileCatcher.DriverLife

open Custody Program

inductive WorkerKind where
  | queue
  | exitDefer
deriving DecidableEq

inductive Worker where
  | queue (i : Nat)
  | exitDefer
deriving DecidableEq

def Worker.kind : Worker → WorkerKind
  | .queue _ => .queue
  | .exitDefer => .exitDefer

inductive LockName where
  | config
  | exclude
  | track
deriving DecidableEq

/-- `zeroWorkers` is the initialisation of `g_Queue` or `g_ExitDefer`, and `setStop` writes
`Stop`: for `g_ExitDefer` the one sets `Running` too, and the other clears it. -/
inductive DriverOp where
  | initLock (l : LockName)
  | deleteLock (l : LockName)
  | zeroWorkers (k : WorkerKind)
  | createThread (w : Worker)
  | referenceThread (w : Worker)
  | closeHandle (w : Worker)
  | dereference (w : Worker)
  | clearRunning
  | isRunning
  | setStop (k : WorkerKind)
  | setEvent (k : WorkerKind)
  | waitRundown
  | waitHandle (w : Worker)
  | hasThread (w : Worker)
  | waitObject (w : Worker)
  | drain (k : WorkerKind)
  | registerFilter
  | unregisterFilter
  | startFiltering
  | buildDescriptor
  | freeDescriptor
  | createPort
  | hasServerPort
  | closeServerPort
  | hasClient
  | closeClientPort
  | stopTracking
  | clearRoots
  | clearPatterns

abbrev DriverOp.Answer : DriverOp → Type
  | .createThread _ | .referenceThread _ | .registerFilter | .startFiltering | .buildDescriptor
  | .createPort => NtStatus
  | .isRunning | .hasThread _ | .hasServerPort | .hasClient => Bool
  | _ => Unit

abbrev DriverProgram := Program DriverOp DriverOp.Answer

section Calls

abbrev call (op : DriverOp) : DriverProgram op.Answer := perform op

abbrev psCreateSystemThread (w : Worker) : DriverProgram NtStatus :=
  perform (DriverOp.createThread w)
abbrev obReferenceObjectByHandle (w : Worker) : DriverProgram NtStatus :=
  perform (DriverOp.referenceThread w)
abbrev fltRegisterFilter : DriverProgram NtStatus := perform DriverOp.registerFilter
abbrev fltStartFiltering : DriverProgram NtStatus := perform DriverOp.startFiltering
abbrev fltBuildDefaultSecurityDescriptor : DriverProgram NtStatus :=
  perform DriverOp.buildDescriptor
abbrev fltCreateCommunicationPort : DriverProgram NtStatus := perform DriverOp.createPort

def doWhen (b : Bool) (p : DriverProgram Unit) : DriverProgram Unit := if b then p else pure ()

end Calls

section ExitDefer

/-- The worker is told to stop before anything waits for it. -/
def stopUnreferenced (w : Worker) : DriverProgram Unit := do
  call (.setStop w.kind)
  call (.setEvent w.kind)
  call (.waitHandle w)
  call (.closeHandle w)

def knFcExitDeferStart : DriverProgram NtStatus := do
  call (.zeroWorkers .exitDefer)
  let status ← psCreateSystemThread .exitDefer
  if ntSuccess status = false then
    call .clearRunning
    pure status
  else
    let status ← obReferenceObjectByHandle .exitDefer
    if ntSuccess status = false then
      stopUnreferenced .exitDefer
      pure status
    else
      call (.closeHandle .exitDefer)
      pure statusSuccess

def joinThread (w : Worker) : DriverProgram Unit := do
  let thread ← call (.hasThread w)
  doWhen thread do
    call (.waitObject w)
    call (.dereference w)

def knFcExitDeferStop : DriverProgram Unit := do
  let running ← call .isRunning
  doWhen running do
    call (.setStop .exitDefer)
    call (.setEvent .exitDefer)
    joinThread .exitDefer
    call (.drain .exitDefer)

def knFcTrackInitialize : DriverProgram NtStatus := do
  call (.initLock .track)
  let status ← knFcExitDeferStart
  if ntSuccess status = false then
    call (.deleteLock .track)
    pure status
  else pure statusSuccess

def knFcTrackUninitialize : DriverProgram Unit := do
  call .stopTracking
  knFcExitDeferStop
  call (.deleteLock .track)

end ExitDefer

section Queue

/-- The loop of `knFcQueueInitialize` over the workers from `i` on, with `ThreadCount`. -/
def startWorkers : Nat → Nat → DriverProgram (NtStatus × Nat)
  | 0, i => pure (statusSuccess, i)
  | n + 1, i => do
    let status ← psCreateSystemThread (.queue i)
    if ntSuccess status = false then pure (status, i)
    else
      let status ← obReferenceObjectByHandle (.queue i)
      if ntSuccess status = false then
        stopUnreferenced (.queue i)
        pure (status, i)
      else
        call (.closeHandle (.queue i))
        startWorkers n (i + 1)

def joinWorkers : Nat → Nat → DriverProgram Unit
  | 0, _ => pure ()
  | n + 1, i => do
    joinThread (.queue i)
    joinWorkers n (i + 1)

/-- `threadCount` is `g_Queue.ThreadCount`, which counts all workers after a successful start. -/
def knFcQueueUninitialize (threadCount : Nat) : DriverProgram Unit := do
  call (.setStop .queue)
  call .waitRundown
  call (.setEvent .queue)
  joinWorkers threadCount 0
  call (.drain .queue)

def knFcQueueInitialize : DriverProgram NtStatus := do
  call (.zeroWorkers .queue)
  let (status, threadCount) ← startWorkers knfcQueueWorkerCount 0
  if ntSuccess status = false then
    knFcQueueUninitialize threadCount
    pure status
  else pure statusSuccess

end Queue

section Comm

def knFcCommInitialize : DriverProgram NtStatus := do
  let status ← fltBuildDefaultSecurityDescriptor
  if ntSuccess status = false then pure status
  else
    let status ← fltCreateCommunicationPort
    call .freeDescriptor
    if ntSuccess status = false then pure status else pure statusSuccess

def knFcCommUninitialize : DriverProgram Unit := do
  let client ← call .hasClient
  doWhen client (call .closeClientPort)
  let server ← call .hasServerPort
  doWhen server (call .closeServerPort)

end Comm

section Driver

def knFcConfigInitialize : DriverProgram NtStatus := do
  call (.initLock .config)
  pure statusSuccess

def knFcConfigUninitialize : DriverProgram Unit := do
  call .clearRoots
  call (.deleteLock .config)

def knFcExcludeInitialize : DriverProgram NtStatus := do
  call (.initLock .exclude)
  pure statusSuccess

def knFcExcludeUninitialize : DriverProgram Unit := do
  call .clearPatterns
  call (.deleteLock .exclude)

structure Ready where
  config : Bool
  exclude : Bool
  track : Bool
  filter : Bool
  comm : Bool
  queue : Bool

/-- The next part of `DriverEntry`, if what comes before it is ready. -/
def step (ready : Ready) (start : DriverProgram NtStatus)
    (rest : DriverProgram (NtStatus × Ready)) : DriverProgram (NtStatus × Ready) := do
  let status ← start
  if ntSuccess status = false then pure (status, ready) else rest

/-- The body of `DriverEntry` up to its `while (FALSE)`. -/
def bringUp : DriverProgram (NtStatus × Ready) :=
  step ⟨false, false, false, false, false, false⟩ knFcConfigInitialize <|
  step ⟨true, false, false, false, false, false⟩ knFcExcludeInitialize <|
  step ⟨true, true, false, false, false, false⟩ knFcTrackInitialize <|
  step ⟨true, true, true, false, false, false⟩ fltRegisterFilter <|
  step ⟨true, true, true, true, false, false⟩ knFcCommInitialize <|
  step ⟨true, true, true, true, true, false⟩ knFcQueueInitialize <|
  step ⟨true, true, true, true, true, true⟩ fltStartFiltering <|
  pure (statusSuccess, ⟨true, true, true, true, true, true⟩)

def tearDown (r : Ready) : DriverProgram Unit := do
  doWhen r.queue <| knFcQueueUninitialize knfcQueueWorkerCount
  doWhen r.track knFcTrackUninitialize
  doWhen r.comm knFcCommUninitialize
  doWhen r.filter (call .unregisterFilter)
  doWhen r.exclude knFcExcludeUninitialize
  doWhen r.config knFcConfigUninitialize

def driverEntry : DriverProgram NtStatus := do
  let (status, ready) ← bringUp
  if ntSuccess status then pure status
  else
    tearDown ready
    pure status

def knFcFilterUnload : DriverProgram Unit := do
  knFcQueueUninitialize knfcQueueWorkerCount
  knFcTrackUninitialize
  knFcCommUninitialize
  call .unregisterFilter
  knFcExcludeUninitialize
  knFcConfigUninitialize

end Driver

end KnFileCatcher.DriverLife

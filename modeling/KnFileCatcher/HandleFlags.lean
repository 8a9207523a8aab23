import KnFileCatcher.HandleHistory
import KnFileCatcher.Runs

/-! The callbacks on one handle, run by any number of threads. The flag word and
the observed mark are only ever changed by interlocked accesses, so a callback is
the list of the accesses it makes, and those of different threads interleave. -/

namespace KnFileCatcher

open FlagBits Runs

/-- An access to the shared context. The only `InterlockedAnd` takes the delete bit. -/
inductive HandleStep where
  | or (mask : Ulong)
  | clearDelete
  | observe
  | setCurrentName (alloc : Bool) (name : UnicodeString)
deriving DecidableEq

def HandleStep.run (shc : KnfcShc) : HandleStep → KnfcShc
  | .or mask => { shc with flags := shc.flags ||| mask }
  | .clearDelete => { shc with flags := shc.flags &&& ~~~knfcShcDeleteOnClose }
  | .observe => { shc with deleteDispositionObserved := true }
  | .setCurrentName alloc name => knFcShcSetCurrentName alloc shc name

def runSteps (shc : KnfcShc) (steps : List HandleStep) : KnfcShc := steps.foldl HandleStep.run shc

theorem runSteps_append (shc : KnfcShc) (xs ys : List HandleStep) :
    runSteps shc (xs ++ ys) = runSteps (runSteps shc xs) ys := by
  simp [runSteps]

section Callbacks

def postWriteSteps (env : PostWriteEnv) : List HandleStep :=
  if !env.draining && ntSuccess env.status && decide (env.information ≠ 0) then
    [.or knfcShcModified]
  else []

def preAcquireForSectionSteps (protect : Ulong) : List HandleStep :=
  if flagOn protect writableProtection then [.or knfcShcModified] else []

/-- The values the callback reads from the context on its way are those of `view`. -/
def preCleanupSteps (up : Wchar → Wchar) (env : PreCleanupEnv) (view : KnfcShc) :
    List HandleStep :=
  match (knFcPreCleanup up env view).calls with
  | [.sendSync _] => [.or knfcShcBackedUp]
  | _ => []

def dispositionSteps (atCreate : Bool) (actions : Ulong) : List HandleStep :=
  if flagOn actions knfcSetinfoSetDelete then [.observe, .or knfcShcDeleteOnClose]
  else if flagOn actions knfcSetinfoClearDelete && !atCreate then [.observe, .clearDelete]
  else if flagOn actions knfcSetinfoClearDelete then [.observe]
  else []

def currentNameSteps (env : PostSetInformationEnv) : List HandleStep :=
  match env.name with
  | none => []
  | some name => if name.length > 0 then [.setCurrentName env.nameAlloc name] else []

def renameSteps (env : PostSetInformationEnv) : List HandleStep :=
  .or knfcShcRenamed :: if env.atMostApcLevel || env.deferred then currentNameSteps env else []

def postSetInformationSteps (atCreate : Bool) (env : PostSetInformationEnv) (actions : Ulong) :
    List HandleStep :=
  if env.draining then []
  else if !ntSuccess env.status then []
  else
    (if flagOn actions knfcSetinfoMarkModified then [.or knfcShcModified] else []) ++
      dispositionSteps atCreate actions ++
      if flagOn actions knfcSetinfoCaptureRename then renameSteps env else []

theorem runSteps_postWrite (env : PostWriteEnv) (shc : KnfcShc) :
    runSteps shc (postWriteSteps env) = knFcPostWrite env shc := by
  unfold postWriteSteps knFcPostWrite
  split <;> rfl

theorem runSteps_preAcquireForSection (protect : Ulong) (shc : KnfcShc) :
    runSteps shc (preAcquireForSectionSteps protect) = knFcPreAcquireForSection protect shc := by
  unfold preAcquireForSectionSteps knFcPreAcquireForSection
  split <;> rfl

theorem preCleanup_shc (up : Wchar → Wchar) (env : PreCleanupEnv) (shc : KnfcShc) :
    (∃ r, (knFcPreCleanup up env shc).calls = [.sendSync r] ∧
      (knFcPreCleanup up env shc).shc = { shc with flags := shc.flags ||| knfcShcBackedUp }) ∨
    (∀ r, (knFcPreCleanup up env shc).calls ≠ [.sendSync r]) ∧
      (knFcPreCleanup up env shc).shc = shc := by
  unfold knFcPreCleanup
  simp only
  split
  · simp
  split
  · simp
  split
  · simp
  split
  · simp
  split
  · simp
  split
  · split <;> simp
  · simp

theorem runSteps_preCleanup (up : Wchar → Wchar) (env : PreCleanupEnv) (shc : KnfcShc) :
    runSteps shc (preCleanupSteps up env shc) = (knFcPreCleanup up env shc).shc := by
  unfold preCleanupSteps
  obtain ⟨r, hr, hshc⟩ | ⟨hr, hshc⟩ := preCleanup_shc up env shc
  · rw [hr, hshc]
    rfl
  · rw [hshc]
    split
    · next r heq => exact absurd heq (hr r)
    · rfl

theorem runSteps_disposition (actions : Ulong) (shc : KnfcShc) :
    runSteps shc (dispositionSteps shc.deleteOnCloseAtCreate actions) =
      applyDisposition actions shc := by
  unfold dispositionSteps applyDisposition
  split
  · rfl
  split
  · rfl
  split <;> rfl

theorem runSteps_currentName (env : PostSetInformationEnv) (shc : KnfcShc) :
    runSteps shc (currentNameSteps env) = knFcPostSetInformationSafe env shc := by
  unfold currentNameSteps knFcPostSetInformationSafe
  cases env.name with
  | none => rfl
  | some name =>
    dsimp only
    split <;> rfl

theorem runSteps_rename (env : PostSetInformationEnv) (shc : KnfcShc) :
    runSteps shc (renameSteps env) =
      if env.atMostApcLevel || env.deferred then
        knFcPostSetInformationSafe env { shc with flags := shc.flags ||| knfcShcRenamed }
      else { shc with flags := shc.flags ||| knfcShcRenamed } := by
  unfold renameSteps
  rw [← List.singleton_append, runSteps_append]
  cases env.atMostApcLevel || env.deferred with
  | true => exact runSteps_currentName env _
  | false => rfl

/-- One callback alone does what the function does. -/
theorem runSteps_postSetInformation (env : PostSetInformationEnv) (actions : Ulong)
    (shc : KnfcShc) :
    runSteps shc (postSetInformationSteps shc.deleteOnCloseAtCreate env actions) =
      knFcPostSetInformation env actions shc := by
  have hmark : runSteps shc
      (if flagOn actions knfcSetinfoMarkModified then [.or knfcShcModified] else []) =
        if flagOn actions knfcSetinfoMarkModified then
          { shc with flags := shc.flags ||| knfcShcModified } else shc := by
    split <;> rfl
  have hdelete (shc' : KnfcShc) (h : shc'.deleteOnCloseAtCreate = shc.deleteOnCloseAtCreate) :
      runSteps shc' (dispositionSteps shc.deleteOnCloseAtCreate actions) =
        applyDisposition actions shc' := by
    rw [← h]
    exact runSteps_disposition actions shc'
  unfold postSetInformationSteps knFcPostSetInformation
  split
  · rfl
  split
  · rfl
  rw [runSteps_append, runSteps_append, hmark, hdelete _ (by split <;> rfl)]
  cases flagOn actions knfcSetinfoCaptureRename with
  | false => rfl
  | true =>
    simp only [if_true]
    exact runSteps_rename env _

end Callbacks

/-- A readable disposition request that succeeded: what it asked for, and whether
its completion block was there and it was not drained. -/
structure Disposition where
  deletes : Bool
  handled : Bool
deriving DecidableEq

/-- A thread in a callback, or with a request it has sent down to the file system. -/
inductive HandleThread where
  | idle
  | requested (alloc : Bool) (d : SetFileInformation)
  | running (steps : List HandleStep) (answer : Option Disposition)

/-- The context, the threads, and as a record the accesses made so far and the
disposition requests that completed, in that order. -/
structure SharedHandle (T : Type*) where
  shc : KnfcShc
  threads : T → HandleThread
  performed : List HandleStep
  answered : List Disposition

/-- The handle that `knFcPostCreate` leaves, before any other callback. -/
def SharedHandle.opened (T : Type*) (shc : KnfcShc) : SharedHandle T := ⟨shc, fun _ => .idle, [], []⟩

inductive HandleAction (T : Type*) where
  | postWrite (t : T) (env : PostWriteEnv)
  | preAcquireForSection (t : T) (protect : Ulong)
  | preCleanup (t : T) (env : PreCleanupEnv) (view : KnfcShc)
  | preSetInformation (t : T) (alloc : Bool) (d : SetFileInformation)
  | postSetInformation (t : T) (env : PostSetInformationEnv)
  | step (t : T)

/-- A request without a completion block passes without a post callback. -/
def setInformationSteps (atCreate alloc : Bool) (d : SetFileInformation)
    (env : PostSetInformationEnv) : List HandleStep :=
  match knFcPreSetInformation alloc d with
  | some actions => postSetInformationSteps atCreate env actions
  | none => []

def dispositionOf (alloc : Bool) (d : SetFileInformation) (env : PostSetInformationEnv) :
    Option Disposition :=
  if ntSuccess env.status then
    d.disposition.map fun deletes => ⟨deletes, (knFcPreSetInformation alloc d).isSome && !env.draining⟩
  else none

section Machine

variable {T : Type*} [DecidableEq T]

namespace SharedHandle

def setThread (s : SharedHandle T) (t : T) (thread : HandleThread) : SharedHandle T :=
  { s with threads := Function.update s.threads t thread }

def begin (s : SharedHandle T) (t : T) (thread : HandleThread) : Option (SharedHandle T) :=
  match s.threads t with
  | .idle => some (s.setThread t thread)
  | _ => none

end SharedHandle

def handleStep (up : Wchar → Wchar) (s : SharedHandle T) : HandleAction T → Option (SharedHandle T)
  | .postWrite t env => s.begin t (.running (postWriteSteps env) none)
  | .preAcquireForSection t protect => s.begin t (.running (preAcquireForSectionSteps protect) none)
  | .preCleanup t env view => s.begin t (.running (preCleanupSteps up env view) none)
  | .preSetInformation t alloc d => s.begin t (.requested alloc d)
  | .postSetInformation t env =>
    match s.threads t with
    | .requested alloc d =>
      some (s.setThread t (.running (setInformationSteps s.shc.deleteOnCloseAtCreate alloc d env)
        (dispositionOf alloc d env)))
    | _ => none
  | .step t =>
    match s.threads t with
    | .running [] answer =>
      some { s.setThread t .idle with answered := s.answered ++ answer.toList }
    | .running (x :: rest) answer =>
      some { s.setThread t (.running rest answer) with
        shc := x.run s.shc
        performed := s.performed ++ [x] }
    | _ => none

end Machine

end KnFileCatcher

import KnFileCatcher.Cleanup
import KnFileCatcher.CreateResults
import KnFileCatcher.OwnershipRuns

/-! The callbacks as programs: every access to a stream-handle context, to a pool block
and to a name. What a call of the kernel answers is decided when it runs; the rest of what
a callback finds comes with its invocation. -/

namespace KnFileCatcher.Contexts

open FlagBits Ownership

/-- The names of a context; the buffer of each is a block in a slot. A buffer is there
exactly if the length beside it is not zero. -/
inductive ShcName where
  | originalName
  | currentName
deriving DecidableEq

/-- The other fields of `KNFC_SHC`. -/
structure ShcFields where
  ownerPid : Handle
  rootPid : Handle
  flags : Ulong
  deleteDispositionObserved : Bool
  deleteOnCloseAtCreate : Bool

inductive PoolKind where
  | completion
  | shcName
  | currentCopy
  | nameInfo
deriving DecidableEq

inductive PoolContent where
  | name (s : UnicodeString)
  | setInformation (shc : Nat) (actions : Ulong)
  | cleanup (r : CleanupRequest)

def PoolContent.text : PoolContent → UnicodeString
  | .name s => s
  | _ => .empty

abbrev PoolBlock := Block PoolKind

abbrev Callback (K α : Type) := Program K ShcName PoolKind ShcFields PoolContent α

variable {K : Type}

section Kernel

def fltGetStreamHandleContext (k : K) : Callback K (Option Nat) := .perform (.get k)

def fltAllocateContext : Callback K (Option Nat) := .perform .make

/-- With `FLT_SET_CONTEXT_KEEP_IF_EXISTS`. -/
def fltSetStreamHandleContext (k : K) (shc : Nat) : Callback K Bool := .perform (.attach k shc)

def fltReleaseContext (shc : Nat) : Callback K Unit := .perform (.release shc)

def readShc (shc : Nat) : Callback K ShcFields := .perform (.touch shc id)

def updateShc (shc : Nat) (f : ShcFields → ShcFields) : Callback K Unit := do
  let _ ← (.perform (.touch shc f) : Callback K ShcFields)

def interlockedOr (shc : Nat) (mask : Ulong) : Callback K Unit :=
  updateShc shc fun d => { d with flags := d.flags ||| mask }

def observeDisposition (shc : Nat) : Callback K Unit :=
  updateShc shc fun d => { d with deleteDispositionObserved := true }

/-- A block, with what is copied to it. -/
def knFcAllocateNonPaged (kind : PoolKind) (content : PoolContent) :
    Callback K (Option PoolBlock) := do
  match ← (.perform (.alloc kind) : Callback K (Option PoolBlock)) with
  | some b =>
    let _ ← (.perform (.write b content) : Callback K Unit)
    return some b
  | none => return none

def exFreePoolWithTag (b : PoolBlock) : Callback K Unit := .perform (.free b)

def readPool (b : PoolBlock) : Callback K PoolContent := .perform (.use b)

/-- The name information of `name`, if the query succeeds. -/
def fltGetFileNameInformation (name : UnicodeString) : Callback K (Option PoolBlock) :=
  knFcAllocateNonPaged .nameInfo (.name name)

def fltReleaseFileNameInformation (ni : PoolBlock) : Callback K Unit := .perform (.free ni)

def freeIfPresent : Option PoolBlock → Callback K Unit
  | some b => exFreePoolWithTag b
  | none => return ()

end Kernel

section Names

/-- The blocks that the teardown of a context frees, in its order. -/
def knFcShcCleanup (slots : ShcName → Option PoolBlock) : List PoolBlock :=
  (slots .originalName).toList ++ (slots .currentName).toList

def knFcShcSetOriginalName (shc : Nat) (ni : PoolBlock) : Callback K Unit := do
  let name := (← readPool ni).text
  if name.length = 0 then return ()
  else
    match ← knFcAllocateNonPaged .shcName (.name name) with
    | none => return ()
    | some buffer => .perform (.fill shc .originalName buffer)

/-- The buffers are swapped under the name lock. -/
def knFcShcSetCurrentName (shc : Nat) (ni : PoolBlock) : Callback K Unit := do
  let name := (← readPool ni).text
  if name.length > 0 then
    match ← knFcAllocateNonPaged .shcName (.name name) with
    | none => return ()
    | some newBuf =>
      let oldBuf ← (.perform (.swap shc .currentName (some newBuf)) : Callback K (Option PoolBlock))
      freeIfPresent oldBuf
  else
    let oldBuf ← (.perform (.swap shc .currentName none) : Callback K (Option PoolBlock))
    freeIfPresent oldBuf

end Names

/-- `*CompletionContext`. -/
inductive CompletionContext where
  | null
  | context (shc : Nat)
  | block (b : PoolBlock)

/-- The operations whose pre callback may ask for a post callback. -/
inductive Operation where
  | create
  | write
  | setInformation
  | cleanup
deriving DecidableEq

/-- How a callback leaves its operation: with nothing more to come, with a post callback,
or with the safe callback that was posted. -/
inductive Outcome (K : Type) where
  | finished
  | withCallback (op : Operation) (k : K) (ctx : CompletionContext)
  | deferred (shc : Nat)

section Create

structure CreateInput where
  draining : Bool
  caller : Handle
  table : KnfcTrackCtx
  shown : UnicodeString
  name : UnicodeString
  data : CreateData

def knFcPreCreate (mode : KprocessorMode) (k : K) : Callback K (Outcome K) :=
  if KnFileCatcher.knFcPreCreate mode then return .withCallback .create k .null
  else return .finished

/-- The name query for the debug print. -/
def traceCreate (name : UnicodeString) : Callback K Unit := do
  match ← fltGetFileNameInformation name with
  | some ni =>
    let _ ← readPool ni
    fltReleaseFileNameInformation ni
  | none => return ()

/-- From the new context on. -/
def installContext (env : CreateInput) (rootPid : Handle) (k : K) (shc : Nat) :
    Callback K (Outcome K) := do
  updateShc shc fun _ =>
    { ownerPid := env.caller
      rootPid
      flags := knFcDecideWriteIntent env.data
      deleteDispositionObserved := false
      deleteOnCloseAtCreate := flagOn env.data.options fileDeleteOnClose }
  match ← fltGetFileNameInformation env.name with
  | some nameInfo =>
    knFcShcSetOriginalName shc nameInfo
    fltReleaseFileNameInformation nameInfo
  | none => pure ()
  let _ ← fltSetStreamHandleContext k shc
  fltReleaseContext shc
  return .finished

def knFcPostCreate (env : CreateInput) (k : K) : Callback K (Outcome K) :=
  if env.draining then return .finished
  else if !ntSuccess env.data.status then return .finished
  else if env.data.status = statusReparse then return .finished
  else match knFcTrackIsTracked env.table env.caller with
    | none => return .finished
    | some (rootPid, _) => do
      traceCreate env.shown
      if !flagOn (knFcDecideWriteIntent env.data) knfcShcWriteIntent then return .finished
      else
        match ← fltAllocateContext with
        | none => return .finished
        | some shc => installContext env rootPid k shc

end Create

section Write

def knFcPreWrite (k : K) : Callback K (Outcome K) := do
  match ← fltGetStreamHandleContext k with
  | none => return .finished
  | some shc => return .withCallback .write k (.context shc)

def knFcPostWrite (env : PostWriteEnv) : CompletionContext → Callback K (Outcome K)
  | .context shc => do
    if !env.draining && ntSuccess env.status && decide (env.information ≠ 0) then
      interlockedOr shc knfcShcModified
    fltReleaseContext shc
    return .finished
  | _ => return .finished

end Write

section SetInformation

structure SetInformationInput where
  draining : Bool
  status : NtStatus
  atMostApcLevel : Bool
  irpOperation : Bool
  deferred : Bool
  name : UnicodeString

def knFcPreSetInformation (d : SetFileInformation) (k : K) : Callback K (Outcome K) :=
  let actions := knFcGetSetInformationActions d
  if actions = 0 then return .finished
  else do
    match ← fltGetStreamHandleContext k with
    | none => return .finished
    | some shc =>
      match ← knFcAllocateNonPaged .completion (.setInformation shc actions) with
      | none =>
        fltReleaseContext shc
        return .finished
      | some completion => return .withCallback .setInformation k (.block completion)

def knFcPostSetInformationSafe (name : UnicodeString) (shc : Nat) : Callback K (Outcome K) := do
  match ← fltGetFileNameInformation name with
  | some ni =>
    if (← readPool ni).text.length > 0 then knFcShcSetCurrentName shc ni
    fltReleaseFileNameInformation ni
  | none => pure ()
  fltReleaseContext shc
  return .finished

def applyDisposition (actions : Ulong) (shc : Nat) : Callback K Unit :=
  if flagOn actions knfcSetinfoSetDelete then do
    observeDisposition shc
    interlockedOr shc knfcShcDeleteOnClose
  else if flagOn actions knfcSetinfoClearDelete then do
    if !(← readShc shc).deleteOnCloseAtCreate then
      observeDisposition shc
      updateShc shc fun d => { d with flags := d.flags &&& ~~~knfcShcDeleteOnClose }
    else observeDisposition shc
  else return ()

/-- The post callback once its completion block is freed. -/
def finishSetInformation (env : SetInformationInput) (shc : Nat) (actions : Ulong) :
    Callback K (Outcome K) :=
  if env.draining || !ntSuccess env.status then do
    fltReleaseContext shc
    return .finished
  else do
    if flagOn actions knfcSetinfoMarkModified then interlockedOr shc knfcShcModified
    applyDisposition actions shc
    if flagOn actions knfcSetinfoCaptureRename then
      interlockedOr shc knfcShcRenamed
      if env.atMostApcLevel then knFcPostSetInformationSafe env.name shc
      else if env.irpOperation && env.deferred then return .deferred shc
      else
        fltReleaseContext shc
        return .finished
    else
      fltReleaseContext shc
      return .finished

def knFcPostSetInformation (env : SetInformationInput) :
    CompletionContext → Callback K (Outcome K)
  | .block completion => do
    let content ← readPool completion
    exFreePoolWithTag completion
    match content with
    | .setInformation shc actions => finishSetInformation env shc actions
    | _ => return .finished
  | _ => return .finished

end SetInformation

def knFcPreAcquireForSection (protect : Ulong) (k : K) : Callback K (Outcome K) := do
  match ← fltGetStreamHandleContext k with
  | none => return .finished
  | some shc =>
    if flagOn protect writableProtection then interlockedOr shc knfcShcModified
    fltReleaseContext shc
    return .finished

section Cleanup

structure CleanupInput where
  passiveLevel : Bool
  allApcsDisabled : Bool
  topLevelIrp : Bool
  name : UnicodeString
  exclude : KnfcExcludeCtx
  query : Option FileStandardInformation

def CleanupInput.passiveSafe (env : CleanupInput) : Bool := env.passiveLevel && !env.allApcsDisabled

inductive FinalName where
  | copy (b : PoolBlock)
  | live (ni : PoolBlock)
  | original (shc : Nat)

def FinalName.read : FinalName → Callback K UnicodeString
  | .copy b => do return (← readPool b).text
  | .live ni => do return (← readPool ni).text
  | .original shc => do
    let content ← (.perform (.peek shc .originalName) : Callback K (Option PoolContent))
    return (content.map PoolContent.text).getD .empty

structure ResolvedName where
  nameInfo : Option PoolBlock
  currentCopy : Option PoolBlock
  finalName : Option FinalName

def resolveOriginal (shc : Nat) (nameInfo : Option PoolBlock) : Callback K ResolvedName := do
  let content ← (.perform (.peek shc .originalName) : Callback K (Option PoolContent))
  return ⟨nameInfo, none, if content.isSome then some (.original shc) else none⟩

def knFcResolveFinalName (name : UnicodeString) (shc : Nat) : Callback K ResolvedName := do
  match ← (.perform (.copy shc .currentName .currentCopy) :
      Callback K (Option PoolBlock)) with
  | some b => return ⟨none, some b, some (.copy b)⟩
  | none =>
    match ← fltGetFileNameInformation name with
    | some ni =>
      if (← readPool ni).text.length > 0 then return ⟨some ni, none, some (.live ni)⟩
      else resolveOriginal shc (some ni)
    | none => resolveOriginal shc none

def knFcAllocateCleanupCompletion (shc : Nat) (flags : Ulong) (fileSizeHint : Ulonglong)
    (path : FinalName) : Callback K (Option PoolBlock) := do
  let name ← path.read
  if name.length = 0 then return none
  else
    match ← (.perform (.alloc .completion) : Callback K (Option PoolBlock)) with
    | none => return none
    | some completion =>
      let d ← readShc shc
      let copied ← path.read
      let _ ← (.perform (.write completion
        (.cleanup ⟨d.ownerPid, d.rootPid, flags, fileSizeHint, copied⟩)) : Callback K Unit)
      return some completion

/-- The flags with the delete state of the file, and its size. -/
def queryFile (env : CleanupInput) (shc : Nat) (snap : Ulong) : Callback K (Ulong × Ulonglong) :=
  if env.passiveSafe && !env.topLevelIrp then
    match env.query with
    | some fsi => do
      if (← readShc shc).deleteDispositionObserved then
        if fsi.deletePending then return (snap ||| knfcShcDeleteOnClose, fsi.endOfFile)
        else return (snap &&& ~~~knfcShcDeleteOnClose, fsi.endOfFile)
      else return (snap, fsi.endOfFile)
    | none => return (snap, 0)
  else return (snap, 0)

/-- The request that the queue copies, and the debug print behind it. -/
def passToQueue (passiveSafe : Bool) (shc : Nat) (finalName : FinalName) : Callback K Unit := do
  let _ ← readShc shc
  let _ ← finalName.read
  let _ ← readShc shc
  if passiveSafe then
    let _ ← finalName.read
    interlockedOr shc knfcShcBackedUp

/-- From the query on. -/
def queryAndCapture (env : CleanupInput) (shc : Nat) (snap : Ulong) (finalName : FinalName) :
    Callback K (Option PoolBlock) := do
  let (snap, sizeHint) ← queryFile env shc snap
  if !flagOn snap (knfcShcModified ||| knfcShcDeleteOnClose) then return none
  else if flagOn snap knfcShcDeleteOnClose then
    passToQueue env.passiveSafe shc finalName
    return none
  else knFcAllocateCleanupCompletion shc snap sizeHint finalName

/-- From the final name to the label `Cleanup`: the completion, if there is to be one. -/
def captureCleanup (up : Wchar → Wchar) (env : CleanupInput) (shc : Nat) (snap : Ulong) :
    Option FinalName → Callback K (Option PoolBlock)
  | none => return none
  | some finalName => do
    let excluded ← if env.passiveSafe then
        (do return (knFcExcludeMatches up env.exclude (← finalName.read)).1)
      else pure false
    if excluded then return none
    else queryAndCapture env shc snap finalName

/-- The label `Cleanup`. -/
def releaseCleanup (k : K) (shc : Nat) (r : ResolvedName) (completion : Option PoolBlock) :
    Callback K (Outcome K) := do
  freeIfPresent r.currentCopy
  freeIfPresent r.nameInfo
  fltReleaseContext shc
  match completion with
  | some b => return .withCallback .cleanup k (.block b)
  | none => return .finished

def knFcPreCleanup (up : Wchar → Wchar) (env : CleanupInput) (k : K) :
    Callback K (Outcome K) := do
  match ← fltGetStreamHandleContext k with
  | none => return .finished
  | some shc =>
    let snap := (← readShc shc).flags
    if flagOn snap knfcShcBackedUp then
      fltReleaseContext shc
      return .finished
    else
      let idle ← if flagOn snap (knfcShcModified ||| knfcShcDeleteOnClose) then pure false
        else (do return !(← readShc shc).deleteDispositionObserved)
      if idle then
        fltReleaseContext shc
        return .finished
      else
        let r ← knFcResolveFinalName env.name shc
        let completion ← captureCleanup up env shc snap r.finalName
        releaseCleanup k shc r completion

def knFcPostCleanup (draining : Bool) : CompletionContext → Callback K (Outcome K)
  | .block completion => do
    if !draining then
      let _ ← readPool completion
    exFreePoolWithTag completion
    return .finished
  | _ => return .finished

end Cleanup

section Filter

/-- The operations as they reach the pre callbacks. -/
inductive Request (K : Type) where
  | create (mode : KprocessorMode) (k : K)
  | write (k : K)
  | setInformation (d : SetFileInformation) (k : K)
  | acquireForSection (protect : Ulong) (k : K)
  | cleanup (env : CleanupInput) (k : K)

/-- What a post callback, or the safe callback, finds. -/
inductive Completion where
  | create (env : CreateInput)
  | write (env : PostWriteEnv)
  | setInformation (env : SetInformationInput)
  | cleanup (draining : Bool)
  | safe (name : UnicodeString)

def preOperation (up : Wchar → Wchar) : Request K → Callback K (Outcome K)
  | .create mode k => knFcPreCreate mode k
  | .write k => knFcPreWrite k
  | .setInformation d k => knFcPreSetInformation d k
  | .acquireForSection protect k => knFcPreAcquireForSection protect k
  | .cleanup env k => knFcPreCleanup up env k

/-- One post callback for each pre callback that asked for it, and one safe callback for
each that was posted. -/
def postOperation : Outcome K → Completion → Option (Callback K (Outcome K))
  | .withCallback .create k _, .create env => some (knFcPostCreate env k)
  | .withCallback .write _ ctx, .write env => some (knFcPostWrite env ctx)
  | .withCallback .setInformation _ ctx, .setInformation env => some (knFcPostSetInformation env ctx)
  | .withCallback .cleanup _ ctx, .cleanup draining => some (knFcPostCleanup draining ctx)
  | .deferred shc, .safe name => some (knFcPostSetInformationSafe name shc)
  | _, _ => none

def filterCode (up : Wchar → Wchar) :
    Code K ShcName PoolKind ShcFields PoolContent (Outcome K) (Request K) Completion where
  start := preOperation up
  resume := postOperation
  cleanup := knFcShcCleanup

end Filter

end KnFileCatcher.Contexts

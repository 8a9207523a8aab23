import KnFileCatcher.CommMessage
import KnFileCatcher.Custody
import KnFileCatcher.LittleEndian
import KnFileCatcher.Snapshot

/-! The snapshot as it walks the buffer of the system query, with the blocks, references and
handles that it holds on the way. -/

namespace KnFileCatcher

def statusUnsuccessful : NtStatus := 0xC0000001
def statusInfoLengthMismatch : NtStatus := 0xC0000004
def statusBufferOverflow : NtStatus := 0x80000005
def statusNotFound : NtStatus := 0xC0000225

namespace SnapshotMemory

open Custody Program

structure PoolBlock where
  id : Nat
  size : Nat
deriving DecidableEq

structure Eprocess where
  id : Nat
  pid : Handle
deriving DecidableEq

structure ProcessHandle where
  id : Nat
  process : Eprocess
deriving DecidableEq

inductive KernelThing where
  | block (b : PoolBlock)
  | process (p : Eprocess)
  | handle (h : ProcessHandle)
deriving DecidableEq

/-- A path in a block of its own, or the string that `GetImagePathByPid` leaves empty. -/
structure ImagePath where
  buffer : Option PoolBlock
  path : UnicodeString

def ImagePath.null : ImagePath := ⟨none, .empty⟩

structure SystemAnswer where
  status : NtStatus
  retSize : Ulong
  content : List Byte

/-- `us->Buffer` is a place in the block that was asked to be filled. -/
structure ImageAnswer where
  status : NtStatus
  needed : Ulong
  name : UnicodeString
  buffer : Option Nat

inductive SnapshotOp where
  | querySystem (buffer : Option PoolBlock) (size : Ulong)
  | allocate (size : Nat)
  | free (b : PoolBlock)
  | touch (b : PoolBlock) (off len : Nat)
  | lookupProcess (pid : Handle)
  | openObject (p : Eprocess)
  | queryImage (h : ProcessHandle) (buffer : Option PoolBlock) (size : Ulong)
  | close (h : ProcessHandle)
  | dereference (p : Eprocess)
  | isTracked (pid : Handle)
  | startsWithAnyRoot (image : ImagePath)
  | classify (pid ppid : Handle) (image : Option ImagePath)

abbrev SnapshotOp.Answer : SnapshotOp → Type
  | .querySystem _ _ => SystemAnswer
  | .allocate _ => Option PoolBlock
  | .lookupProcess _ => Except NtStatus Eprocess
  | .openObject _ => Except NtStatus ProcessHandle
  | .queryImage _ _ _ => ImageAnswer
  | .isTracked _ | .startsWithAnyRoot _ => Bool
  | _ => Unit

abbrev KernelProgram := Program SnapshotOp SnapshotOp.Answer

section Calls

abbrev zwQuerySystemInformation (buffer : Option PoolBlock) (size : Ulong) :
    KernelProgram SystemAnswer :=
  perform (SnapshotOp.querySystem buffer size)
abbrev knFcAllocateNonPaged (size : Nat) : KernelProgram (Option PoolBlock) :=
  perform (SnapshotOp.allocate size)
abbrev exFreePoolWithTag (b : PoolBlock) : KernelProgram Unit := perform (SnapshotOp.free b)
abbrev access (b : PoolBlock) (off len : Nat) : KernelProgram Unit :=
  perform (SnapshotOp.touch b off len)
abbrev psLookupProcessByProcessId (pid : Handle) : KernelProgram (Except NtStatus Eprocess) :=
  perform (SnapshotOp.lookupProcess pid)
abbrev obOpenObjectByPointer (p : Eprocess) : KernelProgram (Except NtStatus ProcessHandle) :=
  perform (SnapshotOp.openObject p)
abbrev zwQueryInformationProcess (h : ProcessHandle) (buffer : Option PoolBlock) (size : Ulong) :
    KernelProgram ImageAnswer :=
  perform (SnapshotOp.queryImage h buffer size)
abbrev zwClose (h : ProcessHandle) : KernelProgram Unit := perform (SnapshotOp.close h)
abbrev obDereferenceObject (p : Eprocess) : KernelProgram Unit := perform (SnapshotOp.dereference p)
abbrev knFcTrackIsTracked (pid : Handle) : KernelProgram Bool := perform (SnapshotOp.isTracked pid)
abbrev knFcConfigPathStartsWithAnyRoot (image : ImagePath) : KernelProgram Bool :=
  perform (SnapshotOp.startsWithAnyRoot image)
abbrev knFcClassifyAndInsert (pid ppid : Handle) (image : Option ImagePath) : KernelProgram Unit :=
  perform (SnapshotOp.classify pid ppid image)

end Calls

section Image

def copyImagePath (h : ProcessHandle) (buffer : PoolBlock) (needed : Ulong) :
    KernelProgram (NtStatus × ImagePath) := do
  let answer ← zwQueryInformationProcess h (some buffer) needed
  if ntSuccess answer.status = false then pure (answer.status, .null)
  else
    access buffer 0 16
    match answer.buffer with
    | none => pure (statusNotFound, .null)
    | some off =>
      if answer.name.length = 0 then pure (statusNotFound, .null)
      else
        match ← knFcAllocateNonPaged answer.name.length with
        | none => pure (statusInsufficientResources, .null)
        | some copy =>
          access buffer off answer.name.length
          access copy 0 answer.name.length
          pure (statusSuccess, ⟨some copy, answer.name⟩)

def queryImagePath (h : ProcessHandle) : KernelProgram (NtStatus × ImagePath) := do
  let probe ← zwQueryInformationProcess h none 0
  if probe.status ≠ statusInfoLengthMismatch ∧ probe.status ≠ Comm.statusBufferTooSmall ∧
      probe.status ≠ statusBufferOverflow then
    pure (if ntSuccess probe.status then statusUnsuccessful else probe.status, .null)
  else if probe.needed = 0 ∨ 64 * 1024 < probe.needed.toNat then
    pure (Comm.statusBufferTooSmall, .null)
  else
    match ← knFcAllocateNonPaged probe.needed.toNat with
    | none => pure (statusInsufficientResources, .null)
    | some buffer =>
      let r ← copyImagePath h buffer probe.needed
      exFreePoolWithTag buffer
      pure r

def knFcUtilGetImagePathByPid (pid : Handle) : KernelProgram (NtStatus × ImagePath) := do
  if pid = 0 then pure (statusInvalidParameter, .null)
  else
    match ← psLookupProcessByProcessId pid with
    | .error status => pure (status, .null)
    | .ok process =>
      match ← obOpenObjectByPointer process with
      | .error status =>
        obDereferenceObject process
        pure (status, .null)
      | .ok h =>
        let r ← queryImagePath h
        zwClose h
        obDereferenceObject process
        pure r

def knFcUtilFreeImagePath (image : ImagePath) : KernelProgram Unit :=
  match image.buffer with
  | none => pure ()
  | some b => exFreePoolWithTag b

end Image

section Walk

def nextEntryOffset (content : List Byte) (off : Nat) : Ulong := LittleEndian.readWord 4 off content
def uniqueProcessId (content : List Byte) (off : Nat) : Handle :=
  LittleEndian.readWord 8 (off + 80) content
def inheritedFromUniqueProcessId (content : List Byte) (off : Nat) : Handle :=
  LittleEndian.readWord 8 (off + 88) content

def passRecord (childPass : Bool) (pid ppid : Handle) (changes : Nat) : KernelProgram Nat := do
  if pid = 0 then pure changes
  else
    let already ← knFcTrackIsTracked pid
    if already then pure changes
    else
      let parentTracked ← if childPass then knFcTrackIsTracked ppid else pure false
      let (s, imagePath) ← knFcUtilGetImagePathByPid pid
      if childPass then
        if parentTracked then
          knFcClassifyAndInsert pid ppid (if ntSuccess s then some imagePath else none)
          knFcUtilFreeImagePath imagePath
          pure (changes + 1)
        else
          knFcUtilFreeImagePath imagePath
          pure changes
      else
        let isRoot ← if ntSuccess s then knFcConfigPathStartsWithAnyRoot imagePath else pure false
        if isRoot then
          knFcClassifyAndInsert pid ppid (some imagePath)
          knFcUtilFreeImagePath imagePath
          pure (changes + 1)
        else
          knFcUtilFreeImagePath imagePath
          pure changes

/-- `knFcTrackSnapshotPass` from the record at an offset on, with its count of changes; no
count if the records do not end. -/
def passFrom (b : PoolBlock) (content : List Byte) (childPass : Bool) :
    Nat → Nat → Nat → KernelProgram (Option Nat)
  | 0, _, _ => pure none
  | fuel + 1, off, changes => do
    access b (off + 80) 8
    access b (off + 88) 8
    let changes ← passRecord childPass (uniqueProcessId content off)
      (inheritedFromUniqueProcessId content off) changes
    access b off 4
    if nextEntryOffset content off = 0 then pure (some changes)
    else passFrom b content childPass fuel (off + (nextEntryOffset content off).toNat) changes

def knFcTrackSnapshotPass (b : PoolBlock) (content : List Byte) (childPass : Bool) :
    KernelProgram (Option Nat) :=
  passFrom b content childPass b.size 0 0

def childPassLoop (b : PoolBlock) (content : List Byte) : Nat → KernelProgram (Option Unit)
  | 0 => pure (some ())
  | iter + 1 => do
    match ← knFcTrackSnapshotPass b content true with
    | none => pure none
    | some changes => if changes = 0 then pure (some ()) else childPassLoop b content iter

end Walk

section Query

def freeBuffer : Option PoolBlock → KernelProgram Unit
  | none => pure ()
  | some b => exFreePoolWithTag b

/-- The attempts to have the buffer filled, from one of them on. -/
def queryAttempts : Nat → Ulong → Option PoolBlock → NtStatus →
    KernelProgram (Except NtStatus (PoolBlock × List Byte))
  | 0, _, buffer, status => do
    freeBuffer buffer
    pure (.error status)
  | attempts + 1, retSize, buffer, _ => do
    let bufSize := retSize + 64 * 1024
    freeBuffer buffer
    match ← knFcAllocateNonPaged bufSize.toNat with
    | none => pure (.error statusInsufficientResources)
    | some b =>
      let answer ← zwQuerySystemInformation (some b) bufSize
      if ntSuccess answer.status then pure (.ok (b, answer.content))
      else if answer.status ≠ statusInfoLengthMismatch ∧ answer.status ≠ Comm.statusBufferTooSmall then
        exFreePoolWithTag b
        pure (.error answer.status)
      else queryAttempts attempts answer.retSize (some b) answer.status

/-- No status if the records of the buffer do not end. -/
def knFcTrackSnapshot : KernelProgram (Option NtStatus) := do
  let size ← zwQuerySystemInformation none 0
  if size.status ≠ statusInfoLengthMismatch ∧ size.status ≠ Comm.statusBufferTooSmall then
    pure (some size.status)
  else
    match ← queryAttempts 5 size.retSize none size.status with
    | .error status => pure (some status)
    | .ok (b, content) =>
      match ← knFcTrackSnapshotPass b content false with
      | none => pure none
      | some _ =>
        match ← childPassLoop b content knfcChildPasses with
        | none => pure none
        | some () =>
          exFreePoolWithTag b
          pure (some statusSuccess)

end Query

end SnapshotMemory

end KnFileCatcher

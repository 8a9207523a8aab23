import KnFileCatcher.FlagBits
import KnFileCatcher.Track

/-! The stream-handle context and the callbacks that write to it before cleanup. -/

namespace KnFileCatcher

open FlagBits

def knfcShcWriteIntent : Ulong := 0x00000001
def knfcShcModified : Ulong := 0x00000002
def knfcShcDeleteOnClose : Ulong := 0x00000004
def knfcShcRenamed : Ulong := 0x00000008
def knfcShcCreated : Ulong := 0x00000020
def knfcShcBackedUp : Ulong := 0x00000040

structure KnfcShc where
  ownerPid : Handle
  rootPid : Handle
  flags : Ulong
  deleteDispositionObserved : Bool
  deleteOnCloseAtCreate : Bool
  originalName : UnicodeString
  currentName : UnicodeString
deriving DecidableEq

section Create

def fileSupersede : Ulong := 0
def fileCreate : Ulong := 2
def fileOverwrite : Ulong := 4
def fileOverwriteIf : Ulong := 5
def fileDeleteOnClose : Ulong := 0x00001000

/-- `FILE_WRITE_DATA`, `FILE_APPEND_DATA`, `FILE_WRITE_ATTRIBUTES`, `FILE_WRITE_EA`,
`DELETE`, `GENERIC_WRITE`, `GENERIC_ALL` and `MAXIMUM_ALLOWED`. -/
def writeAccess : Ulong :=
  0x00000002 ||| 0x00000004 ||| 0x00000100 ||| 0x00000010 ||| 0x00010000 ||| 0x40000000 |||
    0x10000000 ||| 0x02000000

structure CreateData where
  desiredAccess : Option Ulong
  options : Ulong
  status : NtStatus

def CreateData.opts (d : CreateData) : Ulong := d.options &&& 0x00FFFFFF

def CreateData.dispo (d : CreateData) : Ulong := (d.options >>> 24) &&& 0xFF

def CreateData.creates (d : CreateData) : Bool :=
  d.dispo = fileCreate || d.dispo = fileSupersede || d.dispo = fileOverwrite ||
    d.dispo = fileOverwriteIf

def knFcDecideWriteIntent (d : CreateData) : Ulong :=
  let flags : Ulong := if flagOn (d.desiredAccess.getD 0) writeAccess then knfcShcWriteIntent else 0
  let flags := if d.creates then
    flags ||| (knfcShcWriteIntent ||| knfcShcModified ||| knfcShcCreated) else flags
  if flagOn d.opts fileDeleteOnClose then
    flags ||| (knfcShcDeleteOnClose ||| knfcShcWriteIntent ||| knfcShcModified)
  else flags

structure PostCreateEnv where
  draining : Bool
  caller : Handle
  table : KnfcTrackCtx
  contextAlloc : Bool
  name : Option UnicodeString
  nameAlloc : Bool
  setStatus : NtStatus

def knFcShcSetOriginalName (alloc : Bool) (shc : KnfcShc) (name : UnicodeString) : KnfcShc :=
  if name.length = 0 then shc
  else if !alloc then shc
  else { shc with originalName := name }

def captureOriginalName (env : PostCreateEnv) (shc : KnfcShc) : KnfcShc :=
  match env.name with
  | some name => knFcShcSetOriginalName env.nameAlloc shc name
  | none => shc

theorem captureOriginalName_frame (env : PostCreateEnv) (shc : KnfcShc) :
    captureOriginalName env shc =
      { shc with originalName := (captureOriginalName env shc).originalName } := by
  unfold captureOriginalName knFcShcSetOriginalName
  split
  · split
    · rfl
    · split <;> rfl
  · rfl

/-- The context that the create leaves on the handle, if it installs one. -/
def knFcPostCreate (env : PostCreateEnv) (d : CreateData) : Option KnfcShc :=
  if env.draining then none
  else if !ntSuccess d.status then none
  else if d.status = statusReparse then none
  else match knFcTrackIsTracked env.table env.caller with
    | none => none
    | some (rootPid, _) =>
      let writeFlags := knFcDecideWriteIntent d
      if !flagOn writeFlags knfcShcWriteIntent then none
      else if !env.contextAlloc then none
      else
        let shc := captureOriginalName env
          { ownerPid := env.caller
            rootPid
            flags := writeFlags
            deleteDispositionObserved := false
            deleteOnCloseAtCreate := flagOn d.options fileDeleteOnClose
            originalName := .empty
            currentName := .empty }
        if ntSuccess env.setStatus then some shc else none

end Create

section Write

structure PostWriteEnv where
  draining : Bool
  status : NtStatus
  information : Nat

def knFcPostWrite (env : PostWriteEnv) (shc : KnfcShc) : KnfcShc :=
  if !env.draining && ntSuccess env.status && decide (env.information ≠ 0) then
    { shc with flags := shc.flags ||| knfcShcModified }
  else shc

end Write

section SetInformation

inductive FileInformationClass where
  | endOfFile
  | allocation
  | validDataLength
  | disposition
  | dispositionEx
  | rename
  | renameEx
  | other
deriving DecidableEq

structure InfoBuffer where
  readable : Bool
  deleteFile : Byte
  dispositionFlags : Ulong

structure SetFileInformation where
  fileInformationClass : FileInformationClass
  length : Ulong
  infoBuffer : Option InfoBuffer

def sizeofDispositionInformation : Nat := 1
def sizeofDispositionInformationEx : Nat := 4
def fileDispositionDelete : Ulong := 0x00000001

def knfcSetinfoMarkModified : Ulong := 0x00000001
def knfcSetinfoSetDelete : Ulong := 0x00000002
def knfcSetinfoClearDelete : Ulong := 0x00000004
def knfcSetinfoCaptureRename : Ulong := 0x00000008

/-- The two disposition classes: a buffer that is there, long enough and readable. -/
def dispositionActions (size : Nat) (deletes : InfoBuffer → Bool) (d : SetFileInformation) :
    Ulong :=
  match d.infoBuffer with
  | none => 0
  | some buffer =>
    if d.length.toNat < size then 0
    else if !buffer.readable then 0
    else if deletes buffer then knfcSetinfoSetDelete
    else knfcSetinfoClearDelete

def knFcGetSetInformationActions (d : SetFileInformation) : Ulong :=
  match d.fileInformationClass with
  | .endOfFile | .allocation | .validDataLength => knfcSetinfoMarkModified
  | .disposition =>
    dispositionActions sizeofDispositionInformation (fun b => decide (b.deleteFile ≠ 0)) d
  | .dispositionEx =>
    dispositionActions sizeofDispositionInformationEx
      (fun b => flagOn b.dispositionFlags fileDispositionDelete) d
  | .rename | .renameEx => knfcSetinfoMarkModified ||| knfcSetinfoCaptureRename
  | .other => 0

/-- The actions handed to the post callback, if there is to be one. -/
def knFcPreSetInformation (alloc : Bool) (d : SetFileInformation) : Option Ulong :=
  let actions := knFcGetSetInformationActions d
  if actions = 0 then none
  else if !alloc then none
  else some actions

/-- What the post callback finds; `deferred` is the answer of
`FltDoCompletionProcessingWhenSafe`. -/
structure PostSetInformationEnv where
  draining : Bool
  status : NtStatus
  atMostApcLevel : Bool
  deferred : Bool
  name : Option UnicodeString
  nameAlloc : Bool

def knFcShcSetCurrentName (alloc : Bool) (shc : KnfcShc) (name : UnicodeString) : KnfcShc :=
  if name.length = 0 then { shc with currentName := .empty }
  else if !alloc then shc
  else { shc with currentName := name }

def knFcPostSetInformationSafe (env : PostSetInformationEnv) (shc : KnfcShc) : KnfcShc :=
  match env.name with
  | none => shc
  | some name => if name.length > 0 then knFcShcSetCurrentName env.nameAlloc shc name else shc

def applyDisposition (actions : Ulong) (shc : KnfcShc) : KnfcShc :=
  if flagOn actions knfcSetinfoSetDelete then
    { shc with
      deleteDispositionObserved := true
      flags := shc.flags ||| knfcShcDeleteOnClose }
  else if flagOn actions knfcSetinfoClearDelete && !shc.deleteOnCloseAtCreate then
    { shc with
      deleteDispositionObserved := true
      flags := shc.flags &&& ~~~knfcShcDeleteOnClose }
  else if flagOn actions knfcSetinfoClearDelete then { shc with deleteDispositionObserved := true }
  else shc

def knFcPostSetInformation (env : PostSetInformationEnv) (actions : Ulong) (shc : KnfcShc) :
    KnfcShc :=
  if env.draining then shc
  else if !ntSuccess env.status then shc
  else
    let shc := if flagOn actions knfcSetinfoMarkModified then
      { shc with flags := shc.flags ||| knfcShcModified } else shc
    let shc := applyDisposition actions shc
    if flagOn actions knfcSetinfoCaptureRename then
      let shc := { shc with flags := shc.flags ||| knfcShcRenamed }
      if env.atMostApcLevel || env.deferred then knFcPostSetInformationSafe env shc else shc
    else shc

end SetInformation

section Section

/-- `PAGE_READWRITE`, `PAGE_WRITECOPY`, `PAGE_EXECUTE_READWRITE` and
`PAGE_EXECUTE_WRITECOPY`. -/
def writableProtection : Ulong := 0x04 ||| 0x08 ||| 0x40 ||| 0x80

def knFcPreAcquireForSection (protect : Ulong) (shc : KnfcShc) : KnfcShc :=
  if flagOn protect writableProtection then { shc with flags := shc.flags ||| knfcShcModified }
  else shc

end Section

end KnFileCatcher

import KnFileCatcher.Config
import KnFileCatcher.Exclude
import KnFileCatcher.LittleEndian
import KnFileCatcher.SharedMemory

/-! The message callback of the communication port. The input buffer belongs to the
client, and every access of the driver to it is an access of the program. -/

namespace KnFileCatcher.Comm

open LittleEndian SharedMemory

def statusNotImplemented : NtStatus := 0xC0000002
def statusBufferTooSmall : NtStatus := 0xC0000023

def knFcMsgPing : Ulong := 1
def knFcMsgClearWatchRoots : Ulong := 5
def knFcMsgAddWatchRoot : Ulong := 6
def knFcMsgStart : Ulong := 7
def knFcMsgStop : Ulong := 8
def knFcMsgClearExcludes : Ulong := 9
def knFcMsgAddExclude : Ulong := 10
def knFcMsgGetStats : Ulong := 11
def knFcMsgGetProcessTree : Ulong := 12

def sizeofMsgHeader : Nat := 8
/-- Of `KNFC_ADD_WATCH_ROOT_REQ` and of `KNFC_ADD_EXCLUDE_REQ`. -/
def sizeofAddReq : Nat := 12
def sizeofPingReply : Nat := 24
def sizeofStatsReply : Nat := 80
def sizeofProcessTreeReply : Nat := 34832

/-- The two tables that a message may change. -/
structure FilterTables where
  config : KnfcConfig
  excludes : KnfcExcludeCtx

/-- What a call finds: `expected` is `FsRtlIsNtstatusExpected`, `trackStart` the
status of `knFcTrackStart`, and the rest are the outcomes of the pool allocations. -/
structure CommEnv where
  expected : NtStatus → Bool
  localAlloc : Bool
  tableAlloc : Bool
  replyAlloc : Bool
  trackStart : NtStatus

structure OutputBuffer where
  present : Bool
  length : Ulong
  fault : Option NtStatus

/-- An exception that the filter does not take goes on to the next handler. -/
inductive CommOutcome where
  | returned (status : NtStatus)
  | raised (code : NtStatus)
deriving DecidableEq

structure CommResult where
  outcome : CommOutcome
  tables : FilterTables
  returnOutputBufferLength : Nat

abbrev CommProgram := Program NtStatus Byte CommResult

/-- The block has at least the size that was asked for; no more of it is used. -/
def knFcAllocateNonPaged (alloc : Bool) (numberOfBytes : Nat) : Option Nat :=
  if alloc then some numberOfBytes else none

def knFcCommExceptionFilter (env : CommEnv) (code : NtStatus) : CommOutcome :=
  if env.expected code then .returned code else .raised code

def FilterTables.returned (g : FilterTables) (status : NtStatus) : CommResult :=
  ⟨.returned status, g, 0⟩

def FilterTables.caught (g : FilterTables) (env : CommEnv) (code : NtStatus) : CommResult :=
  ⟨knFcCommExceptionFilter env code, g, 0⟩

section Replies

/-- A reply of `size` bytes is copied to the output buffer. -/
def copyReply (env : CommEnv) (g : FilterTables) (out : OutputBuffer) (size : Nat) : CommResult :=
  match out.fault with
  | some code => g.caught env code
  | none => ⟨.returned statusSuccess, g, size⟩

def knFcHandlePing (env : CommEnv) (g : FilterTables) (out : OutputBuffer) : CommResult :=
  if out.present = false ∨ out.length.toNat < sizeofPingReply then
    g.returned statusBufferTooSmall
  else copyReply env g out sizeofPingReply

def knFcHandleGetStats (env : CommEnv) (g : FilterTables) (out : OutputBuffer) : CommResult :=
  if out.present = false ∨ out.length.toNat < sizeofStatsReply then
    g.returned statusBufferTooSmall
  else copyReply env g out sizeofStatsReply

def knFcHandleGetProcessTree (env : CommEnv) (g : FilterTables) (out : OutputBuffer) :
    CommResult :=
  if out.present = false ∨ out.length.toNat < sizeofProcessTreeReply then
    g.returned statusBufferTooSmall
  else if (knFcAllocateNonPaged env.replyAlloc sizeofProcessTreeReply).isNone then
    g.returned statusInsufficientResources
  else copyReply env g out sizeofProcessTreeReply

theorem copyReply_tables (env : CommEnv) (g : FilterTables) (out : OutputBuffer) (size : Nat) :
    (copyReply env g out size).tables = g := by
  unfold copyReply
  split <;> rfl

theorem ping_tables (env : CommEnv) (g : FilterTables) (out : OutputBuffer) :
    (knFcHandlePing env g out).tables = g := by
  unfold knFcHandlePing
  split
  · rfl
  · exact copyReply_tables env g out _

theorem getStats_tables (env : CommEnv) (g : FilterTables) (out : OutputBuffer) :
    (knFcHandleGetStats env g out).tables = g := by
  unfold knFcHandleGetStats
  split
  · rfl
  · exact copyReply_tables env g out _

theorem getProcessTree_tables (env : CommEnv) (g : FilterTables) (out : OutputBuffer) :
    (knFcHandleGetProcessTree env g out).tables = g := by
  unfold knFcHandleGetProcessTree
  split
  · rfl
  · split
    · rfl
    · exact copyReply_tables env g out _

end Replies

section Adds

/-- The string of `lengthBytes` bytes at a buffer; `Length` is cast to a USHORT. -/
def unicodeString (buffer : List Byte) (lengthBytes : Nat) : UnicodeString where
  buffer := readUnits (buffer.take (lengthBytes % 65536))
  fits := by
    have hle := length_readUnits_le (buffer.take (lengthBytes % 65536))
    have hlt := Nat.mod_lt lengthBytes (by decide : 0 < 65536)
    rw [List.length_take] at hle
    omega

/-- The two requests that carry a string: at most `most` units, stored by `add`. -/
def handleAdd (most : Nat) (add : UnicodeString → NtStatus × FilterTables) (env : CommEnv)
    (g : FilterTables) (present : Bool) (inLen : Nat) : CommProgram :=
  if present = false ∨ inLen < sizeofAddReq then .done (g.returned statusInvalidParameter)
  else
    (Program.probeAndCopy inLen sizeofAddReq sizeofAddReq).bind fun
    | .error code => .done (g.caught env code)
    | .ok hdr =>
      let lengthBytes := (readWord 4 8 hdr).toNat
      if lengthBytes = 0 ∨ lengthBytes % 2 ≠ 0 ∨ most * 2 < lengthBytes then
        .done (g.returned statusInvalidParameter)
      else if inLen < sizeofAddReq + lengthBytes then .done (g.returned statusInvalidParameter)
      else
        match knFcAllocateNonPaged env.localAlloc lengthBytes with
        | none => .done (g.returned statusInsufficientResources)
        | some room =>
          .fetch (.copy sizeofAddReq lengthBytes room) fun
          | .error code => .done (g.caught env code)
          | .ok localCopy =>
            let r := add (unicodeString localCopy lengthBytes)
            .done (r.2.returned r.1)

def addRoot (env : CommEnv) (g : FilterTables) (path : UnicodeString) : NtStatus × FilterTables :=
  let r := knFcConfigAddRoot env.tableAlloc g.config path
  (r.1, { g with config := r.2 })

def addPattern (env : CommEnv) (g : FilterTables) (pat : UnicodeString) :
    NtStatus × FilterTables :=
  let r := knFcExcludeAdd env.tableAlloc g.excludes pat
  (r.1, { g with excludes := r.2 })

def knFcHandleAddRoot (env : CommEnv) (g : FilterTables) : Bool → Nat → CommProgram :=
  handleAdd knfcMaxWatchPathChars (addRoot env g) env g

def knFcHandleAddExclude (env : CommEnv) (g : FilterTables) : Bool → Nat → CommProgram :=
  handleAdd knfcMaxExcludeChars (addPattern env g) env g

end Adds

/-- The switch on the type; `size` is the captured `hdr.Size`. -/
def handleType (env : CommEnv) (g : FilterTables) (present : Bool) (size : Nat)
    (out : OutputBuffer) (type : Ulong) : CommProgram :=
  if type = knFcMsgPing then .done (knFcHandlePing env g out)
  else if type = knFcMsgAddWatchRoot then knFcHandleAddRoot env g present size
  else if type = knFcMsgClearWatchRoots then
    .done ({ g with config := knFcConfigClearRoots g.config }.returned statusSuccess)
  else if type = knFcMsgStart then .done (g.returned env.trackStart)
  else if type = knFcMsgStop then .done (g.returned statusSuccess)
  else if type = knFcMsgAddExclude then knFcHandleAddExclude env g present size
  else if type = knFcMsgClearExcludes then
    .done ({ g with excludes := knFcExcludeClear g.excludes }.returned statusSuccess)
  else if type = knFcMsgGetStats then .done (knFcHandleGetStats env g out)
  else if type = knFcMsgGetProcessTree then .done (knFcHandleGetProcessTree env g out)
  else .done (g.returned statusNotImplemented)

def knFcCommMessage (env : CommEnv) (g : FilterTables) (present : Bool)
    (inputBufferLength : Ulong) (out : OutputBuffer) : CommProgram :=
  if present = false ∨ inputBufferLength.toNat < sizeofMsgHeader then
    .done (g.returned statusInvalidParameter)
  else
    (Program.probeAndCopy sizeofMsgHeader sizeofMsgHeader sizeofMsgHeader).bind fun
    | .error code => .done (g.caught env code)
    | .ok hdr =>
      let size := (readWord 4 4 hdr).toNat
      if size < sizeofMsgHeader ∨ inputBufferLength.toNat < size then
        .done (g.returned statusInvalidParameter)
      else handleType env g present size out (readWord 4 0 hdr)

end KnFileCatcher.Comm

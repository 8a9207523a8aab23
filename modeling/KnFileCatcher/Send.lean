import KnFileCatcher.Exclude

/-! The two send paths of the backup queue. A run is the list of its effects on
the port, the counters and the queue, for given outcomes of the calls it makes. -/

namespace KnFileCatcher

def knFcMsgBackupRequest : Ulong := 100
def sizeofBackupRequest : Nat := 48
def sizeofBackupReply : Nat := 24

def knfcReplyTimeout : Int := -(10 * 10000000)

def knfcSyncBase : Int := 10 * 10000000
def knfcSyncPer50Mb : Int := 1 * 10000000
def knfcSyncMaxExtraSec : Nat := 50

/-- What a handle asks of the queue: the arguments of `knFcQueueEnqueue` and
of `knFcQueueSendSyncFromCleanup`. -/
structure CleanupRequest where
  ownerPid : Handle
  rootPid : Handle
  flags : Ulong
  fileSizeHint : Ulonglong
  path : UnicodeString
deriving DecidableEq

structure KnfcQueueItem where
  requestId : Nat
  request : CleanupRequest
deriving DecidableEq

structure KnfcBackupRequest where
  type : Ulong
  size : Ulong
  requestId : Ulonglong
  ownerPid : Ulonglong
  rootPid : Ulonglong
  fileSizeHint : Ulonglong
  flags : Ulong
  pathLengthBytes : Ulong
  path : List Wchar
deriving DecidableEq

def messageLength (r : CleanupRequest) : Nat := (sizeofBackupRequest + r.path.length) % 2 ^ 32

def backupMessage (requestId : Nat) (r : CleanupRequest) : KnfcBackupRequest where
  type := knFcMsgBackupRequest
  size := BitVec.ofNat 32 (messageLength r)
  requestId := BitVec.ofNat 64 requestId
  ownerPid := r.ownerPid
  rootPid := r.rootPid
  fileSizeHint := r.fileSizeHint
  flags := r.flags
  pathLengthBytes := BitVec.ofNat 32 r.path.length
  path := r.path.buffer

/-- What `FltSendMessage` did: its status, and the reply bytes if the client replied. -/
structure SendOutcome where
  status : NtStatus
  reply : Option (List Byte)

inductive SendEffect where
  | excluded
  | message (msg : KnfcBackupRequest) (timeout : Int)
  | sent
  | sendFailed
  | syncSent
  | syncFailed
  | enqueue (r : CleanupRequest)
deriving DecidableEq

structure SendEnv where
  exclude : KnfcExcludeCtx
  alloc : Bool
  connected : Bool
  outcome : SendOutcome

structure SyncEnv extends SendEnv where
  acquired : Bool
  stop : Bool
  requestId : Nat

def writeReply (reply : Option (List Byte)) (buf : List Byte) : List Byte :=
  match reply with
  | none => buf
  | some bytes => bytes.take buf.length ++ buf.drop bytes.length

def leNat (bytes : List Byte) : Nat := bytes.foldr (fun b n => b.toNat + 256 * n) 0

/-- `KNFC_BACKUP_REPLY::Status`, the four bytes at offset 16. -/
def replyStatus (buf : List Byte) : Nat := leNat ((buf.drop 16).take 4)

def knFcCommSendMessage (env : SendEnv) (msg : KnfcBackupRequest) (timeout : Int)
    (reply : List Byte) : List SendEffect × NtStatus × List Byte :=
  if !env.connected then ([], statusPortDisconnected, reply)
  else ([.message msg timeout], env.outcome.status, writeReply env.outcome.reply reply)

def zeroedReply : List Byte := List.replicate sizeofBackupReply 0

def knFcQueueSendOne (up : Wchar → Wchar) (env : SendEnv) (item : KnfcQueueItem) :
    List SendEffect :=
  if (knFcExcludeMatches up env.exclude item.request.path).1 then [.excluded]
  else if messageLength item.request < sizeofBackupRequest then [.sendFailed]
  else if !env.alloc then [.sendFailed]
  else
    let (effects, status, reply) := knFcCommSendMessage env
      (backupMessage item.requestId item.request) knfcReplyTimeout zeroedReply
    effects ++
      if ntSuccess status then (if replyStatus reply = 0 then [.sent] else [.sendFailed])
      else [.sendFailed]

def syncExtraSec (fileSizeHint : Ulonglong) : Nat :=
  min (fileSizeHint.toNat / (50 * 1024 * 1024)) knfcSyncMaxExtraSec

def syncTimeout (fileSizeHint : Ulonglong) : Int :=
  -(knfcSyncBase + syncExtraSec fileSizeHint * knfcSyncPer50Mb)

def syncExchange (env : SendEnv) (requestId : Nat) (r : CleanupRequest) :
    List SendEffect × NtStatus :=
  let (effects, status, reply) := knFcCommSendMessage env (backupMessage requestId r)
    (syncTimeout r.fileSizeHint) zeroedReply
  if ntSuccess status && decide (replyStatus reply = 0) then (effects ++ [.syncSent], status)
  else (effects ++ [.syncFailed, .enqueue r], status)

def knFcQueueSendSyncFromCleanup (env : SyncEnv) (r : CleanupRequest) :
    List SendEffect × NtStatus :=
  if r.path.length = 0 then ([], statusInvalidParameter)
  else if !env.acquired then ([], statusDeviceNotReady)
  else if env.stop then ([], statusDeviceNotReady)
  else if !env.alloc then ([.syncFailed], statusInsufficientResources)
  else syncExchange env.toSendEnv env.requestId r

end KnFileCatcher

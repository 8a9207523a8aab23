import KnFileCatcher.WorkerAnswers

/-! Backup requests on the way from the driver to the manifest, and the answers on the
way back: one send at a time under the client lock, the messages of the filter manager,
and the reader. -/

namespace KnFileCatcher

open LittleEndian

structure KnfcBackupReply where
  type : Ulong
  size : Ulong
  requestId : Ulonglong
  status : Ulong
  reserved : Ulong

def KnfcBackupReply.bytes (r : KnfcBackupReply) : List Byte :=
  @word 4 r.type ++ (@word 4 r.size ++ (@word 8 r.requestId ++ (@word 4 r.status ++
    @word 4 r.reserved)))

def backupReply (requestId : Ulonglong) (status : Ulong) : KnfcBackupReply where
  type := knFcMsgBackupRequest
  size := BitVec.ofNat 32 sizeofBackupReply
  requestId := requestId
  status := status
  reserved := 0

/-- The filter header of a reply, which the reader writes field by field, and its body. -/
def replyBuf (messageId requestId : Ulonglong) (status : Ulong) : List Byte :=
  @word 4 (0 : Ulong) ++ (@word 4 (0 : Ulong) ++ (@word 8 messageId ++
    (backupReply requestId status).bytes))

/-- What a thread of the driver has to send, by a worker of the queue or from a cleanup. -/
inductive SendJob where
  | queued (item : KnfcQueueItem)
  | sync (r : CleanupRequest)

def SendJob.requestId (env : SyncEnv) : SendJob → Nat
  | .queued item => item.requestId
  | .sync _ => env.requestId

def SendJob.request : SendJob → CleanupRequest
  | .queued item => item.request
  | .sync r => r

def SendJob.effects (up : Wchar → Wchar) (env : SyncEnv) : SendJob → List SendEffect
  | .queued item => knFcQueueSendOne up env.toSendEnv item
  | .sync r => (knFcQueueSendSyncFromCleanup env r).1

def SendEffect.isMessage : SendEffect → Bool
  | .message _ _ => true
  | _ => false

def SendEffect.isSent : SendEffect → Bool
  | .sent | .syncSent => true
  | _ => false

structure PostedMessage where
  messageId : Ulonglong
  requestId : Nat
  request : CleanupRequest
deriving DecidableEq

def PostedMessage.bytes (m : PostedMessage) : List Byte :=
  (backupMessage m.requestId m.request).bytes

/-- The send that holds the client lock, with the reply once it has come. -/
structure PendingSend where
  job : SendJob
  env : SyncEnv
  message : PostedMessage
  reply : Option (List Byte)

/-- Lists have their newest element first, but for the effects. `accepted` are the messages
that the reader took for new ones. -/
structure BackupChannel where
  pending : Option PendingSend
  posted : List PostedMessage
  otherIds : List Ulonglong
  returned : List (PostedMessage × SendOutcome)
  effects : List SendEffect
  worker : BackupWorker
  accepted : List PostedMessage

/-- The filter manager gives every message a new identifier, and may deliver it any
number of times, also when its send is over. -/
inductive ChannelAction where
  | send (job : SendJob) (env : SyncEnv) (messageId : Ulonglong)
  | finish (status : NtStatus) (taken : Bool)
  | deliver (m : PostedMessage) (replyLength padding : Ulong) (stale : WorkerBuffer)
      (env : DeliveryEnv)
  | processEvent (messageId : Ulonglong) (throws : Bool)
  | other (messageId : Ulonglong)
  | setDiskFull (value : Bool)

namespace BackupChannel

def init : BackupChannel := ⟨none, [], [], [], [], .init, []⟩

def postedIds (s : BackupChannel) : List Ulonglong := s.posted.map PostedMessage.messageId

/-- `FilterReplyMessage`: only a send that waits for its first reply gets one. -/
def reply (pending : Option PendingSend) (buf : List Byte) : Option PendingSend :=
  pending.map fun p =>
    if p.message.messageId = readWord 8 8 buf ∧ p.reply = none then
      { p with reply := some (buf.drop sizeofFilterMessageHeader) }
    else p

def repliesSince (w w' : BackupWorker) : List (List Byte) :=
  (w'.acts.take (w'.acts.length - w.acts.length)).filterMap fun
    | .replied messageId requestId status => some (replyBuf messageId requestId status)
    | _ => none

def isNew (w : BackupWorker) (messageId : Ulonglong) : Bool :=
  match rememberMsgId w.memory messageId with
  | some (fresh, _) => fresh
  | none => false

variable (n : FileNames) (sessionDir : List Wchar)

def take (s : BackupChannel) (m : PostedMessage) (d : BackupDelivery) (env : DeliveryEnv) :
    BackupChannel :=
  let w := s.worker.backupRequest n sessionDir d env
  { s with
    worker := w
    pending := (repliesSince s.worker w).foldl reply s.pending
    accepted := if isNew s.worker d.messageId then m :: s.accepted else s.accepted }

end BackupChannel

/-- `none` is an action that the lock, the filter manager or the reader does not allow. -/
def channelStep (up : Wchar → Wchar) (n : FileNames) (sessionDir : List Wchar)
    (s : BackupChannel) : ChannelAction → Option BackupChannel
  | .send job env messageId =>
    if s.pending.isSome then none
    else if (job.effects up env).any SendEffect.isMessage then
      if messageId = 0 ∨ s.postedIds.contains messageId ∨ s.otherIds.contains messageId then none
      else
        let m : PostedMessage := ⟨messageId, job.requestId env, job.request⟩
        some { s with pending := some ⟨job, env, m, none⟩, posted := m :: s.posted }
    else some { s with effects := s.effects ++ job.effects up env }
  | .finish status taken =>
    match s.pending with
    | none => none
    | some p =>
      let outcome : SendOutcome := ⟨status, if taken then p.reply else none⟩
      some { s with
        pending := none
        returned := (p.message, outcome) :: s.returned
        effects := s.effects ++ p.job.effects up { p.env with outcome := outcome } }
  | .deliver m replyLength padding stale env =>
    if m ∈ s.posted then
      match filterGetMessage stale ⟨replyLength, padding, m.messageId⟩ m.bytes with
      | none => some s
      | some received => (readBackupDelivery received).map fun d => s.take n sessionDir m d env
    else none
  | .processEvent messageId throws =>
    if s.postedIds.contains messageId then none
    else some { s with
      worker := s.worker.processEvent messageId throws
      otherIds := messageId :: s.otherIds }
  | .other messageId =>
    if s.postedIds.contains messageId then none
    else some { s with
      worker := { s.worker with unknownRx := s.worker.unknownRx + 1 }
      otherIds := messageId :: s.otherIds }
  | .setDiskFull value => some { s with worker := { s.worker with diskFull := value } }

end KnFileCatcher

import KnFileCatcher.BackupWire
import KnFileCatcher.Destinations

/-! The reader of the client: one message after the other, each remembered by its
identifier, copied, recorded and answered. -/

namespace KnFileCatcher

def seenMsgCap : Nat := 4096
def errorDiskFull : Win32Error := 112

/-- `_seenMsgIds`, and the order in which its members came. -/
structure MessageMemory where
  ids : Finset Ulonglong
  order : List Ulonglong
deriving DecidableEq

/-- Whether the message is new; `none` is the exception of `Dequeue` on an empty
queue. -/
def rememberMsgId (m : MessageMemory) (msgId : Ulonglong) : Option (Bool × MessageMemory) :=
  if msgId = 0 then some (true, m)
  else if msgId ∈ m.ids then some (false, m)
  else if seenMsgCap ≤ m.ids.card then
    match m.order with
    | [] => none
    | evict :: order => some (true, ⟨insert msgId (m.ids.erase evict), order ++ [msgId]⟩)
  else some (true, ⟨insert msgId m.ids, m.order ++ [msgId]⟩)

/-- A row of the history, but for its time stamp. -/
structure BackupEvent where
  id : Ulonglong
  pid : Ulonglong
  rootPid : Ulonglong
  flags : Ulong
  sizeHint : Ulonglong
  srcNt : List Wchar
  dest : List Wchar
  status : Win32Error
deriving DecidableEq

inductive WorkerAct where
  | copied (messageId : Ulonglong) (status : Win32Error)
  | wroteEntry (evt : BackupEvent)
  | onBackup (evt : BackupEvent)
  | replied (messageId requestId : Ulonglong) (status : Ulong)
  | onProcessEvent (messageId : Ulonglong)
  | acknowledged (messageId : Ulonglong)
  | caught (messageId : Ulonglong)
deriving DecidableEq

/-- What one delivery of a backup request meets. A copy that throws has come as far
as `copy` says. -/
structure DeliveryEnv where
  copy : CopyEnv
  copyThrows : Bool
  manifestThrows : Bool
  onBackupThrows : Bool
deriving DecidableEq

/-- The messages that `FilterGetMessage` returns, and the disk monitor beside them.
The loop ends with a run; a call that fails otherwise leaves nothing behind. -/
inductive WorkerAction where
  | backup (d : BackupDelivery) (env : DeliveryEnv)
  | processEvent (messageId : Ulonglong) (throws : Bool)
  | other (messageId : Ulonglong)
  | setDiskFull (value : Bool)

/-- The worker, with the acts of its loop so far, newest first. -/
structure BackupWorker where
  memory : MessageMemory
  diskFull : Bool
  files : SessionFiles
  backed : Nat
  failed : Nat
  refused : Nat
  procEventsRx : Nat
  unknownRx : Nat
  dupRx : Nat
  acts : List WorkerAct

namespace BackupWorker

def init : BackupWorker where
  memory := ⟨∅, []⟩
  diskFull := false
  files _ := none
  backed := 0
  failed := 0
  refused := 0
  procEventsRx := 0
  unknownRx := 0
  dupRx := 0
  acts := []

def act (w : BackupWorker) (a : WorkerAct) : BackupWorker := { w with acts := a :: w.acts }

def catchException (w : BackupWorker) (messageId : Ulonglong) : BackupWorker :=
  { w with failed := w.failed + 1, acts := .caught messageId :: w.acts }

def event (d : BackupDelivery) (dest : List Wchar) (status : Win32Error) : BackupEvent where
  id := d.req.requestId
  pid := d.req.ownerPid
  rootPid := d.req.rootPid
  flags := d.req.flags
  sizeHint := d.req.fileSizeHint
  srcNt := d.srcNt
  dest := dest
  status := status

/-- From the manifest entry to the reply. The manifest is open; without one `WriteEntry` returns
at once and there is no entry. -/
def finish (w : BackupWorker) (d : BackupDelivery) (env : DeliveryEnv) (dest : List Wchar)
    (status : Win32Error) : BackupWorker :=
  let evt := event d dest status
  if env.manifestThrows then w.catchException d.messageId
  else
    let w := w.act (.wroteEntry evt)
    if env.onBackupThrows then w.catchException d.messageId
    else (w.act (.onBackup evt)).act (.replied d.messageId d.req.requestId status)

variable (n : FileNames) (sessionDir : List Wchar)

def copy (w : BackupWorker) (d : BackupDelivery) (env : DeliveryEnv) : BackupWorker :=
  let r := w.files.doBackup n sessionDir ⟨d.srcNt, d.req.requestId, env.copy⟩
  let w := { w with files := r.2.2 }
  if env.copyThrows then w.catchException d.messageId
  else
    let w :=
      if r.1 = 0 then { w with backed := w.backed + 1 } else { w with failed := w.failed + 1 }
    (w.act (.copied d.messageId r.1)).finish d env r.2.1 r.1

def backupRequest (w : BackupWorker) (d : BackupDelivery) (env : DeliveryEnv) : BackupWorker :=
  match rememberMsgId w.memory d.messageId with
  | none => w.catchException d.messageId
  | some (false, _) =>
    { w with dupRx := w.dupRx + 1 }.act (.replied d.messageId d.req.requestId 0)
  | some (true, memory) =>
    let w := { w with memory := memory }
    if w.diskFull then
      { w with refused := w.refused + 1 }.finish d env [] errorDiskFull
    else w.copy n sessionDir d env

def processEvent (w : BackupWorker) (messageId : Ulonglong) (throws : Bool) : BackupWorker :=
  let w := { w with procEventsRx := w.procEventsRx + 1 }
  if throws then w.catchException messageId
  else (w.act (.onProcessEvent messageId)).act (.acknowledged messageId)

end BackupWorker

def workerLoop (n : FileNames) (sessionDir : List Wchar) (w : BackupWorker) :
    WorkerAction → Option BackupWorker
  | .backup d env => some (w.backupRequest n sessionDir d env)
  | .processEvent messageId throws => some (w.processEvent messageId throws)
  | .other _ => some { w with unknownRx := w.unknownRx + 1 }
  | .setDiskFull value => some { w with diskFull := value }

end KnFileCatcher

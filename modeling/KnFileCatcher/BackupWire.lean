import KnFileCatcher.LittleEndian
import KnFileCatcher.QueueFlow

/-! A backup request on its way to the reader: packed by the driver, framed and
delivered by the filter manager, taken apart by `WorkerLoop`. -/

namespace KnFileCatcher

open LittleEndian

def workerBufSize : Nat := 64 * 1024
def sizeofFilterMessageHeader : Nat := 16

/-- The packed structure and the path behind it. -/
def KnfcBackupRequest.bytes (m : KnfcBackupRequest) : List Byte :=
  @word 4 m.type ++ (@word 4 m.size ++ (@word 8 m.requestId ++ (@word 8 m.ownerPid ++
    (@word 8 m.rootPid ++ (@word 8 m.fileSizeHint ++ (@word 4 m.flags ++
      (@word 4 m.pathLengthBytes ++ units m.path)))))))

/-- The header has its natural alignment, so four bytes of padding. -/
structure FilterMessageHeader where
  replyLength : Ulong
  padding : Ulong
  messageId : Ulonglong

def FilterMessageHeader.bytes (h : FilterMessageHeader) : List Byte :=
  @word 4 h.replyLength ++ (@word 4 h.padding ++ @word 8 h.messageId)

/-- The buffer of the reader, with whatever an earlier message left in it. -/
structure WorkerBuffer where
  bytes : List Byte
  size : bytes.length = workerBufSize

/-- `FilterGetMessage`, which delivers only a message that fits. -/
def filterGetMessage (buf : WorkerBuffer) (h : FilterMessageHeader) (message : List Byte) :
    Option (List Byte) :=
  let delivered := h.bytes ++ message
  if delivered.length ≤ workerBufSize then some (delivered ++ buf.bytes.drop delivered.length)
  else none

structure BackupRequest where
  type : Ulong
  size : Ulong
  requestId : Ulonglong
  ownerPid : Ulonglong
  rootPid : Ulonglong
  fileSizeHint : Ulonglong
  flags : Ulong
  pathLengthBytes : Ulong
deriving DecidableEq

structure BackupDelivery where
  messageId : Ulonglong
  req : BackupRequest
  srcNt : List Wchar
deriving DecidableEq

def bodyHead : Nat := sizeofFilterMessageHeader

def readBackupRequest (buf : List Byte) : BackupRequest where
  type := readWord 4 bodyHead buf
  size := readWord 4 (bodyHead + 4) buf
  requestId := readWord 8 (bodyHead + 8) buf
  ownerPid := readWord 8 (bodyHead + 16) buf
  rootPid := readWord 8 (bodyHead + 24) buf
  fileSizeHint := readWord 8 (bodyHead + 32) buf
  flags := readWord 4 (bodyHead + 40) buf
  pathLengthBytes := readWord 4 (bodyHead + 44) buf

/-- What `WorkerLoop` reads from its buffer, if the message is a `BackupRequest`. -/
def readBackupDelivery (buf : List Byte) : Option BackupDelivery :=
  if readWord 4 bodyHead buf = knFcMsgBackupRequest then
    let req := readBackupRequest buf
    let cch := req.pathLengthBytes.toNat / 2
    some ⟨readWord 8 8 buf, req,
      readUnits ((buf.drop (bodyHead + sizeofBackupRequest)).take (2 * cch))⟩
  else none

section Read

theorem length_bytes (m : KnfcBackupRequest) :
    m.bytes.length = sizeofBackupRequest + 2 * m.path.length := by
  simp [KnfcBackupRequest.bytes, sizeofBackupRequest]
  omega

theorem length_headerBytes (h : FilterMessageHeader) :
    h.bytes.length = sizeofFilterMessageHeader := by
  simp [FilterMessageHeader.bytes, sizeofFilterMessageHeader]

theorem pathLengthBytes_toNat (requestId : Nat) (r : CleanupRequest) :
    (backupMessage requestId r).pathLengthBytes.toNat = r.path.length := by
  have hlt := r.path.length_lt
  simp only [backupMessage, BitVec.toNat_ofNat]
  omega

theorem readWord_body {w : Nat} (h : FilterMessageHeader) (off : Nat) (bytes : List Byte) :
    readWord w (bodyHead + off) (h.bytes ++ bytes) = readWord w off bytes := by
  have hlen : h.bytes.length = bodyHead := length_headerBytes h
  rw [readWord_skip (by omega), hlen, Nat.add_sub_cancel_left]

theorem readBackupRequest_bytes (h : FilterMessageHeader) (m : KnfcBackupRequest)
    (stale : List Byte) :
    readBackupRequest (h.bytes ++ (m.bytes ++ stale)) = ⟨m.type, m.size, m.requestId, m.ownerPid,
      m.rootPid, m.fileSizeHint, m.flags, m.pathLengthBytes⟩ := by
  have htype : readWord 4 bodyHead (h.bytes ++ (m.bytes ++ stale)) = m.type :=
    (readWord_body h 0 _).trans (by simp [KnfcBackupRequest.bytes])
  simp only [readBackupRequest, htype, readWord_body]
  simp [KnfcBackupRequest.bytes, readWord_skip]

theorem readMessageId_bytes (h : FilterMessageHeader) (bytes : List Byte) :
    readWord 8 8 (h.bytes ++ bytes) = h.messageId := by
  simp [FilterMessageHeader.bytes, readWord_skip]

theorem path_bytes (h : FilterMessageHeader) (m : KnfcBackupRequest) (stale : List Byte) :
    ((h.bytes ++ (m.bytes ++ stale)).drop (bodyHead + sizeofBackupRequest)).take
      (2 * m.path.length) = units m.path := by
  have hhead : h.bytes.length = bodyHead := length_headerBytes h
  have hbody : (m.bytes ++ stale).drop sizeofBackupRequest = units m.path ++ stale := by
    simp [KnfcBackupRequest.bytes, drop_word, sizeofBackupRequest]
  rw [← hhead, List.drop_append, List.drop_eq_nil_of_le (by omega), List.nil_append,
    Nat.add_sub_cancel_left, hbody, List.take_left' (length_units _)]

/-- A message that was delivered whole is read as it was written. -/
theorem readBackupDelivery_bytes (h : FilterMessageHeader) (requestId : Nat)
    (r : CleanupRequest) (stale : List Byte) :
    readBackupDelivery (h.bytes ++ ((backupMessage requestId r).bytes ++ stale)) =
      some ⟨h.messageId, ⟨knFcMsgBackupRequest, (backupMessage requestId r).size,
        BitVec.ofNat 64 requestId, r.ownerPid, r.rootPid, r.fileSizeHint, r.flags,
        (backupMessage requestId r).pathLengthBytes⟩, r.path.buffer⟩ := by
  have hreq := readBackupRequest_bytes h (backupMessage requestId r) stale
  have htype := congrArg BackupRequest.type hreq
  have hcch : 2 * ((backupMessage requestId r).pathLengthBytes.toNat / 2) =
      2 * (backupMessage requestId r).path.length := by
    rw [pathLengthBytes_toNat]
    simp only [UnicodeString.length, backupMessage]
    omega
  simp only [readBackupRequest] at htype
  simp only [readBackupDelivery, htype, hreq, hcch, path_bytes, readUnits_units,
    readMessageId_bytes]
  simp [backupMessage]

end Read

section Fits

/-- `m` reaches the reader, which takes from it what `r` and the numbers say. -/
def ReadBack (buf : WorkerBuffer) (h : FilterMessageHeader) (m : KnfcBackupRequest)
    (requestId : Nat) (r : CleanupRequest) : Prop :=
  ∃ received d, filterGetMessage buf h m.bytes = some received ∧
    readBackupDelivery received = some d ∧ d.messageId = h.messageId ∧
    d.req.requestId = BitVec.ofNat 64 requestId ∧ d.req.ownerPid = r.ownerPid ∧
    d.req.rootPid = r.rootPid ∧ d.req.fileSizeHint = r.fileSizeHint ∧ d.req.flags = r.flags ∧
    d.srcNt = r.path.buffer

/-- What the buffer leaves for the path. -/
def maxDeliveredPath : Nat := workerBufSize - sizeofFilterMessageHeader - sizeofBackupRequest

theorem filterGetMessage_eq_some {buf : WorkerBuffer} {h : FilterMessageHeader}
    {message received : List Byte} (hg : filterGetMessage buf h message = some received) :
    h.bytes.length + message.length ≤ workerBufSize := by
  simp only [filterGetMessage] at hg
  split at hg
  · next hle => rwa [List.length_append] at hle
  · cases hg

theorem readBack_iff (buf : WorkerBuffer) (h : FilterMessageHeader) (requestId : Nat)
    (r : CleanupRequest) :
    ReadBack buf h (backupMessage requestId r) requestId r ↔ r.path.length ≤ maxDeliveredPath := by
  have hlen := length_bytes (backupMessage requestId r)
  have hhead := length_headerBytes h
  have hpath : r.path.length = 2 * (backupMessage requestId r).path.length := rfl
  have hroom : h.bytes.length + (backupMessage requestId r).bytes.length ≤ workerBufSize ↔
      r.path.length ≤ maxDeliveredPath := by
    simp only [maxDeliveredPath, workerBufSize, sizeofFilterMessageHeader, sizeofBackupRequest]
      at hlen hhead ⊢
    omega
  constructor
  · rintro ⟨received, d, hg, -⟩
    exact hroom.mp (filterGetMessage_eq_some hg)
  · intro hle
    have hfits := hroom.mpr hle
    have hread := readBackupDelivery_bytes h requestId r
    refine ⟨_, _, ?_, hread (buf.bytes.drop (h.bytes ++ (backupMessage requestId r).bytes).length),
      rfl, rfl, rfl, rfl, rfl, rfl, rfl⟩
    simp only [filterGetMessage, List.length_append, hfits, if_true, List.append_assoc]

theorem message_of_sendOne {up : Wchar → Wchar} {env : SendEnv} {item : KnfcQueueItem}
    {m : KnfcBackupRequest} {t : Int} (h : SendEffect.message m t ∈ knFcQueueSendOne up env item) :
    m = backupMessage item.requestId item.request := by
  obtain ⟨msgs, last, heq, hlast, hmsgs⟩ := sendOne_shape up env item
  rw [heq] at h
  rcases List.mem_append.mp h with h | h
  · rcases hmsgs with rfl | rfl
    · cases h
    · exact (SendEffect.message.inj (List.mem_singleton.mp h)).1
  · rw [← List.mem_singleton.mp h] at hlast
    cases hlast

theorem message_of_sync {env : SyncEnv} {r : CleanupRequest} {m : KnfcBackupRequest} {t : Int}
    (h : SendEffect.message m t ∈ (knFcQueueSendSyncFromCleanup env r).1) :
    m = backupMessage env.requestId r := by
  by_cases had : env.Admitted r
  · cases ha : env.alloc with
    | false => simp [sync_noMemory had ha] at h
    | true =>
      rw [sync_exchange had ha] at h
      obtain ⟨msgs, rest, heq, hrest, hmsgs⟩ := syncExchange_shape env.toSendEnv env.requestId r
      rw [heq] at h
      rcases List.mem_append.mp h with h | h
      · rcases hmsgs with rfl | rfl
        · cases h
        · exact (SendEffect.message.inj (List.mem_singleton.mp h)).1
      · rcases hrest with rfl | rfl <;> simp at h
  · simp [sync_refused had] at h

/-- A backup message is read back as sent exactly when its path leaves room for the
two headers in the reader's buffer. -/
theorem backup_message_read_back_iff (buf : WorkerBuffer) (h : FilterMessageHeader) :
    (∀ (up : Wchar → Wchar) (env : SendEnv) (item : KnfcQueueItem) (m : KnfcBackupRequest)
      (t : Int), SendEffect.message m t ∈ knFcQueueSendOne up env item →
        (ReadBack buf h m item.requestId item.request ↔
          item.request.path.length ≤ maxDeliveredPath)) ∧
      ∀ (env : SyncEnv) (r : CleanupRequest) (m : KnfcBackupRequest) (t : Int),
        SendEffect.message m t ∈ (knFcQueueSendSyncFromCleanup env r).1 →
          (ReadBack buf h m env.requestId r ↔ r.path.length ≤ maxDeliveredPath) := by
  constructor
  · intro up env item m t hm
    rw [message_of_sendOne hm]
    exact readBack_iff buf h item.requestId item.request
  · intro env r m t hm
    rw [message_of_sync hm]
    exact readBack_iff buf h env.requestId r

def zeroedBuffer : WorkerBuffer := ⟨List.replicate workerBufSize 0, List.length_replicate⟩

def connectedEnv : SendEnv where
  exclude := knFcExcludeInitialize
  alloc := true
  connected := true
  outcome := ⟨statusSuccess, none⟩

theorem sendOne_connectedEnv (item : KnfcQueueItem) :
    SendEffect.message (backupMessage item.requestId item.request) knfcReplyTimeout ∈
      knFcQueueSendOne id connectedEnv item := by
  have hx : (knFcExcludeMatches id connectedEnv.exclude item.request.path).1 = false := by
    simp [knFcExcludeMatches, connectedEnv, knFcExcludeInitialize]
  rw [sendOne_sent hx rfl rfl]
  exact List.mem_cons_self

theorem backup_message_read_back_doomed :
    ReadBack zeroedBuffer ⟨24, 0, 1⟩ (backupMessage 7 doomedFile) 7 doomedFile :=
  ((backup_message_read_back_iff zeroedBuffer ⟨24, 0, 1⟩).1 id connectedEnv ⟨7, doomedFile⟩ _ _
    (sendOne_connectedEnv _)).mpr (by decide)

theorem not_readBack_of_long {path : UnicodeString} (h : ¬ path.length ≤ maxDeliveredPath) :
    ∃ m t, SendEffect.message m t ∈
        knFcQueueSendOne id connectedEnv ⟨1, { doomedFile with path := path }⟩ ∧
      ¬ ReadBack zeroedBuffer ⟨24, 0, 1⟩ m 1 { doomedFile with path := path } := by
  have hread := readBack_iff zeroedBuffer ⟨24, 0, 1⟩ 1 { doomedFile with path := path }
  exact ⟨_, _, sendOne_connectedEnv ⟨1, _⟩, fun hback => h (hread.mp hback)⟩

/-- The longest path a `UNICODE_STRING` holds. -/
def longestPath : UnicodeString :=
  ⟨List.replicate 32767 (wchar 'a'), by rw [List.length_replicate]; decide⟩

theorem length_longestPath : longestPath.length = 65534 := by
  have hbuffer : longestPath.buffer.length = 32767 := List.length_replicate
  rw [UnicodeString.length, hbuffer]

theorem longest_path_not_read_back :
    ∃ m t, SendEffect.message m t ∈
        knFcQueueSendOne id connectedEnv ⟨1, { doomedFile with path := longestPath }⟩ ∧
      ¬ ReadBack zeroedBuffer ⟨24, 0, 1⟩ m 1 { doomedFile with path := longestPath } := by
  refine not_readBack_of_long ?_
  rw [length_longestPath]
  decide

end Fits

end KnFileCatcher

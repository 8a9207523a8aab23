import KnFileCatcher.Send

/-! When the send paths count a success that the client did not report, and when
a synchronous send is lost without its fallback. -/

namespace KnFileCatcher

/-- The client sent a whole `Status` field, and it is 0. -/
def SendOutcome.RepliedZero (o : SendOutcome) : Prop :=
  ∃ bytes, o.reply = some bytes ∧ 20 ≤ bytes.length ∧ ∀ b ∈ (bytes.drop 16).take 4, b = 0

/-- No reply, or one that ends before its `Status` does with only zeros there. -/
def SendOutcome.Blank (o : SendOutcome) : Prop :=
  ∀ bytes, o.reply = some bytes → bytes.length < 20 ∧ ∀ b ∈ (bytes.drop 16).take 4, b = 0

theorem leNat_eq_zero_iff (bytes : List Byte) : leNat bytes = 0 ↔ ∀ b ∈ bytes, b = 0 := by
  induction bytes with
  | nil => simp [leNat]
  | cons b bytes ih =>
    have hb : b.toNat = 0 ↔ b = 0 := by rw [← BitVec.toNat_inj]; rfl
    have hc : leNat (b :: bytes) = b.toNat + 256 * leNat bytes := rfl
    rw [List.forall_mem_cons, ← hb, ← ih, hc]
    omega

theorem replyStatus_none : replyStatus (writeReply none zeroedReply) = 0 := by decide

theorem replyStatus_some (bytes : List Byte) :
    replyStatus (writeReply (some bytes) zeroedReply) = 0 ↔
      ∀ b ∈ (bytes.drop 16).take 4, b = 0 := by
  have hfront : (bytes.take 24).drop 16 = (bytes.drop 16).take 8 := by
    rw [List.drop_take]
  have hz : ∀ b ∈ zeroedReply.drop bytes.length, b = 0 := fun b hb =>
    List.eq_of_mem_replicate (List.mem_of_mem_drop hb)
  rw [replyStatus, leNat_eq_zero_iff, writeReply]
  simp only [zeroedReply, List.length_replicate, sizeofBackupReply, List.drop_append, hfront,
    List.take_append, List.take_take, List.mem_append]
  constructor
  · intro h b hb
    exact h b (Or.inl hb)
  · rintro h b (hb | hb)
    · exact h b hb
    · exact hz b (List.mem_of_mem_drop (List.mem_of_mem_take hb))

theorem replyStatus_eq_zero_iff (o : SendOutcome) :
    replyStatus (writeReply o.reply zeroedReply) = 0 ↔ o.RepliedZero ∨ o.Blank := by
  cases hr : o.reply with
  | none => simp [SendOutcome.RepliedZero, SendOutcome.Blank, hr, replyStatus_none]
  | some bytes =>
    rw [replyStatus_some]
    by_cases hl : 20 ≤ bytes.length
    · simp [SendOutcome.RepliedZero, SendOutcome.Blank, hr, hl]
    · simp [SendOutcome.RepliedZero, SendOutcome.Blank, hr, hl, Nat.not_le.mp hl]

theorem not_repliedZero_of_blank {o : SendOutcome} (h : o.Blank) : ¬ o.RepliedZero := by
  rintro ⟨bytes, hr, hl, -⟩
  have := (h bytes hr).1
  omega

/-- A message of this run reached the port and the client answered it with status 0. -/
def ClientReplied (o : SendOutcome) (effects : List SendEffect) : Prop :=
  (∃ msg timeout, SendEffect.message msg timeout ∈ effects) ∧ o.RepliedZero

def enqueueCalls (effects : List SendEffect) : List CleanupRequest :=
  effects.filterMap fun
    | .enqueue r => some r
    | _ => none

/-- A message goes out, and the answer is a success status without a reply status. -/
def SendEnv.BlankSuccess (env : SendEnv) : Prop :=
  env.connected = true ∧ ntSuccess env.outcome.status = true ∧ env.outcome.Blank

def SyncEnv.Admitted (env : SyncEnv) (r : CleanupRequest) : Prop :=
  r.path.length ≠ 0 ∧ env.acquired = true ∧ env.stop = false

theorem messageLength_eq (r : CleanupRequest) :
    messageLength r = sizeofBackupRequest + r.path.length := by
  have h := r.path.length_lt
  rw [messageLength, sizeofBackupRequest]
  omega

def SendOneHonest (up : Wchar → Wchar) (env : SendEnv) (item : KnfcQueueItem) : Prop :=
  SendEffect.sent ∈ knFcQueueSendOne up env item →
    ClientReplied env.outcome (knFcQueueSendOne up env item)

def SyncHonest (env : SyncEnv) (r : CleanupRequest) : Prop :=
  (SendEffect.syncSent ∈ (knFcQueueSendSyncFromCleanup env r).1 →
    ClientReplied env.outcome (knFcQueueSendSyncFromCleanup env r).1) ∧
  (env.Admitted r → ¬ ClientReplied env.outcome (knFcQueueSendSyncFromCleanup env r).1 →
    enqueueCalls (knFcQueueSendSyncFromCleanup env r).1 = [r])

theorem ntSuccess_portDisconnected : ntSuccess statusPortDisconnected = false := by decide

def countsAsReplied (env : SendEnv) : Bool :=
  ntSuccess env.outcome.status && decide (replyStatus (writeReply env.outcome.reply zeroedReply) = 0)

theorem countsAsReplied_iff (env : SendEnv) : countsAsReplied env = true ↔
    ntSuccess env.outcome.status = true ∧ (env.outcome.RepliedZero ∨ env.outcome.Blank) := by
  simp only [countsAsReplied, Bool.and_eq_true, decide_eq_true_eq, replyStatus_eq_zero_iff]

theorem not_blankSuccess {env : SendEnv} (h : countsAsReplied env = false) :
    ¬ env.BlankSuccess := by
  rintro ⟨-, hs, hb⟩
  rw [(countsAsReplied_iff env).mpr ⟨hs, Or.inr hb⟩] at h
  exact Bool.noConfusion h

/-- What is counted is an answer or nothing. -/
theorem repliedZero_iff {env : SendEnv} (h : countsAsReplied env = true)
    (hc : env.connected = true) : env.outcome.RepliedZero ↔ ¬ env.BlankSuccess := by
  obtain ⟨hs, hz⟩ := (countsAsReplied_iff env).mp h
  constructor
  · rintro hr ⟨-, -, hb⟩
    exact not_repliedZero_of_blank hb hr
  · intro hn
    exact hz.resolve_right fun hb => hn ⟨hc, hs, hb⟩

theorem clientReplied_message (o : SendOutcome) (msg : KnfcBackupRequest) (timeout : Int)
    (effects : List SendEffect) :
    ClientReplied o (.message msg timeout :: effects) ↔ o.RepliedZero :=
  ⟨fun h => h.2, fun h => ⟨⟨msg, timeout, List.mem_cons_self⟩, h⟩⟩

theorem sendOne_unsent {up : Wchar → Wchar} {env : SendEnv} {item : KnfcQueueItem}
    (hx : (knFcExcludeMatches up env.exclude item.request.path).1 = false)
    (h : env.alloc = false ∨ env.connected = false) :
    knFcQueueSendOne up env item = [.sendFailed] := by
  have hlen : ¬ messageLength item.request < sizeofBackupRequest := by
    rw [messageLength_eq]
    omega
  cases ha : env.alloc with
  | false => simp [knFcQueueSendOne, hx, hlen, ha]
  | true =>
    have hc : env.connected = false := by simpa [ha] using h
    simp [knFcQueueSendOne, hx, hlen, ha, knFcCommSendMessage, hc, ntSuccess_portDisconnected]

theorem sendOne_sent {up : Wchar → Wchar} {env : SendEnv} {item : KnfcQueueItem}
    (hx : (knFcExcludeMatches up env.exclude item.request.path).1 = false)
    (ha : env.alloc = true) (hc : env.connected = true) :
    knFcQueueSendOne up env item =
      [.message (backupMessage item.requestId item.request) knfcReplyTimeout,
        if countsAsReplied env then .sent else .sendFailed] := by
  have hlen : ¬ messageLength item.request < sizeofBackupRequest := by
    rw [messageLength_eq]
    omega
  cases hs : ntSuccess env.outcome.status with
  | false => simp [knFcQueueSendOne, hx, hlen, ha, knFcCommSendMessage, hc, hs, countsAsReplied]
  | true =>
    by_cases hz : replyStatus (writeReply env.outcome.reply zeroedReply) = 0 <;>
      simp [knFcQueueSendOne, hx, hlen, ha, knFcCommSendMessage, hc, hs, countsAsReplied, hz]

theorem sync_refused {env : SyncEnv} {r : CleanupRequest} (h : ¬ env.Admitted r) :
    (knFcQueueSendSyncFromCleanup env r).1 = [] := by
  by_cases hp : r.path.length = 0
  · simp [knFcQueueSendSyncFromCleanup, hp]
  · cases ha : env.acquired with
    | false => simp [knFcQueueSendSyncFromCleanup, hp, ha]
    | true =>
      cases hs : env.stop with
      | false => exact absurd ⟨hp, ha, hs⟩ h
      | true => simp [knFcQueueSendSyncFromCleanup, hp, ha, hs]

theorem sync_noMemory {env : SyncEnv} {r : CleanupRequest} (h : env.Admitted r)
    (ha : env.alloc = false) : (knFcQueueSendSyncFromCleanup env r).1 = [.syncFailed] := by
  obtain ⟨hp, hq, hs⟩ := h
  simp [knFcQueueSendSyncFromCleanup, hp, hq, hs, ha]

theorem syncExchange_disconnected {env : SendEnv} (hc : env.connected = false) (requestId : Nat)
    (r : CleanupRequest) : (syncExchange env requestId r).1 = [.syncFailed, .enqueue r] := by
  simp [syncExchange, knFcCommSendMessage, hc, ntSuccess_portDisconnected]

theorem syncExchange_connected {env : SendEnv} (hc : env.connected = true) (requestId : Nat)
    (r : CleanupRequest) :
    (syncExchange env requestId r).1 =
      .message (backupMessage requestId r) (syncTimeout r.fileSizeHint) ::
        if countsAsReplied env then [.syncSent] else [.syncFailed, .enqueue r] := by
  simp only [syncExchange, knFcCommSendMessage, hc, Bool.not_true, Bool.false_eq_true, if_false,
    countsAsReplied]
  split <;> rename_i h <;> simp [h]

theorem sync_exchange {env : SyncEnv} {r : CleanupRequest} (h : env.Admitted r)
    (ha : env.alloc = true) :
    (knFcQueueSendSyncFromCleanup env r).1 =
      (syncExchange env.toSendEnv env.requestId r).1 := by
  obtain ⟨hp, hq, hs⟩ := h
  simp [knFcQueueSendSyncFromCleanup, hp, hq, hs, ha]

theorem sync_disconnected {env : SyncEnv} {r : CleanupRequest} (h : env.Admitted r)
    (ha : env.alloc = true) (hc : env.connected = false) :
    (knFcQueueSendSyncFromCleanup env r).1 = [.syncFailed, .enqueue r] :=
  (sync_exchange h ha).trans (syncExchange_disconnected hc _ r)

theorem sync_exchanged {env : SyncEnv} {r : CleanupRequest} (h : env.Admitted r)
    (ha : env.alloc = true) (hc : env.connected = true) :
    (knFcQueueSendSyncFromCleanup env r).1 =
      .message (backupMessage env.requestId r) (syncTimeout r.fileSizeHint) ::
        if countsAsReplied env.toSendEnv then [.syncSent] else [.syncFailed, .enqueue r] :=
  (sync_exchange h ha).trans (syncExchange_connected hc _ r)

theorem sendOneHonest_iff (up : Wchar → Wchar) (env : SendEnv) (item : KnfcQueueItem) :
    SendOneHonest up env item ↔
      ¬ ((knFcExcludeMatches up env.exclude item.request.path).1 = false ∧ env.alloc = true ∧
        env.BlankSuccess) := by
  unfold SendOneHonest
  cases hx : (knFcExcludeMatches up env.exclude item.request.path).1 with
  | true => simp [knFcQueueSendOne, hx]
  | false =>
    by_cases hun : env.alloc = false ∨ env.connected = false
    · rw [sendOne_unsent hx hun]
      have hno : ¬ (env.alloc = true ∧ env.BlankSuccess) := by
        rintro ⟨ha, hb⟩
        rcases hun with h | h
        · simp [ha] at h
        · simp [hb.1] at h
      simpa using hno
    · obtain ⟨ha, hc⟩ : env.alloc = true ∧ env.connected = true := by simpa using hun
      rw [sendOne_sent hx ha hc, clientReplied_message]
      cases hr : countsAsReplied env with
      | false => simp [not_blankSuccess hr]
      | true => simp [ha, repliedZero_iff hr hc]

theorem syncHonest_iff (env : SyncEnv) (r : CleanupRequest) :
    SyncHonest env r ↔
      (env.Admitted r → env.alloc = true ∧ ¬ env.BlankSuccess) := by
  unfold SyncHonest
  by_cases had : env.Admitted r
  · cases ha : env.alloc with
    | false =>
      rw [sync_noMemory had ha]
      simp [had, ClientReplied, enqueueCalls]
    | true =>
      cases hc : env.connected with
      | false =>
        rw [sync_disconnected had ha hc]
        simp [SendEnv.BlankSuccess, hc, enqueueCalls]
      | true =>
        rw [sync_exchanged had ha hc, clientReplied_message]
        cases hr : countsAsReplied env.toSendEnv with
        | false => simp [not_blankSuccess hr, enqueueCalls]
        | true =>
          have hz := repliedZero_iff hr hc
          by_cases hb : env.BlankSuccess
          · simp [had, hz, hb]
          · simp [hz, hb]
  · rw [sync_refused had]
    simp [had]

/-- Both paths are honest exactly when no success status comes without a reply
status and, for an admitted synchronous request, the message could be allocated. -/
theorem send_paths_honest_iff (up : Wchar → Wchar) :
    (∀ (env : SendEnv) (item : KnfcQueueItem), SendOneHonest up env item ↔
      ¬ ((knFcExcludeMatches up env.exclude item.request.path).1 = false ∧ env.alloc = true ∧
        env.BlankSuccess)) ∧
    (∀ (env : SyncEnv) (r : CleanupRequest), SyncHonest env r ↔
      (env.Admitted r → env.alloc = true ∧ ¬ env.BlankSuccess)) :=
  ⟨sendOneHonest_iff up, syncHonest_iff⟩

def timedOut : SyncEnv where
  exclude := knFcExcludeInitialize
  alloc := true
  connected := true
  outcome := ⟨statusTimeout, none⟩
  acquired := true
  stop := false
  requestId := 1

def doomedFile : CleanupRequest where
  ownerPid := 8
  rootPid := 8
  flags := 6
  fileSizeHint := 0
  path := .inRoot 'a'

theorem timedOut_blank : timedOut.BlankSuccess :=
  ⟨rfl, by decide, fun _ h => by simp [timedOut] at h⟩

theorem timeout_is_counted_and_lost :
    ¬ SendOneHonest id timedOut.toSendEnv ⟨1, doomedFile⟩ ∧ ¬ SyncHonest timedOut doomedFile ∧
      ¬ SyncHonest { timedOut with alloc := false } doomedFile := by
  have hadm : doomedFile.path.length ≠ 0 := by decide
  refine ⟨?_, ?_, ?_⟩
  · rw [sendOneHonest_iff, not_not]
    exact ⟨by decide, rfl, timedOut_blank⟩
  · rw [syncHonest_iff]
    exact fun h => (h ⟨hadm, rfl, rfl⟩).2 timedOut_blank
  · rw [syncHonest_iff]
    exact fun h => Bool.false_ne_true (h ⟨hadm, rfl, rfl⟩).1

end KnFileCatcher

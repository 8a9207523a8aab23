import KnFileCatcher.BackupChannel
import KnFileCatcher.RememberedIds

/-! What the driver counts as sent, and what the manifest has. -/

namespace KnFileCatcher

open LittleEndian Runs

section Acts

def entriesOf (acts : List WorkerAct) : List BackupEvent := acts.filterMap fun
  | .wroteEntry evt => some evt
  | _ => none

def copiedOk (acts : List WorkerAct) : List Ulonglong := acts.filterMap fun
  | .copied messageId status => if status = 0 then some messageId else none
  | _ => none

def caughtIds (acts : List WorkerAct) : List Ulonglong := acts.filterMap fun
  | .caught messageId => some messageId
  | _ => none

theorem mem_copiedOk {acts : List WorkerAct} {messageId : Ulonglong} :
    messageId ∈ copiedOk acts ↔ .copied messageId 0 ∈ acts := by
  rw [copiedOk, List.mem_filterMap]
  constructor
  · rintro ⟨a, ha, heq⟩
    cases a with
    | copied m status =>
      obtain ⟨rfl, rfl⟩ : status = 0 ∧ m = messageId := by simpa using heq
      exact ha
    | _ => cases heq
  · exact fun h => ⟨_, h, by simp⟩

theorem mem_caughtIds {acts : List WorkerAct} {messageId : Ulonglong} :
    messageId ∈ caughtIds acts ↔ .caught messageId ∈ acts := by
  rw [caughtIds, List.mem_filterMap]
  constructor
  · rintro ⟨a, ha, heq⟩
    cases a with
    | caught m => rwa [← Option.some.inj heq]
    | _ => cases heq
  · exact fun h => ⟨_, h, rfl⟩

/-- What comes before the manifest entry: a copy, or none where the disk is full. -/
inductive Copying (messageId : Ulonglong) : Win32Error → List WorkerAct → Prop where
  | refused : Copying messageId errorDiskFull []
  | copied (status : Win32Error) : Copying messageId status [.copied messageId status]

/-- The acts for a message that is new to the reader. -/
inductive TakenIn (d : BackupDelivery) : List WorkerAct → Prop where
  | copyThrew : TakenIn d [.caught d.messageId]
  | unrecorded {status first} (h : Copying d.messageId status first) :
      TakenIn d (.caught d.messageId :: first)
  | unanswered {status first} (h : Copying d.messageId status first) (dest : List Wchar) :
      TakenIn d (.caught d.messageId :: .wroteEntry (BackupWorker.event d dest status) :: first)
  | answered {status first} (h : Copying d.messageId status first) (dest : List Wchar) :
      TakenIn d (.replied d.messageId d.req.requestId status ::
        .onBackup (BackupWorker.event d dest status) ::
          .wroteEntry (BackupWorker.event d dest status) :: first)

variable {n : FileNames} {sessionDir : List Wchar}

theorem finish_takenIn (w : BackupWorker) (d : BackupDelivery) (env : DeliveryEnv)
    (dest : List Wchar) {status : Win32Error} {first : List WorkerAct}
    (h : Copying d.messageId status first) {acts : List WorkerAct} (hacts : w.acts = first ++ acts) :
    ∃ news, (w.finish d env dest status).acts = news ++ acts ∧ TakenIn d news ∧
      (w.finish d env dest status).memory = w.memory ∧
      (w.finish d env dest status).backed = w.backed ∧ copiedOk news = copiedOk first := by
  unfold BackupWorker.finish
  cases env.manifestThrows with
  | true => exact ⟨_, by simp [BackupWorker.catchException, hacts], .unrecorded h, rfl, rfl, rfl⟩
  | false =>
    cases env.onBackupThrows with
    | true =>
      exact ⟨_, by simp [BackupWorker.catchException, BackupWorker.act, hacts],
        .unanswered h dest, rfl, rfl, rfl⟩
    | false => exact ⟨_, by simp [BackupWorker.act, hacts], .answered h dest, rfl, rfl, rfl⟩

/-- The two ways of a delivery: a message that the reader remembers, and a new one. -/
theorem backupRequest_acts {w : BackupWorker} (hw : w.memory.Listed) (d : BackupDelivery)
    (env : DeliveryEnv) (h0 : d.messageId ≠ 0) :
    (d.messageId ∈ w.memory.ids ∧ (w.backupRequest n sessionDir d env).memory = w.memory ∧
      (w.backupRequest n sessionDir d env).backed = w.backed ∧
      (w.backupRequest n sessionDir d env).acts =
        .replied d.messageId d.req.requestId 0 :: w.acts) ∨
    d.messageId ∉ w.memory.ids ∧ ∃ memory news,
      rememberMsgId w.memory d.messageId = some (true, memory) ∧
      (w.backupRequest n sessionDir d env).memory = memory ∧
      (w.backupRequest n sessionDir d env).acts = news ++ w.acts ∧ TakenIn d news ∧
      (w.backupRequest n sessionDir d env).backed = w.backed + (copiedOk news).length := by
  unfold BackupWorker.backupRequest
  obtain ⟨-, hmem, heq⟩ | ⟨hnew, memory, heq, -⟩ := rememberMsgId_cases hw d.messageId
  · rw [heq]
    exact Or.inl ⟨hmem, rfl, rfl, rfl⟩
  · right
    refine ⟨fun hmem => hnew ⟨h0, hmem⟩, memory, ?_⟩
    rw [heq]
    dsimp only
    by_cases hfull : w.diskFull = true
    · rw [if_pos hfull]
      obtain ⟨news, hacts, htaken, hmemory, hbacked, hcopied⟩ :=
        finish_takenIn { w with memory := memory, refused := w.refused + 1 } d env []
          Copying.refused rfl
      exact ⟨news, rfl, hmemory, hacts, htaken, by rw [hbacked, hcopied]; rfl⟩
    · rw [if_neg hfull]
      unfold BackupWorker.copy
      cases env.copyThrows with
      | true => exact ⟨_, rfl, rfl, rfl, .copyThrew, rfl⟩
      | false =>
        dsimp only
        rw [if_neg Bool.false_ne_true]
        generalize w.files.doBackup n sessionDir ⟨d.srcNt, d.req.requestId, env.copy⟩ = r
        by_cases hr : r.1 = 0
        · rw [if_pos hr, hr]
          obtain ⟨news, hacts, htaken, hmemory, hbacked, hcopied⟩ := finish_takenIn
            (BackupWorker.act { w with memory := memory, files := r.2.2, backed := w.backed + 1 }
              (.copied d.messageId 0)) d env r.2.1 (.copied 0) rfl
          exact ⟨news, rfl, hmemory, hacts, htaken, by rw [hbacked, hcopied]; rfl⟩
        · rw [if_neg hr]
          obtain ⟨news, hacts, htaken, hmemory, hbacked, hcopied⟩ := finish_takenIn
            (BackupWorker.act { w with memory := memory, files := r.2.2, failed := w.failed + 1 }
              (.copied d.messageId r.1)) d env r.2.1 (.copied r.1) rfl
          refine ⟨news, rfl, hmemory, hacts, htaken, ?_⟩
          rw [hbacked, hcopied]
          simpa [copiedOk, BackupWorker.act] using hr

end Acts

section Source

/-- The fields of a request that a manifest entry repeats. -/
structure RequestSource where
  id : Ulonglong
  pid : Ulonglong
  rootPid : Ulonglong
  flags : Ulong
  sizeHint : Ulonglong
  srcNt : List Wchar
deriving DecidableEq

def BackupEvent.source (e : BackupEvent) : RequestSource :=
  ⟨e.id, e.pid, e.rootPid, e.flags, e.sizeHint, e.srcNt⟩

def PostedMessage.source (m : PostedMessage) : RequestSource :=
  ⟨BitVec.ofNat 64 m.requestId, m.request.ownerPid, m.request.rootPid, m.request.flags,
    m.request.fileSizeHint, m.request.path.buffer⟩

/-- The delivery has the identifier and the fields of the message. -/
def BackupDelivery.From (d : BackupDelivery) (m : PostedMessage) : Prop :=
  d.messageId = m.messageId ∧ ∀ dest status, (BackupWorker.event d dest status).source = m.source

theorem delivery_from {m : PostedMessage} {replyLength padding : Ulong} {stale : WorkerBuffer}
    {received : List Byte} {d : BackupDelivery}
    (hget : filterGetMessage stale ⟨replyLength, padding, m.messageId⟩ m.bytes = some received)
    (hread : readBackupDelivery received = some d) : d.From m := by
  simp only [filterGetMessage] at hget
  split at hget
  · obtain rfl := Option.some.inj hget
    rw [List.append_assoc, PostedMessage.bytes, readBackupDelivery_bytes] at hread
    obtain rfl := Option.some.inj hread
    exact ⟨rfl, fun _ _ => rfl⟩
  · cases hget

end Source

section Replies

theorem replyBuf_id (messageId requestId : Ulonglong) (status : Ulong) :
    readWord 8 8 (replyBuf messageId requestId status) = messageId := by
  simp [replyBuf, readWord_skip]

theorem replyBuf_body (messageId requestId : Ulonglong) (status : Ulong) :
    (replyBuf messageId requestId status).drop sizeofFilterMessageHeader =
      (backupReply requestId status).bytes := by
  simp [replyBuf, drop_word, sizeofFilterMessageHeader]

/-- The driver reads from the reply the status that the reader put there. -/
theorem replyStatus_bytes (requestId : Ulonglong) (status : Ulong) :
    replyStatus (writeReply (some (backupReply requestId status).bytes) zeroedReply) = 0 ↔
      status = 0 := by
  have hbytes : ((backupReply requestId status).bytes.drop 16).take 4 = @word 4 status := by
    simp [KnfcBackupReply.bytes, backupReply, drop_word]
  rw [replyStatus_some, hbytes]
  constructor
  · intro h
    have hzero : @word 4 status = List.replicate 4 0 := List.eq_replicate_iff.mpr ⟨by simp, h⟩
    have hword : List.replicate 4 0 = @word 4 (0 : Ulong) := by decide
    have hread := congrArg (fun bytes => readWord 4 0 (bytes ++ [])) (hzero.trans hword)
    simpa only [readWord_word] using hread
  · rintro rfl
    decide

def repliesOf (acts : List WorkerAct) : List (List Byte) := acts.filterMap fun
  | .replied messageId requestId status => some (replyBuf messageId requestId status)
  | _ => none

theorem repliesSince_eq {w w' : BackupWorker} (news : List WorkerAct)
    (h : w'.acts = news ++ w.acts) : BackupChannel.repliesSince w w' = repliesOf news := by
  rw [BackupChannel.repliesSince, h, List.length_append, Nat.add_sub_cancel, List.take_left]
  rfl

end Replies

section Resolved

/-- The message was copied and recorded. -/
def Saved (acts : List WorkerAct) (m : PostedMessage) : Prop :=
  .copied m.messageId 0 ∈ acts ∧
    ∃ evt, .wroteEntry evt ∈ acts ∧ evt.source = m.source ∧ evt.status = 0

def Resolved (acts : List WorkerAct) (m : PostedMessage) : Prop :=
  Saved acts m ∨ .caught m.messageId ∈ acts

def Unanswered (acts : List WorkerAct) (messageId : Ulonglong) : Prop :=
  ∀ requestId status, .replied messageId requestId status ∉ acts

/-- A reply with status 0 is only for a message that is resolved. -/
def Honest (acts : List WorkerAct) (m : PostedMessage) (reply : Option (List Byte)) : Prop :=
  ∀ bytes, reply = some bytes → ∃ requestId status,
    bytes = (backupReply requestId status).bytes ∧ (status = 0 → Resolved acts m)

theorem Resolved.mono {acts acts' : List WorkerAct} {m : PostedMessage} (h : Resolved acts m)
    (hsub : acts ⊆ acts') : Resolved acts' m := by
  rcases h with ⟨hcopied, evt, hevt, hsource⟩ | hcaught
  · exact Or.inl ⟨hsub hcopied, evt, hsub hevt, hsource⟩
  · exact Or.inr (hsub hcaught)

theorem Honest.mono {acts acts' : List WorkerAct} {m : PostedMessage} {reply : Option (List Byte)}
    (h : Honest acts m reply) (hsub : acts ⊆ acts') : Honest acts' m reply := by
  intro bytes hbytes
  obtain ⟨requestId, status, heq, hresolved⟩ := h bytes hbytes
  exact ⟨requestId, status, heq, fun h0 => (hresolved h0).mono hsub⟩

/-- What a delivery of `m` adds: at most one reply, and one with status 0 only if `m` is
resolved or was answered before. -/
structure News (acts news : List WorkerAct) (m : PostedMessage) (answer : Option (Ulonglong × Ulong)) :
    Prop where
  replies : repliesOf news = (answer.map fun a => replyBuf m.messageId a.1 a.2).toList
  own : ∀ messageId requestId status, .replied messageId requestId status ∈ news →
    messageId = m.messageId ∧ answer = some (requestId, status)
  zero : ∀ requestId, answer = some (requestId, 0) → Unanswered acts m.messageId →
    Resolved (news ++ acts) m

theorem TakenIn.news {news : List WorkerAct} {d : BackupDelivery} {m : PostedMessage}
    (h : TakenIn d news) (acts : List WorkerAct) (hd : d.From m) :
    ∃ answer, News acts news m answer ∧
      (Resolved (news ++ acts) m ∨ ∃ requestId status, status ≠ 0 ∧
        .replied m.messageId requestId status ∈ news) := by
  obtain ⟨hid, hsource⟩ := hd
  have hfirst {status first} (hc : Copying d.messageId status first) :
      repliesOf first = [] ∧ ∀ a b c, WorkerAct.replied a b c ∉ first := by
    cases hc <;> exact ⟨rfl, by simp⟩
  cases h with
  | copyThrew =>
    refine ⟨none, ⟨rfl, by simp, nofun⟩, Or.inl (Or.inr ?_)⟩
    simp [hid]
  | unrecorded hc =>
    obtain ⟨hr, hnone⟩ := hfirst hc
    refine ⟨none, ⟨hr, by simpa using fun a b c hmem => absurd hmem (hnone a b c), nofun⟩,
      Or.inl (Or.inr ?_)⟩
    simp [hid]
  | unanswered hc dest =>
    obtain ⟨hr, hnone⟩ := hfirst hc
    refine ⟨none, ⟨hr, by simpa using fun a b c hmem => absurd hmem (hnone a b c), nofun⟩,
      Or.inl (Or.inr ?_)⟩
    simp [hid]
  | @answered status first hc dest =>
    obtain ⟨hr, hnone⟩ := hfirst hc
    have hreplies : repliesOf (.replied d.messageId d.req.requestId status ::
        .onBackup (BackupWorker.event d dest status) ::
          .wroteEntry (BackupWorker.event d dest status) :: first) =
            replyBuf d.messageId d.req.requestId status :: repliesOf first := rfl
    have hsaved (h0 : status = 0) : Saved ((.replied d.messageId d.req.requestId status ::
        .onBackup (BackupWorker.event d dest status) ::
          .wroteEntry (BackupWorker.event d dest status) :: first) ++ acts) m := by
      refine ⟨?_, BackupWorker.event d dest status, by simp, hsource dest status, h0⟩
      cases hc with
      | refused => exact absurd h0 (by decide)
      | copied => simp [hid, h0]
    refine ⟨some (d.req.requestId, status), ⟨?_, fun a b c hmem => ?_, fun requestId heq _ => ?_⟩, ?_⟩
    · rw [hreplies, hr, hid]
      rfl
    · rcases List.mem_cons.mp hmem with heq | hmem
      · obtain ⟨rfl, rfl, rfl⟩ := WorkerAct.replied.inj heq
        exact ⟨hid, rfl⟩
      · simp only [List.mem_cons, reduceCtorEq, false_or] at hmem
        exact absurd hmem (hnone a b c)
    · exact Or.inl (hsaved (Prod.mk.inj (Option.some.inj heq)).2)
    · by_cases h0 : status = 0
      · exact Or.inl (Or.inl (hsaved h0))
      · exact Or.inr ⟨d.req.requestId, status, h0, by simp [hid]⟩

end Resolved

section Reader

variable {n : FileNames} {sessionDir : List Wchar}

/-- No message is taken for a new one while it is among the last 4096 that were. -/
def Apart (accepted : List PostedMessage) : Prop :=
  ∀ later m past, accepted = later ++ m :: past →
    m.messageId ∉ (past.take seenMsgCap).map PostedMessage.messageId

structure BackupChannel.ReaderKept (s : BackupChannel) : Prop where
  window : ∃ answers, AnsweredCalls.InWindow ⟨s.worker.memory, answers⟩ ∧
    AnsweredCalls.accepted ⟨s.worker.memory, answers⟩ = s.accepted.map PostedMessage.messageId
  entries : ((entriesOf s.worker.acts).map BackupEvent.source).Sublist
    (s.accepted.map PostedMessage.source)
  apart : Apart s.accepted
  backed : s.worker.backed = (copiedOk s.worker.acts).length
  posted : ∀ m ∈ s.accepted, m ∈ s.posted
  answered : ∀ m ∈ s.accepted, Resolved s.worker.acts m ∨
    ∃ requestId status, status ≠ 0 ∧ .replied m.messageId requestId status ∈ s.worker.acts
  replied : ∀ messageId requestId status, .replied messageId requestId status ∈ s.worker.acts →
    messageId ∈ s.accepted.map PostedMessage.messageId

theorem Apart.cons {accepted : List PostedMessage} {m : PostedMessage} (h : Apart accepted)
    (hm : m.messageId ∉ (accepted.take seenMsgCap).map PostedMessage.messageId) :
    Apart (m :: accepted) := by
  intro later m' past heq
  cases later with
  | nil =>
    obtain ⟨rfl, rfl⟩ := List.cons.inj heq
    exact hm
  | cons x later => exact h later m' past (List.cons.inj heq).2

theorem TakenIn.entries {d : BackupDelivery} {m : PostedMessage} {news : List WorkerAct}
    (h : TakenIn d news) (hd : d.From m) :
    entriesOf news = [] ∨ ∃ evt, entriesOf news = [evt] ∧ evt.source = m.source := by
  have hfirst {status first} (hc : Copying d.messageId status first) : entriesOf first = [] := by
    cases hc <;> rfl
  cases h with
  | copyThrew => exact Or.inl rfl
  | @unrecorded status first hc =>
    left
    change entriesOf first = []
    exact hfirst hc
  | @unanswered status first hc dest =>
    refine Or.inr ⟨BackupWorker.event d dest status, ?_, hd.2 dest status⟩
    change BackupWorker.event d dest status :: entriesOf first = _
    rw [hfirst hc]
  | @answered status first hc dest =>
    refine Or.inr ⟨BackupWorker.event d dest status, ?_, hd.2 dest status⟩
    change BackupWorker.event d dest status :: entriesOf first = _
    rw [hfirst hc]

namespace BackupChannel.ReaderKept

variable {s : BackupChannel} {m : PostedMessage} {d : BackupDelivery}

theorem listed (h : s.ReaderKept) : s.worker.memory.Listed := by
  obtain ⟨answers, hwindow, -⟩ := h.window
  exact hwindow.listed

theorem mem_ids_iff (h : s.ReaderKept) (messageId : Ulonglong) : messageId ∈ s.worker.memory.ids ↔
    messageId ∈ (s.accepted.take seenMsgCap).map PostedMessage.messageId := by
  obtain ⟨answers, hwindow, haccepted⟩ := h.window
  rw [← h.listed.mem]
  have horder := hwindow.order
  rw [haccepted] at horder
  change s.worker.memory.order = _ at horder
  rw [horder, Recency.arrivals, List.mem_reverse, List.map_take]

/-- Acts that are about no backup request. -/
theorem quiet (h : s.ReaderKept) (w : BackupWorker) (news : List WorkerAct)
    (hmemory : w.memory = s.worker.memory) (hbacked : w.backed = s.worker.backed)
    (hacts : w.acts = news ++ s.worker.acts) (hentries : entriesOf news = [])
    (hcopied : copiedOk news = [])
    (hreplied : ∀ a b c, .replied a b c ∉ news) (ids : List Ulonglong) :
    ReaderKept { s with worker := w, otherIds := ids } where
  window := by
    rw [hmemory]
    exact h.window
  entries := by
    have happend : entriesOf w.acts = entriesOf news ++ entriesOf s.worker.acts := by
      rw [hacts, entriesOf, List.filterMap_append]
      rfl
    rw [happend, hentries]
    exact h.entries
  apart := h.apart
  backed := by
    have happend : copiedOk w.acts = copiedOk news ++ copiedOk s.worker.acts := by
      rw [hacts, copiedOk, List.filterMap_append]
      rfl
    rw [happend, hcopied, hbacked]
    exact h.backed
  posted := h.posted
  answered m hm := by
    rw [hacts]
    rcases h.answered m hm with hs | ⟨requestId, status, h0, hr⟩
    · exact Or.inl (hs.mono (List.subset_append_right _ _))
    · exact Or.inr ⟨requestId, status, h0, List.mem_append_right _ hr⟩
  replied a b c hmem := by
    rw [hacts] at hmem
    exact h.replied a b c ((List.mem_append.mp hmem).resolve_left (hreplied a b c))

/-- The message comes again while the reader remembers it. -/
theorem again (h : s.ReaderKept) (hids : s.postedIds.Nodup) (hm : m ∈ s.posted) (hd : d.From m)
    (env : DeliveryEnv) (hmem : d.messageId ∈ s.worker.memory.ids)
    (hmemory : (s.worker.backupRequest n sessionDir d env).memory = s.worker.memory)
    (hbacked : (s.worker.backupRequest n sessionDir d env).backed = s.worker.backed)
    (hacts : (s.worker.backupRequest n sessionDir d env).acts =
      .replied d.messageId d.req.requestId 0 :: s.worker.acts) (p : Option PendingSend) :
    ReaderKept { s with worker := s.worker.backupRequest n sessionDir d env, pending := p } ∧
      News s.worker.acts [.replied d.messageId d.req.requestId 0] m (some (d.req.requestId, 0)) := by
  have hknown : m ∈ s.accepted := by
    obtain ⟨m', hm', hid⟩ := List.mem_map.mp ((h.mem_ids_iff _).mp hmem)
    have haccepted := List.mem_of_mem_take hm'
    rwa [← List.inj_on_of_nodup_map hids (h.posted m' haccepted) hm (hid.trans hd.1)]
  constructor
  · refine ⟨by rw [hmemory]; exact h.window, by rw [hacts]; exact h.entries, h.apart, ?_, h.posted,
      fun m' hm' => ?_, fun a b c hmem' => ?_⟩
    · rw [hacts, hbacked]
      exact h.backed
    · rw [hacts]
      rcases h.answered m' hm' with hs | ⟨requestId, status, h0, hr⟩
      · exact Or.inl (hs.mono (List.subset_cons_self _ _))
      · exact Or.inr ⟨requestId, status, h0, List.mem_cons_of_mem _ hr⟩
    · rw [hacts] at hmem'
      rcases List.mem_cons.mp hmem' with heq | hold
      · obtain ⟨rfl, -, -⟩ := WorkerAct.replied.inj heq
        rw [hd.1]
        exact List.mem_map_of_mem hknown
      · exact h.replied a b c hold
  · refine ⟨by rw [hd.1]; rfl, fun a b c hmem' => ?_, fun requestId _ hnone => ?_⟩
    · obtain ⟨rfl, rfl, rfl⟩ := WorkerAct.replied.inj (List.mem_singleton.mp hmem')
      exact ⟨hd.1, rfl⟩
    · rcases h.answered m hknown with hs | ⟨b, c, -, hr⟩
      · exact hs.mono (List.subset_append_right _ _)
      · exact absurd hr (hnone b c)

theorem fresh (h : s.ReaderKept) (hm : m ∈ s.posted) (h0 : m.messageId ≠ 0) (hd : d.From m)
    (env : DeliveryEnv) (hmem : d.messageId ∉ s.worker.memory.ids) {memory : MessageMemory}
    {news : List WorkerAct}
    (hremember : rememberMsgId s.worker.memory d.messageId = some (true, memory))
    (hmemory : (s.worker.backupRequest n sessionDir d env).memory = memory)
    (hacts : (s.worker.backupRequest n sessionDir d env).acts = news ++ s.worker.acts)
    (htaken : TakenIn d news)
    (hbacked : (s.worker.backupRequest n sessionDir d env).backed =
      s.worker.backed + (copiedOk news).length) (p : Option PendingSend) :
    ReaderKept { s with
      worker := s.worker.backupRequest n sessionDir d env
      pending := p
      accepted := m :: s.accepted } := by
  obtain ⟨answer, hnews, hanswered⟩ := htaken.news s.worker.acts hd
  refine ⟨?_, ?_, ?_, ?_, ?_, fun m' hm' => ?_, fun a b c hmem' => ?_⟩
  · obtain ⟨answers, hwindow, haccepted⟩ := h.window
    have hcall : answeredCall ⟨s.worker.memory, answers⟩ d.messageId =
        some ⟨memory, (d.messageId, true) :: answers⟩ := by
      simp [answeredCall, hremember]
    refine ⟨(d.messageId, true) :: answers, ?_, ?_⟩
    · rw [hmemory]
      exact inWindow_answeredCall hwindow hcall
    · rw [AnsweredCalls.accepted_cons (s := ⟨s.worker.memory, answers⟩) (hd.1 ▸ h0) rfl, haccepted,
        hd.1, List.map_cons]
  · have happend : entriesOf (news ++ s.worker.acts) = entriesOf news ++ entriesOf s.worker.acts :=
      List.filterMap_append ..
    change ((entriesOf _).map _).Sublist _
    rw [hacts, happend]
    rcases htaken.entries hd with hnone | ⟨evt, hone, hsource⟩
    · rw [hnone]
      exact h.entries.cons _
    · rw [hone, List.map_append, List.map_cons, List.map_cons, hsource]
      exact h.entries.cons_cons _
  · refine h.apart.cons ?_
    rwa [← h.mem_ids_iff, ← hd.1]
  · have happend : copiedOk (news ++ s.worker.acts) = copiedOk news ++ copiedOk s.worker.acts :=
      List.filterMap_append ..
    change BackupWorker.backed _ = (copiedOk _).length
    rw [hbacked, hacts, happend, List.length_append, h.backed, Nat.add_comm]
  · intro m' hm'
    rcases List.mem_cons.mp hm' with rfl | hm'
    · exact hm
    · exact h.posted m' hm'
  · rw [hacts]
    rcases List.mem_cons.mp hm' with rfl | hm'
    · rcases hanswered with hs | ⟨requestId, status, hne, hr⟩
      · exact Or.inl hs
      · exact Or.inr ⟨requestId, status, hne, List.mem_append_left _ hr⟩
    · rcases h.answered m' hm' with hs | ⟨requestId, status, hne, hr⟩
      · exact Or.inl (hs.mono (List.subset_append_right _ _))
      · exact Or.inr ⟨requestId, status, hne, List.mem_append_right _ hr⟩
  · change _ ∈ BackupWorker.acts _ at hmem'
    rw [hacts] at hmem'
    rcases List.mem_append.mp hmem' with hnew | hold
    · rw [(hnews.own a b c hnew).1]
      exact List.mem_cons_self
    · exact List.mem_cons_of_mem _ (h.replied a b c hold)

end BackupChannel.ReaderKept

end Reader

section Sender

/-- The driver counts the outcome as a success. -/
def SendOutcome.counts (o : SendOutcome) : Bool :=
  ntSuccess o.status && decide (replyStatus (writeReply o.reply zeroedReply) = 0)

theorem SendJob.effects_cases (up : Wchar → Wchar) (env : SyncEnv) (job : SendJob) :
    ((job.effects up env).any SendEffect.isMessage = false ∧
      (job.effects up env).filter SendEffect.isSent = []) ∨
    (job.effects up env).any SendEffect.isMessage = true ∧ ∀ o : SendOutcome,
      ((job.effects up { env with outcome := o }).filter SendEffect.isSent).length =
        if o.counts then 1 else 0 := by
  cases job with
  | queued item =>
    cases hx : (knFcExcludeMatches up env.exclude item.request.path).1 with
    | true => exact Or.inl ⟨by simp [SendJob.effects, knFcQueueSendOne, hx, SendEffect.isMessage],
        by simp [SendJob.effects, knFcQueueSendOne, hx, SendEffect.isSent]⟩
    | false =>
      by_cases hun : env.alloc = false ∨ env.connected = false
      · left
        simp only [SendJob.effects, sendOne_unsent hx hun]
        exact ⟨rfl, rfl⟩
      · right
        obtain ⟨ha, hc⟩ : env.alloc = true ∧ env.connected = true := by simpa using hun
        refine ⟨by simp [SendJob.effects, sendOne_sent hx ha hc, SendEffect.isMessage], fun o => ?_⟩
        have hsent := @sendOne_sent up { env.toSendEnv with outcome := o } item hx ha hc
        change ((knFcQueueSendOne up { env.toSendEnv with outcome := o } item).filter _).length = _
        rw [hsent]
        change _ = if countsAsReplied { env.toSendEnv with outcome := o } then 1 else 0
        cases countsAsReplied { env.toSendEnv with outcome := o } <;> rfl
  | sync r =>
    by_cases had : env.Admitted r
    · by_cases ha : env.alloc = false
      · left
        simp only [SendJob.effects, sync_noMemory had ha]
        exact ⟨rfl, rfl⟩
      · have ha' : env.alloc = true := by simpa using ha
        by_cases hc : env.connected = false
        · left
          simp only [SendJob.effects, sync_disconnected had ha' hc]
          exact ⟨rfl, rfl⟩
        · right
          have hc' : env.connected = true := by simpa using hc
          refine ⟨by simp [SendJob.effects, sync_exchanged had ha' hc', SendEffect.isMessage],
            fun o => ?_⟩
          have hsent := @sync_exchanged { env with outcome := o } r had ha' hc'
          simp only [SendJob.effects, hsent]
          change _ = if countsAsReplied { env.toSendEnv with outcome := o } then 1 else 0
          cases countsAsReplied { env.toSendEnv with outcome := o } <;> rfl
    · left
      simp only [SendJob.effects, sync_refused had]
      exact ⟨rfl, rfl⟩

structure PendingKept (acts : List WorkerAct) (p : PendingSend) : Prop where
  honest : Honest acts p.message p.reply
  unanswered : p.reply = none → Unanswered acts p.message.messageId

theorem PendingKept.reply {acts news : List WorkerAct} {p : PendingSend} {m : PostedMessage}
    {answer : Option (Ulonglong × Ulong)} (h : PendingKept acts p) (hn : News acts news m answer)
    (hsame : p.message.messageId = m.messageId → p.message = m) :
    ∃ p', (repliesOf news).foldl BackupChannel.reply (some p) = some p' ∧
      p'.job = p.job ∧ p'.env = p.env ∧ p'.message = p.message ∧ PendingKept (news ++ acts) p' := by
  have hhonest := h.honest.mono (List.subset_append_right news acts)
  rw [hn.replies]
  cases answer with
  | none =>
    refine ⟨p, rfl, rfl, rfl, rfl, hhonest, fun hnone a b hmem => ?_⟩
    rcases List.mem_append.mp hmem with hnew | hold
    · cases (hn.own _ _ _ hnew).2
    · exact h.unanswered hnone a b hold
  | some answer =>
    obtain ⟨requestId, status⟩ := answer
    change ∃ p', some (if p.message.messageId = readWord 8 8 (replyBuf m.messageId requestId status) ∧
      p.reply = none then _ else p) = some p' ∧ _
    rw [replyBuf_id]
    by_cases hfirst : p.message.messageId = m.messageId ∧ p.reply = none
    · rw [if_pos hfirst, replyBuf_body]
      refine ⟨_, rfl, rfl, rfl, rfl, ?_, nofun⟩
      rintro _ ⟨⟩
      refine ⟨requestId, status, rfl, ?_⟩
      rintro rfl
      have hnone := h.unanswered hfirst.2
      rw [hfirst.1] at hnone
      change Resolved _ p.message
      rw [hsame hfirst.1]
      exact hn.zero requestId rfl hnone
    · rw [if_neg hfirst]
      refine ⟨p, rfl, rfl, rfl, rfl, hhonest, fun hnone a b hmem => ?_⟩
      rcases List.mem_append.mp hmem with hnew | hold
      · exact hfirst ⟨(hn.own _ _ _ hnew).1, hnone⟩
      · exact h.unanswered hnone a b hold

structure BackupChannel.SenderKept (up : Wchar → Wchar) (s : BackupChannel) : Prop where
  ids : s.postedIds.Nodup
  nonZero : ∀ m ∈ s.posted, m.messageId ≠ 0
  pending : ∀ p, s.pending = some p → PendingKept s.worker.acts p ∧ p.message ∈ s.posted ∧
    p.message ∉ s.returned.map Prod.fst ∧ (p.job.effects up p.env).any SendEffect.isMessage = true
  returned : ∀ r ∈ s.returned, r.1 ∈ s.posted ∧ Honest s.worker.acts r.1 r.2.reply
  nodup : (s.returned.map Prod.fst).Nodup
  counted : (s.effects.filter SendEffect.isSent).length =
    (s.returned.filter fun r => r.2.counts).length

namespace BackupChannel.SenderKept

variable {up : Wchar → Wchar} {s : BackupChannel} {m : PostedMessage}

/-- New acts of the reader, and what they answer to the pending send. -/
theorem act (h : s.SenderKept up) {w : BackupWorker} {news : List WorkerAct}
    (hacts : w.acts = news ++ s.worker.acts) {answer : Option (Ulonglong × Ulong)}
    (hn : News s.worker.acts news m answer) (hm : m ∈ s.posted) (accepted : List PostedMessage) :
    SenderKept up { s with
      worker := w
      pending := (repliesOf news).foldl BackupChannel.reply s.pending
      accepted := accepted } := by
  refine ⟨h.ids, h.nonZero, fun p' hp' => ?_, fun r hr => ?_, h.nodup, h.counted⟩
  · change PendingKept w.acts p' ∧ _
    rw [hacts]
    cases hp : s.pending with
    | none =>
      have hnone : (repliesOf news).foldl BackupChannel.reply none = none := by
        rw [hn.replies]
        cases answer <;> rfl
      rw [hp] at hp'
      cases hnone.symm.trans hp'
    | some p =>
      obtain ⟨hkept, hposted, hreturned, hmessage⟩ := h.pending p hp
      obtain ⟨q, hq, hjob, henv, hsame, hkept'⟩ :=
        hkept.reply hn fun hid => List.inj_on_of_nodup_map h.ids hposted hm hid
      rw [hp] at hp'
      obtain rfl := Option.some.inj (hq.symm.trans hp')
      exact ⟨hkept', hsame ▸ hposted, hsame ▸ hreturned, by rw [hjob, henv]; exact hmessage⟩
  · change r.1 ∈ s.posted ∧ Honest w.acts r.1 r.2.reply
    rw [hacts]
    obtain ⟨hposted, hhonest⟩ := h.returned r hr
    exact ⟨hposted, hhonest.mono (List.subset_append_right _ _)⟩

/-- Acts without a reply to a backup request. -/
theorem quiet (h : s.SenderKept up) (w : BackupWorker) (news : List WorkerAct)
    (hacts : w.acts = news ++ s.worker.acts) (hreplied : ∀ a b c, .replied a b c ∉ news)
    (ids : List Ulonglong) : SenderKept up { s with worker := w, otherIds := ids } := by
  refine ⟨h.ids, h.nonZero, fun p hp => ?_, fun r hr => ?_, h.nodup, h.counted⟩
  · obtain ⟨hkept, hrest⟩ := h.pending p hp
    refine ⟨⟨?_, fun hnone a b hmem => ?_⟩, hrest⟩
    · rw [hacts]
      exact hkept.honest.mono (List.subset_append_right _ _)
    · rw [hacts] at hmem
      rcases List.mem_append.mp hmem with hnew | hold
      · exact hreplied _ _ _ hnew
      · exact hkept.unanswered hnone a b hold
  · obtain ⟨hposted, hhonest⟩ := h.returned r hr
    refine ⟨hposted, ?_⟩
    rw [hacts]
    exact hhonest.mono (List.subset_append_right _ _)

end BackupChannel.SenderKept

end Sender

section Runs

variable {up : Wchar → Wchar} {n : FileNames} {sessionDir : List Wchar} {s s' : BackupChannel}

structure BackupChannel.Kept (up : Wchar → Wchar) (s : BackupChannel) : Prop where
  reader : s.ReaderKept
  sender : s.SenderKept up

theorem BackupChannel.kept_init : BackupChannel.init.Kept up where
  reader := ⟨⟨[], inWindow_init, rfl⟩, .slnil, fun later m past h => by simp [init] at h, rfl,
    nofun, nofun, nofun⟩
  sender := ⟨List.nodup_nil, nofun, nofun, nofun, List.nodup_nil, rfl⟩

theorem BackupChannel.Kept.posts (h : s.Kept up) {job : SendJob}
    {env : SyncEnv} {messageId : Ulonglong}
    (hmessage : (job.effects up env).any SendEffect.isMessage = true)
    (hnew : ¬ (messageId = 0 ∨ messageId ∈ s.postedIds ∨ messageId ∈ s.otherIds)) :
    Kept up { s with
      pending := some ⟨job, env, ⟨messageId, job.requestId env, job.request⟩, none⟩
      posted := ⟨messageId, job.requestId env, job.request⟩ :: s.posted } := by
  obtain ⟨h0, hposted, -⟩ : messageId ≠ 0 ∧ messageId ∉ s.postedIds ∧ messageId ∉ s.otherIds := by
    simpa only [not_or] using hnew
  have hr := h.reader
  have hs := h.sender
  have hfresh (m : PostedMessage) (hm : m ∈ s.posted) : m.messageId ≠ messageId := by
    rintro rfl
    exact hposted (List.mem_map_of_mem hm)
  refine ⟨⟨hr.window, hr.entries, hr.apart, hr.backed,
    fun m hm => List.mem_cons_of_mem _ (hr.posted m hm), hr.answered, hr.replied⟩, ?_⟩
  refine ⟨List.nodup_cons.mpr ⟨hposted, hs.ids⟩, fun m hm => ?_, ?_, fun r hmem => ?_, hs.nodup,
    hs.counted⟩
  · rcases List.mem_cons.mp hm with rfl | hm
    · exact h0
    · exact hs.nonZero m hm
  · rintro _ ⟨⟩
    refine ⟨⟨nofun, fun _ requestId status hmem => ?_⟩, List.mem_cons_self, fun hmem => ?_, hmessage⟩
    · obtain ⟨m, hm, hid⟩ := List.mem_map.mp (hr.replied _ _ _ hmem)
      exact hfresh m (hr.posted m hm) hid
    · obtain ⟨r, hmem, heq⟩ := List.mem_map.mp hmem
      exact hfresh r.1 (hs.returned r hmem).1 (by rw [heq])
  · exact ⟨List.mem_cons_of_mem _ (hs.returned r hmem).1, (hs.returned r hmem).2⟩

theorem BackupChannel.Kept.returns (h : s.Kept up) {p : PendingSend} (hp : s.pending = some p)
    (status : NtStatus) (taken : Bool) :
    Kept up { s with
      pending := none
      returned := (p.message, ⟨status, if taken then p.reply else none⟩) :: s.returned
      effects := s.effects ++
        p.job.effects up { p.env with outcome := ⟨status, if taken then p.reply else none⟩ } } := by
  have hr := h.reader
  have hs := h.sender
  obtain ⟨hkept, hposted, hreturned, hmessage⟩ := hs.pending p hp
  refine ⟨⟨hr.window, hr.entries, hr.apart, hr.backed, hr.posted, hr.answered, hr.replied⟩, ?_⟩
  refine ⟨hs.ids, hs.nonZero, nofun, fun r hmem => ?_, List.nodup_cons.mpr ⟨hreturned, hs.nodup⟩, ?_⟩
  · rcases List.mem_cons.mp hmem with rfl | hmem
    · refine ⟨hposted, fun bytes hbytes => ?_⟩
      cases taken with
      | true => exact hkept.honest bytes hbytes
      | false => cases hbytes
    · exact hs.returned r hmem
  · rcases p.job.effects_cases up p.env with ⟨hno, -⟩ | ⟨-, hcount⟩
    · rw [hmessage] at hno
      cases hno
    · rw [List.filter_append, List.length_append, hs.counted, hcount]
      generalize SendOutcome.mk status (if taken then p.reply else none) = outcome
      cases hcounts : outcome.counts <;> simp [hcounts]

theorem BackupChannel.Kept.delivers (h : s.Kept up) {m : PostedMessage} {d : BackupDelivery}
    (hm : m ∈ s.posted) (hd : d.From m) (env : DeliveryEnv) :
    (s.take n sessionDir m d env).Kept up := by
  have hr := h.reader
  have hs := h.sender
  have h0 : d.messageId ≠ 0 := hd.1 ▸ hs.nonZero m hm
  rcases @backupRequest_acts n sessionDir _ hr.listed d env h0 with
    ⟨hmem, hmemory, hbacked, hacts⟩ | ⟨hmem, memory, news, hremember, hmemory, hacts, htaken, hbacked⟩
  · have hnew : BackupChannel.isNew s.worker d.messageId = false := by
      rw [isNew, rememberMsgId_known h0 hmem]
    have hreplies := repliesSince_eq [.replied d.messageId d.req.requestId 0] hacts
    have hagain := hr.again hs.ids hm hd env hmem hmemory hbacked hacts
    have hsender := hs.act hacts (hagain none).2 hm s.accepted
    rw [take, hreplies, hnew]
    exact ⟨(hagain _).1, hsender⟩
  · have hnew : BackupChannel.isNew s.worker d.messageId = true := by
      rw [isNew, hremember]
    obtain ⟨answer, hnews, -⟩ := htaken.news s.worker.acts hd
    have hsender := hs.act hacts hnews hm (m :: s.accepted)
    have hreader := hr.fresh hm (hs.nonZero m hm) hd env hmem hremember hmemory hacts htaken hbacked
    rw [take, repliesSince_eq news hacts, hnew]
    exact ⟨hreader _, hsender⟩

theorem BackupChannel.Kept.step (h : s.Kept up) {a : ChannelAction}
    (hs : channelStep up n sessionDir s a = some s') : s'.Kept up := by
  cases a with
  | send job env messageId =>
    simp only [channelStep] at hs
    split at hs
    · cases hs
    · split at hs
      · next hmessage =>
        split at hs
        · cases hs
        · next hnew =>
          obtain rfl := Option.some.inj hs
          exact h.posts hmessage (by simpa only [List.contains_iff_mem] using hnew)
      · next hmessage =>
        obtain rfl := Option.some.inj hs
        rcases job.effects_cases up env with ⟨-, hnone⟩ | ⟨hyes, -⟩
        · have hr := h.reader
          have hk := h.sender
          refine ⟨⟨hr.window, hr.entries, hr.apart, hr.backed, hr.posted, hr.answered, hr.replied⟩,
            hk.ids, hk.nonZero, hk.pending, hk.returned, hk.nodup, ?_⟩
          rw [List.filter_append, hnone, List.append_nil]
          exact hk.counted
        · exact absurd hyes hmessage
  | finish status taken =>
    simp only [channelStep] at hs
    split at hs
    · cases hs
    · next p hp =>
      obtain rfl := Option.some.inj hs
      exact h.returns hp status taken
  | deliver m replyLength padding stale env =>
    simp only [channelStep] at hs
    split at hs
    · next hm =>
      split at hs
      · obtain rfl := Option.some.inj hs
        exact h
      · next received hget =>
        obtain ⟨d, hread, rfl⟩ := Option.map_eq_some_iff.mp hs
        exact h.delivers hm (delivery_from hget hread) env
    · cases hs
  | processEvent messageId throws =>
    simp only [channelStep] at hs
    split at hs
    · cases hs
    · obtain rfl := Option.some.inj hs
      cases throws with
      | true =>
        exact ⟨h.reader.quiet (s.worker.processEvent messageId true) [.caught messageId] rfl rfl rfl
            rfl rfl (by simp) _,
          h.sender.quiet (s.worker.processEvent messageId true) [.caught messageId] rfl (by simp) _⟩
      | false =>
        exact ⟨h.reader.quiet (s.worker.processEvent messageId false)
            [.acknowledged messageId, .onProcessEvent messageId] rfl rfl rfl rfl
            rfl (by simp) _,
          h.sender.quiet (s.worker.processEvent messageId false)
            [.acknowledged messageId, .onProcessEvent messageId] rfl (by simp) _⟩
  | other messageId =>
    simp only [channelStep] at hs
    split at hs
    · cases hs
    · obtain rfl := Option.some.inj hs
      exact ⟨h.reader.quiet { s.worker with unknownRx := s.worker.unknownRx + 1 } [] rfl rfl rfl rfl
          rfl (by simp) _,
        h.sender.quiet { s.worker with unknownRx := s.worker.unknownRx + 1 } [] rfl (by simp) _⟩
  | setDiskFull value =>
    obtain rfl := Option.some.inj hs
    exact ⟨h.reader.quiet { s.worker with diskFull := value } [] rfl rfl rfl rfl rfl (by simp)
        s.otherIds,
      h.sender.quiet { s.worker with diskFull := value } [] rfl (by simp) s.otherIds⟩

/-- The sends that ended without a reply but with a success status. -/
def BackupChannel.blank (s : BackupChannel) : List (PostedMessage × SendOutcome) :=
  s.returned.filter fun r => r.2.reply.isNone && ntSuccess r.2.status

/-- What holds of the channel. The entries of the manifest are those of messages of the
driver, in the order in which the reader took them, none for two of its lines. -/
structure ChannelRun (s : BackupChannel) : Prop where
  entries : ((entriesOf s.worker.acts).map BackupEvent.source).Sublist
    (s.accepted.map PostedMessage.source)
  posted : ∀ m ∈ s.accepted, m ∈ s.posted
  apart : Apart s.accepted
  resolved : ∀ r ∈ s.returned, r.2.RepliedZero → Resolved s.worker.acts r.1
  bounded : (s.effects.filter SendEffect.isSent).length ≤
    s.worker.backed + (caughtIds s.worker.acts).length + s.blank.length

theorem Honest.resolved {acts : List WorkerAct} {m : PostedMessage} {o : SendOutcome}
    (h : Honest acts m o.reply) (hcounts : o.counts = true) (hreply : o.reply ≠ none) :
    Resolved acts m := by
  obtain ⟨bytes, hbytes⟩ := Option.ne_none_iff_exists'.mp hreply
  obtain ⟨requestId, status, rfl, hresolved⟩ := h bytes hbytes
  have hzero : replyStatus (writeReply o.reply zeroedReply) = 0 := by
    simpa using (Bool.and_eq_true_iff.mp hcounts).2
  rw [hbytes, replyStatus_bytes] at hzero
  exact hresolved hzero

theorem Honest.resolved_zero {acts : List WorkerAct} {m : PostedMessage} {o : SendOutcome}
    (h : Honest acts m o.reply) (hzero : o.RepliedZero) : Resolved acts m := by
  obtain ⟨bytes, hbytes, -, hz⟩ := hzero
  obtain ⟨requestId, status, rfl, hresolved⟩ := h bytes hbytes
  exact hresolved ((replyStatus_bytes requestId status).mp ((replyStatus_some _).mpr hz))

theorem length_filter_le {α : Type} {p q r : α → Bool}
    (h : ∀ a, p a = true → q a = true ∨ r a = true) (l : List α) :
    (l.filter p).length ≤ (l.filter q).length + (l.filter r).length := by
  induction l with
  | nil => simp
  | cons a l ih =>
    have ha := h a
    cases hp : p a <;> cases hq : q a <;> cases hr : r a <;> simp [hp, hq, hr] at ha ⊢ <;> omega

theorem BackupChannel.Kept.bounded (h : s.Kept up) :
    (s.effects.filter SendEffect.isSent).length ≤
      s.worker.backed + (caughtIds s.worker.acts).length + s.blank.length := by
  have hs := h.sender
  let answered := s.returned.filter fun r => r.2.counts && r.2.reply.isSome
  -- a send that counts is blank or has a reply
  have hsplit : (s.returned.filter fun r => r.2.counts).length ≤ answered.length + s.blank.length := by
    refine length_filter_le (fun r hcounts => ?_) s.returned
    cases hreply : r.2.reply with
    | some bytes => exact Or.inl (by simp [hcounts])
    | none => exact Or.inr (Bool.and_eq_true_iff.mp hcounts).1
  -- each of those with a reply was copied, or lost to an exception
  have hsub : answered.map (fun r => r.1.messageId) ⊆
      copiedOk s.worker.acts ++ caughtIds s.worker.acts := by
    intro messageId hmem
    obtain ⟨r, hr, rfl⟩ := List.mem_map.mp hmem
    obtain ⟨hreturned, hcounts⟩ := List.mem_filter.mp hr
    obtain ⟨hcounts, hreply⟩ := Bool.and_eq_true_iff.mp hcounts
    rcases (hs.returned r hreturned).2.resolved hcounts (Option.isSome_iff_ne_none.mp hreply) with
      ⟨hcopied, -⟩ | hcaught
    · exact List.mem_append_left _ (mem_copiedOk.mpr hcopied)
    · exact List.mem_append_right _ (mem_caughtIds.mpr hcaught)
  have hnodup : (answered.map fun r => r.1.messageId).Nodup := by
    have hmessages : (answered.map Prod.fst).Nodup :=
      hs.nodup.sublist (List.filter_sublist.map Prod.fst)
    have hids : ((answered.map Prod.fst).map PostedMessage.messageId).Nodup := by
      refine hmessages.map_on fun m hm m' hm' hid => ?_
      obtain ⟨r, hr, rfl⟩ := List.mem_map.mp hm
      obtain ⟨r', hr', rfl⟩ := List.mem_map.mp hm'
      exact List.inj_on_of_nodup_map hs.ids (hs.returned r (List.mem_of_mem_filter hr)).1
        (hs.returned r' (List.mem_of_mem_filter hr')).1 hid
    rwa [List.map_map] at hids
  have hle := (hnodup.subperm hsub).length_le
  rw [List.length_map, List.length_append, ← h.reader.backed] at hle
  rw [hs.counted]
  omega

/-- Senders, redelivery and replies in any order: every manifest entry is that of a message
the driver sent and each message is taken in once in 4096, a reply with status 0 means a
copy that is recorded or an exception, and what the driver counts as sent is no more than
the copies, the exceptions and the sends without a reply. -/
theorem backup_channel_runs (s : BackupChannel)
    (h : Reachable (channelStep up n sessionDir) .init s) : ChannelRun s := by
  have hk : s.Kept up := h.invariant (fun _ _ _ hk hs => hk.step hs) BackupChannel.kept_init
  exact ⟨hk.reader.entries, hk.reader.posted, hk.reader.apart,
    fun r hr hzero => (hk.sender.returned r hr).2.resolved_zero hzero, hk.bounded⟩

def sentFile : PostedMessage := ⟨5, 1, doomedFile⟩

/-- The filter manager delivers the message twice before the send returns, and once after. -/
def sentTwice : List ChannelAction :=
  [.send (.sync doomedFile) timedOut 5, .deliver sentFile 40 0 zeroedBuffer quietDelivery,
    .deliver sentFile 40 0 zeroedBuffer quietDelivery, .finish 0 true,
    .deliver sentFile 40 0 zeroedBuffer quietDelivery]

theorem backup_channel_runs_twice :
    ∃ s, exec (channelStep id asciiNames (text "C:\\S")) .init sentTwice = some s ∧
      (s.worker.backed = 1 ∧ s.worker.dupRx = 2 ∧
        (s.effects.filter SendEffect.isSent).length = 1) ∧ ChannelRun s :=
  have hrun : exec (channelStep id asciiNames (text "C:\\S")) .init sentTwice = some _ := rfl
  ⟨_, hrun, ⟨rfl, rfl, rfl⟩, backup_channel_runs _ ⟨sentTwice, hrun⟩⟩

end Runs

end KnFileCatcher

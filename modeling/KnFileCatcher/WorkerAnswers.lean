import KnFileCatcher.WorkerReplies

/-! Which deliveries the worker answers and counts once. The reply is the last thing
it does for a message, and the handler of its loop only counts a failure. -/

namespace KnFileCatcher

open Runs

section Deliveries

def WorkerAct.answers : WorkerAct → Option Ulonglong
  | .replied messageId _ _ | .acknowledged messageId => some messageId
  | _ => none

/-- The replies sent, newest first, by the `MessageId` they carry. -/
def replies (acts : List WorkerAct) : List Ulonglong := acts.filterMap WorkerAct.answers

def BackupWorker.counted (w : BackupWorker) : Nat := w.backed + w.failed + w.refused + w.dupRx

/-- The deliveries that are to be answered. -/
def WorkerAction.deliveries : WorkerAction → List Ulonglong
  | .backup d _ => [d.messageId]
  | .processEvent messageId _ => [messageId]
  | _ => []

variable (n : FileNames) (sessionDir : List Wchar)

/-- A delivery gets one reply with its identifier, and a backup request is counted once. -/
structure AnsweredOnce (w : BackupWorker) (a : WorkerAction) : Prop where
  reply : ∀ w', workerLoop n sessionDir w a = some w' →
    replies w'.acts = a.deliveries ++ replies w.acts
  count : ∀ w', workerLoop n sessionDir w a = some w' → ∀ d env, a = .backup d env →
    w'.counted = w.counted + 1

/-- fltmgr delivered the message before. -/
def Redelivered (w : BackupWorker) (messageId : Ulonglong) : Prop :=
  messageId ≠ 0 ∧ messageId ∈ w.memory.ids

/-- None of what the delivery goes through throws. -/
def NothingThrows (w : BackupWorker) : WorkerAction → Prop
  | .backup d env =>
    Redelivered w d.messageId ∨ (w.diskFull = true ∨ env.copyThrows = false) ∧
      env.manifestThrows = false ∧ env.onBackupThrows = false
  | .processEvent _ throws => throws = false
  | .other _ | .setDiskFull _ => True

end Deliveries

section Steps

/-- Some handling of a message: its replies, and how often it counts. -/
structure Adds (ids : List Ulonglong) (k : Nat) (w w' : BackupWorker) : Prop where
  replies : replies w'.acts = ids ++ replies w.acts
  counted : w'.counted = w.counted + k

variable {n : FileNames} {sessionDir : List Wchar}

theorem adds_finish (w : BackupWorker) (d : BackupDelivery) (env : DeliveryEnv)
    (dest : List Wchar) (status : Win32Error) :
    (env.manifestThrows = false ∧ env.onBackupThrows = false ∧
        Adds [d.messageId] 0 w (w.finish d env dest status)) ∨
      ¬ (env.manifestThrows = false ∧ env.onBackupThrows = false) ∧
        Adds [] 1 w (w.finish d env dest status) := by
  unfold BackupWorker.finish
  cases env.manifestThrows with
  | true =>
    refine .inr ⟨by simp, rfl, ?_⟩
    simp only [if_true, BackupWorker.counted, BackupWorker.catchException]
    omega
  | false =>
    cases env.onBackupThrows with
    | true =>
      refine .inr ⟨by simp, rfl, ?_⟩
      simp only [Bool.false_eq_true, if_true, if_false, BackupWorker.counted,
        BackupWorker.catchException, BackupWorker.act]
      omega
    | false => exact .inl ⟨rfl, rfl, rfl, rfl⟩

theorem Adds.after {ids : List Ulonglong} {j k : Nat} {w w₀ w' : BackupWorker}
    (h : Adds ids k w₀ w') (hr : KnFileCatcher.replies w₀.acts = KnFileCatcher.replies w.acts)
    (hc : w₀.counted = w.counted + j) : Adds ids (j + k) w w' := by
  refine ⟨h.replies.trans (by rw [hr]), ?_⟩
  rw [h.counted, hc, Nat.add_assoc]

/-- A delivery that goes well is answered and counted once. One that throws is not
answered, and it counts at least once. -/
def Delivered (quiet : Prop) (messageId : Ulonglong) (w w' : BackupWorker) : Prop :=
  quiet ∧ Adds [messageId] 1 w w' ∨ ¬ quiet ∧ ∃ k, Adds [] k w w'

theorem adds_copy (w : BackupWorker) (d : BackupDelivery) (env : DeliveryEnv) :
    Delivered (env.copyThrows = false ∧ env.manifestThrows = false ∧ env.onBackupThrows = false)
      d.messageId w (w.copy n sessionDir d env) := by
  unfold BackupWorker.copy
  dsimp only
  cases hthrows : env.copyThrows with
  | true =>
    refine .inr ⟨by simp, 1, rfl, ?_⟩
    simp only [if_true, BackupWorker.counted, BackupWorker.catchException]
    omega
  | false =>
    simp only [Bool.false_eq_true, if_false, true_and]
    have hcounted (r : Win32Error) (files : SessionFiles) :
        (BackupWorker.counted (BackupWorker.act (if r = 0 then
          { w with files := files, backed := w.backed + 1 }
          else { w with files := files, failed := w.failed + 1 }) (.copied d.messageId r))) =
            w.counted + 1 := by
      simp only [BackupWorker.counted, BackupWorker.act]
      split <;> dsimp only <;> omega
    have hreplies (r : Win32Error) (files : SessionFiles) :
        KnFileCatcher.replies (BackupWorker.act (if r = 0 then
          { w with files := files, backed := w.backed + 1 }
          else { w with files := files, failed := w.failed + 1 }) (.copied d.messageId r)).acts =
            KnFileCatcher.replies w.acts := by
      split <;> rfl
    obtain ⟨hm, ho, h⟩ | ⟨hthrow, h⟩ := adds_finish _ d env _ _
    · exact .inl ⟨⟨hm, ho⟩, h.after (hreplies _ _) (hcounted _ _)⟩
    · exact .inr ⟨hthrow, _, h.after (hreplies _ _) (hcounted _ _)⟩

theorem adds_backupRequest {w : BackupWorker} (hw : w.memory.Listed) (d : BackupDelivery)
    (env : DeliveryEnv) :
    Delivered (NothingThrows w (.backup d env)) d.messageId w
      (w.backupRequest n sessionDir d env) := by
  unfold BackupWorker.backupRequest
  obtain ⟨h0, hmem, heq⟩ | ⟨hnew, memory, heq, -⟩ := rememberMsgId_cases hw d.messageId
  · rw [heq]
    refine .inl ⟨.inl ⟨h0, hmem⟩, rfl, ?_⟩
    simp only [BackupWorker.counted, BackupWorker.act]
    omega
  · rw [heq]
    have hquiet : NothingThrows w (.backup d env) ↔ (w.diskFull = true ∨ env.copyThrows = false) ∧
        env.manifestThrows = false ∧ env.onBackupThrows = false := or_iff_right hnew
    dsimp only
    by_cases hfull : w.diskFull = true
    · rw [if_pos hfull, Delivered, hquiet.trans (and_iff_right (.inl hfull))]
      have hcounted : BackupWorker.counted { w with memory := memory, refused := w.refused + 1 } =
          w.counted + 1 := by
        simp only [BackupWorker.counted]
        omega
      obtain ⟨hm, ho, h⟩ | ⟨hthrow, h⟩ := adds_finish
        { w with memory := memory, refused := w.refused + 1 } d env [] errorDiskFull
      · exact .inl ⟨⟨hm, ho⟩, h.after rfl hcounted⟩
      · exact .inr ⟨hthrow, _, h.after rfl hcounted⟩
    · rw [if_neg hfull, Delivered, hquiet, or_iff_right hfull]
      obtain ⟨hquiet', h⟩ | ⟨hthrow, k, h⟩ := @adds_copy n sessionDir { w with memory := memory } d env
      · exact .inl ⟨hquiet', h.replies, h.counted⟩
      · exact .inr ⟨hthrow, k, h.replies, h.counted⟩

theorem Delivered.answered_iff {quiet : Prop} {messageId : Ulonglong} {w w' : BackupWorker}
    (h : Delivered quiet messageId w w') :
    (KnFileCatcher.replies w'.acts = [messageId] ++ KnFileCatcher.replies w.acts ∧
      w'.counted = w.counted + 1) ↔ quiet := by
  obtain ⟨hq, ha⟩ | ⟨hq, k, ha⟩ := h
  · exact ⟨fun _ => hq, fun _ => ⟨ha.replies, ha.counted⟩⟩
  · refine ⟨fun hanswered => ?_, fun hquiet => absurd hquiet hq⟩
    have hlen := congrArg List.length (ha.replies.symm.trans hanswered.1)
    simp at hlen

theorem answeredOnce_iff {w : BackupWorker} (hw : w.memory.Listed) (a : WorkerAction) :
    AnsweredOnce n sessionDir w a ↔ NothingThrows w a := by
  cases a with
  | backup d env =>
    have h := (@adds_backupRequest n sessionDir w hw d env).answered_iff
    rw [← h]
    constructor
    · exact fun ha => ⟨ha.reply _ rfl, ha.count _ rfl d env rfl⟩
    · rintro ⟨hreply, hcount⟩
      refine ⟨?_, ?_⟩
      · rintro w' ⟨⟩
        exact hreply
      · rintro w' ⟨⟩ _ _ _
        exact hcount
  | processEvent messageId throws =>
    cases throws with
    | true =>
      refine ⟨fun ha => ?_, fun h => (by cases h)⟩
      have hnone : KnFileCatcher.replies w.acts = [messageId] ++ KnFileCatcher.replies w.acts :=
        ha.reply (w.processEvent messageId true) rfl
      have hlen := congrArg List.length hnone
      simp at hlen
    | false =>
      refine ⟨fun _ => rfl, fun _ => ⟨?_, ?_⟩⟩
      · rintro w' ⟨⟩
        rfl
      · rintro w' - d env ⟨⟩
  | other messageId =>
    refine ⟨fun _ => trivial, fun _ => ⟨?_, ?_⟩⟩
    · rintro w' ⟨⟩
      rfl
    · rintro w' - d env ⟨⟩
  | setDiskFull value =>
    refine ⟨fun _ => trivial, fun _ => ⟨?_, ?_⟩⟩
    · rintro w' ⟨⟩
      rfl
    · rintro w' - d env ⟨⟩

theorem listed_step {w w' : BackupWorker} {a : WorkerAction} (hw : w.memory.Listed)
    (h : workerLoop n sessionDir w a = some w') : w'.memory.Listed := by
  cases a with
  | backup d env =>
    obtain rfl := Option.some.inj h
    unfold BackupWorker.backupRequest
    obtain ⟨-, -, heq⟩ | ⟨-, memory, heq, hlisted⟩ := rememberMsgId_cases hw d.messageId
    · rw [heq]
      exact hw
    · rw [heq]
      dsimp only
      split
      · have hfull : errorDiskFull = 0 → .copied d.messageId 0 ∈ w.acts :=
          fun h => absurd h (by decide)
        have hsame := handles_finish { w with memory := memory, refused := w.refused + 1 } d env []
          errorDiskFull hfull
        rw [hsame.memory]
        exact hlisted
      · rw [(handles_copy n sessionDir { w with memory := memory } d env).memory]
        exact hlisted
  | processEvent messageId throws =>
    obtain rfl := Option.some.inj h
    cases throws <;> exact hw
  | other messageId =>
    obtain rfl := Option.some.inj h
    exact hw
  | setDiskFull value =>
    obtain rfl := Option.some.inj h
    exact hw

theorem listed_init : BackupWorker.init.memory.Listed :=
  ⟨List.nodup_nil, by simp [BackupWorker.init]⟩

/-- The runs in which every delivery is answered and counted once are those in which
nothing throws. -/
theorem deliveries_answered_once_iff (as : List WorkerAction) :
    Guarded (workerLoop n sessionDir) (AnsweredOnce n sessionDir) .init as ↔
      Guarded (workerLoop n sessionDir) NothingThrows .init as :=
  Guarded.congr (I := fun w => w.memory.Listed) (fun _ _ _ hw h => listed_step hw h)
    (fun _ a hw => answeredOnce_iff hw a) as listed_init

/-- The manifest cannot be written: no reply, and both a success and a failure. -/
def manifestThrows : List WorkerAction :=
  [.backup doomedDelivery { quietDelivery with manifestThrows := true }]

/-- A handler of the process event throws: no reply. -/
def eventThrows : List WorkerAction := [.processEvent 7 true]

theorem exception_leaves_unanswered :
    (∃ w, exec (workerLoop asciiNames (text "C:\\S")) .init manifestThrows = some w ∧
      replies w.acts = [] ∧ w.backed = 1 ∧ w.failed = 1) ∧
    ∃ w, exec (workerLoop asciiNames (text "C:\\S")) .init eventThrows = some w ∧
      w.procEventsRx = 1 ∧ replies w.acts = [] :=
  ⟨⟨_, rfl, rfl, rfl, rfl⟩, ⟨_, rfl, rfl, rfl⟩⟩

end Steps

end KnFileCatcher

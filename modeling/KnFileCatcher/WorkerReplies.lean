import KnFileCatcher.MessageMemory
import KnFileCatcher.Runs

/-! What a reply with status 0 tells the driver. -/

namespace KnFileCatcher

open Runs

/-- The message was copied, or answered with an error of its own, or lost to an
exception. -/
def Handled (acts : List WorkerAct) (messageId : Ulonglong) : Prop :=
  .copied messageId 0 ∈ acts ∨
    (∃ requestId status, status ≠ 0 ∧ .replied messageId requestId status ∈ acts) ∨
    .caught messageId ∈ acts

theorem Handled.mono {acts acts' : List WorkerAct} {messageId : Ulonglong}
    (h : Handled acts messageId) (hsub : acts ⊆ acts') : Handled acts' messageId := by
  rcases h with h | ⟨requestId, status, hne, h⟩ | h
  · exact Or.inl (hsub h)
  · exact Or.inr (Or.inl ⟨requestId, status, hne, hsub h⟩)
  · exact Or.inr (Or.inr (hsub h))

/-- Before every reply with status 0 its message was handled. -/
def ZeroHandled (acts : List WorkerAct) : Prop :=
  ∀ later messageId requestId past, acts = later ++ .replied messageId requestId 0 :: past →
    Handled past messageId

theorem ZeroHandled.cons {acts : List WorkerAct} {a : WorkerAct} (h : ZeroHandled acts)
    (ha : ∀ messageId requestId, a = .replied messageId requestId 0 → Handled acts messageId) :
    ZeroHandled (a :: acts) := by
  intro later messageId requestId past heq
  cases later with
  | nil =>
    obtain ⟨rfl, rfl⟩ := List.cons.inj heq
    exact ha messageId requestId rfl
  | cons b later =>
    obtain ⟨-, rfl⟩ := List.cons.inj heq
    exact h later messageId requestId past rfl

/-- What handling a message does to the acts, once the message is remembered. -/
structure Handles (messageId : Ulonglong) (w w' : BackupWorker) : Prop where
  memory : w'.memory = w.memory
  grows : w.acts ⊆ w'.acts
  zero : ZeroHandled w.acts → ZeroHandled w'.acts
  handled : Handled w'.acts messageId

theorem handles_catchException (w : BackupWorker) (messageId : Ulonglong) :
    Handles messageId w (w.catchException messageId) where
  memory := rfl
  grows := List.subset_cons_self _ _
  zero h := h.cons nofun
  handled := Or.inr (Or.inr List.mem_cons_self)

theorem Handles.after_act {messageId : Ulonglong} {w w' : BackupWorker} {a : WorkerAct}
    (h : Handles messageId (w.act a) w') (ha : ∀ m r, a ≠ .replied m r 0) :
    Handles messageId w w' where
  memory := h.memory
  grows := List.Subset.trans (List.subset_cons_self _ _) h.grows
  zero hz := h.zero (hz.cons fun m r he => absurd he (ha m r))
  handled := h.handled

theorem handles_replied (w : BackupWorker) (messageId requestId : Ulonglong) (status : Win32Error)
    (hcopied : status = 0 → .copied messageId 0 ∈ w.acts) :
    Handles messageId w (w.act (.replied messageId requestId status)) where
  memory := rfl
  grows := List.subset_cons_self _ _
  zero h := h.cons fun m r he => by
    obtain ⟨rfl, -, hstatus⟩ := WorkerAct.replied.inj he
    exact Or.inl (hcopied hstatus)
  handled := by
    by_cases hstatus : status = 0
    · exact Or.inl (List.mem_cons_of_mem _ (hcopied hstatus))
    · exact Or.inr (Or.inl ⟨requestId, status, hstatus, List.mem_cons_self⟩)

theorem Handles.of_eq {messageId : Ulonglong} {w₀ w w' : BackupWorker}
    (h : Handles messageId w₀ w') (hmemory : w₀.memory = w.memory) (hacts : w₀.acts = w.acts) :
    Handles messageId w w' where
  memory := h.memory.trans hmemory
  grows := hacts ▸ h.grows
  zero hz := h.zero (hacts ▸ hz)
  handled := h.handled

theorem handles_finish (w : BackupWorker) (d : BackupDelivery) (env : DeliveryEnv)
    (dest : List Wchar) (status : Win32Error)
    (hcopied : status = 0 → .copied d.messageId 0 ∈ w.acts) :
    Handles d.messageId w (w.finish d env dest status) := by
  unfold BackupWorker.finish
  dsimp only
  split
  · exact handles_catchException w d.messageId
  · refine Handles.after_act (a := .wroteEntry (BackupWorker.event d dest status)) ?_ (by simp)
    split
    · exact handles_catchException _ d.messageId
    · refine Handles.after_act (a := .onBackup (BackupWorker.event d dest status)) ?_ (by simp)
      exact handles_replied _ d.messageId d.req.requestId status fun hstatus =>
        List.mem_cons_of_mem _ (List.mem_cons_of_mem _ (hcopied hstatus))

theorem handles_copy (n : FileNames) (sessionDir : List Wchar) (w : BackupWorker)
    (d : BackupDelivery) (env : DeliveryEnv) :
    Handles d.messageId w (w.copy n sessionDir d env) := by
  unfold BackupWorker.copy
  dsimp only
  split
  · have h := handles_catchException w d.messageId
    exact ⟨h.memory, h.grows, h.zero, h.handled⟩
  · have hfinish (w₀ : BackupWorker) (hmemory : w₀.memory = w.memory) (hacts : w₀.acts = w.acts)
        (dest : List Wchar) (status : Win32Error) : Handles d.messageId w
          ((w₀.act (.copied d.messageId status)).finish d env dest status) := by
      have hrest : Handles d.messageId (w₀.act (.copied d.messageId status)) _ :=
        handles_finish _ d env dest status fun hstatus => hstatus ▸ List.mem_cons_self
      exact (hrest.after_act (by simp)).of_eq hmemory hacts
    apply hfinish
    · split <;> rfl
    · split <;> rfl

structure BackupWorker.Truthful (w : BackupWorker) : Prop where
  zero : ZeroHandled w.acts
  remembered : ∀ messageId ∈ w.memory.ids, Handled w.acts messageId

theorem truthful_init : BackupWorker.init.Truthful where
  zero later _ _ _ h := by simp [BackupWorker.init] at h
  remembered _ h := absurd h (Finset.notMem_empty _)

/-- Handling keeps the memory truthful; only its own message may be new there. -/
theorem BackupWorker.Truthful.handles {messageId : Ulonglong} {w w₀ w' : BackupWorker}
    (hw : w.Truthful) (h : Handles messageId w₀ w') (hacts : w₀.acts = w.acts)
    (hmemory : ∀ x ∈ w₀.memory.ids, x = messageId ∨ x ∈ w.memory.ids) : w'.Truthful where
  zero := h.zero (hacts ▸ hw.zero)
  remembered x hx := by
    rw [h.memory] at hx
    rcases hmemory x hx with rfl | hx
    · exact h.handled
    · exact (hw.remembered x hx).mono (hacts ▸ h.grows)

variable {n : FileNames} {sessionDir : List Wchar}

theorem BackupWorker.Truthful.backupRequest {w : BackupWorker} (hw : w.Truthful)
    (d : BackupDelivery) (env : DeliveryEnv) : (w.backupRequest n sessionDir d env).Truthful := by
  unfold BackupWorker.backupRequest
  split
  · exact hw.handles (handles_catchException w d.messageId) rfl fun _ hx => Or.inr hx
  · next hdup =>
    have hhandled := hw.remembered _ (rememberMsgId_dup hdup)
    refine ⟨hw.zero.cons fun m r he => ?_, fun x hx => ?_⟩
    · obtain ⟨rfl, -, -⟩ := WorkerAct.replied.inj he
      exact hhandled
    · exact (hw.remembered x hx).mono (List.subset_cons_self _ _)
  · next memory hfresh =>
    have hmemory := rememberMsgId_fresh hfresh
    have hrefused {P : Prop} (h : errorDiskFull = 0) : P := absurd h (by decide)
    dsimp only
    split
    · exact hw.handles (handles_finish _ d env [] errorDiskFull hrefused) rfl hmemory
    · exact hw.handles (handles_copy n sessionDir _ d env) rfl hmemory

theorem BackupWorker.Truthful.processEvent {w : BackupWorker} (hw : w.Truthful)
    (messageId : Ulonglong) (throws : Bool) : (w.processEvent messageId throws).Truthful := by
  unfold BackupWorker.processEvent
  dsimp only
  split
  · refine ⟨hw.zero.cons (by simp), fun x hx => ?_⟩
    exact (hw.remembered x hx).mono (List.subset_cons_self _ _)
  · refine ⟨(hw.zero.cons (by simp)).cons (by simp), fun x hx => ?_⟩
    exact (hw.remembered x hx).mono
      (List.Subset.trans (List.subset_cons_self _ _) (List.subset_cons_self _ _))

theorem BackupWorker.Truthful.step {w w' : BackupWorker} {a : WorkerAction} (hw : w.Truthful)
    (hs : workerLoop n sessionDir w a = some w') : w'.Truthful := by
  cases a with
  | backup d env =>
    obtain rfl := Option.some.inj hs
    exact hw.backupRequest d env
  | processEvent messageId throws =>
    obtain rfl := Option.some.inj hs
    exact hw.processEvent messageId throws
  | other messageId =>
    obtain rfl := Option.some.inj hs
    exact ⟨hw.zero, hw.remembered⟩
  | setDiskFull value =>
    obtain rfl := Option.some.inj hs
    exact ⟨hw.zero, hw.remembered⟩

/-- A reply with status 0 follows a successful copy for its message, or repeats the
answer to a message that was answered with an error or lost to an exception. -/
theorem zero_reply_handled (w : BackupWorker)
    (h : Reachable (workerLoop n sessionDir) .init w) (later past : List WorkerAct)
    (messageId requestId : Ulonglong)
    (hacts : w.acts = later ++ .replied messageId requestId 0 :: past) :
    .copied messageId 0 ∈ past ∨
      (∃ requestId' status, status ≠ 0 ∧ .replied messageId requestId' status ∈ past) ∨
      .caught messageId ∈ past := by
  have hw : w.Truthful := h.invariant (fun _ _ _ hi hs => hi.step hs) truthful_init
  exact hw.zero later messageId requestId past hacts

section Runs

def doomedDelivery : BackupDelivery where
  messageId := 5
  req := ⟨knFcMsgBackupRequest, 52, 1, 8, 8, 0, 6, 4⟩
  srcNt := text "\\a"

def quietDelivery : DeliveryEnv := ⟨copied [], false, false, false⟩

def copiedRun : List WorkerAction := [.backup doomedDelivery quietDelivery]

theorem zero_reply_handled_copied :
    ∃ w past, exec (workerLoop asciiNames (text "C:\\S")) .init copiedRun = some w ∧
      w.acts = .replied 5 1 0 :: past ∧ Handled past 5 :=
  ⟨_, _, rfl, rfl, zero_reply_handled (n := asciiNames) _ ⟨copiedRun, rfl⟩ [] _ _ _ rfl⟩

/-- The disk is full when the message comes, and the message comes again. -/
def refusedRun : List WorkerAction :=
  [.setDiskFull true, .backup doomedDelivery quietDelivery, .backup doomedDelivery quietDelivery]

def refusedEvent : BackupEvent := BackupWorker.event doomedDelivery [] errorDiskFull

theorem refused_then_zero_reply :
    ∃ w, exec (workerLoop asciiNames (text "C:\\S")) .init refusedRun = some w ∧
      .replied 5 1 0 ∈ w.acts ∧ ∀ status, .copied 5 status ∉ w.acts := by
  refine ⟨_, rfl, List.mem_cons_self, fun status => ?_⟩
  have hne : .copied 5 status ∉ [WorkerAct.replied 5 1 0, .replied 5 1 errorDiskFull,
      .onBackup refusedEvent, .wroteEntry refusedEvent] := by simp
  exact hne

end Runs

end KnFileCatcher

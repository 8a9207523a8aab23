import KnFileCatcher.HandleHistory

/-! When the content of a file is sent before the file system can delete it. -/

namespace KnFileCatcher

open FlagBits

/-- The request is sent inside `knFcPreCleanup`, and nothing is left to the post callback. -/
def SentSync (up : Wchar → Wchar) (env : PreCleanupEnv) (shc : KnfcShc) : Prop :=
  (∃ r, (knFcPreCleanup up env shc).calls = [.sendSync r]) ∧
    (knFcPreCleanup up env shc).completion = none

theorem sentSync_iff {up : Wchar → Wchar} {env : PreCleanupEnv} {shc : KnfcShc}
    {name : UnicodeString} (hback : flagOn shc.flags knfcShcBackedUp = false)
    (hname : knFcResolveFinalName env shc = some name)
    (hx : (knFcExcludeMatches up env.exclude name).1 = false) (hsafe : env.passiveSafe = true) :
    SentSync up env shc ↔ deletesAtCleanup env shc.history = true := by
  have h := preCleanup_eq hback hname hx
  have hcalls : (knFcPreCleanup up env shc).calls = _ := congrArg Prod.fst h
  have hcompletion : (knFcPreCleanup up env shc).completion = _ := congrArg Prod.snd h
  obtain ⟨hm, hd⟩ := reconcile_history env shc
  rw [SentSync, hcalls, hcompletion, flagOn_mask_or, hm, hd, hsafe]
  cases deletesAtCleanup env shc.history with
  | true => simp
  | false => cases shc.history.modified <;> simp

/-- Whatever happened on the handle, only its history decides. -/
theorem sentSync_run_iff {up : Wchar → Wchar} {cenv : PostCreateEnv} {d : CreateData}
    {shc : KnfcShc} (hc : knFcPostCreate cenv d = some shc) {events : List HandleEvent}
    {env : PreCleanupEnv} (hsafe : env.passiveSafe = true) {name : UnicodeString}
    (hname : knFcResolveFinalName env (runEvents shc events) = some name)
    (hx : (knFcExcludeMatches up env.exclude name).1 = false) :
    SentSync up env (runEvents shc events) ↔
      deletesAtCleanup env (historyOf d events) = true := by
  have hi := installed_of_postCreate hc
  obtain ⟨hsame, hhist⟩ := hi.runEvents events
  rw [sentSync_iff (hsame.backedUp.trans hi.backedUp) hname hx hsafe, hhist]

/-- A disposition request was observed, and the query finds no delete pending. -/
def Overridden (env : PreCleanupEnv) (events : List HandleEvent) : Prop :=
  (∃ e ∈ events, e.undisturbed = true ∧ e.disposition.isSome = true) ∧
    ∃ fsi, env.answer = some fsi ∧ fsi.deletePending = false

theorem deletesAtCleanup_iff_not_overridden {d : CreateData} (hd : d.deletesOnClose = true)
    (events : List HandleEvent) (env : PreCleanupEnv) :
    deletesAtCleanup env (historyOf d events) = true ↔ ¬ Overridden env events := by
  have hdoc : (historyOf d events).deleteOnClose = true := by
    rw [historyOf, hd]
    exact foldl_deleteOnClose events _ hd
  rw [Overridden, ← observed_iff d]
  unfold deletesAtCleanup
  cases ha : env.answer with
  | none => simp [hdoc]
  | some fsi => cases (historyOf d events).observed <;> simp [hdoc]

/-- The cleanup of a delete-on-close handle sends synchronously exactly when no
observed disposition request lets the query override the open. -/
theorem deleteOnClose_sent_iff (up : Wchar → Wchar) {cenv : PostCreateEnv} {d : CreateData}
    {shc : KnfcShc} (hc : knFcPostCreate cenv d = some shc) (hd : d.deletesOnClose = true)
    (events : List HandleEvent) {env : PreCleanupEnv} (hsafe : env.passiveSafe = true)
    {name : UnicodeString} (hname : knFcResolveFinalName env (runEvents shc events) = some name)
    (hx : (knFcExcludeMatches up env.exclude name).1 = false) :
    SentSync up env (runEvents shc events) ↔ ¬ Overridden env events := by
  rw [sentSync_run_iff hc hsafe hname hx]
  exact deletesAtCleanup_iff_not_overridden hd events env

def openToDelete : CreateData := ⟨some 0x00010000, 0x01001000, statusSuccess⟩

def doomedHandle : KnfcShc where
  ownerPid := writerPid
  rootPid := writerPid
  flags := knfcShcDeleteOnClose ||| knfcShcWriteIntent ||| knfcShcModified
  deleteDispositionObserved := false
  deleteOnCloseAtCreate := true
  originalName := writtenFile
  currentName := .empty

theorem deleteOnClose_sent_unrequested :
    SentSync id (quietCleanup (some ⟨0, false⟩)) (runEvents doomedHandle []) ↔
      ¬ Overridden (quietCleanup (some ⟨0, false⟩)) [] :=
  deleteOnClose_sent_iff id
    (show knFcPostCreate openerEnv openToDelete = some doomedHandle by decide) (by decide) [] rfl
    (show knFcResolveFinalName _ _ = some writtenFile by decide) (by decide)

/-- `DeleteFile = FALSE`, which the file system accepts and ignores. -/
def cancelDelete : HandleEvent :=
  .setInformation true ⟨.disposition, 1, some ⟨true, 0, 0⟩⟩
    ⟨false, statusSuccess, true, false, none, true⟩

theorem cancelled_delete_is_queued :
    knFcPostCreate openerEnv openToDelete = some doomedHandle ∧
      (quietCleanup (some ⟨0, false⟩)).passiveSafe = true ∧
      knFcResolveFinalName (quietCleanup (some ⟨0, false⟩)) (runEvents doomedHandle [cancelDelete]) =
        some writtenFile ∧
      (knFcExcludeMatches id knFcExcludeInitialize writtenFile).1 = false ∧
      ¬ SentSync id (quietCleanup (some ⟨0, false⟩)) (runEvents doomedHandle [cancelDelete]) := by
  refine ⟨by decide, rfl, by decide, by decide, ?_⟩
  rintro ⟨⟨r, hr⟩, -⟩
  have hnone : (knFcPreCleanup id (quietCleanup (some ⟨0, false⟩))
      (runEvents doomedHandle [cancelDelete])).calls = [] := by decide
  rw [hnone] at hr
  cases hr

end KnFileCatcher

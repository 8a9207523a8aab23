import KnFileCatcher.HandleHistory

/-! Creates that made or replaced a file, told by their result, and whether the
cleanup of the handle captures it. The callbacks never read that result. -/

namespace KnFileCatcher

open FlagBits

inductive KprocessorMode where
  | kernelMode
  | userMode
deriving DecidableEq

/-- Whether the create gets a post callback. -/
def knFcPreCreate : KprocessorMode → Bool
  | .kernelMode => false
  | .userMode => true

def createCallbacks (mode : KprocessorMode) (env : PostCreateEnv) (d : CreateData) :
    Option KnfcShc :=
  if knFcPreCreate mode then knFcPostCreate env d else none

section Results

def fileOpenIf : Ulong := 3

def fileSuperseded : Nat := 0
def fileCreated : Nat := 2
def fileOverwritten : Nat := 3

/-- A successful create by a tracked process for which nothing fails, and whose
`IoStatus.Information` says that there is a new or an emptied file. -/
structure TrackedCreate where
  env : PostCreateEnv
  data : CreateData
  information : Nat
  success : ntSuccess data.status = true
  notReparse : data.status ≠ statusReparse
  tracked : (knFcTrackIsTracked env.table env.caller).isSome = true
  contextAlloc : env.contextAlloc = true
  attached : ntSuccess env.setStatus = true
  changes : information = fileSuperseded ∨ information = fileCreated ∨
    information = fileOverwritten

/-- The results of this kind that each disposition can have. -/
def changingResults (dispo : Ulong) : List Nat :=
  if dispo = fileSupersede then [fileSuperseded, fileCreated]
  else if dispo = fileCreate then [fileCreated]
  else if dispo = fileOpenIf then [fileCreated]
  else if dispo = fileOverwrite then [fileOverwritten]
  else if dispo = fileOverwriteIf then [fileOverwritten, fileCreated]
  else []

/-- Among the creates that can make or replace a file, the driver misses one disposition. -/
theorem creates_iff_not_openIf {d : CreateData} {information : Nat}
    (h : information ∈ changingResults d.dispo) : d.creates = true ↔ d.dispo ≠ fileOpenIf := by
  have hcreates : d.creates = true ↔ d.dispo = fileCreate ∨ d.dispo = fileSupersede ∨
      d.dispo = fileOverwrite ∨ d.dispo = fileOverwriteIf := by
    simp [CreateData.creates, or_assoc]
  rw [hcreates]
  constructor
  · intro hc ho
    rw [ho] at hc
    revert hc
    decide
  · intro ho
    by_cases hs : d.dispo = fileSupersede
    · exact Or.inr (Or.inl hs)
    by_cases hc : d.dispo = fileCreate
    · exact Or.inl hc
    by_cases hw : d.dispo = fileOverwrite
    · exact Or.inr (Or.inr (Or.inl hw))
    by_cases hwi : d.dispo = fileOverwriteIf
    · exact Or.inr (Or.inr (Or.inr hwi))
    simp [changingResults, hs, hc, ho, hw, hwi] at h

end Results

section Capture

/-- Whatever is done on the handle, and also when nothing is, its cleanup makes one request. -/
def CapturedAtCleanup (shc : KnfcShc) : Prop :=
  ∀ (up : Wchar → Wchar) (env : PreCleanupEnv) (events : List HandleEvent) (name : UnicodeString),
    env.completionAlloc = true → knFcResolveFinalName env (runEvents shc events) = some name →
    (knFcExcludeMatches up env.exclude name).1 = false →
    ∃ call, cleanupCalls up env false (runEvents shc events) = [call] ∧ call.request.path = name

def TrackedCreate.Captured (c : TrackedCreate) : Prop :=
  ∃ shc, createCallbacks .userMode c.env c.data = some shc ∧
    flagOn shc.flags knfcShcModified = true ∧ CapturedAtCleanup shc

theorem decideWriteIntent_intent {d : CreateData}
    (h : d.creates = true ∨ d.deletesOnClose = true) :
    flagOn (knFcDecideWriteIntent d) knfcShcWriteIntent = true := by
  unfold knFcDecideWriteIntent
  rw [flagOn_opts]
  revert h
  cases flagOn (d.desiredAccess.getD 0) writeAccess <;> cases d.creates <;>
    cases d.deletesOnClose <;> decide

theorem TrackedCreate.postCreate_isSome (c : TrackedCreate) (hdrain : c.env.draining = false)
    (hintent : flagOn (knFcDecideWriteIntent c.data) knfcShcWriteIntent = true) :
    ∃ shc, knFcPostCreate c.env c.data = some shc := by
  obtain ⟨⟨rootPid, flags⟩, htracked⟩ := Option.isSome_iff_exists.mp c.tracked
  unfold knFcPostCreate
  simp [hdrain, c.success, c.notReparse, htracked, hintent, c.contextAlloc, c.attached]

theorem postCreate_draining {env : PostCreateEnv} (h : env.draining = true) (d : CreateData) :
    knFcPostCreate env d = none := by
  simp [knFcPostCreate, h]

/-- No callback on the handle takes the mark back. -/
theorem modified_runEvents {shc : KnfcShc} (h : flagOn shc.flags knfcShcModified = true)
    (events : List HandleEvent) :
    flagOn (runEvents shc events).flags knfcShcModified = true := by
  have hb := (becomes_runEvents events shc).2
  have hm := foldl_modified shc.deleteOnCloseAtCreate events shc.history
  rw [← hb] at hm
  change (runEvents shc events).history.modified = true
  rw [hm, show shc.history.modified = true from h, Bool.true_or]

theorem capturedAtCleanup_of_modified {shc : KnfcShc}
    (hback : flagOn shc.flags knfcShcBackedUp = false)
    (hmod : flagOn shc.flags knfcShcModified = true) : CapturedAtCleanup shc := by
  intro up env events name halloc hname hx
  have hsame := (becomes_runEvents events shc).1
  have hm := (reconcile_history env (runEvents shc events)).1
  have hon : flagOn (reconcile env (runEvents shc events) (runEvents shc events).flags).1
      (knfcShcModified ||| knfcShcDeleteOnClose) = true := by
    rw [flagOn_mask_or, hm, show (runEvents shc events).history.modified = true from
      modified_runEvents hmod events, Bool.true_or]
  rw [cleanupCalls_eq (hsame.backedUp.trans hback) hname hx halloc, if_pos hon]
  refine ⟨_, rfl, ?_⟩
  split <;> rfl

/-- The file is captured exactly if the request, not the result, names one of the four
creating dispositions or asks for deletion on close. -/
theorem captured_iff_creating_disposition (c : TrackedCreate) :
    c.Captured ↔
      c.env.draining = false ∧ (c.data.creates = true ∨ c.data.deletesOnClose = true) := by
  constructor
  · rintro ⟨shc, hshc, hmod, -⟩
    have hpost : knFcPostCreate c.env c.data = some shc := hshc
    refine ⟨?_, ?_⟩
    · cases hdrain : c.env.draining with
      | false => rfl
      | true =>
        rw [postCreate_draining hdrain] at hpost
        cases hpost
    · have hh := congrArg HandleHistory.modified (installed_of_postCreate hpost).history
      have hm : (c.data.creates || c.data.deletesOnClose) = true := hh.symm.trans hmod
      exact (Bool.or_eq_true _ _).mp hm
  · rintro ⟨hdrain, hcreates⟩
    obtain ⟨shc, hshc⟩ := c.postCreate_isSome hdrain (decideWriteIntent_intent hcreates)
    have hi := installed_of_postCreate hshc
    have hmod : flagOn shc.flags knfcShcModified = true :=
      (congrArg HandleHistory.modified hi.history).trans ((Bool.or_eq_true _ _).mpr hcreates)
    exact ⟨shc, hshc, hmod, capturedAtCleanup_of_modified hi.backedUp hmod⟩

end Capture

section OpenIf

/-! A tracked process opens a missing file with `FILE_OPEN_IF` and closes it. -/

def openIfCreate : TrackedCreate where
  env := openerEnv
  data := ⟨some 0x00000002, 0x03000000, statusSuccess⟩
  information := fileCreated
  success := by decide
  notReparse := by decide
  tracked := by decide
  contextAlloc := rfl
  attached := by decide
  changes := Or.inr (Or.inl rfl)

theorem created_by_openIf_not_captured :
    createCallbacks .userMode openIfCreate.env openIfCreate.data = some openedHandle ∧
      cleanupCalls id (quietCleanup none) false openedHandle = [] ∧ ¬ openIfCreate.Captured := by
  have hinstalled : createCallbacks .userMode openIfCreate.env openIfCreate.data =
      some openedHandle := by decide
  refine ⟨hinstalled, by decide, ?_⟩
  rintro ⟨shc, hshc, hmod, -⟩
  obtain rfl := Option.some.inj (hinstalled.symm.trans hshc)
  revert hmod
  decide

end OpenIf

end KnFileCatcher

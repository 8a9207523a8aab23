import KnFileCatcher.Cleanup

/-! What happened on a handle, told without flag bits, and what its cleanup
makes of it. -/

namespace KnFileCatcher

open FlagBits

/-- An operation on a handle, at the run of its last callback. -/
inductive HandleEvent where
  | write (env : PostWriteEnv)
  | setInformation (alloc : Bool) (d : SetFileInformation) (env : PostSetInformationEnv)
  | acquireForSection (protect : Ulong)

def HandleEvent.run (shc : KnfcShc) : HandleEvent → KnfcShc
  | .write env => knFcPostWrite env shc
  | .setInformation alloc d env =>
    match knFcPreSetInformation alloc d with
    | none => shc
    | some actions => knFcPostSetInformation env actions shc
  | .acquireForSection protect => knFcPreAcquireForSection protect shc

/-- Neither draining nor out of memory for its completion block. -/
def HandleEvent.undisturbed : HandleEvent → Bool
  | .write env => !env.draining
  | .setInformation alloc _ env => alloc && !env.draining
  | .acquireForSection _ => true

def SetFileInformation.modifies (d : SetFileInformation) : Bool :=
  match d.fileInformationClass with
  | .endOfFile | .allocation | .validDataLength | .rename | .renameEx => true
  | _ => false

def SetFileInformation.disposition (d : SetFileInformation) : Option Bool :=
  match d.fileInformationClass, d.infoBuffer with
  | .disposition, some buffer =>
    if sizeofDispositionInformation ≤ d.length.toNat ∧ buffer.readable = true then
      some (decide (buffer.deleteFile ≠ 0))
    else none
  | .dispositionEx, some buffer =>
    if sizeofDispositionInformationEx ≤ d.length.toNat ∧ buffer.readable = true then
      some (flagOn buffer.dispositionFlags fileDispositionDelete)
    else none
  | _, _ => none

def HandleEvent.modifies : HandleEvent → Bool
  | .write env => ntSuccess env.status && decide (env.information ≠ 0)
  | .setInformation _ d env => ntSuccess env.status && d.modifies
  | .acquireForSection protect => flagOn protect writableProtection

def HandleEvent.disposition : HandleEvent → Option Bool
  | .setInformation _ d env => if ntSuccess env.status then d.disposition else none
  | _ => none

def CreateData.deletesOnClose (d : CreateData) : Bool := flagOn d.options fileDeleteOnClose

structure HandleHistory where
  modified : Bool
  deleteOnClose : Bool
  observed : Bool
deriving DecidableEq

def HandleHistory.create (d : CreateData) : HandleHistory where
  modified := d.creates || d.deletesOnClose
  deleteOnClose := d.deletesOnClose
  observed := false

/-- Whether the handle still wants its file deleted. A request to clear the
disposition has no effect on a delete-on-close open. -/
def intentAfter (atCreate intent : Bool) : Option Bool → Bool
  | some true => true
  | some false => intent && atCreate
  | none => intent

def HandleHistory.next (atCreate : Bool) (h : HandleHistory) (e : HandleEvent) : HandleHistory :=
  if e.undisturbed then
    { modified := h.modified || e.modifies
      deleteOnClose := intentAfter atCreate h.deleteOnClose e.disposition
      observed := h.observed || e.disposition.isSome }
  else h

def KnfcShc.history (shc : KnfcShc) : HandleHistory where
  modified := flagOn shc.flags knfcShcModified
  deleteOnClose := flagOn shc.flags knfcShcDeleteOnClose
  observed := shc.deleteDispositionObserved

section Actions

structure ActionsSay (actions : Ulong) (modifies : Bool) (disposition : Option Bool) : Prop where
  modifies : flagOn actions knfcSetinfoMarkModified = modifies
  sets : flagOn actions knfcSetinfoSetDelete = decide (disposition = some true)
  clears : flagOn actions knfcSetinfoClearDelete = decide (disposition = some false)

/-- The five sets of actions there are. -/
inductive ActionsCase : Ulong → Bool → Option Bool → Prop where
  | nothing : ActionsCase 0 false none
  | modified : ActionsCase knfcSetinfoMarkModified true none
  | renamed : ActionsCase (knfcSetinfoMarkModified ||| knfcSetinfoCaptureRename) true none
  | deletes : ActionsCase knfcSetinfoSetDelete false (some true)
  | keeps : ActionsCase knfcSetinfoClearDelete false (some false)

theorem ActionsCase.say {actions : Ulong} {modifies : Bool} {disposition : Option Bool}
    (h : ActionsCase actions modifies disposition) : ActionsSay actions modifies disposition := by
  cases h <;> exact ⟨by decide, by decide, by decide⟩

theorem dispositionActions_case (size : Nat) (deletes : InfoBuffer → Bool)
    (d : SetFileInformation) :
    ActionsCase (dispositionActions size deletes d) false
      (d.infoBuffer.bind fun buffer =>
        if size ≤ d.length.toNat ∧ buffer.readable = true then some (deletes buffer) else none) := by
  unfold dispositionActions
  cases d.infoBuffer with
  | none => exact .nothing
  | some buffer =>
    by_cases hl : d.length.toNat < size
    · simpa [hl, Nat.not_le.mpr hl] using ActionsCase.nothing
    · cases hr : buffer.readable with
      | false => simpa [hl, hr] using ActionsCase.nothing
      | true =>
        cases hd : deletes buffer with
        | false => simpa [hl, Nat.not_lt.mp hl, hr, hd] using ActionsCase.keeps
        | true => simpa [hl, Nat.not_lt.mp hl, hr, hd] using ActionsCase.deletes

theorem actions_case (d : SetFileInformation) :
    ActionsCase (knFcGetSetInformationActions d) d.modifies d.disposition := by
  unfold knFcGetSetInformationActions SetFileInformation.modifies SetFileInformation.disposition
  cases d.fileInformationClass with
  | disposition =>
    have h := dispositionActions_case sizeofDispositionInformation
      (fun b => decide (b.deleteFile ≠ 0)) d
    cases hb : d.infoBuffer <;> simpa [hb] using h
  | dispositionEx =>
    have h := dispositionActions_case sizeofDispositionInformationEx
      (fun b => flagOn b.dispositionFlags fileDispositionDelete) d
    cases hb : d.infoBuffer <;> simpa [hb] using h
  | endOfFile => exact .modified
  | allocation => exact .modified
  | validDataLength => exact .modified
  | rename => exact .renamed
  | renameEx => exact .renamed
  | other => exact .nothing

theorem actions_say (d : SetFileInformation) :
    ActionsSay (knFcGetSetInformationActions d) d.modifies d.disposition :=
  (actions_case d).say

end Actions

section Refinement

structure SameHandle (shc shc' : KnfcShc) : Prop where
  ownerPid : shc'.ownerPid = shc.ownerPid
  rootPid : shc'.rootPid = shc.rootPid
  atCreate : shc'.deleteOnCloseAtCreate = shc.deleteOnCloseAtCreate
  backedUp : flagOn shc'.flags knfcShcBackedUp = flagOn shc.flags knfcShcBackedUp

theorem SameHandle.refl (shc : KnfcShc) : SameHandle shc shc := ⟨rfl, rfl, rfl, rfl⟩

theorem SameHandle.trans {a b c : KnfcShc} (h : SameHandle a b) (h' : SameHandle b c) :
    SameHandle a c :=
  ⟨h'.ownerPid.trans h.ownerPid, h'.rootPid.trans h.rootPid, h'.atCreate.trans h.atCreate,
    h'.backedUp.trans h.backedUp⟩

/-- The handle stays, and its history becomes `h`. -/
def Becomes (shc shc' : KnfcShc) (h : HandleHistory) : Prop := SameHandle shc shc' ∧ shc'.history = h

theorem becomes_set (shc : KnfcShc) {m : Ulong} (hb : flagOn m knfcShcBackedUp = false) :
    Becomes shc { shc with flags := shc.flags ||| m }
      { shc.history with
        modified := shc.history.modified || flagOn m knfcShcModified
        deleteOnClose := shc.history.deleteOnClose || flagOn m knfcShcDeleteOnClose } :=
  ⟨⟨rfl, rfl, rfl, by simp [hb]⟩, by simp [KnfcShc.history]⟩

theorem becomes_modified (shc : KnfcShc) :
    Becomes shc { shc with flags := shc.flags ||| knfcShcModified }
      { shc.history with modified := true } := by
  have hm : flagOn knfcShcModified knfcShcModified = true := by decide
  have hd : flagOn knfcShcModified knfcShcDeleteOnClose = false := by decide
  simpa [hm, hd] using becomes_set shc (m := knfcShcModified) (by decide)

theorem becomes_renamed (shc : KnfcShc) :
    Becomes shc { shc with flags := shc.flags ||| knfcShcRenamed } shc.history := by
  have hm : flagOn knfcShcRenamed knfcShcModified = false := by decide
  have hd : flagOn knfcShcRenamed knfcShcDeleteOnClose = false := by decide
  simpa [hm, hd] using becomes_set shc (m := knfcShcRenamed) (by decide)

@[simp] theorem deleteOnClose_modified : flagOn knfcShcDeleteOnClose knfcShcModified = false := by
  decide

@[simp] theorem deleteOnClose_self : flagOn knfcShcDeleteOnClose knfcShcDeleteOnClose = true := by
  decide

@[simp] theorem clearDelete_modified (f : Ulong) :
    flagOn (f &&& ~~~knfcShcDeleteOnClose) knfcShcModified = flagOn f knfcShcModified :=
  flagOn_clear_of_disjoint (by decide)

theorem becomes_postSafe (env : PostSetInformationEnv) (shc : KnfcShc) :
    Becomes shc (knFcPostSetInformationSafe env shc) shc.history := by
  unfold knFcPostSetInformationSafe knFcShcSetCurrentName
  repeat' split
  all_goals exact ⟨⟨rfl, rfl, rfl, rfl⟩, rfl⟩

theorem becomes_disposition {actions : Ulong} {modifies : Bool} {disposition : Option Bool}
    (h : ActionsSay actions modifies disposition) (shc : KnfcShc) :
    Becomes shc (applyDisposition actions shc)
      { shc.history with
        deleteOnClose :=
          intentAfter shc.deleteOnCloseAtCreate shc.history.deleteOnClose disposition
        observed := shc.history.observed || disposition.isSome } := by
  have hb : flagOn knfcShcDeleteOnClose knfcShcBackedUp = false := by decide
  have hcb : flagOn (shc.flags &&& ~~~knfcShcDeleteOnClose) knfcShcBackedUp =
      flagOn shc.flags knfcShcBackedUp := flagOn_clear_of_disjoint (by decide)
  unfold applyDisposition
  rw [h.sets, h.clears]
  rcases disposition with _ | _ | _
  · exact ⟨by simp [SameHandle.refl], by simp [KnfcShc.history, intentAfter]⟩
  · cases ha : shc.deleteOnCloseAtCreate with
    | false =>
      refine ⟨⟨rfl, rfl, ?_, ?_⟩, ?_⟩
      · simp [ha]
      · simp [hcb]
      · simp [KnfcShc.history, intentAfter]
    | true =>
      refine ⟨⟨rfl, rfl, ?_, ?_⟩, ?_⟩
      · simp [ha]
      · simp
      · simp [KnfcShc.history, intentAfter]
  · refine ⟨⟨rfl, rfl, rfl, ?_⟩, ?_⟩
    · simp [hb]
    · simp [KnfcShc.history, intentAfter]

theorem Becomes.then {a b c : KnfcShc} {h h' : HandleHistory} (hab : Becomes a b h)
    (hbc : Becomes b c h') : Becomes a c h' :=
  ⟨hab.1.trans hbc.1, hbc.2⟩

theorem next_of_idle {atCreate : Bool} {h : HandleHistory} {e : HandleEvent}
    (hm : e.modifies = false) (hd : e.disposition = none) : h.next atCreate e = h := by
  unfold HandleHistory.next
  split
  · simp [hm, hd, intentAfter]
  · rfl

theorem becomes_self {shc : KnfcShc} {h : HandleHistory} (hh : h = shc.history) :
    Becomes shc shc h :=
  ⟨.refl shc, hh.symm⟩

theorem becomes_postSetInformation (d : SetFileInformation) {env : PostSetInformationEnv}
    (hdrain : env.draining = false) (hsuccess : ntSuccess env.status = true) (shc : KnfcShc) :
    Becomes shc (knFcPostSetInformation env (knFcGetSetInformationActions d) shc)
      (shc.history.next shc.deleteOnCloseAtCreate (.setInformation true d env)) := by
  have hs := actions_say d
  have hmark : Becomes shc
      (if flagOn (knFcGetSetInformationActions d) knfcSetinfoMarkModified then
        { shc with flags := shc.flags ||| knfcShcModified } else shc)
      { shc.history with modified := shc.history.modified || d.modifies } := by
    rw [hs.modifies]
    cases d.modifies with
    | false => exact becomes_self (by simp)
    | true => simpa using becomes_modified shc
  have hdisp := hmark.then (becomes_disposition hs _)
  have hrename (b : KnfcShc) : Becomes b
      (if flagOn (knFcGetSetInformationActions d) knfcSetinfoCaptureRename then
        let shc := { b with flags := b.flags ||| knfcShcRenamed }
        if env.atMostApcLevel || env.deferred then knFcPostSetInformationSafe env shc else shc
      else b) b.history := by
    split
    · simp only
      split
      · have hsafe := becomes_postSafe env { b with flags := b.flags ||| knfcShcRenamed }
        have hren := becomes_renamed b
        exact ⟨hren.1.trans hsafe.1, hsafe.2.trans hren.2⟩
      · exact becomes_renamed b
    · exact becomes_self rfl
  have hall := hdisp.then (hrename _)
  simp only [knFcPostSetInformation, hdrain, hsuccess, Bool.false_eq_true, if_false, Bool.not_true]
  refine ⟨hall.1, hall.2.trans (hdisp.2.trans ?_)⟩
  simp only [hmark.2, hmark.1.atCreate, HandleHistory.next, HandleEvent.undisturbed, hdrain,
    HandleEvent.modifies, HandleEvent.disposition, hsuccess, Bool.not_false, Bool.and_true,
    Bool.true_and, if_true]

theorem becomes_setInformation (alloc : Bool) (d : SetFileInformation)
    (env : PostSetInformationEnv) (shc : KnfcShc) :
    Becomes shc (HandleEvent.run shc (.setInformation alloc d env))
      (shc.history.next shc.deleteOnCloseAtCreate (.setInformation alloc d env)) := by
  simp only [HandleEvent.run, knFcPreSetInformation]
  by_cases h0 : knFcGetSetInformationActions d = 0
  · have hs := actions_say d
    rw [h0] at hs
    have hm : d.modifies = false := by simpa using hs.modifies.symm
    have hd : d.disposition = none := by
      have h1 := hs.sets
      have h2 := hs.clears
      cases hdd : d.disposition with
      | none => rfl
      | some b => cases b <;> simp [hdd] at h1 h2
    rw [if_pos h0]
    refine becomes_self (next_of_idle ?_ ?_)
    · simp [HandleEvent.modifies, hm]
    · simp [HandleEvent.disposition, hd]
  · rw [if_neg h0]
    cases alloc with
    | false => exact becomes_self rfl
    | true =>
      simp only [Bool.not_true, Bool.false_eq_true, if_false]
      cases hdrain : env.draining with
      | true =>
        simp only [knFcPostSetInformation, hdrain, if_true]
        exact becomes_self (by simp [HandleHistory.next, HandleEvent.undisturbed, hdrain])
      | false =>
        cases hsuccess : ntSuccess env.status with
        | true => exact becomes_postSetInformation d hdrain hsuccess shc
        | false =>
          simp only [knFcPostSetInformation, hdrain, hsuccess, Bool.false_eq_true, if_false,
            Bool.not_false, if_true]
          exact becomes_self (next_of_idle (by simp [HandleEvent.modifies, hsuccess])
            (by simp [HandleEvent.disposition, hsuccess]))

theorem becomes_run (e : HandleEvent) (shc : KnfcShc) :
    Becomes shc (HandleEvent.run shc e) (shc.history.next shc.deleteOnCloseAtCreate e) := by
  cases e with
  | setInformation alloc d env => exact becomes_setInformation alloc d env shc
  | write env =>
    simp only [HandleEvent.run, knFcPostWrite]
    cases hdrain : env.draining with
    | true => exact becomes_self (by simp [HandleHistory.next, HandleEvent.undisturbed, hdrain])
    | false =>
      cases hm : HandleEvent.modifies (.write env) with
      | false =>
        have hm' : (ntSuccess env.status && decide (env.information ≠ 0)) = false := hm
        rw [Bool.not_false, Bool.true_and, hm']
        exact becomes_self (next_of_idle hm rfl)
      | true =>
        have hm' : (ntSuccess env.status && decide (env.information ≠ 0)) = true := hm
        rw [Bool.not_false, Bool.true_and, hm']
        simpa [HandleHistory.next, HandleEvent.undisturbed, hdrain, hm, HandleEvent.disposition,
          intentAfter]
          using becomes_modified shc
  | acquireForSection protect =>
    simp only [HandleEvent.run, knFcPreAcquireForSection]
    cases hm : flagOn protect writableProtection with
    | false => exact becomes_self (next_of_idle hm rfl)
    | true =>
      simpa [HandleHistory.next, HandleEvent.undisturbed, HandleEvent.modifies, hm,
        HandleEvent.disposition, intentAfter] using becomes_modified shc

def runEvents (shc : KnfcShc) (events : List HandleEvent) : KnfcShc :=
  events.foldl HandleEvent.run shc

theorem becomes_runEvents (events : List HandleEvent) (shc : KnfcShc) :
    Becomes shc (runEvents shc events)
      (events.foldl (HandleHistory.next shc.deleteOnCloseAtCreate) shc.history) := by
  induction events generalizing shc with
  | nil => exact becomes_self rfl
  | cons e events ih =>
    have he := becomes_run e shc
    have hr := ih (e.run shc)
    rw [he.1.atCreate, he.2] at hr
    exact he.then hr

end Refinement

section Create

structure Installed (env : PostCreateEnv) (d : CreateData) (shc : KnfcShc) : Prop where
  ownerPid : shc.ownerPid = env.caller
  rootPid : (knFcTrackIsTracked env.table env.caller).map Prod.fst = some shc.rootPid
  atCreate : shc.deleteOnCloseAtCreate = d.deletesOnClose
  backedUp : flagOn shc.flags knfcShcBackedUp = false
  history : shc.history = .create d

theorem flagOn_opts (d : CreateData) : flagOn d.opts fileDeleteOnClose = d.deletesOnClose := by
  have h : d.options &&& 0x00FFFFFF &&& fileDeleteOnClose = d.options &&& fileDeleteOnClose := by
    rw [BitVec.and_assoc]
    rfl
  rw [CreateData.opts, CreateData.deletesOnClose, flagOn, flagOn, h]

theorem decideWriteIntent_flags (d : CreateData) :
    flagOn (knFcDecideWriteIntent d) knfcShcModified = (d.creates || d.deletesOnClose) ∧
      flagOn (knFcDecideWriteIntent d) knfcShcDeleteOnClose = d.deletesOnClose ∧
      flagOn (knFcDecideWriteIntent d) knfcShcBackedUp = false := by
  unfold knFcDecideWriteIntent
  rw [flagOn_opts]
  cases flagOn (d.desiredAccess.getD 0) writeAccess <;> cases d.creates <;>
    cases d.deletesOnClose <;> decide

theorem installed_of_postCreate {env : PostCreateEnv} {d : CreateData} {shc : KnfcShc}
    (h : knFcPostCreate env d = some shc) : Installed env d shc := by
  obtain ⟨hm, hd, hb⟩ := decideWriteIntent_flags d
  unfold knFcPostCreate at h
  split at h
  · cases h
  split at h
  · cases h
  split at h
  · cases h
  split at h
  · cases h
  next rootPid flags htracked =>
    simp only at h
    split at h
    · cases h
    split at h
    · cases h
    split at h
    · obtain rfl := Option.some.inj h
      rw [captureOriginalName_frame]
      refine ⟨rfl, by rw [htracked]; rfl, rfl, hb, ?_⟩
      simp only [KnfcShc.history, HandleHistory.create, hm, hd]
    · cases h

def historyOf (d : CreateData) (events : List HandleEvent) : HandleHistory :=
  events.foldl (HandleHistory.next d.deletesOnClose) (.create d)

theorem Installed.runEvents {env : PostCreateEnv} {d : CreateData} {shc : KnfcShc}
    (h : Installed env d shc) (events : List HandleEvent) :
    Becomes shc (runEvents shc events) (historyOf d events) := by
  have hb := becomes_runEvents events shc
  rwa [h.atCreate, h.history] at hb

theorem foldl_modified (atCreate : Bool) (events : List HandleEvent) (h : HandleHistory) :
    (events.foldl (HandleHistory.next atCreate) h).modified =
      (h.modified || events.any fun e => e.undisturbed && e.modifies) := by
  induction events generalizing h with
  | nil => simp
  | cons e events ih =>
    rw [List.foldl_cons, ih, List.any_cons]
    cases he : e.undisturbed <;> simp [HandleHistory.next, he, Bool.or_assoc]

theorem foldl_observed (atCreate : Bool) (events : List HandleEvent) (h : HandleHistory) :
    (events.foldl (HandleHistory.next atCreate) h).observed =
      (h.observed || events.any fun e => e.undisturbed && e.disposition.isSome) := by
  induction events generalizing h with
  | nil => simp
  | cons e events ih =>
    rw [List.foldl_cons, ih, List.any_cons]
    cases he : e.undisturbed <;> simp [HandleHistory.next, he, Bool.or_assoc]

theorem observed_iff (d : CreateData) (events : List HandleEvent) :
    (historyOf d events).observed = true ↔
      ∃ e ∈ events, e.undisturbed = true ∧ e.disposition.isSome = true := by
  rw [historyOf, foldl_observed]
  simp [HandleHistory.create]

theorem foldl_deleteOnClose_of_unobserved (atCreate : Bool) (events : List HandleEvent)
    (h : HandleHistory) (ho : (events.foldl (HandleHistory.next atCreate) h).observed = false) :
    (events.foldl (HandleHistory.next atCreate) h).deleteOnClose = h.deleteOnClose := by
  induction events generalizing h with
  | nil => rfl
  | cons e events ih =>
    refine (ih _ ho).trans ?_
    have hnone := foldl_observed atCreate events (h.next atCreate e)
    rw [← List.foldl_cons, ho] at hnone
    cases he : e.undisturbed with
    | false => simp [HandleHistory.next, he]
    | true =>
      have hd : e.disposition = none := by
        simp only [HandleHistory.next, he, if_true] at hnone
        cases hdis : e.disposition with
        | none => rfl
        | some b => simp [hdis] at hnone
      simp [HandleHistory.next, he, hd, intentAfter]

/-- On a delete-on-close open the wish to delete is never taken back. -/
theorem foldl_deleteOnClose (events : List HandleEvent) (h : HandleHistory)
    (hd : h.deleteOnClose = true) :
    (events.foldl (HandleHistory.next true) h).deleteOnClose = true := by
  induction events generalizing h with
  | nil => exact hd
  | cons e events ih =>
    refine ih _ ?_
    cases he : e.undisturbed with
    | false => simp [HandleHistory.next, he, hd]
    | true =>
      rcases hdis : e.disposition with _ | _ | _ <;>
        simp [HandleHistory.next, he, hd, hdis, intentAfter]

end Create

section Cleanup

def PreCleanupEnv.answer (env : PreCleanupEnv) : Option FileStandardInformation :=
  if env.passiveSafe && !env.topLevelIrp then env.query else none

/-- Whether cleanup treats the file as about to be deleted. -/
def deletesAtCleanup (env : PreCleanupEnv) (h : HandleHistory) : Bool :=
  match env.answer with
  | some fsi => if h.observed then fsi.deletePending else h.deleteOnClose
  | none => h.deleteOnClose

theorem reconcile_history (env : PreCleanupEnv) (shc : KnfcShc) :
    flagOn (reconcile env shc shc.flags).1 knfcShcModified = shc.history.modified ∧
      flagOn (reconcile env shc shc.flags).1 knfcShcDeleteOnClose =
        deletesAtCleanup env shc.history := by
  cases hq : env.passiveSafe && !env.topLevelIrp with
  | false => simp [reconcile, deletesAtCleanup, PreCleanupEnv.answer, hq, KnfcShc.history]
  | true =>
    cases hf : env.query with
    | none => simp [reconcile, deletesAtCleanup, PreCleanupEnv.answer, hq, hf, KnfcShc.history]
    | some fsi =>
      cases ho : shc.deleteDispositionObserved with
      | false =>
        simp [reconcile, deletesAtCleanup, PreCleanupEnv.answer, hq, hf, ho, KnfcShc.history]
      | true =>
        cases hp : fsi.deletePending <;>
          simp [reconcile, deletesAtCleanup, PreCleanupEnv.answer, hq, hf, ho, hp, KnfcShc.history]

/-- A creating disposition, a delete-on-close open, or an operation that modifies. -/
def Modified (d : CreateData) (events : List HandleEvent) : Prop :=
  d.creates = true ∨ d.deletesOnClose = true ∨ ∃ e ∈ events, e.modifies = true

theorem modified_iff {d : CreateData} {events : List HandleEvent}
    (hev : ∀ e ∈ events, e.undisturbed = true) :
    (historyOf d events).modified = true ↔ Modified d events := by
  rw [historyOf, foldl_modified]
  simp only [HandleHistory.create, Bool.or_eq_true, List.any_eq_true, Bool.and_eq_true, Modified,
    or_assoc]
  refine or_congr Iff.rfl (or_congr Iff.rfl ⟨?_, ?_⟩)
  · rintro ⟨e, he, -, hm⟩
    exact ⟨e, he, hm⟩
  · rintro ⟨e, he, hm⟩
    exact ⟨e, he, hev e he, hm⟩

structure Describes (cenv : PostCreateEnv) (env : PreCleanupEnv) (d : CreateData)
    (events : List HandleEvent) (t : KnfcShc) (name : UnicodeString) (r : CleanupRequest) :
    Prop where
  ownerPid : r.ownerPid = cenv.caller
  rootPid : (knFcTrackIsTracked cenv.table cenv.caller).map Prod.fst = some r.rootPid
  path : r.path = name
  flags : r.flags = (reconcile env t t.flags).1
  modified : flagOn r.flags knfcShcModified = (historyOf d events).modified
  deleteOnClose : flagOn r.flags knfcShcDeleteOnClose = deletesAtCleanup env (historyOf d events)

/-- The cleanup of a handle makes exactly one request if the handle was modified
or its file is to be deleted, and none otherwise. -/
theorem one_request_iff_modified (up : Wchar → Wchar) {cenv : PostCreateEnv} {d : CreateData}
    {shc : KnfcShc} (hc : knFcPostCreate cenv d = some shc) {events : List HandleEvent}
    (hev : ∀ e ∈ events, e.undisturbed = true) {env : PreCleanupEnv}
    (halloc : env.completionAlloc = true) {name : UnicodeString}
    (hname : knFcResolveFinalName env (runEvents shc events) = some name)
    (hx : (knFcExcludeMatches up env.exclude name).1 = false) :
    (Modified d events ∨ deletesAtCleanup env (historyOf d events) = true →
      ∃ call, cleanupCalls up env false (runEvents shc events) = [call] ∧
        Describes cenv env d events (runEvents shc events) name call.request) ∧
    (¬ (Modified d events ∨ deletesAtCleanup env (historyOf d events) = true) →
      cleanupCalls up env false (runEvents shc events) = []) := by
  have hi := installed_of_postCreate hc
  obtain ⟨hsame, hhist⟩ := hi.runEvents events
  obtain ⟨hm, hd⟩ := reconcile_history env (runEvents shc events)
  rw [hhist] at hm hd
  have hon : flagOn (reconcile env (runEvents shc events) (runEvents shc events).flags).1
      (knfcShcModified ||| knfcShcDeleteOnClose) = true ↔
        Modified d events ∨ deletesAtCleanup env (historyOf d events) = true := by
    rw [flagOn_mask_or, hm, hd, Bool.or_eq_true, modified_iff hev]
  rw [cleanupCalls_eq (hsame.backedUp.trans hi.backedUp) hname hx halloc]
  constructor
  · intro h
    rw [if_pos (hon.mpr h)]
    refine ⟨_, rfl, ?_⟩
    have hreq : Describes cenv env d events (runEvents shc events) name
        (finalRequest env (runEvents shc events) name) :=
      ⟨hsame.ownerPid.trans hi.ownerPid, hi.rootPid.trans (congrArg some hsame.rootPid.symm), rfl,
        rfl, hm, hd⟩
    split
    · exact hreq
    · exact hreq
  · intro h
    rw [if_neg (mt hon.mp h)]

end Cleanup

section Witness

/-! A tracked process opens a file for writing and writes to it. -/

def writerPid : Handle := 8

def writerTable : KnfcTrackCtx :=
  (knFcTrackInsertLocked .ok { knFcTrackInitialize with active := true } writerPid 4 writerPid
    knFcTrackRoot none).2

def writtenFile : UnicodeString := .inRoot 'f'

def openerEnv : PostCreateEnv where
  draining := false
  caller := writerPid
  table := writerTable
  contextAlloc := true
  name := some writtenFile
  nameAlloc := true
  setStatus := statusSuccess

def openForWriting : CreateData := ⟨some 0x00000002, 0x01000000, statusSuccess⟩

def openedHandle : KnfcShc where
  ownerPid := writerPid
  rootPid := writerPid
  flags := knfcShcWriteIntent
  deleteDispositionObserved := false
  deleteOnCloseAtCreate := false
  originalName := writtenFile
  currentName := .empty

def someWrite : HandleEvent := .write ⟨false, statusSuccess, 5⟩

def quietCleanup (query : Option FileStandardInformation) : PreCleanupEnv where
  passiveLevel := true
  allApcsDisabled := false
  topLevelIrp := false
  nameCopyAlloc := true
  liveName := some writtenFile
  exclude := knFcExcludeInitialize
  query := query
  completionAlloc := true

theorem one_request_of_write :
    ∃ call, cleanupCalls id (quietCleanup none) false (runEvents openedHandle [someWrite]) = [call] ∧
      Describes openerEnv (quietCleanup none) openForWriting [someWrite]
        (runEvents openedHandle [someWrite]) writtenFile call.request :=
  (one_request_iff_modified id
    (show knFcPostCreate openerEnv openForWriting = some openedHandle by decide)
    (by simp [someWrite, HandleEvent.undisturbed]) rfl (by decide) (by decide)).1
    (Or.inl (Or.inr (Or.inr ⟨someWrite, by simp, by decide⟩)))

end Witness

end KnFileCatcher

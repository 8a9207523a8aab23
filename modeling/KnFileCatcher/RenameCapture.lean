import KnFileCatcher.HandleHistory

/-! Several renames on one handle, recorded or not, and the name its cleanup uses. -/

namespace KnFileCatcher

section Captures

def UnicodeString.nonempty (name : UnicodeString) : Option UnicodeString :=
  if name.length > 0 then some name else none

theorem UnicodeString.nonempty_of_pos {name : UnicodeString} (h : name.length > 0) :
    name.nonempty = some name :=
  if_pos h

theorem UnicodeString.nonempty_of_not_pos {name : UnicodeString} (h : ¬ name.length > 0) :
    name.nonempty = none :=
  if_neg h

theorem bind_nonempty_eq_some {answer : Option UnicodeString} {name : UnicodeString}
    (h : answer.bind UnicodeString.nonempty = some name) :
    answer = some name ∧ name.length > 0 := by
  obtain ⟨asked, ha, hn⟩ := Option.bind_eq_some_iff.mp h
  unfold UnicodeString.nonempty at hn
  split at hn
  · next hl =>
    obtain rfl := Option.some.inj hn
    exact ⟨ha, hl⟩
  · cases hn

def SetFileInformation.renames (d : SetFileInformation) : Bool :=
  decide (d.fileInformationClass = .rename) || decide (d.fileInformationClass = .renameEx)

/-- A rename that the file system carried out. -/
def HandleEvent.renames : HandleEvent → Bool
  | .setInformation _ d env => ntSuccess env.status && d.renames
  | _ => false

/-- The name that the post callback can keep: no callback but a draining one stands in
the way, the callback runs at a level or is deferred to one where names can be asked for,
the query gives a name and there is memory for it. -/
def PostSetInformationEnv.recordable (env : PostSetInformationEnv) : Option UnicodeString :=
  if !env.draining && (env.atMostApcLevel || env.deferred) && env.nameAlloc then
    env.name.bind UnicodeString.nonempty
  else none

def HandleEvent.captured : HandleEvent → Option UnicodeString
  | .setInformation alloc d env =>
    if alloc && (ntSuccess env.status && d.renames) then env.recordable else none
  | _ => none

def lastCaptured (events : List HandleEvent) : Option UnicodeString :=
  (events.filterMap HandleEvent.captured).getLast?

/-- What was recorded at the last successful rename. -/
def atLastRename (events : List HandleEvent) : Option UnicodeString :=
  (events.filter HandleEvent.renames).getLast?.bind HandleEvent.captured

theorem lastCaptured_concat (events : List HandleEvent) (e : HandleEvent) :
    lastCaptured (events ++ [e]) = e.captured.or (lastCaptured events) := by
  unfold lastCaptured
  rw [List.filterMap_append, List.getLast?_append]
  cases h : e.captured <;> simp [h]

theorem atLastRename_concat (events : List HandleEvent) (e : HandleEvent) :
    atLastRename (events ++ [e]) = if e.renames then e.captured else atLastRename events := by
  unfold atLastRename
  rw [List.filter_append, List.getLast?_append]
  cases h : e.renames <;> simp [h]

theorem captured_of_not_renames {e : HandleEvent} (h : e.renames = false) : e.captured = none := by
  cases e with
  | write env => rfl
  | acquireForSection protect => rfl
  | setInformation alloc d env =>
    have hr : (ntSuccess env.status && d.renames) = false := h
    simp [HandleEvent.captured, hr]

theorem recordable_length {env : PostSetInformationEnv} {name : UnicodeString}
    (h : env.recordable = some name) : name.length > 0 := by
  unfold PostSetInformationEnv.recordable at h
  split at h
  · exact (bind_nonempty_eq_some h).2
  · cases h

theorem captured_length {e : HandleEvent} {name : UnicodeString} (h : e.captured = some name) :
    name.length > 0 := by
  cases e with
  | write env => cases h
  | acquireForSection protect => cases h
  | setInformation alloc d env =>
    simp only [HandleEvent.captured] at h
    split at h
    · exact recordable_length h
    · cases h

theorem lastCaptured_length {events : List HandleEvent} {name : UnicodeString}
    (h : lastCaptured events = some name) : name.length > 0 := by
  obtain ⟨e, -, he⟩ := List.mem_filterMap.mp (List.mem_of_getLast? h)
  exact captured_length he

/-- A name recorded at the last rename is the last recorded name. -/
theorem lastCaptured_of_atLastRename {events : List HandleEvent} {name : UnicodeString}
    (h : atLastRename events = some name) : lastCaptured events = some name := by
  induction events using List.reverseRecOn with
  | nil => cases h
  | append_singleton events e ih =>
    rw [atLastRename_concat] at h
    rw [lastCaptured_concat]
    cases hr : e.renames with
    | true =>
      rw [hr, if_pos rfl] at h
      rw [h]
      rfl
    | false =>
      rw [hr, if_neg Bool.false_ne_true] at h
      rw [captured_of_not_renames hr, ih h]
      rfl

end Captures

section Names

theorem postSafe_originalName (env : PostSetInformationEnv) (shc : KnfcShc) :
    (knFcPostSetInformationSafe env shc).originalName = shc.originalName := by
  unfold knFcPostSetInformationSafe knFcShcSetCurrentName
  repeat' split
  all_goals rfl

theorem postSafe_currentName (env : PostSetInformationEnv) (shc : KnfcShc) :
    (knFcPostSetInformationSafe env shc).currentName =
      (if env.nameAlloc then env.name.bind UnicodeString.nonempty else none).getD
        shc.currentName := by
  unfold knFcPostSetInformationSafe
  cases env.name with
  | none => simp
  | some name =>
    by_cases hl : name.length > 0
    · have h0 : name.length ≠ 0 := by omega
      cases env.nameAlloc <;>
        simp [knFcShcSetCurrentName, UnicodeString.nonempty_of_pos hl, hl, h0]
    · simp [UnicodeString.nonempty_of_not_pos hl, hl]

theorem applyDisposition_names (actions : Ulong) (shc : KnfcShc) :
    (applyDisposition actions shc).originalName = shc.originalName ∧
      (applyDisposition actions shc).currentName = shc.currentName := by
  unfold applyDisposition
  repeat' split
  all_goals exact ⟨rfl, rfl⟩

theorem captureRename_of_disposition {actions : Ulong} {disposition : Option Bool}
    (h : ActionsCase actions false disposition) :
    FlagBits.flagOn actions knfcSetinfoCaptureRename = false := by
  cases h <;> decide

theorem captureRename_eq (d : SetFileInformation) :
    FlagBits.flagOn (knFcGetSetInformationActions d) knfcSetinfoCaptureRename = d.renames := by
  unfold knFcGetSetInformationActions SetFileInformation.renames
  cases d.fileInformationClass with
  | disposition => exact captureRename_of_disposition (dispositionActions_case _ _ d)
  | dispositionEx => exact captureRename_of_disposition (dispositionActions_case _ _ d)
  | endOfFile => dsimp only; decide
  | allocation => dsimp only; decide
  | validDataLength => dsimp only; decide
  | rename => dsimp only; decide
  | renameEx => dsimp only; decide
  | other => dsimp only; decide

theorem postSetInformation_names (env : PostSetInformationEnv) (d : SetFileInformation)
    (shc : KnfcShc) :
    (knFcPostSetInformation env (knFcGetSetInformationActions d) shc).originalName =
        shc.originalName ∧
      (knFcPostSetInformation env (knFcGetSetInformationActions d) shc).currentName =
        ((HandleEvent.setInformation true d env).captured).getD shc.currentName := by
  have hmark (b : Bool) : (if b then { shc with flags := shc.flags ||| knfcShcModified }
      else shc).originalName = shc.originalName ∧
      (if b then { shc with flags := shc.flags ||| knfcShcModified }
        else shc).currentName = shc.currentName := by
    cases b <;> exact ⟨rfl, rfl⟩
  unfold knFcPostSetInformation
  rw [captureRename_eq]
  simp only [HandleEvent.captured, PostSetInformationEnv.recordable, Bool.true_and]
  cases hdrain : env.draining with
  | true => simp
  | false =>
    cases hsuccess : ntSuccess env.status with
    | false => simp
    | true =>
      cases hr : d.renames with
      | false => simp [applyDisposition_names, hmark]
      | true =>
        cases hlevel : env.atMostApcLevel || env.deferred with
        | false => simp [applyDisposition_names, hmark]
        | true =>
          simp [applyDisposition_names, hmark, postSafe_originalName, postSafe_currentName]

theorem run_names (e : HandleEvent) (shc : KnfcShc) :
    (e.run shc).originalName = shc.originalName ∧
      (e.run shc).currentName = e.captured.getD shc.currentName := by
  cases e with
  | write env =>
    simp only [HandleEvent.run, knFcPostWrite]
    split <;> exact ⟨rfl, rfl⟩
  | acquireForSection protect =>
    simp only [HandleEvent.run, knFcPreAcquireForSection]
    split <;> exact ⟨rfl, rfl⟩
  | setInformation alloc d env =>
    simp only [HandleEvent.run, knFcPreSetInformation]
    by_cases h0 : knFcGetSetInformationActions d = 0
    · have hr : d.renames = false := by
        rw [← captureRename_eq, h0]
        decide
      rw [if_pos h0]
      simp [HandleEvent.captured, hr]
    · rw [if_neg h0]
      cases alloc with
      | false => simp [HandleEvent.captured]
      | true => exact postSetInformation_names env d shc

/-- Of all names recorded on a handle, the last is the one it holds. -/
theorem runEvents_names (shc : KnfcShc) (events : List HandleEvent) :
    (runEvents shc events).originalName = shc.originalName ∧
      (runEvents shc events).currentName = (lastCaptured events).getD shc.currentName := by
  induction events using List.reverseRecOn with
  | nil => exact ⟨rfl, rfl⟩
  | append_singleton events e ih =>
    have hrun : runEvents shc (events ++ [e]) = e.run (runEvents shc events) := by
      simp [runEvents]
    obtain ⟨ho, hc⟩ := run_names e (runEvents shc events)
    rw [hrun, ho, hc, lastCaptured_concat, ih.1, ih.2]
    refine ⟨rfl, ?_⟩
    cases e.captured <;> rfl

end Names

section FinalName

/-- What the live query contributes. -/
def PreCleanupEnv.liveAnswer (env : PreCleanupEnv) : Option UnicodeString :=
  env.liveName.bind UnicodeString.nonempty

/-- The recorded name, if there is memory at cleanup for a copy of it. -/
def copiedName (env : PreCleanupEnv) (events : List HandleEvent) : Option UnicodeString :=
  if env.nameCopyAlloc then lastCaptured events else none

theorem resolveFinalName_or (env : PreCleanupEnv) (shc : KnfcShc) :
    knFcResolveFinalName env shc =
      (if env.nameCopyAlloc then shc.currentName.nonempty else none).or
        (env.liveAnswer.or shc.originalName.nonempty) := by
  unfold knFcResolveFinalName
  simp only
  by_cases hcopy : shc.currentName.length > 0 ∧ env.nameCopyAlloc = true
  · rw [if_pos hcopy, hcopy.2, if_pos rfl, UnicodeString.nonempty_of_pos hcopy.1, Option.some_or]
  · have hnone : (if env.nameCopyAlloc then shc.currentName.nonempty else none) = none := by
      split
      · next halloc => exact UnicodeString.nonempty_of_not_pos fun hl => hcopy ⟨hl, halloc⟩
      · rfl
    rw [if_neg hcopy, hnone, Option.none_or, PreCleanupEnv.liveAnswer]
    cases env.liveName with
    | none => rfl
    | some name =>
      by_cases hl : name.length > 0
      · simp [UnicodeString.nonempty_of_pos hl, hl]
      · rw [Option.bind_some, UnicodeString.nonempty_of_not_pos hl]
        exact if_neg hl

theorem currentName_of_postCreate {cenv : PostCreateEnv} {d : CreateData} {shc : KnfcShc}
    (hc : knFcPostCreate cenv d = some shc) : shc.currentName = .empty := by
  unfold knFcPostCreate at hc
  split at hc
  · cases hc
  split at hc
  · cases hc
  split at hc
  · cases hc
  split at hc
  · cases hc
  simp only at hc
  split at hc
  · cases hc
  split at hc
  · cases hc
  split at hc
  · obtain rfl := Option.some.inj hc
    rw [captureOriginalName_frame]
  · cases hc

/-- The recorded name if it can be copied, else the live one, else that of the create. -/
theorem resolveFinalName_eq {cenv : PostCreateEnv} {d : CreateData} {shc : KnfcShc}
    (hc : knFcPostCreate cenv d = some shc) (env : PreCleanupEnv) (events : List HandleEvent) :
    knFcResolveFinalName env (runEvents shc events) =
      (copiedName env events).or (env.liveAnswer.or shc.originalName.nonempty) := by
  obtain ⟨ho, hcur⟩ := runEvents_names shc events
  have hrecorded : (runEvents shc events).currentName.nonempty = lastCaptured events := by
    rw [hcur, currentName_of_postCreate hc]
    cases hl : lastCaptured events with
    | none => rfl
    | some name => exact UnicodeString.nonempty_of_pos (lastCaptured_length hl)
  rw [resolveFinalName_or, ho, hrecorded, copiedName]

def Renamed (events : List HandleEvent) : Prop := ∃ e ∈ events, e.renames = true

/-- The final name is the one recorded at the last rename, or one got at cleanup. -/
def FinalNameCurrent (env : PreCleanupEnv) (shc : KnfcShc) (events : List HandleEvent) : Prop :=
  ∀ name, knFcResolveFinalName env (runEvents shc events) = some name →
    atLastRename events = some name ∨ env.liveName = some name

/-- No name from before the last rename comes first among those there are to choose from. -/
def NothingStale (env : PreCleanupEnv) (original : UnicodeString) (events : List HandleEvent) :
    Prop :=
  match copiedName env events with
  | some name => (atLastRename events).isSome = true ∨ env.liveName = some name
  | none => env.liveAnswer.isSome = true ∨ original.length = 0 ∨
      atLastRename events = some original

theorem finalNameCurrent_iff {cenv : PostCreateEnv} {d : CreateData} {shc : KnfcShc}
    (hc : knFcPostCreate cenv d = some shc) (env : PreCleanupEnv) (events : List HandleEvent) :
    FinalNameCurrent env shc events ↔ NothingStale env shc.originalName events := by
  unfold FinalNameCurrent NothingStale
  rw [resolveFinalName_eq hc]
  cases hcopy : copiedName env events with
  | some stored =>
    have hlast : lastCaptured events = some stored := by
      unfold copiedName at hcopy
      split at hcopy
      · exact hcopy
      · cases hcopy
    simp only [Option.some_or, Option.some.injEq, forall_eq']
    refine or_congr ⟨fun h => by rw [h]; rfl, fun h => ?_⟩ Iff.rfl
    obtain ⟨name, hname⟩ := Option.isSome_iff_exists.mp h
    have hsame := (lastCaptured_of_atLastRename hname).symm.trans hlast
    rwa [← Option.some.inj hsame]
  | none =>
    cases hlive : env.liveAnswer with
    | some name =>
      have hname : env.liveName = some name := (bind_nonempty_eq_some hlive).1
      simp [hname]
    | none =>
      by_cases hl : shc.originalName.length > 0
      · have h0 : shc.originalName.length ≠ 0 := by omega
        have hne : env.liveName ≠ some shc.originalName := by
          intro h
          rw [PreCleanupEnv.liveAnswer, h, Option.bind_some,
            UnicodeString.nonempty_of_pos hl] at hlive
          cases hlive
        rw [UnicodeString.nonempty_of_pos hl]
        simp [h0, hne]
      · have h0 : shc.originalName.length = 0 := by omega
        rw [UnicodeString.nonempty_of_not_pos hl]
        simp [h0]

/-- After renames, cleanup uses a current name exactly if none that an unrecorded
rename replaced is still held. -/
theorem final_name_after_renames_iff {cenv : PostCreateEnv} {d : CreateData} {shc : KnfcShc}
    (hc : knFcPostCreate cenv d = some shc) (env : PreCleanupEnv) (events : List HandleEvent) :
    (Renamed events → FinalNameCurrent env shc events) ↔
      (Renamed events → NothingStale env shc.originalName events) :=
  imp_congr_right fun _ => finalNameCurrent_iff hc env events

end FinalName

section TwoRenames

def renameTo (name : Option UnicodeString) : HandleEvent :=
  .setInformation true ⟨.rename, 24, none⟩ ⟨false, statusSuccess, true, false, name, true⟩

/-- The name of the second rename cannot be queried. -/
def twoRenames : List HandleEvent := [renameTo (some (.inRoot 'g')), renameTo none]

theorem stale_name_after_two_renames :
    knFcPostCreate openerEnv openForWriting = some openedHandle ∧ Renamed twoRenames ∧
      knFcResolveFinalName { quietCleanup none with liveName := some (.inRoot 'h') }
        (runEvents openedHandle twoRenames) = some (.inRoot 'g') ∧
      ¬ FinalNameCurrent { quietCleanup none with liveName := some (.inRoot 'h') } openedHandle
        twoRenames := by
  have hname : knFcResolveFinalName { quietCleanup none with liveName := some (.inRoot 'h') }
      (runEvents openedHandle twoRenames) = some (.inRoot 'g') := by decide
  refine ⟨by decide, ⟨renameTo none, by simp [twoRenames], by decide⟩, hname, ?_⟩
  intro h
  have hcurrent := h _ hname
  revert hcurrent
  decide

theorem final_name_after_renames_openedHandle :
    (Renamed [renameTo none] → FinalNameCurrent (quietCleanup none) openedHandle [renameTo none]) ↔
      (Renamed [renameTo none] →
        NothingStale (quietCleanup none) openedHandle.originalName [renameTo none]) :=
  final_name_after_renames_iff
    (show knFcPostCreate openerEnv openForWriting = some openedHandle by decide) _ _

end TwoRenames

end KnFileCatcher

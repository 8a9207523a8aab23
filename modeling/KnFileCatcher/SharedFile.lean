import KnFileCatcher.Runs
import KnFileCatcher.DeleteOnClose

/-! Several tracked handles on one file. The delete state belongs to the file, and
the flags to the handles. -/

namespace KnFileCatcher

open Runs FlagBits

structure OpenHandle where
  create : CreateData
  events : List HandleEvent
  shc : KnfcShc

structure SharedFile (H : Type*) where
  deletePending : Bool
  handles : H → Option OpenHandle

def SharedFile.init (H : Type*) : SharedFile H := ⟨false, fun _ => none⟩

inductive FileAction (H : Type*) where
  | create (h : H) (env : PostCreateEnv) (d : CreateData)
  | operate (h : H) (e : HandleEvent)
  | cleanup (h : H) (env : PreCleanupEnv)

/-- A successful query reports the file's own delete state. -/
def QueryReports (deletePending : Bool) (env : PreCleanupEnv) : Prop :=
  ∀ fsi ∈ env.query, fsi.deletePending = deletePending

instance (deletePending : Bool) (env : PreCleanupEnv) :
    Decidable (QueryReports deletePending env) :=
  inferInstanceAs (Decidable (∀ fsi ∈ env.query, _))

section Step

variable {H : Type*} [DecidableEq H]

/-- A disposition request sets the state of the file, whichever handle issues it,
and so does the end of a delete-on-close handle. -/
def fileStep (s : SharedFile H) : FileAction H → Option (SharedFile H)
  | .create h env d =>
    match s.handles h, knFcPostCreate env d with
    | none, some shc =>
      some { s with handles := Function.update s.handles h (some ⟨d, [], shc⟩) }
    | _, _ => none
  | .operate h e =>
    (s.handles h).map fun o =>
      { deletePending := e.disposition.getD s.deletePending
        handles := Function.update s.handles h (some ⟨o.create, o.events ++ [e], e.run o.shc⟩) }
  | .cleanup h env =>
    match s.handles h with
    | some o =>
      if QueryReports s.deletePending env then
        some
          { deletePending := s.deletePending || o.create.deletesOnClose
            handles := Function.update s.handles h none }
      else none
    | none => none

def OpenHandle.Sound (o : OpenHandle) : Prop :=
  ∃ env shc, knFcPostCreate env o.create = some shc ∧ o.shc = runEvents shc o.events

def Sound (s : SharedFile H) : Prop := ∀ h o, s.handles h = some o → o.Sound

omit [DecidableEq H] in
theorem sound_init : Sound (SharedFile.init H) := fun _ _ ho => by cases ho

theorem Sound.update {s : SharedFile H} (hs : Sound s) {h : H} {o? : Option OpenHandle}
    (ho : ∀ o ∈ o?, o.Sound) {deletePending : Bool} :
    Sound ⟨deletePending, Function.update s.handles h o?⟩ := by
  exact (Function.forall_update_iff s.handles fun _ o? => ∀ o, o? = some o → o.Sound).mpr
    ⟨ho, fun h' _ => hs h'⟩

theorem Sound.step {s t : SharedFile H} {a : FileAction H} (hs : Sound s)
    (h : fileStep s a = some t) : Sound t := by
  cases a with
  | create g env d =>
    simp only [fileStep] at h
    split at h
    · next shc _ hc =>
      obtain rfl := Option.some.inj h
      refine hs.update fun o ho => ?_
      obtain rfl := Option.some.inj ho
      exact ⟨env, shc, hc, rfl⟩
    · cases h
  | operate g e =>
    obtain ⟨o, ho, rfl⟩ := Option.map_eq_some_iff.mp h
    obtain ⟨env, shc, hc, hrun⟩ := hs g o ho
    refine hs.update fun o' ho' => ?_
    obtain rfl := Option.some.inj ho'
    refine ⟨env, shc, hc, ?_⟩
    simp only [runEvents, List.foldl_append, List.foldl_cons, List.foldl_nil]
    exact congrArg (HandleEvent.run · e) hrun
  | cleanup g env =>
    simp only [fileStep] at h
    split at h
    · split at h
      · obtain rfl := Option.some.inj h
        exact hs.update fun o ho => by cases ho
      · cases h
    · cases h

/-- The handle itself asked for a deletion or took one back, or was opened for one. -/
def OpenHandle.KnowsDelete (o : OpenHandle) : Prop :=
  o.create.deletesOnClose = true ∨
    ∃ e ∈ o.events, e.undisturbed = true ∧ e.disposition.isSome = true

theorem deletesAtCleanup_of_pending {env : PreCleanupEnv} {fsi : FileStandardInformation}
    (hq : env.answer = some fsi) (hp : fsi.deletePending = true) (o : OpenHandle) :
    deletesAtCleanup env (historyOf o.create o.events) = true ↔ o.KnowsDelete := by
  rw [OpenHandle.KnowsDelete, ← observed_iff o.create, deletesAtCleanup, hq]
  cases ho : (historyOf o.create o.events).observed with
  | true => simp [hp]
  | false =>
    have hd := foldl_deleteOnClose_of_unobserved o.create.deletesOnClose o.events
      (.create o.create) ho
    simpa [historyOf, HandleHistory.create] using hd

/-- In every run, a cleanup that finds the delete pending sends synchronously
exactly when its own handle knows of a delete. -/
theorem pending_delete_sent_iff (up : Wchar → Wchar) {s : SharedFile H}
    (hs : Reachable fileStep (SharedFile.init H) s) {h : H} {o : OpenHandle}
    (ho : s.handles h = some o) {env : PreCleanupEnv} (hsafe : env.passiveSafe = true)
    {fsi : FileStandardInformation} (hq : env.answer = some fsi) (hp : fsi.deletePending = true)
    {name : UnicodeString} (hname : knFcResolveFinalName env o.shc = some name)
    (hx : (knFcExcludeMatches up env.exclude name).1 = false) :
    SentSync up env o.shc ↔ o.KnowsDelete := by
  have hsound : Sound s := hs.invariant (fun _ _ _ hs h => hs.step h) sound_init
  obtain ⟨cenv, shc, hc, hrun⟩ := hsound h o ho
  rw [hrun] at hname ⊢
  rw [sentSync_run_iff hc hsafe hname hx]
  exact deletesAtCleanup_of_pending hq hp o

end Step

section Witness

/-! One handle writes to the file. Another one, opened with `DELETE`, deletes it. -/

def openForDelete : CreateData := ⟨some 0x00010000, 0x01000000, statusSuccess⟩

def requestDelete : HandleEvent :=
  .setInformation true ⟨.disposition, 1, some ⟨true, 1, 0⟩⟩
    ⟨false, statusSuccess, true, false, none, true⟩

def writeThenDelete : List (FileAction Bool) :=
  [.create true openerEnv openForWriting, .create false openerEnv openForDelete,
    .operate true someWrite, .operate false requestDelete]

def deletedFile : SharedFile Bool where
  deletePending := true
  handles h :=
    if h then some ⟨openForWriting, [someWrite], runEvents openedHandle [someWrite]⟩
    else some ⟨openForDelete, [requestDelete], runEvents openedHandle [requestDelete]⟩

theorem exec_writeThenDelete :
    exec fileStep (SharedFile.init Bool) writeThenDelete = some deletedFile := by
  have hw : knFcPostCreate openerEnv openForWriting = some openedHandle := by decide
  have hd : knFcPostCreate openerEnv openForDelete = some openedHandle := by decide
  simp only [writeThenDelete, exec, fileStep, hw, hd, SharedFile.init, Option.bind_some]
  refine congrArg (fun handles => some (SharedFile.mk true handles)) (funext fun h => ?_)
  cases h <;> rfl

theorem pending_delete_sent_by_deleter :
    SentSync id (quietCleanup (some ⟨0, true⟩)) (runEvents openedHandle [requestDelete]) ↔
      OpenHandle.KnowsDelete ⟨openForDelete, [requestDelete],
        runEvents openedHandle [requestDelete]⟩ :=
  pending_delete_sent_iff id (s := deletedFile) ⟨writeThenDelete, exec_writeThenDelete⟩
    (h := false) (o := ⟨openForDelete, [requestDelete], runEvents openedHandle [requestDelete]⟩)
    rfl rfl (show (quietCleanup _).answer = some ⟨0, true⟩ from rfl) rfl
    (show knFcResolveFinalName _ _ = some writtenFile by decide) (by decide)

theorem pending_delete_missed_by_writer :
    ∃ s o, Reachable fileStep (SharedFile.init Bool) s ∧ s.handles true = some o ∧
      flagOn o.shc.flags knfcShcModified = true ∧
      (quietCleanup (some ⟨0, true⟩)).passiveSafe = true ∧
      (quietCleanup (some ⟨0, true⟩)).answer = some ⟨0, true⟩ ∧
      QueryReports s.deletePending (quietCleanup (some ⟨0, true⟩)) ∧
      knFcResolveFinalName (quietCleanup (some ⟨0, true⟩)) o.shc = some writtenFile ∧
      (knFcExcludeMatches id knFcExcludeInitialize writtenFile).1 = false ∧
      ¬ SentSync id (quietCleanup (some ⟨0, true⟩)) o.shc := by
  refine ⟨deletedFile, ⟨openForWriting, [someWrite], runEvents openedHandle [someWrite]⟩,
    ⟨writeThenDelete, exec_writeThenDelete⟩, rfl, by decide, rfl, rfl, by decide, by decide,
    by decide, ?_⟩
  rintro ⟨⟨r, hr⟩, -⟩
  have hnone : (knFcPreCleanup id (quietCleanup (some ⟨0, true⟩))
      (runEvents openedHandle [someWrite])).calls = [] := by decide
  rw [hnone] at hr
  cases hr

end Witness

end KnFileCatcher

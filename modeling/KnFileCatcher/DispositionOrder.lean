import KnFileCatcher.HandleFlagSafety

/-! The delete bit of a handle as the answer to its disposition requests. Where these
complete one after another the last of them decides, unless the open itself was for
delete on close. -/

namespace KnFileCatcher

open FlagBits Runs

section Opened

theorem flags_of_postCreate {env : PostCreateEnv} {d : CreateData} {shc : KnfcShc}
    (h : knFcPostCreate env d = some shc) :
    shc.flags = knFcDecideWriteIntent d ∧ flagOn shc.flags knfcShcWriteIntent = true := by
  unfold knFcPostCreate at h
  split at h
  · cases h
  split at h
  · cases h
  split at h
  · cases h
  split at h
  · cases h
  simp only at h
  split at h
  · cases h
  next hwrite =>
    split at h
    · cases h
    split at h
    · obtain rfl := Option.some.inj h
      rw [captureOriginalName_frame]
      exact ⟨rfl, by simpa using hwrite⟩
    · cases h

theorem decideWriteIntent_created (d : CreateData) :
    (flagOn (knFcDecideWriteIntent d) knfcShcCreated = true →
      flagOn (knFcDecideWriteIntent d) knfcShcModified = true) ∧
    flagOn (knFcDecideWriteIntent d) knfcShcRenamed = false := by
  unfold knFcDecideWriteIntent
  cases flagOn (d.desiredAccess.getD 0) writeAccess <;> cases d.creates <;>
    cases flagOn d.opts fileDeleteOnClose <;> decide

theorem flagsSound_opened {env : PostCreateEnv} {d : CreateData} {shc : KnfcShc}
    (h : knFcPostCreate env d = some shc) : FlagsSound d shc [] := by
  have hi := installed_of_postCreate h
  obtain ⟨hflags, hwrite⟩ := flags_of_postCreate h
  obtain ⟨hm, hd, -⟩ := decideWriteIntent_flags d
  obtain ⟨hc, hr⟩ := decideWriteIntent_created d
  rw [← hflags] at hm hd hc hr
  refine ⟨hi.atCreate, hwrite, hc, by simp [hr], ?_, by simp⟩
  intro hat
  rw [hi.atCreate] at hat
  exact ⟨hd.trans hat, by rw [hm, hat, Bool.or_true]⟩

theorem handleSound_opened {T : Type*} {env : PostCreateEnv} {d : CreateData} {shc : KnfcShc}
    (h : knFcPostCreate env d = some shc) : HandleSound d (.opened T shc) :=
  ⟨flagsSound_opened h, fun _ => stepsSound_nil⟩

end Opened

section Answers

/-- Whether the file is to be deleted after these requests. -/
def wantsDelete (atCreate : Bool) (requests : List Disposition) : Bool :=
  atCreate || requests.getLast?.any fun r => r.deletes

/-- The last request that got through to the post callback decides. -/
def wantedAfter (atCreate : Bool) (requests : List Disposition) : Bool :=
  wantsDelete atCreate (requests.filter fun r => r.handled)

theorem wantedAfter_snoc (atCreate : Bool) (requests : List Disposition) (r : Disposition) :
    wantedAfter atCreate (requests ++ [r]) =
      if r.handled then atCreate || r.deletes else wantedAfter atCreate requests := by
  unfold wantedAfter wantsDelete
  cases hr : r.handled with
  | false => simp [hr]
  | true => simp [hr]

/-- Where an answer stands whose accesses are still to be made: the delete bit is what
it is to be, or it is as it was and the last access puts it right. -/
def Answering (before after : Bool) (steps : List HandleStep) (bit : Bool) : Prop :=
  ((∀ x ∈ steps, x.plain = true) ∧ bit = after) ∨
    bit = before ∧ ∃ pre x, steps = pre ++ [x] ∧ (∀ y ∈ pre, y.plain = true) ∧
      ∀ shc : KnfcShc, flagOn (x.run shc).flags knfcShcDeleteOnClose = after

theorem answering_start (atCreate : Bool) (requests : List Disposition) (r : Disposition) :
    Answering (wantedAfter atCreate requests) (wantedAfter atCreate (requests ++ [r]))
      (answerSteps atCreate r) (wantedAfter atCreate requests) := by
  have hobserve : ∀ y ∈ [HandleStep.observe], y.plain = true := by decide
  rw [wantedAfter_snoc]
  unfold answerSteps
  cases r.handled with
  | false => exact .inl ⟨by simp, rfl⟩
  | true =>
    cases r.deletes with
    | true =>
      have hset (shc : KnfcShc) :
          flagOn (HandleStep.run shc (.or knfcShcDeleteOnClose)).flags knfcShcDeleteOnClose =
            true := by
        simp [HandleStep.run]
      exact .inr ⟨rfl, [.observe], _, rfl, hobserve, by simpa using hset⟩
    | false =>
      cases atCreate with
      | false => exact .inr ⟨rfl, [.observe], _, rfl, hobserve, fun _ => flagOn_clear_self⟩
      | true => exact .inl ⟨hobserve, rfl⟩

theorem Answering.access {before after : Bool} {x : HandleStep} {rest : List HandleStep}
    {shc : KnfcShc}
    (h : Answering before after (x :: rest) (flagOn shc.flags knfcShcDeleteOnClose)) :
    Answering before after rest (flagOn (x.run shc).flags knfcShcDeleteOnClose) := by
  obtain ⟨hplain, hbit⟩ | ⟨hbit, pre, y, heq, hplain, hlast⟩ := h
  · refine .inl ⟨fun y hy => hplain y (List.mem_cons_of_mem x hy), ?_⟩
    exact (run_plain (hplain x List.mem_cons_self)).trans hbit
  · cases pre with
    | nil =>
      obtain ⟨rfl, rfl⟩ : x = y ∧ rest = [] := by simpa using heq
      exact .inl ⟨by simp, hlast shc⟩
    | cons z pre =>
      obtain ⟨rfl, rfl⟩ : x = z ∧ rest = pre ++ [y] := by simpa using heq
      refine .inr ⟨(run_plain (hplain x List.mem_cons_self)).trans hbit, pre, y, rfl, ?_, hlast⟩
      exact fun w hw => hplain w (List.mem_cons_of_mem x hw)

theorem Answering.done {before after bit : Bool} (h : Answering before after [] bit) :
    bit = after := by
  obtain ⟨-, hbit⟩ | ⟨-, pre, x, heq, -⟩ := h
  · exact hbit
  · simp at heq

end Answers

section Order

variable {T : Type*}

/-- The answer a request will get if its post callback runs with `env`. -/
def HandleThread.asks (env : PostSetInformationEnv) : HandleThread → Option Disposition
  | .requested alloc d => dispositionOf alloc d env
  | _ => none

/-- Disposition requests complete one after another. -/
def OneAfterAnother (s : SharedHandle T) : HandleAction T → Prop
  | .postSetInformation t env =>
    ((s.threads t).asks env).isSome = true → ∀ u, (s.threads u).answer = none
  | _ => True

instance OneAfterAnother.decidable [Fintype T] (s : SharedHandle T) (a : HandleAction T) :
    Decidable (OneAfterAnother s a) :=
  match a with
  | .postSetInformation t env =>
    inferInstanceAs (Decidable (((s.threads t).asks env).isSome = true →
      ∀ u, (s.threads u).answer = none))
  | .postWrite _ _ | .preAcquireForSection _ _ | .preCleanup _ _ _ | .preSetInformation _ _ _
  | .step _ => isTrue trivial

/-- The delete bit between and during the answers to disposition requests. -/
structure DeleteFollows (d : CreateData) (s : SharedHandle T) : Prop where
  settled : (∀ t, (s.threads t).answer = none) →
    flagOn s.shc.flags knfcShcDeleteOnClose = wantedAfter d.deletesOnClose s.answered
  answering : ∀ t r, (s.threads t).answer = some r →
    Answering (wantedAfter d.deletesOnClose s.answered)
      (wantedAfter d.deletesOnClose (s.answered ++ [r])) (s.threads t).steps
      (flagOn s.shc.flags knfcShcDeleteOnClose)
  alone : ∀ t u r r', (s.threads t).answer = some r → (s.threads u).answer = some r' → t = u
  plain : ∀ t, (s.threads t).answer = none → ∀ x ∈ (s.threads t).steps, x.plain = true

variable {up : Wchar → Wchar} {d : CreateData} {s s' : SharedHandle T} {a : HandleAction T}

theorem DeleteFollows.others {t : T} {r : Disposition} (h : DeleteFollows d s)
    (ht : (s.threads t).answer = some r) : ∀ u, u ≠ t → (s.threads u).answer = none := by
  intro u hu
  cases hr : (s.threads u).answer with
  | none => rfl
  | some r' => exact absurd (h.alone u t r' r hr ht) hu

/-- Between two answers the bit says what the last request asked for, and while one is
given it says that of the last request or of this one. -/
structure DeleteAnswered (d : CreateData) (s : SharedHandle T) : Prop where
  between : (∀ t, (s.threads t).answer = none) →
    (flagOn s.shc.flags knfcShcDeleteOnClose = true ↔ d.deletesOnClose = true ∨
      ∃ r, (s.answered.filter fun r => r.handled).getLast? = some r ∧ r.deletes = true)
  during : ∀ t r, (s.threads t).answer = some r →
    flagOn s.shc.flags knfcShcDeleteOnClose = wantedAfter d.deletesOnClose s.answered ∨
      flagOn s.shc.flags knfcShcDeleteOnClose = wantedAfter d.deletesOnClose (s.answered ++ [r])

theorem DeleteFollows.answered {d : CreateData} {s : SharedHandle T} (h : DeleteFollows d s) :
    DeleteAnswered d s := by
  constructor
  · intro hall
    rw [h.settled hall, wantedAfter, wantsDelete, Bool.or_eq_true, Option.any_eq_true]
  · intro t r hr
    obtain ⟨-, hbit⟩ | ⟨hbit, -⟩ := h.answering t r hr
    · exact .inr hbit
    · exact .inl hbit

/-- Where no thread answers a disposition request, only the bit matters. -/
theorem DeleteFollows.of_settled (hnone : ∀ t, (s.threads t).answer = none)
    (hplain : ∀ t, ∀ x ∈ (s.threads t).steps, x.plain = true)
    (hbit : flagOn s.shc.flags knfcShcDeleteOnClose = wantedAfter d.deletesOnClose s.answered) :
    DeleteFollows d s := by
  have hno {t : T} {r : Disposition} : (s.threads t).answer ≠ some r := by simp [hnone t]
  exact ⟨fun _ => hbit, fun t r hr => absurd hr hno, fun t u r r' hr => absurd hr hno,
    fun t _ => hplain t⟩

/-- The one thread that answers a disposition request. -/
theorem DeleteFollows.of_answering {t : T} {r : Disposition}
    (hother : ∀ u, u ≠ t → (s.threads u).answer = none)
    (hplain : ∀ u, u ≠ t → ∀ x ∈ (s.threads u).steps, x.plain = true)
    (ht : (s.threads t).answer = some r)
    (h : Answering (wantedAfter d.deletesOnClose s.answered)
      (wantedAfter d.deletesOnClose (s.answered ++ [r])) (s.threads t).steps
      (flagOn s.shc.flags knfcShcDeleteOnClose)) :
    DeleteFollows d s := by
  have hself : ∀ u r', (s.threads u).answer = some r' → u = t := by
    intro u r' hr'
    by_contra hu
    rw [hother u hu] at hr'
    cases hr'
  constructor
  case settled =>
    intro hall
    rw [hall t] at ht
    cases ht
  case answering =>
    intro u r' hr'
    obtain rfl := hself u r' hr'
    obtain rfl : r = r' := Option.some.inj (ht.symm.trans hr')
    exact h
  case alone =>
    intro u v r r' hr hr'
    exact (hself u r hr).trans (hself v r' hr').symm
  case plain =>
    intro u hn
    by_cases hu : u = t
    · subst hu
      rw [hn] at ht
      cases ht
    · exact hplain u hu

theorem deleteFollows_opened {env : PostCreateEnv} {d : CreateData} {shc : KnfcShc}
    (h : knFcPostCreate env d = some shc) : DeleteFollows d (.opened T shc) := by
  refine .of_settled (fun _ => rfl) (fun t x hx => (by cases hx)) ?_
  obtain ⟨-, hd, -⟩ := decideWriteIntent_flags d
  change flagOn shc.flags knfcShcDeleteOnClose = (d.deletesOnClose || false)
  rw [(flags_of_postCreate h).1, hd, Bool.or_false]

variable [DecidableEq T]

/-- A thread that answers no disposition request may change as long as it leaves the
delete bit alone. -/
theorem DeleteFollows.quiet {t : T} {thread : HandleThread} {shc : KnfcShc}
    {performed : List HandleStep} (h : DeleteFollows d s) (hold : (s.threads t).answer = none)
    (hnew : thread.answer = none) (hplain : ∀ x ∈ thread.steps, x.plain = true)
    (hbit : flagOn shc.flags knfcShcDeleteOnClose = flagOn s.shc.flags knfcShcDeleteOnClose) :
    DeleteFollows d { s.setThread t thread with
      shc := shc
      performed := performed } := by
  have hanswer : ∀ u, (Function.update s.threads t thread u).answer = (s.threads u).answer := by
    intro u
    by_cases hu : u = t
    · rw [hu, Function.update_self, hnew, hold]
    · rw [Function.update_of_ne hu]
  have hsame : ∀ u r, (s.threads u).answer = some r →
      Function.update s.threads t thread u = s.threads u := by
    intro u r hr
    refine Function.update_of_ne ?_ thread s.threads
    rintro rfl
    rw [hold] at hr
    cases hr
  constructor
  case settled =>
    intro hall
    exact hbit.trans (h.settled fun u => (hanswer u).symm.trans (hall u))
  case answering =>
    intro u r hr
    have hr' : (s.threads u).answer = some r := (hanswer u).symm.trans hr
    have hu := h.answering u r hr'
    rw [← hsame u r hr', ← hbit] at hu
    exact hu
  case alone =>
    intro u v r r' hr hr'
    exact h.alone u v r r' ((hanswer u).symm.trans hr) ((hanswer v).symm.trans hr')
  case plain =>
    refine update_threads (P := fun thread =>
      thread.answer = none → ∀ x ∈ thread.steps, x.plain = true) (fun _ => hplain) ?_
    exact fun u _ => h.plain u

/-- One thread answers a disposition request; the others wait for none. -/
theorem DeleteFollows.replace {t : T} {thread : HandleThread} {shc : KnfcShc}
    {performed : List HandleStep} {r : Disposition} (h : DeleteFollows d s)
    (hother : ∀ u, u ≠ t → (s.threads u).answer = none) (hnew : thread.answer = some r)
    (hanswering : Answering (wantedAfter d.deletesOnClose s.answered)
      (wantedAfter d.deletesOnClose (s.answered ++ [r])) thread.steps
      (flagOn shc.flags knfcShcDeleteOnClose)) :
    DeleteFollows d { s.setThread t thread with
      shc := shc
      performed := performed } := by
  have hself : Function.update s.threads t thread t = thread := Function.update_self ..
  have hrest {u : T} (hu : u ≠ t) : Function.update s.threads t thread u = s.threads u :=
    Function.update_of_ne hu ..
  refine .of_answering (t := t) (r := r) (fun u hu => ?_) (fun u hu => ?_) ?_ ?_
  · exact (congrArg HandleThread.answer (hrest hu)).trans (hother u hu)
  · have hsteps := h.plain u (hother u hu)
    rwa [← hrest hu] at hsteps
  · exact (congrArg HandleThread.answer hself).trans hnew
  · rwa [← hself] at hanswering

/-- A request is taken up when no other one is being answered. -/
theorem DeleteFollows.enter {t : T} {thread : HandleThread} (hs : HandleSound d s)
    (h : DeleteFollows d s) (hok : OneAfterAnother s a)
    (starts : thread.Starts s.shc.deleteOnCloseAtCreate) (free : (s.threads t).answer = none)
    (answers : thread.answer = none ∨ ∃ env alloc d, a = .postSetInformation t env ∧
      s.threads t = .requested alloc d ∧ thread.answer = dispositionOf alloc d env) :
    DeleteFollows d (s.setThread t thread) := by
  cases hanswer : thread.answer with
  | none => exact h.quiet free hanswer (starts.plain hanswer) rfl
  | some r =>
    obtain hnone | ⟨env, alloc, dsi, rfl, hreq, heq⟩ := answers
    · rw [hanswer] at hnone
      cases hnone
    have hall : ∀ u, (s.threads u).answer = none := by
      refine hok ?_
      rw [hreq]
      change (dispositionOf alloc dsi env).isSome = true
      rw [← heq, hanswer]
      rfl
    refine h.replace (fun u _ => hall u) hanswer ?_
    rw [starts.answers r hanswer, hs.flags.atCreate, h.settled hall]
    exact answering_start _ _ r

theorem DeleteFollows.access {t : T} {x : HandleStep} {rest : List HandleStep}
    {answer : Option Disposition} (h : DeleteFollows d s)
    (running : s.threads t = .running (x :: rest) answer) :
    DeleteFollows d { s.setThread t (.running rest answer) with
      shc := x.run s.shc
      performed := s.performed ++ [x] } := by
  have hold : (s.threads t).answer = answer := by rw [running]; rfl
  have hsteps : (s.threads t).steps = x :: rest := by rw [running]; rfl
  cases answer with
  | none =>
    have hplain := h.plain t hold
    rw [hsteps] at hplain
    exact h.quiet hold rfl (fun y hy => hplain y (List.mem_cons_of_mem x hy))
      (run_plain (hplain x List.mem_cons_self))
  | some r =>
    have hanswering := h.answering t r hold
    rw [hsteps] at hanswering
    exact h.replace (h.others hold) rfl hanswering.access

theorem DeleteFollows.leave {t : T} {answer : Option Disposition} (h : DeleteFollows d s)
    (running : s.threads t = .running [] answer) :
    DeleteFollows d { s.setThread t .idle with answered := s.answered ++ answer.toList } := by
  have hold : (s.threads t).answer = answer := by rw [running]; rfl
  cases answer with
  | none =>
    have hquiet : DeleteFollows d { s.setThread t .idle with
        shc := s.shc
        performed := s.performed } := h.quiet hold rfl (by simp [HandleThread.steps]) rfl
    rw [Option.toList_none, List.append_nil]
    exact hquiet
  | some r =>
    have hanswering := h.answering t r hold
    rw [running] at hanswering
    refine .of_settled ?_ ?_ hanswering.done
    · exact update_threads (P := fun thread => thread.answer = none) rfl (h.others hold)
    · refine update_threads (P := fun thread => ∀ x ∈ thread.steps, x.plain = true)
        (by simp [HandleThread.steps]) fun u hu => ?_
      exact h.plain u (h.others hold u hu)

theorem HandleMove.deleteFollows (hs : HandleSound d s) (h : DeleteFollows d s)
    (hok : OneAfterAnother s a) (hmove : HandleMove s a s') : DeleteFollows d s' := by
  cases hmove with
  | enter _ t thread starts idle free answers => exact h.enter hs hok starts free answers
  | access t x rest answer running => exact h.access running
  | leave t answer running => exact h.leave running

end Order

section Runs

variable {T : Type*} [DecidableEq T] {up : Wchar → Wchar}

/-- Every run of callbacks on a handle that was opened: what the flags say, that no bit
but the delete bit is ever lost, and what the delete bit says. -/
theorem handle_flags_sound {env : PostCreateEnv} {d : CreateData} {shc : KnfcShc}
    (hc : knFcPostCreate env d = some shc) {as : List (HandleAction T)} {s : SharedHandle T}
    (h : exec (handleStep up) (.opened T shc) as = some s) :
    FlagsSound d s.shc s.performed ∧
      (∀ bs s', exec (handleStep up) s bs = some s' → ∀ mask, mask &&& knfcShcDeleteOnClose = 0 →
        s.shc.flags &&& mask = mask → s'.shc.flags &&& mask = mask) ∧
      (Guarded (handleStep up) OneAfterAnother (.opened T shc) as → DeleteAnswered d s) := by
  have hsound := handleSound_opened (T := T) hc
  refine ⟨?_, ?_, ?_⟩
  · exact (exec_invariant (I := HandleSound d) (fun _ _ _ hi ha => (handleMove ha).sound hi)
      h hsound).flags
  · intro bs s' hbs mask hmask hs
    exact exec_invariant (I := fun s => s.shc.flags &&& mask = mask)
      (fun _ _ _ hi ha => handleStep_keeps hmask ha hi) hbs hs
  · intro hg
    have hboth := hg.invariant (I := fun s => HandleSound d s ∧ DeleteFollows d s)
      (fun _ _ _ hi hok ha =>
        ⟨(handleMove ha).sound hi.1, (handleMove ha).deleteFollows hi.1 hi.2 hok⟩)
      h ⟨hsound, deleteFollows_opened hc⟩
    exact hboth.2.answered

def successEnv : PostSetInformationEnv := ⟨false, statusSuccess, true, false, none, true⟩

def deleteRequest (deletes : Bool) : SetFileInformation :=
  ⟨.disposition, 1, some ⟨true, if deletes then 1 else 0, 0⟩⟩

/-- A write of one thread between the accesses of a delete request of the other, which
then takes it back. -/
def deletedAndKept : List (HandleAction Bool) :=
  [.preSetInformation true true (deleteRequest true), .postSetInformation true successEnv,
    .step true, .postWrite false ⟨false, statusSuccess, 5⟩, .step true, .step false, .step true,
    .preSetInformation true true (deleteRequest false), .postSetInformation true successEnv,
    .step true, .step true, .step true]

theorem handle_flags_sound_deletedAndKept :
    ∃ s, exec (handleStep id) (.opened Bool openedHandle) deletedAndKept = some s ∧
      FlagsSound openForWriting s.shc s.performed ∧ DeleteAnswered openForWriting s :=
  have hc : knFcPostCreate openerEnv openForWriting = some openedHandle := by decide
  have hs := handle_flags_sound hc
    (show exec (handleStep id) (.opened Bool openedHandle) deletedAndKept = some _ from rfl)
  ⟨_, rfl, hs.1, hs.2.2 (by decide)⟩

/-- The block for the post callback cannot be allocated, and the successful request to
delete is not seen. -/
def deleteWithoutBlock : List (HandleAction Bool) :=
  [.preSetInformation true false (deleteRequest true), .postSetInformation true successEnv,
    .step true]

theorem delete_request_unseen :
    knFcPostCreate openerEnv openForWriting = some openedHandle ∧
      Guarded (handleStep id) OneAfterAnother (.opened Bool openedHandle) deleteWithoutBlock ∧
      ∃ s, exec (handleStep id) (.opened Bool openedHandle) deleteWithoutBlock = some s ∧
        (∀ t, (s.threads t).answer = none) ∧
        s.answered.getLast?.map (fun r => r.deletes) = some true ∧
        flagOn s.shc.flags knfcShcDeleteOnClose = false :=
  ⟨by decide, by decide, _, rfl, by decide, by decide, by decide⟩

end Runs

end KnFileCatcher

import KnFileCatcher.HandleFlags

/-! What the flag word of a handle says whatever the order of the accesses, and the
delete bit where the disposition requests come one after another. -/

namespace KnFileCatcher

open FlagBits Runs

section Accesses

def HandleStep.sets (m : Ulong) : HandleStep → Bool
  | .or mask => flagOn mask m
  | _ => false

/-- The access leaves the delete bit as it is. -/
def HandleStep.plain : HandleStep → Bool
  | .or mask => !flagOn mask knfcShcDeleteOnClose
  | .clearDelete => false
  | .observe => true
  | .setCurrentName _ _ => true

variable (x : HandleStep) (shc : KnfcShc)

theorem setCurrentName_frame (alloc : Bool) (name : UnicodeString) :
    (knFcShcSetCurrentName alloc shc name).flags = shc.flags ∧
      (knFcShcSetCurrentName alloc shc name).deleteOnCloseAtCreate = shc.deleteOnCloseAtCreate := by
  unfold knFcShcSetCurrentName
  split
  · exact ⟨rfl, rfl⟩
  · split <;> exact ⟨rfl, rfl⟩

@[simp] theorem run_atCreate :
    (x.run shc).deleteOnCloseAtCreate = shc.deleteOnCloseAtCreate := by
  cases x with
  | setCurrentName alloc name => exact (setCurrentName_frame shc alloc name).2
  | _ => rfl

theorem flagOn_run {m : Ulong} (hm : m &&& knfcShcDeleteOnClose = 0) :
    flagOn (x.run shc).flags m = (flagOn shc.flags m || x.sets m) := by
  cases x with
  | or mask => exact flagOn_or _ _ _
  | clearDelete => simpa [HandleStep.run, HandleStep.sets] using flagOn_clear_of_disjoint hm
  | observe => simp [HandleStep.run, HandleStep.sets]
  | setCurrentName alloc name =>
    simp [HandleStep.run, HandleStep.sets, (setCurrentName_frame shc alloc name).1]

variable {x shc}

theorem run_plain (h : x.plain = true) :
    flagOn (x.run shc).flags knfcShcDeleteOnClose = flagOn shc.flags knfcShcDeleteOnClose := by
  cases x with
  | or mask =>
    have hm : flagOn mask knfcShcDeleteOnClose = false := by simpa [HandleStep.plain] using h
    simp [HandleStep.run, hm]
  | clearDelete => cases h
  | observe => rfl
  | setCurrentName alloc name =>
    simp [HandleStep.run, (setCurrentName_frame shc alloc name).1]

theorem run_keepsDelete (h : x ≠ .clearDelete)
    (hd : flagOn shc.flags knfcShcDeleteOnClose = true) :
    flagOn (x.run shc).flags knfcShcDeleteOnClose = true := by
  cases x with
  | or mask => simp [HandleStep.run, hd]
  | clearDelete => exact absurd rfl h
  | observe => exact hd
  | setCurrentName alloc name =>
    simpa [HandleStep.run, (setCurrentName_frame shc alloc name).1] using hd

/-- No access clears anything but the delete bit. -/
theorem run_keeps {m : Ulong} (hm : m &&& knfcShcDeleteOnClose = 0)
    (h : shc.flags &&& m = m) : (x.run shc).flags &&& m = m := by
  cases x with
  | or mask => exact or_and_of_and h
  | clearDelete => exact clear_and_of_and h hm
  | observe => exact h
  | setCurrentName alloc name =>
    simpa [HandleStep.run, (setCurrentName_frame shc alloc name).1] using h

end Accesses

section Callbacks

/-- Every access that sets `RENAMED` comes after one that sets `MODIFIED`. -/
def RenameReady (modified : Bool) : List HandleStep → Prop
  | [] => True
  | x :: rest =>
    (x.sets knfcShcRenamed = true → modified = true) ∧
      RenameReady (modified || x.sets knfcShcModified) rest

theorem RenameReady.mono {m m' : Bool} {steps : List HandleStep} (h : RenameReady m steps)
    (hm : m = true → m' = true) : RenameReady m' steps := by
  induction steps generalizing m m' with
  | nil => trivial
  | cons x rest ih =>
    refine ⟨fun hx => hm (h.1 hx), ih h.2 ?_⟩
    simp only [Bool.or_eq_true]
    exact Or.imp_left hm

/-- What is left of a callback keeps the invariant of the flags. -/
structure StepsSound (atCreate modified : Bool) (steps : List HandleStep) : Prop where
  created : ∀ x ∈ steps, x.sets knfcShcCreated = false
  renamed : RenameReady modified steps
  keepsDelete : atCreate = true → .clearDelete ∉ steps

variable {atCreate modified : Bool}

theorem stepsSound_nil : StepsSound atCreate modified [] := ⟨by simp, trivial, by simp⟩

theorem StepsSound.mono {m' : Bool} {steps : List HandleStep}
    (h : StepsSound atCreate modified steps) (hm : modified = true → m' = true) :
    StepsSound atCreate m' steps :=
  ⟨h.created, h.renamed.mono hm, h.keepsDelete⟩

theorem StepsSound.tail {x : HandleStep} {rest : List HandleStep}
    (h : StepsSound atCreate modified (x :: rest)) :
    StepsSound atCreate (modified || x.sets knfcShcModified) rest :=
  ⟨fun y hy => h.created y (List.mem_cons_of_mem x hy), h.renamed.2,
    fun ha hc => h.keepsDelete ha (List.mem_cons_of_mem x hc)⟩

theorem StepsSound.cons {x : HandleStep} {rest : List HandleStep}
    (hc : x.sets knfcShcCreated = false) (hr : x.sets knfcShcRenamed = true → modified = true)
    (hd : atCreate = true → x ≠ .clearDelete)
    (h : StepsSound atCreate (modified || x.sets knfcShcModified) rest) :
    StepsSound atCreate modified (x :: rest) := by
  refine ⟨?_, ⟨hr, h.renamed⟩, ?_⟩
  · intro y hy
    obtain rfl | hy := List.mem_cons.mp hy
    · exact hc
    · exact h.created y hy
  · intro ha hmem
    obtain heq | hmem := List.mem_cons.mp hmem
    · exact hd ha heq.symm
    · exact h.keepsDelete ha hmem

theorem StepsSound.observe {rest : List HandleStep} (h : StepsSound atCreate modified rest) :
    StepsSound atCreate modified (.observe :: rest) := by
  refine .cons rfl ?_ (fun _ => HandleStep.noConfusion) (h.mono ?_)
  · intro hs
    cases hs
  · intro hm
    rw [hm]
    rfl

/-- An access that sets neither `CREATED` nor `RENAMED` and clears nothing. -/
theorem stepsSound_single {x : HandleStep} (hc : x.sets knfcShcCreated = false)
    (hr : x.sets knfcShcRenamed = false) (hd : x ≠ .clearDelete) :
    StepsSound atCreate modified [x] :=
  .cons hc (by simp [hr]) (fun _ => hd) stepsSound_nil

theorem stepsSound_modified : StepsSound atCreate modified [.or knfcShcModified] :=
  stepsSound_single (by decide) (by decide) HandleStep.noConfusion

theorem postWriteSteps_sound (env : PostWriteEnv) :
    StepsSound atCreate modified (postWriteSteps env) := by
  unfold postWriteSteps
  split
  · exact stepsSound_modified
  · exact stepsSound_nil

theorem preAcquireForSectionSteps_sound (protect : Ulong) :
    StepsSound atCreate modified (preAcquireForSectionSteps protect) := by
  unfold preAcquireForSectionSteps
  split
  · exact stepsSound_modified
  · exact stepsSound_nil

theorem preCleanupSteps_sound (up : Wchar → Wchar) (env : PreCleanupEnv) (view : KnfcShc) :
    StepsSound atCreate modified (preCleanupSteps up env view) := by
  unfold preCleanupSteps
  split
  · exact stepsSound_single (by decide) (by decide) HandleStep.noConfusion
  · exact stepsSound_nil

theorem currentNameSteps_sound (env : PostSetInformationEnv) :
    StepsSound atCreate modified (currentNameSteps env) := by
  unfold currentNameSteps
  split
  · exact stepsSound_nil
  · split
    · exact stepsSound_single rfl rfl HandleStep.noConfusion
    · exact stepsSound_nil

theorem renameSteps_sound (env : PostSetInformationEnv) :
    StepsSound atCreate true (renameSteps env) := by
  refine .cons (by decide) (fun _ => rfl) (fun _ => HandleStep.noConfusion) ?_
  split
  · exact currentNameSteps_sound env
  · exact stepsSound_nil

/-- The accesses for a readable disposition request that succeeded. -/
def answerSteps (atCreate : Bool) (r : Disposition) : List HandleStep :=
  if !r.handled then []
  else if r.deletes then [.observe, .or knfcShcDeleteOnClose]
  else if !atCreate then [.observe, .clearDelete]
  else [.observe]

theorem answerSteps_sound (r : Disposition) :
    StepsSound atCreate modified (answerSteps atCreate r) := by
  unfold answerSteps
  split
  · exact stepsSound_nil
  split
  · exact (stepsSound_single (by decide) (by decide) HandleStep.noConfusion).observe
  split
  · next ha =>
    have hclear : atCreate = true → HandleStep.clearDelete ≠ .clearDelete := by
      intro h
      simp [h] at ha
    exact (StepsSound.cons rfl (by intro h; cases h) hclear stepsSound_nil).observe
  · exact stepsSound_nil.observe

end Callbacks

section Requests

variable {atCreate : Bool} {d : SetFileInformation} {alloc : Bool} {env : PostSetInformationEnv}

/-- What the post callback does, and which disposition it answers by that. -/
inductive PostCase (atCreate : Bool) (env : PostSetInformationEnv) :
    List HandleStep → Option Disposition → Prop where
  | nothing : PostCase atCreate env [] none
  | modified : PostCase atCreate env [.or knfcShcModified] none
  | renamed : PostCase atCreate env (.or knfcShcModified :: renameSteps env) none
  | answered (r : Disposition) : PostCase atCreate env (answerSteps atCreate r) (some r)

theorem postCase_unhandled (disposition : Option Bool) :
    PostCase atCreate env [] (disposition.map fun deletes => ⟨deletes, false⟩) := by
  cases disposition with
  | none => exact .nothing
  | some deletes => exact .answered ⟨deletes, false⟩

theorem postCase_handled {actions : Ulong} {modifies : Bool} {disposition : Option Bool}
    (h : ActionsCase actions modifies disposition) (hdrain : env.draining = false)
    (hsuccess : ntSuccess env.status = true) (atCreate : Bool) :
    PostCase atCreate env (postSetInformationSteps atCreate env actions)
      (disposition.map fun deletes => ⟨deletes, true⟩) := by
  simp only [postSetInformationSteps, hdrain, hsuccess, Bool.false_eq_true, Bool.not_true, if_false]
  cases h with
  | nothing => exact .nothing
  | modified => exact .modified
  | renamed => exact .renamed
  | deletes => exact .answered ⟨true, true⟩
  | keeps => cases atCreate <;> exact .answered ⟨false, true⟩

theorem setInformation_case (atCreate alloc : Bool) (d : SetFileInformation)
    (env : PostSetInformationEnv) :
    PostCase atCreate env (setInformationSteps atCreate alloc d env) (dispositionOf alloc d env) := by
  have h := actions_case d
  unfold setInformationSteps dispositionOf knFcPreSetInformation
  generalize knFcGetSetInformationActions d = actions at h
  have hlost := @postCase_unhandled atCreate env d.disposition
  cases hsuccess : ntSuccess env.status with
  | false =>
    have hsteps (actions : Ulong) : postSetInformationSteps atCreate env actions = [] := by
      simp [postSetInformationSteps, hsuccess]
    simp only [hsteps, Bool.false_eq_true, if_false]
    split <;> exact .nothing
  | true =>
    by_cases h0 : actions = 0
    · simp only [if_pos h0]
      exact hlost
    · cases alloc with
      | false =>
        simp only [if_neg h0]
        exact hlost
      | true =>
        simp only [if_neg h0]
        cases hdrain : env.draining with
        | true => simpa [postSetInformationSteps, hdrain] using hlost
        | false => exact postCase_handled h hdrain hsuccess atCreate

theorem PostCase.sound {steps : List HandleStep} {answer : Option Disposition}
    (h : PostCase atCreate env steps answer) (modified : Bool) :
    StepsSound atCreate modified steps := by
  cases h with
  | nothing => exact stepsSound_nil
  | modified => exact stepsSound_modified
  | renamed =>
    refine .cons (by decide) (fun hs => absurd hs (by decide)) (fun _ => HandleStep.noConfusion) ?_
    exact (renameSteps_sound env).mono fun _ => by
      rw [Bool.or_eq_true]
      exact .inr (by decide)
  | answered r => exact answerSteps_sound r

theorem currentNameSteps_plain (env : PostSetInformationEnv) :
    ∀ x ∈ currentNameSteps env, x.plain = true := by
  unfold currentNameSteps
  split
  · simp
  · split <;> simp [HandleStep.plain]

theorem PostCase.plain {steps : List HandleStep} (h : PostCase atCreate env steps none) :
    ∀ x ∈ steps, x.plain = true := by
  intro x hx
  cases h with
  | nothing => cases hx
  | modified =>
    obtain rfl := List.mem_singleton.mp hx
    decide
  | renamed =>
    obtain rfl | hx := List.mem_cons.mp hx
    · decide
    obtain rfl | hx := List.mem_cons.mp hx
    · decide
    split at hx
    · exact currentNameSteps_plain env x hx
    · cases hx

end Requests

section Threads

def HandleThread.steps : HandleThread → List HandleStep
  | .running steps _ => steps
  | _ => []

def HandleThread.answer : HandleThread → Option Disposition
  | .running _ answer => answer
  | _ => none

/-- What a thread starts with when it enters a callback. -/
structure HandleThread.Starts (atCreate : Bool) (thread : HandleThread) : Prop where
  sound : StepsSound atCreate false thread.steps
  plain : thread.answer = none → ∀ x ∈ thread.steps, x.plain = true
  answers : ∀ r, thread.answer = some r → thread.steps = answerSteps atCreate r

variable {atCreate : Bool}

theorem starts_requested (alloc : Bool) (d : SetFileInformation) :
    (HandleThread.requested alloc d).Starts atCreate :=
  ⟨stepsSound_nil, fun _ x hx => (by cases hx), fun r hr => (by cases hr)⟩

theorem starts_unanswered {steps : List HandleStep} (h : StepsSound atCreate false steps)
    (hp : ∀ x ∈ steps, x.plain = true) : (HandleThread.running steps none).Starts atCreate :=
  ⟨h, fun _ => hp, fun r hr => (by cases hr)⟩

theorem PostCase.starts {env : PostSetInformationEnv} {steps : List HandleStep}
    {answer : Option Disposition} (h : PostCase atCreate env steps answer) :
    (HandleThread.running steps answer).Starts atCreate := by
  refine ⟨h.sound false, ?_, ?_⟩
  · intro hn
    obtain rfl : answer = none := hn
    exact h.plain
  · intro r hr
    obtain rfl : answer = some r := hr
    cases h
    rfl

variable {T : Type*} [DecidableEq T] {up : Wchar → Wchar} {s s' : SharedHandle T}
  {a : HandleAction T}

/-- What a step of the machine can be: a thread enters a callback, makes an access, or
returns. -/
inductive HandleMove (s : SharedHandle T) : HandleAction T → SharedHandle T → Prop where
  | enter (a : HandleAction T) (t : T) (thread : HandleThread)
      (starts : thread.Starts s.shc.deleteOnCloseAtCreate) (idle : (s.threads t).steps = [])
      (free : (s.threads t).answer = none)
      (answers : thread.answer = none ∨ ∃ env alloc d, a = .postSetInformation t env ∧
        s.threads t = .requested alloc d ∧ thread.answer = dispositionOf alloc d env) :
      HandleMove s a (s.setThread t thread)
  | access (t : T) (x : HandleStep) (rest : List HandleStep) (answer : Option Disposition)
      (running : s.threads t = .running (x :: rest) answer) :
      HandleMove s (.step t) { s.setThread t (.running rest answer) with
        shc := x.run s.shc
        performed := s.performed ++ [x] }
  | leave (t : T) (answer : Option Disposition) (running : s.threads t = .running [] answer) :
      HandleMove s (.step t) { s.setThread t .idle with answered := s.answered ++ answer.toList }

theorem SharedHandle.begin_eq_some {t : T} {thread : HandleThread}
    (h : s.begin t thread = some s') : s.threads t = .idle ∧ s' = s.setThread t thread := by
  unfold SharedHandle.begin at h
  split at h
  · next hidle => exact ⟨hidle, (Option.some.inj h).symm⟩
  · cases h

theorem handleMove_begin {t : T} {thread : HandleThread}
    (hstarts : thread.Starts s.shc.deleteOnCloseAtCreate) (hanswer : thread.answer = none)
    (h : s.begin t thread = some s') : HandleMove s a s' := by
  obtain ⟨hidle, rfl⟩ := SharedHandle.begin_eq_some h
  exact .enter a t thread hstarts (by rw [hidle]; rfl) (by rw [hidle]; rfl) (.inl hanswer)

theorem handleMove (h : handleStep up s a = some s') : HandleMove s a s' := by
  cases a with
  | postWrite t env =>
    refine handleMove_begin (starts_unanswered (postWriteSteps_sound env) ?_) rfl h
    unfold postWriteSteps
    split <;> decide
  | preAcquireForSection t protect =>
    refine handleMove_begin (starts_unanswered (preAcquireForSectionSteps_sound protect) ?_) rfl h
    unfold preAcquireForSectionSteps
    split <;> decide
  | preCleanup t env view =>
    refine handleMove_begin (starts_unanswered (preCleanupSteps_sound up env view) ?_) rfl h
    unfold preCleanupSteps
    split <;> decide
  | preSetInformation t alloc d => exact handleMove_begin (starts_requested alloc d) rfl h
  | postSetInformation t env =>
    simp only [handleStep] at h
    split at h
    · next alloc d hreq =>
      obtain rfl := Option.some.inj h
      exact .enter _ t _ (setInformation_case _ alloc d env).starts (by rw [hreq]; rfl)
        (by rw [hreq]; rfl) (.inr ⟨env, alloc, d, rfl, hreq, rfl⟩)
    · cases h
  | step t =>
    simp only [handleStep] at h
    split at h
    · next answer hrun =>
      obtain rfl := Option.some.inj h
      exact .leave t answer hrun
    · next x rest answer hrun =>
      obtain rfl := Option.some.inj h
      exact .access t x rest answer hrun
    · cases h

end Threads

section Invariant

variable {T : Type*} [DecidableEq T] {up : Wchar → Wchar} {d : CreateData} {s s' : SharedHandle T}
  {a : HandleAction T}

/-- The flags of a handle that `d` opened, after the accesses of `performed`. -/
structure FlagsSound (d : CreateData) (shc : KnfcShc) (performed : List HandleStep) : Prop where
  atCreate : shc.deleteOnCloseAtCreate = d.deletesOnClose
  writeIntent : flagOn shc.flags knfcShcWriteIntent = true
  created : flagOn shc.flags knfcShcCreated = true → flagOn shc.flags knfcShcModified = true
  renamed : flagOn shc.flags knfcShcRenamed = true → flagOn shc.flags knfcShcModified = true
  deletes : shc.deleteOnCloseAtCreate = true →
    flagOn shc.flags knfcShcDeleteOnClose = true ∧ flagOn shc.flags knfcShcModified = true
  kept : ∀ mask, .or mask ∈ performed → mask &&& knfcShcDeleteOnClose = 0 →
    shc.flags &&& mask = mask

theorem FlagsSound.access {shc : KnfcShc} {performed : List HandleStep} {x : HandleStep}
    {rest : List HandleStep} (h : FlagsSound d shc performed)
    (hx : StepsSound shc.deleteOnCloseAtCreate (flagOn shc.flags knfcShcModified) (x :: rest)) :
    FlagsSound d (x.run shc) (performed ++ [x]) := by
  have hw := flagOn_run x shc (m := knfcShcWriteIntent) (by decide)
  have hm := flagOn_run x shc (m := knfcShcModified) (by decide)
  have hc := flagOn_run x shc (m := knfcShcCreated) (by decide)
  have hr := flagOn_run x shc (m := knfcShcRenamed) (by decide)
  have hgrows (hold : flagOn shc.flags knfcShcModified = true) :
      flagOn (x.run shc).flags knfcShcModified = true := by
    rw [hm, hold, Bool.true_or]
  constructor
  case atCreate => exact (run_atCreate x shc).trans h.atCreate
  case writeIntent =>
    rw [hw, h.writeIntent, Bool.true_or]
  case created =>
    intro hcreated
    rw [hc, hx.created x List.mem_cons_self, Bool.or_false] at hcreated
    exact hgrows (h.created hcreated)
  case renamed =>
    intro hrenamed
    rw [hr, Bool.or_eq_true] at hrenamed
    -- a callback that sets `RENAMED` has set `MODIFIED` before
    exact hgrows (hrenamed.elim h.renamed hx.renamed.1)
  case deletes =>
    intro hat
    have hat' : shc.deleteOnCloseAtCreate = true := (run_atCreate x shc).symm.trans hat
    have hne : x ≠ .clearDelete := by
      rintro rfl
      exact hx.keepsDelete hat' List.mem_cons_self
    exact ⟨run_keepsDelete hne (h.deletes hat').1, hgrows (h.deletes hat').2⟩
  case kept =>
    intro mask hmem hmask
    obtain hmem | hmem := List.mem_append.mp hmem
    · exact run_keeps hmask (h.kept mask hmem hmask)
    · obtain rfl := List.mem_singleton.mp hmem
      change (shc.flags ||| mask) &&& mask = mask
      rw [BitVec.or_comm]
      exact or_and_of_and BitVec.and_self

structure HandleSound (d : CreateData) (s : SharedHandle T) : Prop where
  flags : FlagsSound d s.shc s.performed
  threads : ∀ t, StepsSound s.shc.deleteOnCloseAtCreate (flagOn s.shc.flags knfcShcModified)
    (s.threads t).steps

theorem update_threads {P : HandleThread → Prop} {t : T} {thread : HandleThread}
    (ht : P thread) (h : ∀ u, u ≠ t → P (s.threads u)) :
    ∀ u, P ((s.setThread t thread).threads u) :=
  (Function.forall_update_iff s.threads fun _ thread => P thread).mpr ⟨ht, h⟩

theorem HandleMove.sound (h : HandleSound d s) (hmove : HandleMove s a s') : HandleSound d s' := by
  cases hmove with
  | enter _ t thread starts _ _ _ =>
    refine ⟨h.flags, update_threads
      (P := fun thread => StepsSound s.shc.deleteOnCloseAtCreate
        (flagOn s.shc.flags knfcShcModified) thread.steps) ?_ fun u _ => h.threads u⟩
    exact starts.sound.mono (by simp)
  | access t x rest answer running =>
    have hx := h.threads t
    rw [running] at hx
    refine ⟨h.flags.access hx, ?_⟩
    have hm := flagOn_run x s.shc (m := knfcShcModified) (by decide)
    simp only [run_atCreate, hm]
    refine update_threads (P := fun thread => StepsSound s.shc.deleteOnCloseAtCreate
      (flagOn s.shc.flags knfcShcModified || x.sets knfcShcModified) thread.steps) hx.tail ?_
    intro u _
    exact (h.threads u).mono fun hold => by rw [hold, Bool.true_or]
  | leave t answer running =>
    exact ⟨h.flags, update_threads
      (P := fun thread => StepsSound s.shc.deleteOnCloseAtCreate
        (flagOn s.shc.flags knfcShcModified) thread.steps) stepsSound_nil fun u _ => h.threads u⟩

theorem handleStep_keeps {m : Ulong} (hm : m &&& knfcShcDeleteOnClose = 0)
    (h : handleStep up s a = some s') (hs : s.shc.flags &&& m = m) : s'.shc.flags &&& m = m := by
  cases handleMove h with
  | enter => exact hs
  | access t x => exact run_keeps hm hs
  | leave => exact hs

end Invariant

end KnFileCatcher

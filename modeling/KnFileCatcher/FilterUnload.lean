import KnFileCatcher.TrackRaces

/-! `knFcFilterUnload` against messages of a client that is still connected. The stop
that the unload makes itself is one more thread of the track calls. -/

namespace KnFileCatcher

open Runs

/-- Where `knFcFilterUnload` is; `trackStop` lasts while its `knFcTrackStop` runs. -/
inductive FilterUnloadPc where
  | notCalled
  | queue
  | callStop
  | trackStop
  | exitDefer
  | deleteLock
  | closePorts
  | unregisterFilter
  | metadata
  | returned
deriving DecidableEq

/-- Thread `none` is the unload; the others are the client's. `misused` records a lock
section entered after the lock was deleted. -/
structure UnloadSystem (T : Type*) where
  track : TrackCalls (Option T)
  unload : FilterUnloadPc
  portsOpen : Bool
  lockDeleted : Bool
  misused : Bool

inductive UnloadAction (T : Type*) where
  | message (t : T) (kind : CallKind)
  | handler (t : T) (env : CallEnv)
  | notify (op : NotifyOp)
  | callback (i : Nat) (env : ClassifyEnv)
  | unload (env : CallEnv)

/-- A step that takes the lock of the table. A lookup reads `Active` first. -/
def CallPc.takesLock (g : KnfcTrackCtx) (env : CallEnv) : CallPc → Bool
  | .snapshot =>
    match env.snap with
    | .lookup pid => g.active && decide (pid ≠ 0)
    | .classify .. => true
    | .finish => false
  | .purge | .dump => true
  | _ => false

def TrackGlobals.callbackTakesLock (g : TrackGlobals) (i : Nat) : Bool :=
  g.callbacks[i]?.any Callback.tested

namespace UnloadSystem

variable {T : Type*}

def init (T : Type*) : UnloadSystem T where
  track := .init (Option T)
  unload := .notCalled
  portsOpen := true
  lockDeleted := false
  misused := false

def withTrack (s : UnloadSystem T) (takesLock : Bool) (track : TrackCalls (Option T)) :
    UnloadSystem T :=
  { s with track, misused := s.misused || (s.lockDeleted && takesLock) }

end UnloadSystem

section Step

variable {T : Type*} [DecidableEq T] (up : Wchar → Wchar)

def knFcFilterUnload (s : UnloadSystem T) (env : CallEnv) :
    FilterUnloadPc → Option (UnloadSystem T)
  | .notCalled => some { s with unload := .queue }
  | .queue => some { s with unload := .callStop }
  | .callStop => (trackCallStep up s.track (.call none .stop)).map fun track =>
      { s with track, unload := .trackStop }
  | .trackStop =>
    if s.track.calls none = .idle then some { s with unload := .exitDefer }
    else (trackCallStep up s.track (.step none env)).map
      (s.withTrack ((s.track.calls none).takesLock s.track.globals.table env))
  | .exitDefer => some { s with unload := .deleteLock }
  | .deleteLock => some { s with lockDeleted := true, unload := .closePorts }
  | .closePorts => some { s with portsOpen := false, unload := .unregisterFilter }
  | .unregisterFilter => some { s with unload := .metadata }
  | .metadata => some { s with unload := .returned }
  | .returned => none

def unloadStep (s : UnloadSystem T) : UnloadAction T → Option (UnloadSystem T)
  | .message t kind =>
    if s.portsOpen then (trackCallStep up s.track (.call (some t) kind)).map (s.withTrack false)
    else none
  | .handler t env => (trackCallStep up s.track (.step (some t) env)).map
      (s.withTrack ((s.track.calls (some t)).takesLock s.track.globals.table env))
  | .notify op => (trackCallStep up s.track (.notify op)).map (s.withTrack false)
  | .callback i env => (trackCallStep up s.track (.callback i env)).map
      (s.withTrack (s.track.globals.callbackTakesLock i))
  | .unload env => knFcFilterUnload up s env s.unload

end Step

namespace UnloadSystem

variable {T : Type*}

/-- The stop of the unload has looked at `NotifyRegistered`. -/
def PastTest (s : UnloadSystem T) : Prop :=
  match s.unload with
  | .notCalled | .queue | .callStop => False
  | .trackStop => s.track.calls none ≠ .clearActive ∧ s.track.calls none ≠ .testNotify
  | _ => True

/-- What a message does too late: a start registers the routine after that look, or has
registered it and not yet said so then; a call is still running when the lock is
deleted, or comes after. -/
def LateAt (s : UnloadSystem T) : FilterUnloadPc → Prop
  | .trackStop => s.track.calls none = .testNotify ∧ s.track.globals.routine.isSome = true ∧
      s.track.globals.table.notifyRegistered = false
  | .deleteLock => ∃ t, s.track.calls (some t) ≠ .idle
  | _ => False

def Late (s : UnloadSystem T) : UnloadAction T → Prop
  | .message _ _ => s.lockDeleted = true
  | .handler t env => s.PastTest ∧ s.track.calls (some t) = .register ∧
      s.track.globals.routine = none ∧ ntSuccess env.registerStatus = true
  | .unload _ => s.LateAt s.unload
  | _ => False

def stopPc : CallPc → Bool
  | .clearActive | .testNotify | .remove | .await _ | .clearRegistered | .purge | .idle => true
  | _ => false

structure Closing (s : UnloadSystem T) : Prop where
  awaits : s.track.Awaits
  own : if s.unload = .trackStop then stopPc (s.track.calls none) = true
    else s.track.calls none = .idle
  removed : s.PastTest → s.track.globals.routine = none ∨ s.track.calls none = .remove
  deleted : s.lockDeleted = true → s.PastTest ∧ s.unload ≠ .trackStop ∧
    (∀ t, s.track.calls (some t) = .idle) ∧ s.track.globals.callbacks = []
  sound : s.misused = false

theorem closing_init : (init T).Closing where
  awaits := TrackCalls.awaits_init
  own := rfl
  removed h := h.elim
  deleted h := by cases h
  sound := rfl

/-- What a thread other than the unload does to the track calls. -/
theorem Closing.withTrack {s : UnloadSystem T} (h : s.Closing) {b : Bool}
    {track : TrackCalls (Option T)} (hawaits : track.Awaits)
    (hnone : track.calls none = s.track.calls none)
    (hroutine : s.PastTest → s.track.globals.routine = none → track.globals.routine = none)
    (hremove : s.PastTest → s.track.calls none = .remove →
      track.globals.routine = none ∨ track.calls none = .remove)
    (hlock : s.lockDeleted = false) : (s.withTrack b track).Closing where
  awaits := hawaits
  own := by
    have hown := h.own
    rw [← hnone] at hown
    exact hown
  removed hpast := by
    have hold : s.PastTest := by
      simp only [PastTest, UnloadSystem.withTrack, hnone] at hpast ⊢
      exact hpast
    rcases h.removed hold with hr | hr
    · exact Or.inl (hroutine hold hr)
    · exact hremove hold hr
  deleted hdel := absurd (hlock.symm.trans hdel) Bool.false_ne_true
  sound := by simp [UnloadSystem.withTrack, hlock, h.sound]

/-- After the deletion nothing is left that could take a step on the table. -/
theorem Closing.routine_none {s : UnloadSystem T} (h : s.Closing) (hdel : s.lockDeleted = true) :
    s.track.globals.routine = none := by
  obtain ⟨hpast, hne, -, -⟩ := h.deleted hdel
  have hown := h.own
  rw [if_neg hne] at hown
  exact (h.removed hpast).resolve_right (by simp [hown])

variable [DecidableEq T] {up : Wchar → Wchar} {s s' : UnloadSystem T}

theorem Closing.message {t : T} {kind : CallKind} (h : s.Closing)
    (hok : ¬ s.Late (.message t kind)) (hs : unloadStep up s (.message t kind) = some s') :
    s'.Closing := by
  simp only [unloadStep] at hs
  split at hs
  · obtain ⟨track, ht, rfl⟩ := Option.map_eq_some_iff.mp hs
    have hawaits := h.awaits.next ht
    obtain ⟨-, rfl⟩ := trackCallStep_call ht
    exact h.withTrack hawaits (by simp) (fun _ => id) (fun _ hr => Or.inr (by simpa using hr))
      (by simpa [Late] using hok)
  · cases hs

theorem Closing.handler {t : T} {env : CallEnv} (h : s.Closing)
    (hok : ¬ s.Late (.handler t env)) (hs : unloadStep up s (.handler t env) = some s') :
    s'.Closing := by
  obtain ⟨track, ht, rfl⟩ := Option.map_eq_some_iff.mp hs
  have hawaits := h.awaits.next ht
  obtain ⟨g, pc, hc, rfl⟩ := trackCallStep_step ht
  have hlock : s.lockDeleted = false := by
    by_contra hdel
    obtain ⟨-, -, hidle, -⟩ := h.deleted (by simpa using hdel)
    rw [hidle t] at hc
    cases hc
  refine h.withTrack hawaits (by simp) (fun hpast hr => ?_)
    (fun _ hr => Or.inr (by simpa using hr)) hlock
  rcases (callStep_routine hc).2 with ⟨he, -⟩ | ⟨r, -, -, he, -⟩ | ⟨hpc, -, henv⟩
  · exact he.trans hr
  · exact he
  · exact absurd ⟨hpast, hpc, hr, henv⟩ hok

theorem Closing.notify {op : NotifyOp} (h : s.Closing)
    (hs : unloadStep up s (.notify op) = some s') : s'.Closing := by
  obtain ⟨track, ht, rfl⟩ := Option.map_eq_some_iff.mp hs
  have hawaits := h.awaits.next ht
  obtain ⟨r, hr, rfl⟩ := trackCallStep_notify ht
  have hlock : s.lockDeleted = false := by
    by_contra hdel
    rw [h.routine_none (by simpa using hdel)] at hr
    cases hr
  exact h.withTrack hawaits rfl (fun _ => id) (fun _ => Or.inr) hlock

theorem Closing.callback {i : Nat} {env : ClassifyEnv} (h : s.Closing)
    (hs : unloadStep up s (.callback i env) = some s') : s'.Closing := by
  obtain ⟨track, ht, rfl⟩ := Option.map_eq_some_iff.mp hs
  have hawaits := h.awaits.next ht
  obtain ⟨c, hc, hcases⟩ := trackCallStep_callback ht
  have hlock : s.lockDeleted = false := by
    by_contra hdel
    obtain ⟨-, -, -, hnil⟩ := h.deleted (by simpa using hdel)
    rw [hnil] at hc
    cases hc
  have hframe : track.calls = s.track.calls ∧
      track.globals.routine = s.track.globals.routine := by
    rcases hcases with ⟨-, -, rfl⟩ | ⟨-, -, rfl⟩ | ⟨-, rfl⟩ <;> exact ⟨rfl, rfl⟩
  obtain ⟨hcalls, hroutine⟩ := hframe
  exact h.withTrack hawaits (by rw [hcalls]) (fun _ hr => hroutine.trans hr)
    (fun _ hr => Or.inr (by rw [hcalls]; exact hr)) hlock

/-- The stop of the unload stays a stop. -/
theorem stopPc_step {g g' : TrackGlobals} {env : CallEnv} {pc pc' : CallPc}
    (hpc : stopPc pc = true) (h : callStep up g env pc = some (g', pc')) : stopPc pc' = true := by
  cases pc with
  | testNotify =>
    cases h
    split <;> rfl
  | remove =>
    simp only [callStep] at h
    split at h <;> cases h <;> rfl
  | await r =>
    simp only [callStep] at h
    split at h <;> cases h
    rfl
  | clearActive | clearRegistered | purge =>
    cases h
    rfl
  | idle => cases h
  | _ => cases hpc

/-- Past its look at the flag, the unload has no registration, or removes it next. -/
theorem removed_step {g g' : TrackGlobals} {env : CallEnv} {pc pc' : CallPc}
    (hpc : stopPc pc = true) (h : callStep up g env pc = some (g', pc'))
    (hlook : pc = .testNotify → g.routine.isSome = true → g.table.notifyRegistered = true)
    (hpast : pc ≠ .clearActive → pc ≠ .testNotify → g.routine = none ∨ pc = .remove)
    (hpc' : pc' ≠ .clearActive ∧ pc' ≠ .testNotify) : g'.routine = none ∨ pc' = .remove := by
  cases pc with
  | testNotify =>
    cases h
    cases hflag : g.table.notifyRegistered with
    | true => exact Or.inr rfl
    | false =>
      refine Or.inl ?_
      by_contra hsome
      rw [hlook rfl (Option.isSome_iff_ne_none.mpr hsome)] at hflag
      cases hflag
  | clearActive =>
    cases h
    exact absurd rfl hpc'.2
  | remove =>
    simp only [callStep] at h
    split at h
    · cases h
      exact Or.inl rfl
    · next hr =>
      cases h
      exact Or.inl hr
  | await r =>
    have hnone := (hpast (by simp) (by simp)).resolve_right (by simp)
    have hr := (callStep_routine h).2.resolve_right (by simp)
    exact Or.inl (hr.1.trans hnone)
  | clearRegistered | purge =>
    have hnone := (hpast (by simp) (by simp)).resolve_right (by simp)
    have hr := (callStep_routine h).2.resolve_right (by simp)
    exact Or.inl (hr.1.trans hnone)
  | idle => cases h
  | _ => cases hpc

theorem Closing.trackStop {env : CallEnv} (h : s.Closing) (hpc : s.unload = .trackStop)
    (hok : ¬ s.Late (.unload env)) (hs : unloadStep up s (.unload env) = some s') :
    s'.Closing := by
  have hlock : s.lockDeleted = false := by
    by_contra hdel
    exact (h.deleted (by simpa using hdel)).2.1 hpc
  have hown := h.own
  have hremoved := h.removed
  rw [if_pos hpc] at hown
  simp only [PastTest, hpc] at hremoved
  simp only [unloadStep, hpc, knFcFilterUnload] at hs
  split at hs
  · next hidle =>
    obtain rfl := Option.some.inj hs
    refine ⟨h.awaits, hidle, fun _ => ?_, fun hdel => ?_, h.sound⟩
    · exact hremoved (by simp [hidle])
    · exact absurd (hlock.symm.trans hdel) Bool.false_ne_true
  · obtain ⟨track, ht, rfl⟩ := Option.map_eq_some_iff.mp hs
    have hawaits := h.awaits.next ht
    obtain ⟨g, pc, hc, rfl⟩ := trackCallStep_step ht
    refine ⟨hawaits, ?_, fun hpast => ?_, fun hdel => ?_, ?_⟩
    · simp only [UnloadSystem.withTrack, hpc, if_true, Function.update_self]
      exact stopPc_step hown hc
    · simp only [PastTest, UnloadSystem.withTrack, hpc, Function.update_self] at hpast
      simp only [UnloadSystem.withTrack, Function.update_self]
      refine removed_step hown hc (fun hlook hsome => ?_) (fun h1 h2 => hremoved ⟨h1, h2⟩) hpast
      by_contra hflag
      exact hok (by simpa [Late, LateAt, hpc, hlook] using ⟨hsome, by simpa using hflag⟩)
    · exact absurd (hlock.symm.trans hdel) Bool.false_ne_true
    · simp [UnloadSystem.withTrack, hlock, h.sound]

theorem Closing.unload {env : CallEnv} (h : s.Closing) (hok : ¬ s.Late (.unload env))
    (hs : unloadStep up s (.unload env) = some s') : s'.Closing := by
  cases hpc : s.unload with
  | trackStop => exact h.trackStop hpc hok hs
  | callStop =>
    have hdel (hd : s.lockDeleted = true) : False := by
      have hpast := (h.deleted hd).1
      simp only [PastTest, hpc] at hpast
    simp only [unloadStep, hpc, knFcFilterUnload] at hs
    obtain ⟨track, ht, rfl⟩ := Option.map_eq_some_iff.mp hs
    have hawaits := h.awaits.next ht
    obtain ⟨-, rfl⟩ := trackCallStep_call ht
    refine ⟨hawaits, by simp [CallKind.entry, stopPc], fun hpast => ?_, fun hd => (hdel hd).elim,
      h.sound⟩
    simp [PastTest, CallKind.entry] at hpast
  | deleteLock =>
    have hown := h.own
    rw [hpc, if_neg (by simp)] at hown
    have hnone := (h.removed (by simp [PastTest, hpc])).resolve_right (by simp [hown])
    have hidle : ∀ t, s.track.calls (some t) = .idle := by
      simpa [Late, LateAt, hpc] using hok
    simp only [unloadStep, hpc, knFcFilterUnload] at hs
    obtain rfl := Option.some.inj hs
    refine ⟨h.awaits, hown, fun _ => Or.inl hnone, fun _ => ⟨trivial, by simp, hidle, ?_⟩, h.sound⟩
    refine h.awaits.callbacks_nil hnone fun t => ?_
    cases t with
    | none => exact hown
    | some t => exact hidle t
  | notCalled | queue | exitDefer | closePorts | unregisterFilter | metadata =>
    have hown := h.own
    have hremoved := h.removed
    have hdeleted := h.deleted
    rw [hpc, if_neg (by simp)] at hown
    simp only [PastTest, hpc] at hremoved hdeleted
    simp only [unloadStep, hpc, knFcFilterUnload] at hs
    obtain rfl := Option.some.inj hs
    refine ⟨h.awaits, hown, fun hpast => ?_, fun hd => ?_, h.sound⟩
    · first | exact hremoved trivial | exact hpast.elim
    · first | exact (hdeleted hd).1.elim | exact ⟨trivial, by simp, (hdeleted hd).2.2⟩
  | returned =>
    simp only [unloadStep, hpc, knFcFilterUnload] at hs
    cases hs

/-- In a run without late messages: the unload returns with the routine removed, and no
lock section of the table ever follows the deletion of its lock. -/
theorem unload_leaves_nothing (as : List (UnloadAction T)) (s : UnloadSystem T)
    (hok : Guarded (unloadStep up) (fun s a => ¬ s.Late a) (init T) as)
    (h : exec (unloadStep up) (init T) as = some s) :
    (s.unload = .returned → s.track.globals.routine = none) ∧ s.misused = false := by
  have hs : s.Closing := by
    refine hok.invariant (fun s a s' hi hn ht => ?_) h closing_init
    cases a with
    | message t kind => exact hi.message hn ht
    | handler t env => exact hi.handler hn ht
    | notify op => exact hi.notify ht
    | callback i env => exact hi.callback ht
    | unload env => exact hi.unload hn ht
  refine ⟨fun hret => ?_, hs.sound⟩
  have hown := hs.own
  rw [hret, if_neg (by simp)] at hown
  exact (hs.removed (by simp [PastTest, hret])).resolve_right (by simp [hown])

section Runs

instance (s : UnloadSystem T) : Decidable s.PastTest :=
  match h : s.unload with
  | .notCalled | .queue | .callStop => isFalse (by simp [PastTest, h])
  | .trackStop =>
    decidable_of_iff (s.track.calls none ≠ .clearActive ∧ s.track.calls none ≠ .testNotify)
      (by simp [PastTest, h])
  | .exitDefer | .deleteLock | .closePorts | .unregisterFilter | .metadata | .returned =>
    isTrue (by simp [PastTest, h])

instance [Fintype T] (s : UnloadSystem T) (pc : FilterUnloadPc) : Decidable (s.LateAt pc) :=
  match pc with
  | .trackStop => inferInstanceAs (Decidable (_ ∧ _ ∧ _))
  | .deleteLock => inferInstanceAs (Decidable (∃ t, s.track.calls (some t) ≠ .idle))
  | .notCalled | .queue | .callStop | .exitDefer | .closePorts | .unregisterFilter | .metadata
  | .returned => isFalse id

instance [Fintype T] (s : UnloadSystem T) (a : UnloadAction T) : Decidable (s.Late a) :=
  match a with
  | .message _ _ => inferInstanceAs (Decidable (_ = _))
  | .handler _ _ => inferInstanceAs (Decidable (_ ∧ _ ∧ _ ∧ _))
  | .unload _ => inferInstanceAs (Decidable (s.LateAt s.unload))
  | .notify _ => isFalse id
  | .callback .. => isFalse id

open TrackCalls (callEnv lastSnap callConfig)

def unloadSteps (n : Nat) : List (UnloadAction Unit) := List.replicate n (.unload callEnv)

def startMessage : List (UnloadAction Unit) :=
  .message () .start :: List.replicate 6 (.handler () callEnv) ++ [.handler () lastSnap]

/-- A start that is over, a callback that the stop of the unload waits for, and a tree
request that ends before the deletion. -/
def quietUnload : List (UnloadAction Unit) :=
  startMessage ++ unloadSteps 3 ++ [.notify (.exit 8), .callback 0 ⟨callConfig, .ok⟩] ++
    unloadSteps 3 ++ [.message () .dump, .callback 0 ⟨callConfig, .ok⟩, .handler () callEnv] ++
    unloadSteps 9

theorem unload_leaves_nothing_quiet :
    ∃ s, exec (unloadStep id) (init Unit) quietUnload = some s ∧ s.unload = .returned ∧
      s.track.globals.routine = none ∧ s.misused = false :=
  have hrun : exec (unloadStep id) (init Unit) quietUnload = some _ := rfl
  have hleft := unload_leaves_nothing quietUnload _ (by decide) hrun
  ⟨_, hrun, rfl, hleft.1 rfl, hleft.2⟩

/-- The start message arrives between the deletion of the lock and the closing of the ports. -/
def startDuringUnload : List (UnloadAction Unit) :=
  unloadSteps 9 ++ startMessage ++ unloadSteps 3

theorem start_during_unload :
    ∃ s, exec (unloadStep id) (init Unit) startDuringUnload = some s ∧ s.unload = .returned ∧
      s.track.globals.routine.isSome = true ∧ s.misused = true :=
  ⟨_, rfl, rfl, rfl, rfl⟩

end Runs

end UnloadSystem

end KnFileCatcher

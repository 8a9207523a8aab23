import KnFileCatcher.Runs
import KnFileCatcher.TrackSystem

/-! Calls of `knFcTrackStart` and `knFcTrackStop` from any number of threads, taking
their steps between those of the notify callbacks. The two flags are written without
the table lock. -/

namespace KnFileCatcher

open Runs

/-- Where a thread is in `knFcTrackStart`, `knFcTrackStop` or `knFcTrackDump`. A start
takes its lookups and lock sections in `snapshot`. -/
inductive CallPc where
  | idle
  | testActive
  | testRegistered
  | register
  | setRegistered
  | setActive
  | snapshot
  | clearActive
  | testNotify
  | remove
  | await (registration : Nat)
  | clearRegistered
  | purge
  | dump
deriving DecidableEq

inductive NotifyOp where
  | create (pid parentPid : Handle) (imagePath : Option UnicodeString)
  | exit (pid : Handle)

/-- A running callback, and whether it has passed its test of `Active`. -/
structure Callback where
  registration : Nat
  op : NotifyOp
  tested : Bool

/-- A removal of the routine waits for the callbacks of its own registration, so the
registrations are numbered. -/
structure TrackGlobals where
  table : KnfcTrackCtx
  routine : Option Nat
  registrations : Nat
  callbacks : List Callback

inductive SnapStep where
  | lookup (pid : Handle)
  | classify (env : ClassifyEnv) (pid parentPid : Handle) (imagePath : Option UnicodeString)
  | finish

structure CallEnv where
  registerStatus : NtStatus
  snap : SnapStep

section Steps

variable (up : Wchar → Wchar)

/-- A step of a call; `none` while it has to wait. What a snapshot pass looks up and
classifies is left open here. -/
def callStep (g : TrackGlobals) (env : CallEnv) : CallPc → Option (TrackGlobals × CallPc)
  | .idle => none
  | .testActive => some (g, if g.table.active then .idle else .testRegistered)
  | .testRegistered => some (g, if g.table.notifyRegistered then .setActive else .register)
  | .register =>
    -- a routine that is registered already cannot be registered again
    if g.routine.isSome ∨ ntSuccess env.registerStatus = false then some (g, .idle)
    else
      some ({ g with routine := some g.registrations, registrations := g.registrations + 1 },
        .setRegistered)
  | .setRegistered => some ({ g with table := { g.table with notifyRegistered := true } }, .setActive)
  | .setActive => some ({ g with table := { g.table with active := true } }, .snapshot)
  | .snapshot =>
    match env.snap with
    | .lookup _ => some (g, .snapshot)
    | .classify cenv pid parentPid imagePath =>
      some ({ g with
        table := (knFcClassifyAndInsert up cenv.config cenv.alloc g.table pid parentPid imagePath
          knFcTrackFromSnap).1 }, .snapshot)
    | .finish => some (g, .idle)
  | .clearActive => some ({ g with table := { g.table with active := false } }, .testNotify)
  | .testNotify => some (g, if g.table.notifyRegistered then .remove else .purge)
  | .remove =>
    match g.routine with
    | some r => some ({ g with routine := none }, .await r)
    | none => some (g, .clearRegistered)
  | .await r =>
    if ∃ c ∈ g.callbacks, c.registration = r then none else some (g, .clearRegistered)
  | .clearRegistered => some ({ g with table := { g.table with notifyRegistered := false } }, .purge)
  | .purge => some ({ g with table := knFcTrackPurgeAllLocked g.table }, .idle)
  | .dump => some (g, .idle)

/-- The lock section of a callback. -/
def NotifyOp.apply (env : ClassifyEnv) (g : KnfcTrackCtx) : NotifyOp → KnfcTrackCtx
  | .create pid parentPid imagePath =>
    (knFcClassifyAndInsert up env.config env.alloc g pid parentPid imagePath 0).1
  | .exit pid => (knFcMarkExited g pid).1

/-- A step of `knFcProcessNotify` in the `i`th running callback. -/
def knFcProcessNotify (g : TrackGlobals) (env : ClassifyEnv) (i : Nat) : Option TrackGlobals :=
  g.callbacks[i]?.map fun c =>
    if c.tested then
      { g with table := c.op.apply up env g.table, callbacks := g.callbacks.eraseIdx i }
    else if g.table.active then
      { g with callbacks := g.callbacks.set i { c with tested := true } }
    else { g with callbacks := g.callbacks.eraseIdx i }

/-- A call changes the registration only where it removes or makes it, and no callback.
It waits for the callbacks of the registration it removed. -/
theorem callStep_routine {up : Wchar → Wchar} {g g' : TrackGlobals} {env : CallEnv}
    {pc pc' : CallPc} (h : callStep up g env pc = some (g', pc')) :
    g'.callbacks = g.callbacks ∧
      ((g'.routine = g.routine ∧ ∀ c ∈ g.callbacks, pc ≠ .await c.registration) ∨
        (∃ r, pc = .remove ∧ g.routine = some r ∧ g'.routine = none ∧ pc' = .await r) ∨
        pc = .register ∧ g.routine = none ∧ ntSuccess env.registerStatus = true) := by
  cases pc with
  | idle => cases h
  | register =>
    simp only [callStep] at h
    split at h
    · cases h
      exact ⟨rfl, Or.inl ⟨rfl, by simp⟩⟩
    · next hfree =>
      cases h
      obtain ⟨hnone, hok⟩ := not_or.mp hfree
      exact ⟨rfl, Or.inr (Or.inr ⟨rfl, by simpa using hnone, by simpa using hok⟩)⟩
  | remove =>
    simp only [callStep] at h
    split at h
    · next r hr =>
      cases h
      exact ⟨rfl, Or.inr (Or.inl ⟨r, rfl, hr, rfl, rfl⟩)⟩
    · cases h
      exact ⟨rfl, Or.inl ⟨rfl, by simp⟩⟩
  | await r =>
    simp only [callStep] at h
    split at h
    · cases h
    · next hdone =>
      cases h
      refine ⟨rfl, Or.inl ⟨rfl, fun c hc he => ?_⟩⟩
      exact hdone ⟨c, hc, (CallPc.await.inj he).symm⟩
  | snapshot =>
    simp only [callStep] at h
    split at h <;> cases h <;> exact ⟨rfl, Or.inl ⟨rfl, by simp⟩⟩
  | _ =>
    cases h
    exact ⟨rfl, Or.inl ⟨rfl, by simp⟩⟩

end Steps

structure TrackCalls (T : Type*) where
  globals : TrackGlobals
  calls : T → CallPc

def TrackCalls.init (T : Type*) : TrackCalls T where
  globals := ⟨knFcTrackInitialize, none, 0, []⟩
  calls _ := .idle

inductive CallKind where
  | start
  | stop
  | dump

def CallKind.entry : CallKind → CallPc
  | .start => .testActive
  | .stop => .clearActive
  | .dump => .dump

inductive TrackCallAction (T : Type*) where
  | call (t : T) (kind : CallKind)
  | step (t : T) (env : CallEnv)
  | notify (op : NotifyOp)
  | callback (i : Nat) (env : ClassifyEnv)

section Machine

variable {T : Type*} [DecidableEq T]

def trackCallStep (up : Wchar → Wchar) (s : TrackCalls T) :
    TrackCallAction T → Option (TrackCalls T)
  | .call t kind =>
    if s.calls t = .idle then some { s with calls := Function.update s.calls t kind.entry }
    else none
  | .step t env => (callStep up s.globals env (s.calls t)).map fun (globals, pc) =>
      { globals, calls := Function.update s.calls t pc }
  | .notify op => s.globals.routine.map fun r =>
      { s with globals := { s.globals with callbacks := s.globals.callbacks ++ [⟨r, op, false⟩] } }
  | .callback i env => (knFcProcessNotify up s.globals env i).map fun globals =>
      { s with globals }

variable {up : Wchar → Wchar} {s s' : TrackCalls T}

theorem trackCallStep_call {t : T} {kind : CallKind}
    (h : trackCallStep up s (.call t kind) = some s') :
    s.calls t = .idle ∧ s' = { s with calls := Function.update s.calls t kind.entry } := by
  simp only [trackCallStep] at h
  split at h
  · next hidle => exact ⟨hidle, (Option.some.inj h).symm⟩
  · cases h

theorem trackCallStep_step {t : T} {env : CallEnv}
    (h : trackCallStep up s (.step t env) = some s') :
    ∃ globals pc, callStep up s.globals env (s.calls t) = some (globals, pc) ∧
      s' = { globals, calls := Function.update s.calls t pc } := by
  obtain ⟨⟨globals, pc⟩, hc, rfl⟩ := Option.map_eq_some_iff.mp h
  exact ⟨globals, pc, hc, rfl⟩

theorem trackCallStep_notify {op : NotifyOp} (h : trackCallStep up s (.notify op) = some s') :
    ∃ r, s.globals.routine = some r ∧ s' = { s with
      globals := { s.globals with callbacks := s.globals.callbacks ++ [⟨r, op, false⟩] } } := by
  obtain ⟨r, hr, rfl⟩ := Option.map_eq_some_iff.mp h
  exact ⟨r, hr, rfl⟩

/-- A callback passes its test, leaves at it, or leaves after its lock section. -/
theorem trackCallStep_callback {i : Nat} {env : ClassifyEnv}
    (h : trackCallStep up s (.callback i env) = some s') :
    ∃ c ∈ s.globals.callbacks,
      (c.tested = false ∧ s.globals.table.active = true ∧ s' = { s with
        globals := { s.globals with
          callbacks := s.globals.callbacks.set i { c with tested := true } } }) ∨
      (c.tested = false ∧ s.globals.table.active = false ∧ s' = { s with
        globals := { s.globals with callbacks := s.globals.callbacks.eraseIdx i } }) ∨
      (c.tested = true ∧ s' = { s with
        globals := { s.globals with
          table := c.op.apply up env s.globals.table
          callbacks := s.globals.callbacks.eraseIdx i } }) := by
  obtain ⟨g, hg, rfl⟩ := Option.map_eq_some_iff.mp h
  obtain ⟨c, hc, rfl⟩ := Option.map_eq_some_iff.mp hg
  refine ⟨c, List.mem_of_getElem? hc, ?_⟩
  cases htested : c.tested with
  | true => exact Or.inr (Or.inr ⟨rfl, by simp⟩)
  | false =>
    cases hactive : s.globals.table.active with
    | true => exact Or.inl ⟨rfl, rfl, by simp⟩
    | false => exact Or.inr (Or.inl ⟨rfl, rfl, by simp⟩)

end Machine

end KnFileCatcher

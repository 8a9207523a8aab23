import KnFileCatcher.ExitDeferSafety
import KnFileCatcher.Lineage

/-! The process events that the client is sent, beside the changes of the tracking
table they tell of. Creations are pushed by the thread that made the insertion, exits
by the deferred worker. -/

namespace KnFileCatcher

open Runs

def KnfcExitDefer.push (e : KnfcExitDefer) : ProcessPush :=
  ⟨.exited, e.pid, e.ppid, e.root, e.flags, none⟩

def ProcessPush.deferred (p : ProcessPush) (link : Nat) : KnfcExitDefer :=
  ⟨link, p.pid, p.parentPid, p.rootPid, p.flags⟩

def eventsOf (pid : Handle) (es : List ProcessPush) : List ProcessPush :=
  es.filter fun e => decide (e.pid = pid)

/-- `creators` are the threads in `knFcClassifyAndInsert` that have inserted an entry
and not yet pushed it; the number beside a push, like the link of a deferred record,
counts the earlier changes of its PID. The two logs are not kept by the driver. -/
structure EventSystem (C X : Type*) where
  table : KnfcTrackCtx
  creators : C → Option (Nat × ProcessPush)
  exits : ExitDeferSystem X
  changes : List ProcessPush
  sent : List ProcessPush

/-- `Active` stays set, and the tests before a lock section read an earlier state, so
either kind of call may come at any time. -/
inductive EventAction (C X : Type*) where
  | classify (c : C) (cfg : KnfcConfig) (alloc : InsertAlloc) (origin : Origin)
      (pid parentPid : Handle) (imagePath : Option UnicodeString)
  | pushCreated (c : C)
  | markExited (x : X) (pid : Handle)
  | deferred (x : X) (alloc : Bool)
  | worker

namespace EventSystem

variable {C X : Type*}

def init (C X : Type*) : EventSystem C X where
  table := { knFcTrackInitialize with active := true, notifyRegistered := true }
  creators _ := none
  exits := .init X
  changes := []
  sent := []

def numberOf (s : EventSystem C X) (pid : Handle) : Nat := (eventsOf pid s.changes).length

/-- What the worker's next step hands to `FltSendMessage`. -/
def workerPush : ExitWorkerPc → List ProcessPush
  | .push e => [e.push]
  | _ => []

end EventSystem

section Step

variable {C X : Type*} [DecidableEq C] [DecidableEq X]

def eventStep (up : Wchar → Wchar) (s : EventSystem C X) :
    EventAction C X → Option (EventSystem C X)
  | .classify c cfg alloc origin pid parentPid imagePath =>
    match s.creators c with
    | some _ => none
    | none =>
      let r := knFcClassifyAndInsert up cfg alloc s.table pid parentPid imagePath origin.extraFlags
      match r.2 with
      | none => some { s with table := r.1 }
      | some push => some { s with
          table := r.1
          creators := Function.update s.creators c (some (s.numberOf push.pid, push))
          changes := s.changes ++ [push] }
  | .pushCreated c => (s.creators c).map fun (_, push) =>
      { s with creators := Function.update s.creators c none, sent := s.sent ++ [push] }
  | .markExited x pid =>
    let r := knFcMarkExited s.table pid
    match r.2 with
    | none => some { s with table := r.1 }
    | some push =>
      (exitDeferStep s.exits (.call x (push.deferred (s.numberOf push.pid)))).map fun exits =>
        { s with table := r.1, exits, changes := s.changes ++ [push] }
  | .deferred x alloc => (exitDeferStep s.exits (.caller x alloc)).map fun exits => { s with exits }
  | .worker => (exitDeferStep s.exits .worker).map fun exits =>
      { s with exits, sent := s.sent ++ EventSystem.workerPush s.exits.worker }

end Step

/-- CREATED and EXITED in turns, CREATED first. -/
def Alternate (es : List ProcessEventType) : Prop :=
  es.IsChain (· ≠ ·) ∧ ∀ e ∈ es.head?, e = .created

theorem Alternate.isPrefix {es ds : List ProcessEventType} (h : Alternate es) (hp : ds <+: es) :
    Alternate ds := by
  obtain ⟨rest, rfl⟩ := hp
  refine ⟨(List.isChain_append.mp h.1).1, fun e he => ?_⟩
  cases ds with
  | nil => cases he
  | cons d ds => exact h.2 e he

theorem Alternate.snoc {es : List ProcessEventType} {e : ProcessEventType} (h : Alternate es)
    (he : e = .created ↔ es.getLast? ≠ some .created) : Alternate (es ++ [e]) := by
  refine ⟨List.isChain_append.mpr ⟨h.1, List.isChain_singleton e, ?_⟩, ?_⟩
  · intro d hd e' he' hde
    obtain rfl : e = e' := by simpa using he'
    subst hde
    cases d with
    | created => exact he.mp rfl hd
    | exited =>
      have hc := he.mpr (by rw [Option.mem_def.mp hd]; simp)
      cases hc
  · intro d hd
    cases es with
    | nil =>
      obtain rfl : e = d := by simpa using hd
      exact he.mpr (by simp)
    | cons d' ds => exact h.2 d hd

end KnFileCatcher

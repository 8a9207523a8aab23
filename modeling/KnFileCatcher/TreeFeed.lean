import KnFileCatcher.ProcessEventWire
import KnFileCatcher.SeededView
import KnFileCatcher.TreeForest

/-! The process tree of the window beside the driver that it follows: the pushes of the
driver, the reader, the queue of the dispatcher, and the one dump that the tree is built
from. -/

namespace KnFileCatcher

open Runs LittleEndian

/-- `fetched` is the reply of `GetProcessTree` before the tree is built of it; the thread of
the window does nothing else meanwhile. -/
structure TreeFeed (C X : Type*) where
  driver : EventSystem C X
  reader : Bool
  wire : List (List Byte)
  dispatched : List ProcessEventNotify
  fetched : Option (List ProcRecord)
  tree : ProcessTree
  seeded : Bool

inductive FeedAction (C X : Type*) where
  | driver (a : EventAction C X)
  | startReader
  | receive (h : FilterMessageHeader) (buf : WorkerBuffer)
  | applyEvent
  | getProcessTree (rc : Int)
  | buildTree

namespace TreeFeed

variable {C X : Type*}

def init (C X : Type*) : TreeFeed C X where
  driver := .init C X
  reader := false
  wire := []
  dispatched := []
  fetched := none
  tree := .empty
  seeded := false

/-- The tree, or what it is about to be replaced by. -/
def upcoming (s : TreeFeed C X) : ProcessTree :=
  match s.fetched with
  | some procs => buildTree (procs.map ProcRecord.clientProc)
  | none => s.tree

/-- The dump was made. -/
def settled (s : TreeFeed C X) : Bool := s.seeded || s.fetched.isSome

/-- No event of the PID is on its way to the tree. -/
structure Quiet (s : TreeFeed C X) (pid : Handle) : Prop where
  sent : eventsOf pid s.driver.sent = eventsOf pid s.driver.changes
  wire : ∀ m ∈ s.wire, readWord 8 16 m ≠ pid
  dispatched : ∀ ev ∈ s.dispatched, ev.pid ≠ pid

instance (s : TreeFeed C X) (pid : Handle) : Decidable (s.Quiet pid) :=
  decidable_of_iff (eventsOf pid s.driver.sent = eventsOf pid s.driver.changes ∧
      (∀ m ∈ s.wire, readWord 8 16 m ≠ pid) ∧ ∀ ev ∈ s.dispatched, ev.pid ≠ pid)
    ⟨fun h => ⟨h.1, h.2.1, h.2.2⟩, fun h => ⟨h.sent, h.wire, h.dispatched⟩⟩

end TreeFeed

section Step

variable {C X : Type*} [DecidableEq C] [DecidableEq X] (up : Wchar → Wchar)

/-- The messages of new pushes; without a reader they are lost. `none` is an access outside
of a buffer, or an action that does not fit the state. -/
def feedStep (s : TreeFeed C X) : FeedAction C X → Option (TreeFeed C X)
  | .driver a =>
    (eventStep up s.driver a).bind fun driver =>
      ((driver.sent.drop s.driver.sent.length).mapM fun p =>
        (knFcCommPushProcessEvent p).toOption).map fun evs =>
          { s with
            driver
            wire := if s.reader then s.wire ++ evs.map KnfcProcessEvent.bytes else s.wire }
  | .startReader => some { s with reader := true }
  | .receive h buf =>
    match s.wire with
    | [] => none
    | m :: wire => ((filterGetMessage buf h m).bind readProcessEvent).map fun ev =>
        { s with wire, dispatched := s.dispatched ++ [ev] }
  | .applyEvent =>
    match s.fetched, s.dispatched with
    | none, ev :: dispatched => some { s with tree := applyNotify s.tree ev, dispatched }
    | _, _ => none
  | .getProcessTree rc =>
    if s.settled then none
    else (processTreeReply s.driver.table).toOption.bind fun reply =>
      (getProcessTree true rc reply).map fun r =>
        if r.1 = 0 then { s with fetched := some r.2.1 } else s
  | .buildTree => s.fetched.map fun procs =>
      { s with
        tree := buildTree (procs.map ProcRecord.clientProc)
        fetched := none
        seeded := true }

namespace TreeFeed

/-- A process that gets tracked has a PID that is new to the tree. -/
def NewPid (s : TreeFeed C X) : EventAction C X → Prop
  | .classify _ cfg alloc origin pid parentPid imagePath =>
    (knFcClassifyAndInsert up cfg alloc s.driver.table pid parentPid imagePath
      origin.extraFlags).2.isSome = true → s.upcoming.nodesByPid pid = none ∧ s.Quiet pid
  | _ => True

def Sends (s : EventSystem C X) (a : EventAction C X) : Prop :=
  ∃ driver, eventStep up s a = some driver ∧ driver.sent ≠ s.sent

/-- No push overtakes another of its PID, none is lost after the dump, and the dump is
whole. -/
def Orderly (s : TreeFeed C X) : FeedAction C X → Prop
  | .driver a => ¬ s.driver.Overtakes a ∧ s.NewPid up a ∧
      (s.settled = true → s.reader = false → ¬ Sends up s.driver a)
  | .getProcessTree _ => s.driver.table.liveEntries.length ≤ knfcMaxTreeEntries
  | _ => True

instance (s : EventSystem C X) (a : EventAction C X) : Decidable (Sends up s a) :=
  match h : eventStep up s a with
  | some driver => decidable_of_iff (driver.sent ≠ s.sent) (by simp [Sends, h])
  | none => isFalse (by simp [Sends, h])

instance (s : TreeFeed C X) (a : EventAction C X) : Decidable (s.NewPid up a) :=
  match a with
  | .classify .. => inferInstanceAs (Decidable (_ → _ ∧ _))
  | .pushCreated _ => isTrue trivial
  | .markExited .. => isTrue trivial
  | .deferred .. => isTrue trivial
  | .worker => isTrue trivial

instance [Fintype C] [Fintype X] (s : TreeFeed C X) (a : FeedAction C X) :
    Decidable (s.Orderly up a) :=
  match a with
  | .driver _ => inferInstanceAs (Decidable (_ ∧ _ ∧ _))
  | .getProcessTree _ => inferInstanceAs (Decidable (_ ≤ _))
  | .startReader => isTrue trivial
  | .receive .. => isTrue trivial
  | .applyEvent => isTrue trivial
  | .buildTree => isTrue trivial

end TreeFeed

end Step

end KnFileCatcher

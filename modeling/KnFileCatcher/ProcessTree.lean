import KnFileCatcher.FlagBits
import KnFileCatcher.Lineage

/-! The process tree of the client, built at once from a dump of the tracking table or
event by event. A node stands for the PID under which the client finds it: a dump lists
live entries, whose PIDs differ. -/

namespace KnFileCatcher

open FlagBits

def knfcTreeImageChars : Nat := 120
def knfcMaxTreeEntries : Nat := 128

/-- `KNFC_PROC`, its image without the padding. -/
structure KnfcProc where
  pid : Handle
  parentPid : Handle
  rootPid : Handle
  flags : Ulong
  image : List Wchar
deriving DecidableEq

/-- The trailing portion, where the basename lives. -/
def imageTail (path : UnicodeString) : List Wchar :=
  if path.buffer.length > knfcTreeImageChars then
    path.buffer.drop (path.buffer.length - knfcTreeImageChars)
  else path.buffer

def KnfcTrackEntry.proc (e : KnfcTrackEntry) : KnfcProc :=
  ⟨e.pid, e.parentPid, e.rootPid, e.flags, imageTail e.imagePath⟩

/-- What `knFcCommPushProcessEvent` sends of a push. -/
def ProcessPush.proc (p : ProcessPush) : KnfcProc :=
  ⟨p.pid, p.parentPid, p.rootPid, p.flags, imageTail (p.image.getD .empty)⟩

section Dump

/-- The walk over the entries with room for that many records, and whether one was left
out. -/
def dumpEntries : Nat → List KnfcTrackEntry → List KnfcProc × Bool
  | _, [] => ([], false)
  | room, e :: es =>
    if flagOn e.flags knFcTrackExited then dumpEntries room es
    else match room with
      | 0 => ([], true)
      | room + 1 => (e.proc :: (dumpEntries room es).1, (dumpEntries room es).2)

def knFcTrackDump (g : KnfcTrackCtx) (maxEntries : Nat) : List KnfcProc × Bool :=
  if maxEntries = 0 then ([], false)
  else dumpEntries maxEntries (ChainedTable.entries g.buckets)

end Dump

section Client

structure ProcessNode where
  pid : Handle
  ppid : Handle
  root : Handle
  flags : Ulong
  imageNt : List Wchar
  children : List Handle
deriving DecidableEq

structure ProcessTree where
  nodesByPid : Handle → Option ProcessNode
  rootProcesses : List Handle

def KnfcProc.node (p : KnfcProc) : ProcessNode := ⟨p.pid, p.parentPid, p.rootPid, p.flags, p.image, []⟩

namespace ProcessTree

def empty : ProcessTree := ⟨fun _ => none, []⟩

def addRoot (t : ProcessTree) (pid : Handle) : ProcessTree :=
  { t with rootProcesses := t.rootProcesses ++ [pid] }

/-- Under the parent if there is a node for it, else at the top. -/
def attach (t : ProcessTree) (pid : Handle) (parent : Option Handle) : ProcessTree :=
  match parent with
  | none => t.addRoot pid
  | some ppid =>
    match t.nodesByPid ppid with
    | some node => { t with
        nodesByPid := Function.update t.nodesByPid ppid
          (some { node with children := node.children ++ [pid] }) }
    | none => t.addRoot pid

def register (t : ProcessTree) (p : KnfcProc) : ProcessTree :=
  { t with nodesByPid := Function.update t.nodesByPid p.pid (some p.node) }

end ProcessTree

def buildTree (procs : List KnfcProc) : ProcessTree :=
  procs.foldl (fun t p => t.attach p.pid (if p.parentPid ≠ 0 then some p.parentPid else none))
    (procs.foldl ProcessTree.register .empty)

/-- ROOT-flagged nodes are top-level. -/
def eventParent (ev : KnfcProc) : Option Handle :=
  if flagOn ev.flags 0x0001 then none else if ev.parentPid ≠ 0 then some ev.parentPid else none

def applyProcessEvent (t : ProcessTree) (eventType : ProcessEventType) (ev : KnfcProc) :
    ProcessTree :=
  match eventType, t.nodesByPid ev.pid with
  | .created, some _ => t
  | .created, none => (t.register ev).attach ev.pid (eventParent ev)
  | .exited, some node => { t with
      nodesByPid := Function.update t.nodesByPid ev.pid
        (some { node with flags := node.flags ||| 0x0004 }) }
  | .exited, none => t

end Client

section Nodes

variable {t : ProcessTree}

/-- What a node says of its process. -/
def ProcessNode.proc (node : ProcessNode) : KnfcProc :=
  ⟨node.pid, node.ppid, node.root, node.flags, node.imageNt⟩

theorem ProcessTree.attach_proc (pid : Handle) (parent : Option Handle) (k : Handle) :
    ((t.attach pid parent).nodesByPid k).map ProcessNode.proc =
      (t.nodesByPid k).map ProcessNode.proc := by
  unfold ProcessTree.attach
  cases parent with
  | none => rfl
  | some ppid =>
    dsimp only
    cases hn : t.nodesByPid ppid with
    | none => rfl
    | some node =>
      by_cases hk : k = ppid
      · subst hk
        simp [hn, ProcessNode.proc]
      · simp [hk]

theorem ProcessTree.register_proc (p : KnfcProc) (k : Handle) :
    ((t.register p).nodesByPid k).map ProcessNode.proc =
      if k = p.pid then some p else (t.nodesByPid k).map ProcessNode.proc := by
  by_cases hk : k = p.pid
  · subst hk
    simp [ProcessTree.register, KnfcProc.node, ProcessNode.proc]
  · simp [ProcessTree.register, hk]

end Nodes

end KnFileCatcher

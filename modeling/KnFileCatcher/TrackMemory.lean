import KnFileCatcher.LinkedRings
import KnFileCatcher.PushLockSections
import KnFileCatcher.Track

/-! The tracking table as it lies in memory: list heads in `g_Track`, entries and image
paths in pool blocks, and one access at a time under the push lock. -/

namespace KnFileCatcher

open LinkedRings PushLock
open PushLock.Program (perform)
open Ownership (Block)

namespace TrackMemory

inductive PoolKind where
  | entry
  | path
deriving DecidableEq

abbrev PoolBlock := Block PoolKind

abbrev Bucket := Fin knfcTrackBuckets

abbrev Link := Addr Bucket PoolBlock

/-- A `KNFC_TRACK_ENTRY` without its links. -/
structure EntryData where
  pid : Handle
  parentPid : Handle
  rootPid : Handle
  flags : Ulong
  imageBuffer : Option PoolBlock
  imageLength : Nat
deriving DecidableEq

structure EntryCell where
  flink : Link
  blink : Link
  data : EntryData

inductive Cell where
  | entry (e : EntryCell)
  | path (chars : List Wchar)

def Cell.asEntry : Cell → Option EntryCell
  | .entry e => some e
  | .path _ => none

def Cell.mapEntry (f : EntryCell → EntryCell) : Cell → Cell
  | .entry e => .entry (f e)
  | .path chars => .path chars

structure ListHead where
  flink : Link
  blink : Link

/-- The part of `g_Track` that the push lock guards. -/
structure Heads where
  heads : Bucket → ListHead
  entryCount : Int

/-- `InitializeListHead` for every bucket. -/
def Heads.empty : Heads := ⟨fun i => ⟨.head i, .head i⟩, 0⟩

abbrev TrackProgram := PushLock.Program PoolKind Heads Cell

def readEntry (b : PoolBlock) : TrackProgram (Option EntryCell) := do
  let c : Cell ← perform (.read b)
  return c.asEntry

def setFlink : Link → Link → TrackProgram Unit
  | .head i, target => perform (.set fun g =>
      { g with heads := Function.update g.heads i { g.heads i with flink := target } })
  | .entry b, target => perform (.write b (Cell.mapEntry fun e => { e with flink := target }))

def setBlink : Link → Link → TrackProgram Unit
  | .head i, target => perform (.set fun g =>
      { g with heads := Function.update g.heads i { g.heads i with blink := target } })
  | .entry b, target => perform (.write b (Cell.mapEntry fun e => { e with blink := target }))

def addCount (n : Int) : TrackProgram Unit :=
  perform (.set fun g => { g with entryCount := g.entryCount + n })

/-- The walk from a link. `none` is a walk that comes to a foreign head or outlasts its fuel. -/
def findFrom (pid : Handle) (h : Bucket) : Nat → Link → TrackProgram (Option (Option PoolBlock))
  | 0, _ => return none
  | _ + 1, .head i => return if i = h then some none else none
  | fuel + 1, .entry b => do
    let e ← readEntry b
    match e with
    | none => return none
    | some e =>
      if e.data.pid = pid ∧ e.data.flags &&& knFcTrackExited = 0 then return some (some b)
      else findFrom pid h fuel e.flink

/-- The fuel is one more than the entries of the whole table. -/
def knFcTrackFindLocked (pid : Handle) : TrackProgram (Option (Option PoolBlock)) := do
  let g : Heads ← perform .look
  findFrom pid (knFcHashPid pid) (g.entryCount.toNat + 1) (g.heads (knFcHashPid pid)).flink

def insertHeadList (h : Bucket) (b : PoolBlock) : TrackProgram Unit := do
  let g : Heads ← perform .look
  setFlink (.entry b) (g.heads h).flink
  setBlink (.entry b) (.head h)
  setBlink (g.heads h).flink (.entry b)
  setFlink (.head h) (.entry b)

def copyImage (alloc : Bool) (path : UnicodeString) : TrackProgram (NtStatus × Option PoolBlock) :=
  if path.length > 0 then
    if !alloc then return (statusInsufficientResources, none)
    else do
      let copy : PoolBlock ← perform (.alloc .path)
      perform (.write copy fun _ => .path path.buffer)
      return (statusSuccess, some copy)
  else return (statusSuccess, none)

def freePath : Option PoolBlock → TrackProgram Unit
  | some b => perform (.free b)
  | none => return ()

/-- The links of a new entry are no one's before `insertHeadList` sets them. -/
def newEntry (pid parentPid rootPid : Handle) (flags : Ulong) (image : Option PoolBlock)
    (imageLength : Nat) : TrackProgram Unit := do
  let entry : PoolBlock ← perform (.alloc .entry)
  perform (.write entry fun _ =>
    .entry ⟨.entry entry, .entry entry, pid, parentPid, rootPid, flags, image, imageLength⟩)
  insertHeadList (knFcHashPid pid) entry
  addCount 1

def knFcTrackInsertLocked (alloc : InsertAlloc) (pid parentPid rootPid : Handle) (flags : Ulong)
    (imagePath : Option UnicodeString) : TrackProgram NtStatus := do
  let path := imagePath.getD .empty
  let copy ← copyImage alloc.path path
  if !ntSuccess copy.1 then return copy.1
  else if !alloc.entry then do
    freePath copy.2
    return statusInsufficientResources
  else do
    newEntry pid parentPid rootPid flags copy.2 path.length
    return statusSuccess

def knFcTrackFreeEntry (b : PoolBlock) : TrackProgram (Option Unit) := do
  let e ← readEntry b
  match e with
  | none => return none
  | some e => do
    freePath e.data.imageBuffer
    perform (.free b)
    return some ()

def removeEntryList (e : EntryCell) : TrackProgram Unit := do
  setFlink e.blink e.flink
  setBlink e.flink e.blink

def insertAndPush (alloc : InsertAlloc) (pid parentPid rootPid : Handle) (flags : Ulong)
    (imagePath : Option UnicodeString) : TrackProgram (Option (Option ProcessPush)) := do
  let st ← knFcTrackInsertLocked alloc pid parentPid rootPid flags imagePath
  return some (if ntSuccess st then
    some ⟨.created, pid, parentPid, rootPid, flags, imagePath⟩ else none)

/-- The entry of the parent is read for its root. -/
def classifyChild (alloc : InsertAlloc) (pid parentPid : Handle)
    (imagePath : Option UnicodeString) (extraFlags : Ulong) :
    Option (Option PoolBlock) → TrackProgram (Option (Option ProcessPush))
  | none => return none
  | some none => return some none
  | some (some b) => do
    let p ← readEntry b
    match p with
    | none => return none
    | some p =>
      insertAndPush alloc pid parentPid p.data.rootPid (knFcTrackChild ||| extraFlags) imagePath

def classifySection (alloc : InsertAlloc) (isRoot : Bool) (pid parentPid : Handle)
    (imagePath : Option UnicodeString) (extraFlags : Ulong) :
    TrackProgram (Option (Option ProcessPush)) := do
  let present ← knFcTrackFindLocked pid
  match present with
  | none => return none
  | some (some _) => return some none
  | some none =>
    if isRoot then insertAndPush alloc pid parentPid pid (knFcTrackRoot ||| extraFlags) imagePath
    else do
      let parent ← knFcTrackFindLocked parentPid
      classifyChild alloc pid parentPid imagePath extraFlags parent

/-- The entry is marked, read once more, unlinked and freed. -/
def exitEntry (pid : Handle) (b : PoolBlock) : TrackProgram (Option (Option ProcessPush)) := do
  perform (.write b (Cell.mapEntry fun e =>
    { e with data.flags := e.data.flags ||| knFcTrackExited }))
  let e ← readEntry b
  match e with
  | none => return none
  | some e => do
    removeEntryList e
    addCount (-1)
    let freed ← knFcTrackFreeEntry b
    return freed.map fun _ =>
      some ⟨.exited, pid, e.data.parentPid, e.data.rootPid, e.data.flags, none⟩

def exitSection (pid : Handle) : TrackProgram (Option (Option ProcessPush)) := do
  let found ← knFcTrackFindLocked pid
  match found with
  | none => return none
  | some none => return some none
  | some (some b) => exitEntry pid b

def lookupSection (pid : Handle) : TrackProgram (Option (Option (Handle × Ulong))) := do
  let found ← knFcTrackFindLocked pid
  match found with
  | none => return none
  | some none => return some none
  | some (some b) => do
    let e ← readEntry b
    return e.map fun e => some (e.data.rootPid, e.data.flags)

/-- `e` is the entry that comes first. -/
def removeHeadList (i : Bucket) (e : EntryCell) : TrackProgram Unit := do
  setFlink (.head i) e.flink
  setBlink e.flink (.head i)

def purgeBucket (i : Bucket) : Nat → TrackProgram (Option Unit)
  | 0 => return none
  | fuel + 1 => do
    let g : Heads ← perform .look
    match (g.heads i).flink with
    | .head j => return if j = i then some () else none
    | .entry b => do
      let e ← readEntry b
      match e with
      | none => return none
      | some e => do
        removeHeadList i e
        let freed ← knFcTrackFreeEntry b
        match freed with
        | none => return none
        | some () => purgeBucket i fuel

def purgeBuckets : List Bucket → TrackProgram (Option Unit)
  | [] => return some ()
  | i :: is => do
    let g : Heads ← perform .look
    let r ← purgeBucket i (g.entryCount.toNat + 1)
    match r with
    | none => return none
    | some () => purgeBuckets is

def purgeSection : TrackProgram (Option Unit) := do
  let r ← purgeBuckets (List.finRange knfcTrackBuckets)
  match r with
  | none => return none
  | some () => do
    perform (.set fun g => { g with entryCount := 0 })
    return some ()

inductive Op where
  | classify (alloc : InsertAlloc) (isRoot : Bool) (pid parentPid : Handle)
      (imagePath : Option UnicodeString) (extraFlags : Ulong)
  | markExited (pid : Handle)
  | lookup (pid : Handle)
  | purge

inductive Answer where
  | push (p : Option ProcessPush)
  | found (r : Option (Handle × Ulong))
  | purged
deriving DecidableEq

/-- A section between the acquisition of the lock and its release. -/
def locked {α : Type} (m : Mode) (body : TrackProgram (Option α)) (answer : α → Answer) :
    TrackProgram (Option Answer) := do
  perform (.acquire m)
  let r ← body
  match r with
  | none => return none
  | some r => do
    perform .release
    return some (answer r)

def program : Op → TrackProgram (Option Answer)
  | .classify alloc isRoot pid parentPid imagePath extraFlags =>
    locked .exclusive (classifySection alloc isRoot pid parentPid imagePath extraFlags) .push
  | .markExited pid => locked .exclusive (exitSection pid) .push
  | .lookup pid => locked .shared (lookupSection pid) .found
  | .purge => locked .exclusive purgeSection fun _ => .purged

/-- The functions of the table of lists, of which each section is to be one. -/
def spec : Op → KnfcTrackCtx → Answer × KnfcTrackCtx
  | .classify alloc isRoot pid parentPid imagePath extraFlags, g =>
    let r := classifyLocked alloc g isRoot pid parentPid imagePath extraFlags
    (.push r.2, r.1)
  | .markExited pid, g =>
    let r := KnFileCatcher.knFcMarkExited g pid
    (.push r.2, r.1)
  | .lookup pid, g =>
    (.found ((KnFileCatcher.knFcTrackFindLocked g pid).map fun e => (e.rootPid, e.flags)), g)
  | .purge, g => (.purged, knFcTrackPurgeAllLocked g)

end TrackMemory

end KnFileCatcher

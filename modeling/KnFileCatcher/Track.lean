import KnFileCatcher.ChainedTable
import KnFileCatcher.Config

/-! The tracking table: the functions of the driver that run under its lock. -/

namespace KnFileCatcher

def knFcTrackRoot : Ulong := 0x0001
def knFcTrackChild : Ulong := 0x0002
def knFcTrackExited : Ulong := 0x0004
def knFcTrackFromSnap : Ulong := 0x0008

def knfcTrackBuckets : Nat := 256

structure KnfcTrackEntry where
  pid : Handle
  parentPid : Handle
  rootPid : Handle
  flags : Ulong
  imagePath : UnicodeString
deriving DecidableEq

/-- The table of tracked processes. Its LONG counter is taken not to wrap. -/
structure KnfcTrackCtx where
  buckets : Fin knfcTrackBuckets → List KnfcTrackEntry
  entryCount : Int
  active : Bool
  notifyRegistered : Bool

/-- The outcomes of the two pool allocations of an insertion. -/
structure InsertAlloc where
  path : Bool
  entry : Bool
deriving DecidableEq

def InsertAlloc.ok : InsertAlloc := ⟨true, true⟩

def knFcHashPid (pid : Handle) : Fin knfcTrackBuckets :=
  let v := pid ^^^ (pid >>> 16)
  let v := v * 0x9E3779B1
  let v := v ^^^ (v >>> 13)
  Fin.ofNat 256 (v &&& (256 - 1)).toNat

def knFcTrackInitialize : KnfcTrackCtx where
  buckets _ := []
  entryCount := 0
  active := false
  notifyRegistered := false

def knFcTrackFindLocked (g : KnfcTrackCtx) (pid : Handle) : Option KnfcTrackEntry :=
  (g.buckets (knFcHashPid pid)).find? fun e =>
    decide (e.pid = pid) && decide (e.flags &&& knFcTrackExited = 0)

def knFcTrackInsertLocked (alloc : InsertAlloc) (g : KnfcTrackCtx)
    (pid parentPid rootPid : Handle) (flags : Ulong) (imagePath : Option UnicodeString) :
    NtStatus × KnfcTrackCtx :=
  let path := imagePath.getD .empty
  if path.length > 0 ∧ alloc.path = false then (statusInsufficientResources, g)
  else if alloc.entry = false then (statusInsufficientResources, g)
  else
    let entry : KnfcTrackEntry := ⟨pid, parentPid, rootPid, flags, path⟩
    let h := knFcHashPid pid
    (statusSuccess,
      { g with
        buckets := Function.update g.buckets h (entry :: g.buckets h)
        entryCount := g.entryCount + 1 })

def knFcTrackPurgeAllLocked (g : KnfcTrackCtx) : KnfcTrackCtx :=
  { g with buckets := fun _ => [], entryCount := 0 }

def knFcTrackIsTracked (g : KnfcTrackCtx) (pid : Handle) : Option (Handle × Ulong) :=
  if g.active = false ∨ pid = 0 then none
  else (knFcTrackFindLocked g pid).map fun e => (e.rootPid, e.flags)

/-- The root test that precedes the lock; a null image path matches no root. -/
def imageMatches (up : Wchar → Wchar) (cfg : KnfcConfig) (imagePath : Option UnicodeString) :
    Bool :=
  match imagePath with
  | none => false
  | some path => knFcConfigPathStartsWithAnyRoot up cfg path

inductive ProcessEventType where
  | created
  | exited
deriving DecidableEq

structure ProcessPush where
  eventType : ProcessEventType
  pid : Handle
  parentPid : Handle
  rootPid : Handle
  flags : Ulong
  image : Option UnicodeString
deriving DecidableEq

/-- The lock section of `knFcClassifyAndInsert` and the push that follows it. -/
def classifyLocked (alloc : InsertAlloc) (g : KnfcTrackCtx) (isRoot : Bool)
    (pid parentPid : Handle) (imagePath : Option UnicodeString) (extraFlags : Ulong) :
    KnfcTrackCtx × Option ProcessPush :=
  match knFcTrackFindLocked g pid with
  | some _ => (g, none)
  | none =>
    if isRoot then
      let flags := knFcTrackRoot ||| extraFlags
      let r := knFcTrackInsertLocked alloc g pid parentPid pid flags imagePath
      (r.2, if ntSuccess r.1 then some ⟨.created, pid, parentPid, pid, flags, imagePath⟩ else none)
    else
      match knFcTrackFindLocked g parentPid with
      | some p =>
        let flags := knFcTrackChild ||| extraFlags
        let r := knFcTrackInsertLocked alloc g pid parentPid p.rootPid flags imagePath
        (r.2,
          if ntSuccess r.1 then some ⟨.created, pid, parentPid, p.rootPid, flags, imagePath⟩
          else none)
      | none => (g, none)

def knFcClassifyAndInsert (up : Wchar → Wchar) (cfg : KnfcConfig) (alloc : InsertAlloc)
    (g : KnfcTrackCtx) (pid parentPid : Handle) (imagePath : Option UnicodeString)
    (extraFlags : Ulong) : KnfcTrackCtx × Option ProcessPush :=
  classifyLocked alloc g (imageMatches up cfg imagePath) pid parentPid imagePath extraFlags

def knFcMarkExited (g : KnfcTrackCtx) (pid : Handle) : KnfcTrackCtx × Option ProcessPush :=
  match knFcTrackFindLocked g pid with
  | some e =>
    let h := knFcHashPid pid
    ({ g with
        buckets := Function.update g.buckets h ((g.buckets h).eraseP fun e =>
          decide (e.pid = pid) && decide (e.flags &&& knFcTrackExited = 0))
        entryCount := g.entryCount - 1 },
      some ⟨.exited, pid, e.parentPid, e.rootPid, e.flags ||| knFcTrackExited, none⟩)
  | none => (g, none)

/-- `knFcTrackStop` as one step; the registration call itself has no state here. -/
def knFcTrackStop (g : KnfcTrackCtx) : KnfcTrackCtx :=
  knFcTrackPurgeAllLocked { g with active := false, notifyRegistered := false }

end KnFileCatcher

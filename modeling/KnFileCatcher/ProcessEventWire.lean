import KnFileCatcher.BackupWire
import KnFileCatcher.TreeDump

/-! A process event on its way to the window: packed by the driver, delivered by the filter
manager, taken apart by `WorkerLoop` and handed to `ApplyProcessEvent`. -/

namespace KnFileCatcher

open LittleEndian FlagBits

def KnfcProcessEvent.bytes (m : KnfcProcessEvent) : List Byte :=
  @word 4 m.type ++ (@word 4 m.size ++ (@word 4 m.eventType ++ (@word 4 m.reserved ++
    m.proc.bytes)))

structure ProcessEventNotify where
  eventType : Ulong
  pid : Handle
  parentPid : Handle
  rootPid : Handle
  flags : Ulong
  image : List Wchar
deriving DecidableEq

def ProcessEventNotify.proc (ev : ProcessEventNotify) : KnfcProc :=
  ⟨ev.pid, ev.parentPid, ev.rootPid, ev.flags, ev.image⟩

/-- `PtrToStructure<ProcessEventMsg>` behind the filter header. -/
def readProcessEventMsg (buf : List Byte) : Option KnfcProcessEvent :=
  (readProc (buf.drop (bodyHead + 16))).map fun proc =>
    ⟨readWord 4 bodyHead buf, readWord 4 (bodyHead + 4) buf, readWord 4 (bodyHead + 8) buf,
      readWord 4 (bodyHead + 12) buf, proc⟩

/-- What `WorkerLoop` reads from its buffer, if the message is a `ProcessEvent`. The image
is the last field of the message. -/
def readProcessEvent (buf : List Byte) : Option ProcessEventNotify :=
  if readWord 4 bodyHead buf = knFcMsgProcessEvent then
    (readProcessEventMsg buf).map fun pev =>
      let icch := pev.proc.imageLenChars.toInt
      let imgOff := sizeofProcessEvent - 120 * 2
      let image :=
        if 0 < icch ∧ icch ≤ 120 then
          readUnits ((buf.drop (bodyHead + imgOff)).take (2 * icch.toNat))
        else []
      ⟨pev.eventType, pev.proc.pid, pev.proc.parentPid, pev.proc.rootPid, pev.proc.flags, image⟩
  else none

/-- `ApplyProcessEvent`, which ignores an event of another type. -/
def applyNotify (t : ProcessTree) (ev : ProcessEventNotify) : ProcessTree :=
  if ev.eventType = ProcessEventType.created.code then applyProcessEvent t .created ev.proc
  else if ev.eventType = ProcessEventType.exited.code then applyProcessEvent t .exited ev.proc
  else t

/-- The row of a reply as `BuildTree` takes it, with the length of the image clamped. -/
def ProcRecord.clientProc (r : ProcRecord) : KnfcProc :=
  let icch := r.imageLenChars.toInt
  let icch := if icch < 0 then 0 else icch
  let icch := if icch > 120 then 120 else icch
  ⟨r.pid, r.parentPid, r.rootPid, r.flags, r.image.take icch.toNat⟩

def ProcessPush.message (p : ProcessPush) : List Byte :=
  KnfcProcessEvent.bytes ⟨knFcMsgProcessEvent, BitVec.ofNat 32 sizeofProcessEvent,
    p.eventType.code, 0, p.entry.row⟩

def ProcessPush.notify (p : ProcessPush) : ProcessEventNotify :=
  ⟨p.eventType.code, p.pid, p.parentPid, p.rootPid, p.flags, p.proc.image⟩

section Read

theorem imageLenChars_row (e : KnfcTrackEntry) :
    e.row.imageLenChars.toInt = (imageTail e.imagePath).length := by
  have hlen := length_imageTail e.imagePath
  have hsmall : (imageTail e.imagePath).length ≤ 120 := by
    rw [hlen]
    exact Nat.min_le_right _ _
  show (BitVec.ofNat 32 (imageTail e.imagePath).length).toInt = _
  rw [BitVec.toInt_eq_toNat_cond, BitVec.toNat_ofNat]
  omega

theorem length_imageTail_le (path : UnicodeString) : (imageTail path).length ≤ 120 := by
  rw [length_imageTail]
  exact Nat.min_le_right _ _

theorem take_row (e : KnfcTrackEntry) :
    e.row.image.take (imageTail e.imagePath).length = imageTail e.imagePath :=
  List.take_left' rfl

theorem clientProc_row (e : KnfcTrackEntry) : e.row.clientProc = e.proc := by
  have hle := length_imageTail_le e.imagePath
  have hcch := imageLenChars_row e
  have hclamp : (if (if e.row.imageLenChars.toInt < 0 then 0 else e.row.imageLenChars.toInt) > 120
      then 120 else if e.row.imageLenChars.toInt < 0 then 0 else e.row.imageLenChars.toInt).toNat =
        (imageTail e.imagePath).length := by
    rw [hcch]
    omega
  simp only [ProcRecord.clientProc, hclamp, take_row]
  rfl

theorem length_message (p : ProcessPush) : p.message.length = sizeofProcessEvent := by
  simp [ProcessPush.message, KnfcProcessEvent.bytes, ProcRecord.length_bytes, sizeofProc,
    sizeofProcessEvent]

/-- The field that a message of the channel has its PID in. -/
theorem readPid_message (p : ProcessPush) : readWord 8 16 p.message = p.pid := by
  have hpid : p.entry.row.pid = p.pid := rfl
  simp [ProcessPush.message, KnfcProcessEvent.bytes, ProcRecord.bytes, readWord_skip, hpid]

variable (h : FilterMessageHeader) (p : ProcessPush) (stale : List Byte)

theorem drop_body (off : Nat) (bytes : List Byte) :
    (h.bytes ++ bytes).drop (bodyHead + off) = bytes.drop off := by
  have hhead : h.bytes.length = bodyHead := length_headerBytes h
  rw [← hhead, List.drop_length_add_append]

theorem readProcessEventMsg_message :
    readProcessEventMsg (h.bytes ++ (p.message ++ stale)) = some ⟨knFcMsgProcessEvent,
      BitVec.ofNat 32 sizeofProcessEvent, p.eventType.code, 0, p.entry.row⟩ := by
  have htype : readWord 4 bodyHead (h.bytes ++ (p.message ++ stale)) = knFcMsgProcessEvent :=
    (readWord_body h 0 _).trans (by simp [ProcessPush.message, KnfcProcessEvent.bytes])
  have hrow : (p.message ++ stale).drop 16 = p.entry.row.bytes ++ stale := by
    simp [ProcessPush.message, KnfcProcessEvent.bytes, drop_word]
  rw [readProcessEventMsg, drop_body, hrow, readProc_bytes, Option.map_some, htype]
  simp only [readWord_body]
  simp [ProcessPush.message, KnfcProcessEvent.bytes, readWord_skip]

theorem image_message :
    ((h.bytes ++ (p.message ++ stale)).drop (bodyHead + 48)).take
      (2 * (imageTail p.entry.imagePath).length) = units (imageTail p.entry.imagePath) := by
  have himage : (p.message ++ stale).drop 48 = units p.entry.row.image ++ stale := by
    simp [ProcessPush.message, KnfcProcessEvent.bytes, ProcRecord.bytes, drop_word]
  have hsplit : units p.entry.row.image = units (imageTail p.entry.imagePath) ++
      units (List.replicate (knfcTreeImageChars - (imageTail p.entry.imagePath).length) 0) := by
    simp [units, KnfcTrackEntry.row, ProcRecord.withTail]
  rw [drop_body, himage, hsplit, List.append_assoc, List.take_left' (length_units _)]

/-- A process event is read as it was pushed. -/
theorem readProcessEvent_message :
    readProcessEvent (h.bytes ++ (p.message ++ stale)) = some p.notify := by
  have hmsg := readProcessEventMsg_message h p stale
  have htype : readWord 4 bodyHead (h.bytes ++ (p.message ++ stale)) = knFcMsgProcessEvent :=
    (readWord_body h 0 _).trans (by simp [ProcessPush.message, KnfcProcessEvent.bytes])
  have hle := length_imageTail_le p.entry.imagePath
  have hoff : bodyHead + (sizeofProcessEvent - 120 * 2) = bodyHead + 48 := rfl
  rw [readProcessEvent, if_pos htype, hmsg, Option.map_some]
  dsimp only
  rw [imageLenChars_row, Int.toNat_natCast, hoff, image_message, readUnits_units]
  have himage : (if 0 < ((imageTail p.entry.imagePath).length : Int) ∧
      ((imageTail p.entry.imagePath).length : Int) ≤ 120 then imageTail p.entry.imagePath else []) =
        imageTail p.entry.imagePath := by
    split
    · rfl
    · next hno =>
      have hzero : (imageTail p.entry.imagePath).length = 0 := by omega
      exact (List.length_eq_zero_iff.mp hzero).symm
  rw [himage]
  rfl

theorem receive_message (buf : WorkerBuffer) :
    (filterGetMessage buf h p.message).bind readProcessEvent = some p.notify := by
  have hfits : (h.bytes ++ p.message).length ≤ workerBufSize := by
    rw [List.length_append, length_headerBytes, length_message]
    decide
  rw [filterGetMessage, if_pos hfits, Option.bind_some, List.append_assoc,
    readProcessEvent_message]

end Read

section Apply

variable {t : ProcessTree}

def ProcessTree.view (t : ProcessTree) (pid : Handle) : Option KnfcProc :=
  (t.nodesByPid pid).map ProcessNode.proc

theorem applyNotify_notify (t : ProcessTree) (p : ProcessPush) :
    applyNotify t p.notify = applyProcessEvent t p.eventType p.proc := by
  unfold applyNotify ProcessPush.notify
  cases p.eventType with
  | created => rfl
  | exited => rfl

def KnfcProc.stamp (p : KnfcProc) : KnfcProc := { p with flags := p.flags ||| 0x0004 }

def KnfcProc.Live (p : KnfcProc) : Prop := flagOn p.flags 0x0004 = false

theorem not_live_stamp (p : KnfcProc) : ¬ p.stamp.Live := by
  have hself : flagOn (0x0004 : Ulong) 0x0004 = true := by decide
  have hon : flagOn (p.flags ||| 0x0004) 0x0004 = true := by rw [flagOn_or, hself, Bool.or_true]
  exact fun hlive => Bool.false_ne_true (hlive.symm.trans hon)

end Apply

end KnFileCatcher

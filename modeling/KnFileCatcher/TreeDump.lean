import KnFileCatcher.CommMessage
import KnFileCatcher.EventOrder
import KnFileCatcher.ProcessTree

/-! The rows of a dump of the tracking table, as the driver writes them into the array
of its caller, and the events that told of the same processes. -/

namespace KnFileCatcher

open FlagBits LittleEndian Runs ChainedTable

def knFcMsgProcessEvent : Ulong := 102
def sizeofProcessEvent : Nat := 288

/-- `KNFC_PROC` as it lies in memory. -/
@[ext] structure ProcRecord where
  pid : Handle
  parentPid : Handle
  rootPid : Handle
  flags : Ulong
  imageLenChars : Ulong
  image : List Wchar
  room : image.length = knfcTreeImageChars
deriving DecidableEq

/-- An access outside of the source buffer, the `Image` field or the array. -/
inductive MemoryFault where
  | source
  | image
  | array
deriving DecidableEq

namespace ProcRecord

def zero : ProcRecord := ⟨0, 0, 0, 0, 0, List.replicate knfcTreeImageChars 0, List.length_replicate⟩

/-- `RtlCopyMemory` to the start of `Image` from the unit `skip` of a buffer. -/
def copyImage (r : ProcRecord) (buffer : List Wchar) (skip bytes : Nat) :
    Except MemoryFault ProcRecord :=
  let chars := bytes / 2
  if buffer.length < skip + chars then .error .source
  else if h : chars ≤ knfcTreeImageChars ∧ skip + chars ≤ buffer.length then
    .ok { r with
      image := (buffer.drop skip).take chars ++ r.image.drop chars
      room := by
        have hroom := r.room
        simp only [List.length_append, List.length_take, List.length_drop]
        omega }
  else .error .image

/-- The image part of both encoders; `cch` and `skip` are USHORTs. -/
def storeImage (r : ProcRecord) (path : UnicodeString) : Except MemoryFault ProcRecord :=
  if path.length > 0 then
    let cch := path.length / 2 % 65536
    if cch > knfcTreeImageChars then do
      let skip := (cch - knfcTreeImageChars) % 65536
      let r ← r.copyImage path.buffer skip (knfcTreeImageChars * 2)
      return { r with imageLenChars := BitVec.ofNat 32 knfcTreeImageChars }
    else do
      let r ← r.copyImage path.buffer 0 path.length
      return { r with imageLenChars := BitVec.ofNat 32 cch }
  else .ok r

end ProcRecord

section Encoders

def dumpRow (e : KnfcTrackEntry) : Except MemoryFault ProcRecord :=
  { ProcRecord.zero with
    pid := e.pid
    parentPid := e.parentPid
    rootPid := e.rootPid
    flags := e.flags }.storeImage e.imagePath

structure KnfcProcessEvent where
  type : Ulong
  size : Ulong
  eventType : Ulong
  reserved : Ulong
  proc : ProcRecord
deriving DecidableEq

def ProcessEventType.code : ProcessEventType → Ulong
  | .created => 1
  | .exited => 2

def knFcCommPushProcessEvent (p : ProcessPush) : Except MemoryFault KnfcProcessEvent := do
  let proc : ProcRecord := { ProcRecord.zero with
    pid := p.pid
    parentPid := p.parentPid
    rootPid := p.rootPid
    flags := p.flags }
  let proc ← match p.image with
    | some image => proc.storeImage image
    | none => .ok proc
  return ⟨knFcMsgProcessEvent, BitVec.ofNat 32 sizeofProcessEvent, p.eventType.code, 0, proc⟩

end Encoders

section Dump

structure DumpState where
  out : List ProcRecord
  written : Ulong
  truncated : Bool
deriving DecidableEq

def storeRow (out : List ProcRecord) (i : Nat) (r : ProcRecord) :
    Except MemoryFault (List ProcRecord) :=
  if i < out.length then .ok (out.set i r) else .error .array

/-- The walk over one bucket, and whether it jumps to `done`. -/
def dumpBucket (maxEntries : Ulong) :
    List KnfcTrackEntry → DumpState → Except MemoryFault (DumpState × Bool)
  | [], s => .ok (s, false)
  | e :: es, s =>
    if flagOn e.flags knFcTrackExited then dumpBucket maxEntries es s
    else if maxEntries ≤ s.written then .ok ({ s with truncated := true }, true)
    else do
      let row ← dumpRow e
      let out ← storeRow s.out s.written.toNat row
      dumpBucket maxEntries es { s with out := out, written := s.written + 1 }

def dumpBuckets (maxEntries : Ulong) :
    List (List KnfcTrackEntry) → DumpState → Except MemoryFault DumpState
  | [], s => .ok s
  | b :: bs, s => do
    let r ← dumpBucket maxEntries b s
    if r.2 then return r.1 else dumpBuckets maxEntries bs r.1

/-- `knFcTrackDump` with its array; a null one has nothing to fill. -/
def trackDumpInto (g : KnfcTrackCtx) (outArr : Option (List ProcRecord)) (maxEntries : Ulong) :
    Except MemoryFault DumpState :=
  match outArr with
  | none => .ok ⟨[], 0, false⟩
  | some out =>
    if maxEntries = 0 then .ok ⟨out, 0, false⟩
    else dumpBuckets maxEntries ((List.finRange knfcTrackBuckets).map g.buckets) ⟨out, 0, false⟩

end Dump

section Rows

theorem length_imageTail (path : UnicodeString) :
    (imageTail path).length = min path.buffer.length knfcTreeImageChars := by
  unfold imageTail
  split
  · rw [List.length_drop]
    omega
  · omega

namespace ProcRecord

/-- The tail of a path and its length, padded with zeros. -/
def withTail (r : ProcRecord) (path : UnicodeString) : ProcRecord :=
  { r with
    imageLenChars := BitVec.ofNat 32 (imageTail path).length
    image := imageTail path ++
      List.replicate (knfcTreeImageChars - (imageTail path).length) 0
    room := by
      have hlen := length_imageTail path
      rw [List.length_append, List.length_replicate]
      omega }

/-- What a reader takes from a record. -/
def proc (r : ProcRecord) : KnfcProc :=
  ⟨r.pid, r.parentPid, r.rootPid, r.flags, r.image.take r.imageLenChars.toNat⟩

theorem copyImage_eq {r : ProcRecord} {buffer : List Wchar} {skip bytes : Nat}
    (hsource : skip + bytes / 2 ≤ buffer.length) (hroom : bytes / 2 ≤ knfcTreeImageChars) :
    ∃ room, r.copyImage buffer skip bytes = .ok { r with
      image := (buffer.drop skip).take (bytes / 2) ++ r.image.drop (bytes / 2), room := room } := by
  have hsome : ¬ buffer.length < skip + bytes / 2 := Nat.not_lt.mpr hsource
  have hlen : ((buffer.drop skip).take (bytes / 2) ++ r.image.drop (bytes / 2)).length =
      knfcTreeImageChars := by
    have hold := r.room
    simp only [List.length_append, List.length_take, List.length_drop]
    omega
  exact ⟨hlen, by simp only [copyImage, if_neg hsome, dif_pos (And.intro hroom hsource)]⟩

/-- Into a zeroed record the tail goes whole. -/
theorem storeImage_eq {r : ProcRecord} (hchars : r.imageLenChars = 0)
    (himage : r.image = List.replicate knfcTreeImageChars 0) (path : UnicodeString) :
    r.storeImage path = .ok (r.withTail path) := by
  have hfits := path.fits
  have hcch : path.length / 2 % 65536 = path.buffer.length := by
    unfold UnicodeString.length
    omega
  by_cases hpos : path.length > 0
  · simp only [storeImage, if_pos hpos, hcch]
    by_cases hlong : path.buffer.length > knfcTreeImageChars
    · have hskip : (path.buffer.length - knfcTreeImageChars) % 65536 =
          path.buffer.length - knfcTreeImageChars := Nat.mod_eq_of_lt (by omega)
      obtain ⟨room, hcopy⟩ := @copyImage_eq r path.buffer
        (path.buffer.length - knfcTreeImageChars) (knfcTreeImageChars * 2) (by omega) (by omega)
      have htail : imageTail path = path.buffer.drop (path.buffer.length - knfcTreeImageChars) :=
        if_pos hlong
      have hlen : (imageTail path).length = knfcTreeImageChars := by
        rw [length_imageTail]
        omega
      have htake : (imageTail path).take knfcTreeImageChars = imageTail path :=
        List.take_of_length_le (Nat.le_of_eq hlen)
      rw [if_pos hlong, hskip, hcopy]
      refine congrArg Except.ok (ProcRecord.ext rfl rfl rfl rfl ?_ ?_)
      · simp only [withTail, hlen]
      · simp [withTail, hlen, himage, ← htail, htake]
    · obtain ⟨room, hcopy⟩ := @copyImage_eq r path.buffer 0 path.length
        (by unfold UnicodeString.length; omega) (by unfold UnicodeString.length; omega)
      have htail : imageTail path = path.buffer := if_neg hlong
      have hhalf : path.length / 2 = path.buffer.length := by
        unfold UnicodeString.length
        omega
      rw [if_neg hlong, hcopy]
      refine congrArg Except.ok (ProcRecord.ext rfl rfl rfl rfl ?_ ?_)
      · simp only [withTail, htail]
      · simp [withTail, htail, hhalf, himage]
  · have hnil : path.buffer = [] := UnicodeString.length_eq_zero_iff.mp (by omega)
    have htail : imageTail path = [] := by simp [imageTail, hnil]
    simp only [storeImage, if_neg hpos]
    refine congrArg Except.ok (ProcRecord.ext rfl rfl rfl rfl ?_ ?_)
    · simpa [withTail, htail] using hchars
    · simpa [withTail, htail] using himage

end ProcRecord

/-- The row that an entry should have. -/
def KnfcTrackEntry.row (e : KnfcTrackEntry) : ProcRecord :=
  { ProcRecord.zero with
    pid := e.pid
    parentPid := e.parentPid
    rootPid := e.rootPid
    flags := e.flags }.withTail e.imagePath

theorem KnfcTrackEntry.proc_row (e : KnfcTrackEntry) : e.row.proc = e.proc := by
  have hlen := length_imageTail e.imagePath
  have htoNat : (BitVec.ofNat 32 (imageTail e.imagePath).length).toNat =
      (imageTail e.imagePath).length := by
    rw [BitVec.toNat_ofNat]
    exact Nat.mod_eq_of_lt (by rw [hlen]; unfold knfcTreeImageChars; omega)
  simp [ProcRecord.proc, KnfcTrackEntry.row, ProcRecord.withTail, KnfcTrackEntry.proc, htoNat]

theorem dumpRow_eq (e : KnfcTrackEntry) : dumpRow e = .ok e.row :=
  ProcRecord.storeImage_eq rfl rfl e.imagePath

theorem pushProcessEvent_eq (p : ProcessPush) :
    knFcCommPushProcessEvent p = .ok ⟨knFcMsgProcessEvent, BitVec.ofNat 32 sizeofProcessEvent,
      p.eventType.code, 0, p.entry.row⟩ := by
  unfold knFcCommPushProcessEvent
  cases himage : p.image with
  | none =>
    have hempty : p.entry.imagePath = .empty := by simp [ProcessPush.entry, himage]
    rw [KnfcTrackEntry.row, hempty]
    rfl
  | some image =>
    have hsame : p.entry.imagePath = image := by simp [ProcessPush.entry, himage]
    dsimp only
    rw [ProcRecord.storeImage_eq rfl rfl image, KnfcTrackEntry.row, hsame]
    rfl

end Rows

section Walk

def liveOnly (es : List KnfcTrackEntry) : List KnfcTrackEntry :=
  es.filter fun e => !flagOn e.flags knFcTrackExited

def KnfcTrackCtx.liveEntries (g : KnfcTrackCtx) : List KnfcTrackEntry := liveOnly (entries g.buckets)

/-- What the array `out` holds after the live entries `live` were met. -/
structure Filled (out : List ProcRecord) (maxEntries : Ulong) (live : List KnfcTrackEntry)
    (s : DumpState) : Prop where
  rows : s.out = (live.take maxEntries.toNat).map KnfcTrackEntry.row ++
    out.drop (min maxEntries.toNat live.length)
  written : s.written.toNat = min maxEntries.toNat live.length
  truncated : s.truncated = decide (maxEntries.toNat < live.length)

variable {out : List ProcRecord} {maxEntries : Ulong} {live : List KnfcTrackEntry} {s : DumpState}

/-- Once an entry was left out, the ones behind it change nothing. -/
theorem Filled.append (h : Filled out maxEntries live s) (hfull : maxEntries.toNat < live.length)
    (more : List KnfcTrackEntry) : Filled out maxEntries (live ++ more) s where
  rows := by
    rw [List.take_append_of_le_length (Nat.le_of_lt hfull), List.length_append,
      Nat.min_eq_left (by omega), h.rows, Nat.min_eq_left (Nat.le_of_lt hfull)]
  written := by
    rw [h.written, List.length_append]
    omega
  truncated := by
    rw [h.truncated, decide_eq_true hfull, List.length_append, decide_eq_true (by omega)]

theorem Filled.store (h : Filled out maxEntries live s) (hlen : out.length = maxEntries.toNat)
    (hroom : live.length < maxEntries.toNat) (e : KnfcTrackEntry) :
    ∃ out', storeRow s.out s.written.toNat e.row = .ok out' ∧
      Filled out maxEntries (live ++ [e]) ⟨out', s.written + 1, s.truncated⟩ := by
  have hmin : min maxEntries.toNat live.length = live.length := Nat.min_eq_right (by omega)
  have hrows : s.out = live.map KnfcTrackEntry.row ++ out.drop live.length := by
    rw [h.rows, hmin, List.take_of_length_le (by omega)]
  have hwritten : s.written.toNat = live.length := h.written.trans hmin
  have hinside : s.written.toNat < s.out.length := by
    rw [hwritten, hrows, List.length_append, List.length_map, List.length_drop]
    omega
  have hset : s.out.set s.written.toNat e.row =
      (live ++ [e]).map KnfcTrackEntry.row ++ out.drop (live ++ [e]).length := by
    have hin : live.length < out.length := by omega
    have hnext : out.drop live.length = out[live.length] :: out.drop (live.length + 1) :=
      List.drop_eq_getElem_cons hin
    rw [hwritten, hrows, hnext, List.set_append_right _ _ (by rw [List.length_map]),
      List.length_map, Nat.sub_self, List.set_cons_zero]
    simp
  have hlast : (live ++ [e]).length ≤ maxEntries.toNat := by simpa using hroom
  refine ⟨_, if_pos hinside, ?_, ?_, ?_⟩
  · rw [hset, List.take_of_length_le hlast, Nat.min_eq_right hlast]
  · have hlt := maxEntries.isLt
    rw [BitVec.toNat_add_of_lt (by rw [hwritten]; simp; omega), hwritten, Nat.min_eq_right hlast]
    simp
  · rw [h.truncated, decide_eq_false (by omega), decide_eq_false (by omega)]

theorem liveOnly_cons_exited {e : KnfcTrackEntry} {es : List KnfcTrackEntry}
    (h : flagOn e.flags knFcTrackExited = true) : liveOnly (e :: es) = liveOnly es := by
  simp [liveOnly, h]

theorem liveOnly_cons_live {e : KnfcTrackEntry} {es : List KnfcTrackEntry}
    (h : flagOn e.flags knFcTrackExited = false) : liveOnly (e :: es) = e :: liveOnly es := by
  simp [liveOnly, h]

/-- One bucket; the walk ends inside it exactly if an entry is left out. -/
theorem dumpBucket_filled (hlen : out.length = maxEntries.toNat) (es : List KnfcTrackEntry)
    (h : Filled out maxEntries live s) (hroom : live.length ≤ maxEntries.toNat) :
    ∃ s', dumpBucket maxEntries es s =
        .ok (s', decide (maxEntries.toNat < (live ++ liveOnly es).length)) ∧
      Filled out maxEntries (live ++ liveOnly es) s' := by
  induction es generalizing live s with
  | nil => exact ⟨s, by simp [dumpBucket, liveOnly, hroom], by simpa [liveOnly] using h⟩
  | cons e es ih =>
    unfold dumpBucket
    cases hflag : flagOn e.flags knFcTrackExited with
    | true =>
      rw [if_pos rfl, liveOnly_cons_exited hflag]
      exact ih h hroom
    | false =>
      rw [if_neg (by simp), liveOnly_cons_live hflag, List.append_cons]
      by_cases hfull : maxEntries ≤ s.written
      · have hend : live.length = maxEntries.toNat := by
          have hle : maxEntries.toNat ≤ s.written.toNat := hfull
          rw [h.written] at hle
          omega
        have hleft : Filled out maxEntries (live ++ [e]) { s with truncated := true } := by
          refine ⟨?_, ?_, ?_⟩
          · rw [h.rows, ← hend]
            simp
          · rw [h.written, ← hend]
            simp
          · simp [hend]
        have hmore : maxEntries.toNat < (live ++ [e]).length := by simp [hend]
        refine ⟨_, ?_, hleft.append hmore (liveOnly es)⟩
        rw [if_pos hfull, decide_eq_true (by rw [List.length_append]; omega)]
      · have hspace : live.length < maxEntries.toNat := by
          have hlt : s.written.toNat < maxEntries.toNat := Nat.lt_of_not_le hfull
          rw [h.written] at hlt
          omega
        obtain ⟨out', hstore, hfilled⟩ := h.store hlen hspace e
        rw [if_neg hfull, dumpRow_eq]
        obtain ⟨s', hrest, hs'⟩ := ih hfilled (by simpa using hspace)
        refine ⟨s', ?_, hs'⟩
        simp only [bind, Except.bind, hstore, hrest]

theorem dumpBuckets_filled (hlen : out.length = maxEntries.toNat)
    (buckets : List (List KnfcTrackEntry)) (h : Filled out maxEntries live s)
    (hroom : live.length ≤ maxEntries.toNat) :
    ∃ s', dumpBuckets maxEntries buckets s = .ok s' ∧
      Filled out maxEntries (live ++ liveOnly buckets.flatten) s' := by
  induction buckets generalizing live s with
  | nil => exact ⟨s, rfl, by simpa [liveOnly] using h⟩
  | cons b bs ih =>
    obtain ⟨s₁, hb, hs₁⟩ := dumpBucket_filled hlen b h hroom
    have hsplit : live ++ liveOnly (b :: bs).flatten =
        (live ++ liveOnly b) ++ liveOnly bs.flatten := by simp [liveOnly]
    rw [hsplit]
    by_cases hfull : maxEntries.toNat < (live ++ liveOnly b).length
    · refine ⟨s₁, ?_, hs₁.append hfull _⟩
      simp only [dumpBuckets, bind, Except.bind, hb, decide_eq_true hfull, if_true]
      rfl
    · obtain ⟨s', hrest, hs'⟩ := ih hs₁ (Nat.le_of_not_lt hfull)
      refine ⟨s', ?_, hs'⟩
      simpa only [dumpBuckets, bind, Except.bind, hb, decide_eq_false hfull, Bool.false_eq_true,
        if_false] using hrest

theorem trackDumpInto_filled (g : KnfcTrackCtx) (hpos : 1 ≤ maxEntries.toNat)
    (hlen : out.length = maxEntries.toNat) :
    ∃ s, trackDumpInto g (some out) maxEntries = .ok s ∧ Filled out maxEntries g.liveEntries s := by
  have hne : maxEntries ≠ 0 := by
    rintro rfl
    simp at hpos
  have hstart : Filled out maxEntries [] ⟨out, 0, false⟩ := ⟨by simp, by simp, by simp⟩
  obtain ⟨s, hs, hfilled⟩ := dumpBuckets_filled hlen
    ((List.finRange knfcTrackBuckets).map g.buckets) hstart (Nat.zero_le _)
  refine ⟨s, by simpa only [trackDumpInto, if_neg hne] using hs, ?_⟩
  rwa [List.nil_append, ← List.flatMap_def] at hfilled

theorem dumpEntries_eq (es : List KnfcTrackEntry) (room : Nat) :
    dumpEntries room es = (((liveOnly es).take room).map KnfcTrackEntry.proc,
      decide (room < (liveOnly es).length)) := by
  induction es generalizing room with
  | nil => simp [dumpEntries, liveOnly]
  | cons e es ih =>
    cases hflag : flagOn e.flags knFcTrackExited with
    | true => simp [dumpEntries, hflag, liveOnly_cons_exited hflag, ih]
    | false => cases room <;> simp [dumpEntries, hflag, liveOnly_cons_live hflag, ih]

/-- What a reader takes from the rows is the dump itself. -/
theorem Filled.trackDump {g : KnfcTrackCtx} (h : Filled out maxEntries g.liveEntries s)
    (hpos : 1 ≤ maxEntries.toNat) :
    knFcTrackDump g maxEntries.toNat =
      ((s.out.take s.written.toNat).map ProcRecord.proc, s.truncated) := by
  have hwritten : s.written.toNat =
      ((g.liveEntries.take maxEntries.toNat).map KnfcTrackEntry.row).length := by
    rw [h.written, List.length_map, List.length_take]
  rw [knFcTrackDump, if_neg (by omega), dumpEntries_eq, h.truncated, h.rows,
    List.take_left' hwritten.symm, List.map_map]
  exact congrArg (fun rows => (rows, _))
    (List.map_congr_left fun e _ => (KnfcTrackEntry.proc_row e).symm)

end Walk

section Reply

def sizeofProc : Nat := 272
def sizeofProcessTreeReplyHead : Nat := 16
def errorInvalidHandle : Int := 6

def ProcRecord.bytes (r : ProcRecord) : List Byte :=
  @word 8 r.pid ++ (@word 8 r.parentPid ++ (@word 8 r.rootPid ++ (@word 4 r.flags ++
    (@word 4 r.imageLenChars ++ units r.image))))

def zeroedProcs : List ProcRecord := List.replicate knfcMaxTreeEntries .zero

/-- The reply that `knFcHandleGetProcessTree` builds in the pool and copies out. -/
def processTreeReply (g : KnfcTrackCtx) : Except MemoryFault (List Byte) := do
  let d ← trackDumpInto g (some zeroedProcs) (BitVec.ofNat 32 knfcMaxTreeEntries)
  return @word 4 Comm.knFcMsgGetProcessTree ++
    (@word 4 (BitVec.ofNat 32 Comm.sizeofProcessTreeReply) ++ (@word 4 d.written ++
      (@word 4 (if d.truncated then 1 else 0) ++ d.out.flatMap ProcRecord.bytes)))

/-- `PtrToStructure<ProcWire>`, which does not read past the buffer. -/
def readProc (buf : List Byte) : Option ProcRecord :=
  if h : sizeofProc ≤ buf.length then
    some {
      pid := readWord 8 0 buf
      parentPid := readWord 8 8 buf
      rootPid := readWord 8 16 buf
      flags := readWord 4 24 buf
      imageLenChars := readWord 4 28 buf
      image := readUnits ((buf.drop 32).take 240)
      room := by
        have heven : ((buf.drop 32).take 240).length = 240 := by
          unfold sizeofProc at h
          rw [List.length_take, List.length_drop]
          omega
        have hunits := congrArg List.length (units_readUnits ((buf.drop 32).take 240) (by rw [heven]))
        rw [length_units, heven] at hunits
        unfold knfcTreeImageChars
        omega }
  else none

/-- `GetProcessTree`, with the answer of `SendBuffer` and the reply it left. -/
def getProcessTree (connected : Bool) (rc : Int) (replyBuf : List Byte) :
    Option (Int × List ProcRecord × Bool) :=
  if connected = false then some (errorInvalidHandle, [], false)
  else if rc ≠ 0 then some (rc, [], false)
  else
    let count := (readWord 4 8 replyBuf).toNat
    let truncated := decide (readWord 4 12 replyBuf ≠ 0)
    ((List.range (min count knfcMaxTreeEntries)).mapM fun i =>
      readProc (replyBuf.drop (sizeofProcessTreeReplyHead + i * sizeofProc))).map
        fun procs => (0, procs, truncated)

theorem ProcRecord.length_bytes (r : ProcRecord) : r.bytes.length = sizeofProc := by
  simp [ProcRecord.bytes, r.room, sizeofProc, knfcTreeImageChars]

theorem image_bytes (r : ProcRecord) (post : List Byte) :
    ((r.bytes ++ post).drop 32).take 240 = units r.image := by
  have hroom : (units r.image).length = 240 := by
    rw [length_units, r.room]
    rfl
  have hdrop : (r.bytes ++ post).drop 32 = units r.image ++ post := by
    simp [ProcRecord.bytes, drop_word]
  rw [hdrop, List.take_left' hroom]

theorem readProc_bytes (r : ProcRecord) (post : List Byte) : readProc (r.bytes ++ post) = some r := by
  have hlen := r.length_bytes
  have hlong : sizeofProc ≤ (r.bytes ++ post).length := by
    rw [List.length_append]
    omega
  have himage := congrArg readUnits (image_bytes r post)
  rw [readUnits_units] at himage
  rw [readProc, dif_pos hlong, Option.some.injEq]
  apply ProcRecord.ext
  · simp [ProcRecord.bytes]
  · simp [ProcRecord.bytes, readWord_skip]
  · simp [ProcRecord.bytes, readWord_skip]
  · simp [ProcRecord.bytes, readWord_skip]
  · simp [ProcRecord.bytes, readWord_skip]
  · exact himage

/-- Row `i` of an array is the record that stands at its offset. -/
theorem readProc_row {rows : List ProcRecord} {i : Nat} (h : i < rows.length) (head : List Byte)
    (hhead : head.length = sizeofProcessTreeReplyHead) :
    readProc ((head ++ rows.flatMap ProcRecord.bytes).drop
      (sizeofProcessTreeReplyHead + i * sizeofProc)) = some rows[i] := by
  rw [← hhead, List.drop_length_add_append, drop_records ProcRecord.length_bytes,
    List.drop_eq_getElem_cons h, List.flatMap_cons, readProc_bytes]

theorem readProcs {rows : List ProcRecord} {n : Nat} (h : n ≤ rows.length) (head : List Byte)
    (hhead : head.length = sizeofProcessTreeReplyHead) :
    ((List.range n).mapM fun i => readProc ((head ++ rows.flatMap ProcRecord.bytes).drop
      (sizeofProcessTreeReplyHead + i * sizeofProc))) = some (rows.take n) := by
  induction n with
  | zero => rfl
  | succ n ih =>
    rw [List.range_succ, List.mapM_append, ih (by omega), List.mapM_cons, List.mapM_nil,
      readProc_row h head hhead, List.take_succ_eq_append_getElem h]
    rfl

/-- The client takes out of the reply what the dump wrote. -/
theorem processTreeReply_decodes (g : KnfcTrackCtx) :
    ∃ d reply, trackDumpInto g (some zeroedProcs) (BitVec.ofNat 32 knfcMaxTreeEntries) = .ok d ∧
      processTreeReply g = .ok reply ∧ reply.length = Comm.sizeofProcessTreeReply ∧
      getProcessTree true 0 reply = some (0, d.out.take d.written.toNat, d.truncated) := by
  have hzero : zeroedProcs.length = knfcMaxTreeEntries := by
    rw [zeroedProcs, List.length_replicate]
  have hmax : (BitVec.ofNat 32 knfcMaxTreeEntries).toNat = knfcMaxTreeEntries := by decide
  obtain ⟨d, hd, hfilled⟩ := @trackDumpInto_filled zeroedProcs
    (BitVec.ofNat 32 knfcMaxTreeEntries) g (by decide) (hzero.trans hmax.symm)
  have hwritten : d.written.toNat ≤ knfcMaxTreeEntries := by
    rw [hfilled.written, hmax]
    exact Nat.min_le_left _ _
  have hout : d.out.length = knfcMaxTreeEntries := by
    rw [hfilled.rows, hmax]
    simp only [List.length_append, List.length_map, List.length_take, List.length_drop, hzero]
    omega
  let head := @word 4 Comm.knFcMsgGetProcessTree ++
    (@word 4 (BitVec.ofNat 32 Comm.sizeofProcessTreeReply) ++ (@word 4 d.written ++
      @word 4 (if d.truncated then 1 else 0)))
  have hhead : head.length = sizeofProcessTreeReplyHead := by
    simp [head, sizeofProcessTreeReplyHead]
  have hreply : processTreeReply g = .ok (head ++ d.out.flatMap ProcRecord.bytes) := by
    simp only [processTreeReply, hd, bind, Except.bind, pure, Except.pure, head, List.append_assoc]
  have hcount : readWord 4 8 (head ++ d.out.flatMap ProcRecord.bytes) = d.written := by
    simp [head, readWord_skip]
  have hflag : readWord 4 12 (head ++ d.out.flatMap ProcRecord.bytes) =
      if d.truncated then 1 else 0 := by
    simp [head, readWord_skip]
  refine ⟨d, _, hd, hreply, ?_, ?_⟩
  · rw [List.length_append, hhead, length_records ProcRecord.length_bytes, hout]
    rfl
  · simp only [getProcessTree, hcount, hflag, Nat.min_eq_left hwritten]
    rw [readProcs (by omega) head hhead]
    cases d.truncated <;> simp

end Reply

section Runs

variable {T : Type*}

/-- The creation event of an entry: its insertion is in the log, no later event undid it,
and its event carries the record `r`. -/
def Announced (log : List TrackEvent) (e : KnfcTrackEntry) (r : ProcRecord) : Prop :=
  ∃ later i past ev, log = later ++ .inserted i :: past ∧ i.entry = e ∧
    (∀ ev ∈ later, ¬ ev.removes e.pid) ∧ knFcCommPushProcessEvent i.push = .ok ev ∧
    ev.type = knFcMsgProcessEvent ∧ ev.eventType = ProcessEventType.created.code ∧ ev.proc = r

/-- A dump of the table into `out`: the entries it took, and what it did not touch. -/
structure Dumps (s : LineageSystem T) (maxEntries : Ulong) (out : List ProcRecord)
    (d : DumpState) (dumped : List KnfcTrackEntry) : Prop where
  live : ∀ e ∈ dumped, knFcTrackFindLocked s.table e.pid = some e
  distinct : (dumped.map KnfcTrackEntry.pid).Nodup
  count : d.written.toNat = min maxEntries.toNat s.table.liveEntries.length
  length : dumped.length = d.written.toNat
  truncated : d.truncated = true ↔ ∃ e ∈ s.table.liveEntries, e ∉ dumped
  rows : d.out = dumped.map KnfcTrackEntry.row ++ out.drop dumped.length
  announced : ∀ e ∈ dumped, Announced s.log e e.row

def CreatedOnly (log : List TrackEvent) : Prop := ∀ i, .inserted i ∈ log → i.push.eventType = .created

theorem CreatedOnly.cons {log : List TrackEvent} {ev : TrackEvent} (h : CreatedOnly log)
    (hev : ∀ i, ev = .inserted i → i.push.eventType = .created) : CreatedOnly (ev :: log) := by
  intro i hi
  rcases List.mem_cons.mp hi with hi | hi
  · exact hev i hi.symm
  · exact h i hi

variable {up : Wchar → Wchar} {s : LineageSystem T}

theorem rooted_liveEntries (hr : s.Rooted up) : s.table.liveEntries = entries s.table.buckets := by
  refine List.filter_eq_self.mpr fun e he => ?_
  obtain ⟨b, hb⟩ := Layout.mem_entries.mp he
  have hlive : e.flags &&& knFcTrackExited = 0 := of_decide_eq_true (hr.wf.live b e hb)
  rw [flagOn_eq_false_iff.mpr hlive]
  rfl

theorem rooted_find (hr : s.Rooted up) {e : KnfcTrackEntry} (he : e ∈ s.table.liveEntries) :
    knFcTrackFindLocked s.table e.pid = some e := by
  rw [rooted_liveEntries hr] at he
  rw [findLocked_eq]
  exact hr.wf.find_eq_some_iff.mpr ⟨rfl, Layout.mem_entries.mp he⟩

/-- A live entry has the record that its creation event carried. -/
theorem rooted_announced (hr : s.Rooted up) (hc : CreatedOnly s.log) {e : KnfcTrackEntry}
    (he : e ∈ s.table.liveEntries) : Announced s.log e e.row := by
  obtain ⟨later, i, past, hlog, hentry, hlater⟩ := hr.live e.pid e (rooted_find hr he)
  have hcreated : i.push.eventType = .created := hc i (by rw [hlog]; simp)
  have hrow : i.push.entry.row = e.row := congrArg KnfcTrackEntry.row hentry
  exact ⟨later, i, past, _, hlog, hentry, hlater, pushProcessEvent_eq i.push, rfl,
    congrArg ProcessEventType.code hcreated, hrow⟩

theorem rooted_dumps (hr : s.Rooted up) (hc : CreatedOnly s.log) {maxEntries : Ulong}
    {out : List ProcRecord} {d : DumpState} (hd : Filled out maxEntries s.table.liveEntries d) :
    Dumps s maxEntries out d (s.table.liveEntries.take maxEntries.toNat) := by
  have hkeys : (s.table.liveEntries.map KnfcTrackEntry.pid).Nodup := by
    rw [rooted_liveEntries hr]
    exact hr.wf.nodup_keys
  have hlen : (s.table.liveEntries.take maxEntries.toNat).length = d.written.toNat := by
    rw [List.length_take, hd.written]
  refine ⟨fun e he => rooted_find hr (List.mem_of_mem_take he), ?_, hd.written, hlen, ?_, ?_,
    fun e he => rooted_announced hr hc (List.mem_of_mem_take he)⟩
  · rw [List.map_take]
    exact hkeys.sublist (List.take_sublist _ _)
  · have hsplit := List.take_append_drop maxEntries.toNat s.table.liveEntries
    have hnodup := hkeys.of_map KnfcTrackEntry.pid
    rw [← hsplit] at hnodup
    rw [hd.truncated, decide_eq_true_iff]
    constructor
    · intro hlt
      have hrest : 0 < (s.table.liveEntries.drop maxEntries.toNat).length := by
        rw [List.length_drop]
        omega
      obtain ⟨e, he⟩ := List.exists_mem_of_length_pos hrest
      exact ⟨e, List.mem_of_mem_drop he, fun htaken =>
        List.disjoint_of_nodup_append hnodup htaken he⟩
    · rintro ⟨e, he, hleft⟩
      by_contra hge
      rw [List.take_of_length_le (by omega)] at hleft
      exact hleft he
  · rw [hlen, hd.written]
    exact hd.rows

variable [DecidableEq T]

theorem createdOnly_step {t : LineageSystem T} {a : LineageAction T} (h : CreatedOnly s.log)
    (hs : lineageStep up s a = some t) : CreatedOnly t.log := by
  cases a with
  | addRoot alloc path =>
    obtain rfl := Option.some.inj hs
    exact h
  | clearRoots =>
    obtain rfl := Option.some.inj hs
    exact h
  | classify t origin pid parentPid image =>
    simp only [lineageStep] at hs
    split at hs
    · cases hs
    · obtain rfl := Option.some.inj hs
      exact h
  | insert t alloc =>
    obtain ⟨c, -, rfl⟩ := Option.map_eq_some_iff.mp hs
    simp only [LineageSystem.afterInsert]
    split
    · next push hpush =>
      refine h.cons ?_
      rintro i ⟨⟩
      exact classify_push hpush
    · exact h
  | exit pid =>
    obtain rfl := Option.some.inj hs
    simp only [LineageSystem.afterExit]
    split
    · exact h.cons (by rintro _ ⟨⟩)
    · exact h
  | stop =>
    obtain rfl := Option.some.inj hs
    exact h.cons (by rintro _ ⟨⟩)

/-- In every state of a run a dump stays in its array and fills it with the records of as
many live entries as fit, each as its creation event carried it; and the client reads the
rows of its dump out of the reply. -/
theorem dump_rows_are_created_events (h : Reachable (lineageStep up) (LineageSystem.init T) s) :
    (∀ (maxEntries : Ulong) (out : List ProcRecord), 1 ≤ maxEntries.toNat →
      out.length = maxEntries.toNat →
      ∃ d dumped, trackDumpInto s.table (some out) maxEntries = .ok d ∧
        Dumps s maxEntries out d dumped) ∧
      ∃ d dumped reply,
        trackDumpInto s.table (some zeroedProcs) (BitVec.ofNat 32 knfcMaxTreeEntries) = .ok d ∧
        Dumps s (BitVec.ofNat 32 knfcMaxTreeEntries) zeroedProcs d dumped ∧
        processTreeReply s.table = .ok reply ∧ reply.length = Comm.sizeofProcessTreeReply ∧
        getProcessTree true 0 reply =
          some (0, dumped.map KnfcTrackEntry.row, d.truncated) := by
  have hr : s.Rooted up := h.invariant (fun _ _ _ hi hs => hi.step hs) LineageSystem.rooted_init
  have hc : CreatedOnly s.log :=
    h.invariant (fun _ _ _ hi hs => createdOnly_step hi hs) (fun i hi => by cases hi)
  have hall : ∀ (maxEntries : Ulong) (out : List ProcRecord), 1 ≤ maxEntries.toNat →
      out.length = maxEntries.toNat →
      ∃ d dumped, trackDumpInto s.table (some out) maxEntries = .ok d ∧
        Dumps s maxEntries out d dumped := by
    intro maxEntries out hpos hlen
    obtain ⟨d, hd, hfilled⟩ := trackDumpInto_filled s.table hpos hlen
    exact ⟨d, _, hd, rooted_dumps hr hc hfilled⟩
  have hzero : zeroedProcs.length = (BitVec.ofNat 32 knfcMaxTreeEntries).toNat := by
    rw [zeroedProcs, List.length_replicate]
    decide
  obtain ⟨d, reply, hd, hreply, hsize, hclient⟩ := processTreeReply_decodes s.table
  obtain ⟨d', dumped, hd', hdumps⟩ := hall _ zeroedProcs (by decide) hzero
  obtain rfl : d = d' := Except.ok.inj (hd.symm.trans hd')
  have hrows : d.out.take d.written.toNat = dumped.map KnfcTrackEntry.row := by
    rw [hdumps.rows, List.take_left' (by rw [List.length_map, hdumps.length])]
  exact ⟨hall, d, dumped, reply, hd, hdumps, hreply, hsize, by rw [hclient, hrows]⟩

theorem dump_rows_are_created_events_orphan :
    ∃ s, exec (lineageStep id) (LineageSystem.init Bool) orphanRun = some s ∧
      ∃ d dumped, trackDumpInto s.table (some [.zero]) 1 = .ok d ∧ Dumps s 1 [.zero] d dumped :=
  ⟨_, rfl, (@dump_rows_are_created_events Bool id _ _ ⟨orphanRun, rfl⟩).1 1 [.zero] (by decide) rfl⟩

end Runs

end KnFileCatcher

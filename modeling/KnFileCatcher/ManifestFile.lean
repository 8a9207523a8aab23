import KnFileCatcher.Manifest
import KnFileCatcher.Runs
import KnFileCatcher.Utf16
import Mathlib.Data.List.TakeWhile

/-! The manifest on the disk: the bytes that the worker threads of a session append to it,
and what a reader of the file finds there. -/

namespace KnFileCatcher

section Bytes

/-- `Encoding.UTF8.GetBytes`. -/
def getBytes (s : List Wchar) : List UInt8 := (Utf16.decode s).flatMap String.utf8EncodeChar

/-- The text of bytes that are UTF-8. -/
def getString (bytes : List UInt8) : Option (List Wchar) :=
  bytes.toByteArray.utf8Decode?.map fun cs => Utf16.encode cs.toList

def newlineByte : UInt8 := 10

theorem getString_getBytes (s : List Wchar) : getString (getBytes s) = some (Utf16.repair s) := by
  have hbytes : (getBytes s).toByteArray = (Utf16.decode s).utf8Encode := rfl
  rw [getString, hbytes, List.utf8Decode?_utf8Encode]
  rfl

theorem newlineByte_mem_utf8EncodeChar {c : Char} (h : newlineByte ∈ String.utf8EncodeChar c) :
    c = '\n' := by
  have hbyte (n : Nat) (hn : n < 256) (h : newlineByte = UInt8.ofNat n) : n = 10 := by
    have hnat := congrArg UInt8.toNat h
    rw [UInt8.toNat_ofNat', Nat.mod_eq_of_lt hn] at hnat
    exact hnat.symm
  have hval : c.val.toNat < 0x110000 := by
    have hvalid := c.valid
    simp only [UInt32.isValidChar, Nat.isValidChar] at hvalid
    omega
  simp only [String.utf8EncodeChar] at h
  split_ifs at h with h1 h2 h3
  · have hten := hbyte _ (by omega) (List.mem_singleton.mp h)
    exact Char.ext (UInt32.toNat.inj hten)
  all_goals
    simp only [List.mem_cons, List.not_mem_nil, or_false] at h
  · rcases h with h | h <;> have hten := hbyte _ (by omega) h <;> omega
  · rcases h with h | h | h <;> have hten := hbyte _ (by omega) h <;> omega
  · rcases h with h | h | h | h <;> have hten := hbyte _ (by omega) h <;> omega

theorem isLow_newline : ∀ d ∈ [newline].head?, Utf16.isLow d = false := by
  intro d hd
  obtain rfl : newline = d := by simpa using hd
  decide

theorem getBytes_newline (s : List Wchar) :
    getBytes (s ++ [newline]) = getBytes s ++ [newlineByte] := by
  rw [getBytes, Utf16.decode_append isLow_newline, List.flatMap_append]
  rfl

theorem newlineByte_notMem_getBytes {s : List Wchar} (h : newline ∉ s) :
    newlineByte ∉ getBytes s := by
  intro hmem
  obtain ⟨c, hc, hbyte⟩ := List.mem_flatMap.mp hmem
  obtain rfl := newlineByte_mem_utf8EncodeChar hbyte
  exact h (Utf16.mem_of_mem_decode (by decide) hc)

end Bytes

section Lines

/-- A text without surrogates. -/
def Whole (s : List Wchar) : Prop := ∀ c ∈ s, Utf16.isSurrogate c = false

theorem whole_append_iff {s t : List Wchar} : Whole (s ++ t) ↔ Whole s ∧ Whole t :=
  List.forall_mem_append

theorem Whole.append {s t : List Wchar} (hs : Whole s) (ht : Whole t) : Whole (s ++ t) :=
  whole_append_iff.mpr ⟨hs, ht⟩

theorem whole_wchar {c : Char} (h : c.toNat < 0x80) : Utf16.isSurrogate (wchar c) = false := by
  have hnat : (wchar c).toNat = c.toNat := by
    rw [wchar, BitVec.toNat_ofNat, Nat.mod_eq_of_lt (by omega)]
  rw [Utf16.not_surrogate_iff]
  omega

def ascii (c : Char) : Bool := c.toNat.blt 0x80

theorem whole_ascii {cs : List Char} (h : cs.all ascii = true) : Whole (cs.map wchar) := by
  intro c hc
  obtain ⟨d, hd, rfl⟩ := List.mem_map.mp hc
  exact whole_wchar (Nat.le_of_ble_eq_true (List.all_eq_true.mp h d hd))

theorem whole_text {s : String} (h : s.toList.all ascii = true) : Whole (text s) := whole_ascii h

theorem whole_digits {n : Nat} : Whole ((Nat.toDigits 10 n).map wchar) := by
  intro c hc
  obtain ⟨d, hd, rfl⟩ := List.mem_map.mp hc
  obtain ⟨-, hlow, hhigh⟩ := Json.toNat_unit_digit (Json.isDigit_toDigits hd)
  exact whole_wchar (by omega)

theorem whole_natText (n : Nat) : Whole (text (toString n)) := by
  rw [text, Nat.toString_eq_repr, Nat.toList_repr]
  exact whole_digits

theorem whole_signedText {culture : CultureInfo} {w : Nat} {n : BitVec w}
    (h : 0 ≤ n.toInt ∨ culture.SignsAsJson) : Whole (signedText culture n) := by
  unfold signedText
  split
  · next hnegative =>
    obtain ⟨blanks, hsign, hblanks⟩ := h.resolve_left (Int.not_le.mpr hnegative)
    rw [hsign]
    refine (Whole.append (fun c hc => ?_) (@whole_ascii ['-'] rfl)).append (whole_natText _)
    have hblank := hblanks c hc
    simp only [Json.isWhitespace, Bool.or_eq_true, decide_eq_true_eq] at hblank
    rcases hblank with ((rfl | rfl) | rfl) | rfl <;> decide
  · exact whole_natText _

theorem whole_paddedDecimal (width n : Nat) : Whole (paddedDecimal width n) := by
  have hzeros : Whole ((List.replicate (width - (Nat.toDigits 10 n).length) '0').map wchar) := by
    intro c hc
    obtain ⟨d, hd, rfl⟩ := List.mem_map.mp hc
    rw [List.eq_of_mem_replicate hd]
    exact whole_wchar (by decide)
  have hdigits := hzeros.append (whole_digits (n := n))
  rwa [← List.map_append] at hdigits

theorem whole_format (t : DateTime) : Whole t.format := by
  unfold DateTime.format
  repeat' apply Whole.append
  all_goals first
    | exact whole_paddedDecimal _ _
    | exact whole_text rfl

theorem jsonEscapeUnit_high {c : Wchar} (h : 0x80 ≤ c.toNat) : jsonEscapeUnit c = [c] := by
  have hne (d : Char) (hd : d.toNat < 0x80) : c ≠ wchar d := by
    intro heq
    have hnat : c.toNat = d.toNat % 65536 := congrArg BitVec.toNat heq
    omega
  have hlow : ¬ c.toNat < 0x20 := by omega
  rw [jsonEscapeUnit, if_neg (hne _ (by decide)), if_neg (hne _ (by decide)),
    if_neg (hne _ (by decide)), if_neg (hne _ (by decide)), if_neg (hne _ (by decide)),
    if_neg hlow]

theorem whole_control : ∀ n < 0x20,
    Whole (((Nat.toDigits 16 n).leftpad 4 '0').map wchar) := by
  have hdigits : ∀ n < 0x20, ((Nat.toDigits 16 n).leftpad 4 '0').all ascii = true := by
    decide
  exact fun n hn => whole_ascii (hdigits n hn)

theorem whole_jsonEscapeUnit {c : Wchar} (h : Utf16.isSurrogate c = false) :
    Whole (jsonEscapeUnit c) := by
  unfold jsonEscapeUnit
  split
  · exact whole_text rfl
  split
  · exact whole_text rfl
  split
  · exact whole_text rfl
  split
  · exact whole_text rfl
  split
  · exact whole_text rfl
  split
  · next hlow => exact (whole_text rfl).append (whole_control c.toNat hlow)
  · intro d hd
    rwa [List.mem_singleton.mp hd]

theorem jsonEscapeUnit_ne_nil (c : Wchar) : jsonEscapeUnit c ≠ [] := by
  unfold jsonEscapeUnit
  split_ifs <;> exact List.cons_ne_nil _ _

theorem transparent_jsonEscapeUnit : Utf16.Transparent jsonEscapeUnit where
  surrogate c hc := by
    have hhigh : 0xD800 ≤ c.toNat := by
      by_contra hlow
      rw [Utf16.not_surrogate_iff.mpr (.inl (by omega))] at hc
      cases hc
    exact jsonEscapeUnit_high (by omega)
  plain c hc := ⟨jsonEscapeUnit_ne_nil c, whole_jsonEscapeUnit hc⟩
  replacement := jsonEscapeUnit_high (by decide)

end Lines

section Entries

/-- The numbers of an entry between its time and its paths. -/
def entryNumbers (evt : BackupEvent) : List Wchar :=
  (text ",\"pid\":" ++ unsignedText evt.pid) ++
    (text ",\"root_pid\":" ++ unsignedText evt.rootPid) ++
    (text ",\"flags\":" ++ unsignedText evt.flags) ++
    (text ",\"size_hint\":" ++ unsignedText evt.sizeHint) ++
    text ",\"src\":\""

theorem entryMiddle_split (evt : BackupEvent) (t : List Wchar) : entryMiddle evt ++ t =
    entryNumbers evt ++ (jsonEscape evt.srcNt ++ (text "\"" ++ (text ",\"dest\":\"" ++
      (jsonEscape evt.dest ++ (text "\"" ++ (text ",\"status\":" ++ t)))))) := by
  simp only [entryMiddle, entryNumbers, List.append_assoc]

theorem whole_unsignedText {w : Nat} (n : BitVec w) : Whole (unsignedText n) :=
  whole_natText n.toNat

theorem whole_entryHead (evt : BackupEvent) : Whole (entryHead evt) := by
  simp only [entryHead, whole_append_iff, whole_unsignedText, and_true]
  and_intros <;> exact whole_text rfl

theorem whole_entryNumbers (evt : BackupEvent) : Whole (entryNumbers evt) := by
  simp only [entryNumbers, whole_append_iff, whole_unsignedText, and_true]
  and_intros <;> exact whole_text rfl

/-- The event as far as UTF-8 can spell its paths. -/
def BackupEvent.spelled (evt : BackupEvent) : BackupEvent :=
  { evt with srcNt := Utf16.repair evt.srcNt, dest := Utf16.repair evt.dest }

theorem isLow_quote (t : List Wchar) :
    ∀ d ∈ (text "\"" ++ t).head?, Utf16.isLow d = false := by
  intro d hd
  obtain rfl : wchar '"' = d := by simpa [text] using hd
  decide

/-- The culture spells the entry, and its time without a lone surrogate. -/
def CultureInfo.SpellsWell (culture : CultureInfo) (e : DateTime × BackupEvent) : Prop :=
  (0 ≤ e.2.status.toInt ∨ culture.SignsAsJson) ∧
    ∃ stamp u, culture.timeStamp e.1 = some stamp ∧ Json.IsContent stamp u ∧
      Utf16.WellFormed stamp

theorem spellsWell_invariant (e : DateTime × BackupEvent) :
    CultureInfo.invariant.SpellsWell e := by
  refine ⟨.inr ⟨[], rfl, fun c hc => nomatch hc⟩, _, _, rfl, isContent_plain (plain_format e.1),
    Utf16.repair_eq_iff.mp ?_⟩
  have hplain := Utf16.repair_plain (whole_format e.1) []
  rwa [List.append_nil, show Utf16.repair [] = [] from rfl, List.append_nil] at hplain

theorem repair_stampedLine {culture : CultureInfo} {stamp : List Wchar} {evt : BackupEvent}
    (hstatus : 0 ≤ evt.status.toInt ∨ culture.SignsAsJson) (hstamp : Utf16.WellFormed stamp) :
    Utf16.repair (stampedLine culture stamp evt) = stampedLine culture stamp evt.spelled := by
  have hquote : Whole (text "\"") := whole_text rfl
  have hdest : Whole (text ",\"dest\":\"") := whole_text rfl
  have hname : Whole (text ",\"status\":") := whole_text rfl
  have hend : Whole [Json.endObject] := @whole_ascii ['\x7d'] rfl
  have htail : Utf16.repair (signedText culture evt.status ++ [Json.endObject]) =
      signedText culture evt.status ++ [Json.endObject] := by
    have hplain := Utf16.repair_plain ((whole_signedText hstatus).append hend) []
    rwa [List.append_nil, show Utf16.repair [] = [] from rfl, List.append_nil] at hplain
  have hpath (s : List Wchar) : Utf16.repair (jsonEscape s) = jsonEscape (Utf16.repair s) :=
    transparent_jsonEscapeUnit.repair_flatMap s
  have hmark (t : List Wchar) : Json.quotationMark :: t = text "\"" ++ t := rfl
  rw [stampedLine, hmark, entryMiddle_split, Utf16.repair_plain (whole_entryHead evt),
    Utf16.repair_append (isLow_quote _), Utf16.repair_eq_iff.mpr hstamp,
    Utf16.repair_plain hquote, Utf16.repair_plain (whole_entryNumbers evt),
    Utf16.repair_append (isLow_quote _), hpath, Utf16.repair_plain hquote,
    Utf16.repair_plain hdest, Utf16.repair_append (isLow_quote _), hpath,
    Utf16.repair_plain hquote, Utf16.repair_plain hname, htail, stampedLine, hmark,
    entryMiddle_split]
  rfl

/-- What a reader makes of one line of the file. -/
def readEntry (line : List UInt8) : Option BackupEvent :=
  ((getString line).bind Json.parse).bind eventOf

/-- The bytes that a call writes, if it gets so far. -/
def entryBytes (culture : CultureInfo) (e : DateTime × BackupEvent) : List UInt8 :=
  match entryText culture e.1 e.2 with
  | none => []
  | some entry => getBytes entry

theorem spelled_eq_iff (evt : BackupEvent) :
    evt.spelled = evt ↔ Utf16.WellFormed evt.srcNt ∧ Utf16.WellFormed evt.dest := by
  rw [← Utf16.repair_eq_iff, ← Utf16.repair_eq_iff]
  constructor
  · intro h
    exact ⟨congrArg BackupEvent.srcNt h, congrArg BackupEvent.dest h⟩
  · intro ⟨hsrc, hdest⟩
    rw [BackupEvent.spelled, hsrc, hdest]

theorem entryBytes_spellsWell {culture : CultureInfo} {e : DateTime × BackupEvent}
    (h : culture.SpellsWell e) : ∃ line, entryBytes culture e = line ++ [newlineByte] ∧
      newlineByte ∉ line ∧ readEntry line = some e.2.spelled := by
  obtain ⟨hstatus, stamp, u, hstamp, hcontent, hwell⟩ := h
  have hline : entryLine culture e = some (stampedLine culture stamp e.2) := by
    rw [entryLine, hstamp, Option.map_some]
  refine ⟨getBytes (stampedLine culture stamp e.2), ?_, ?_, ?_⟩
  · rw [entryBytes, entryText_eq, hline, Option.map_some]
    exact getBytes_newline _
  · exact newlineByte_notMem_getBytes (newline_notMem_entryLine hline)
  · have htext : Json.IsText (stampedLine culture stamp e.2.spelled) (entryObject u e.2.spelled) :=
      isText_stampedLine hcontent hstatus
    rw [readEntry, getString_getBytes, Option.bind_some, repair_stampedLine hstatus hwell,
      Json.parse_complete htext, Option.bind_some, eventOf_entryObject]

/-- A reader finds a line for each entry, and the paths in it are those of the entry exactly
if neither has a surrogate that stands alone. -/
def ReadsBack (added : List UInt8) (entries : List (DateTime × BackupEvent)) : Prop :=
  ∃ lines, added.splitOn newlineByte = lines ++ [[]] ∧
    List.Forall₂ (fun line e => readEntry line = some e.2.spelled ∧
      (readEntry line = some e.2 ↔ Utf16.WellFormed e.2.srcNt ∧ Utf16.WellFormed e.2.dest))
      lines entries

theorem readsBack_entryBytes {culture : CultureInfo} {entries : List (DateTime × BackupEvent)}
    (h : ∀ e ∈ entries, culture.SpellsWell e) :
    ReadsBack (entries.flatMap (entryBytes culture)) entries := by
  induction entries with
  | nil => exact ⟨[], rfl, .nil⟩
  | cons e entries ih =>
    obtain ⟨hspells, hrest⟩ := List.forall_mem_cons.mp h
    obtain ⟨line, hbytes, hline, hread⟩ := entryBytes_spellsWell hspells
    obtain ⟨lines, hlines, hforall⟩ := ih hrest
    refine ⟨line :: lines, ?_, .cons ⟨hread, ?_⟩ hforall⟩
    · rw [List.flatMap_cons, hbytes, List.append_assoc, List.singleton_append,
        List.splitOn_append_cons_self, List.splitOn_eq_singleton hline, hlines]
      rfl
    · rw [hread, Option.some.injEq, spelled_eq_iff]

end Entries

section Streams

/-- An open stream: what stands in its file before its position, and what a failed flush has
left in its buffer. -/
structure ManifestStream where
  kept : List UInt8
  pending : List UInt8

/-- What a write that throws leaves behind: how many of the bytes stand before the position,
what else has come into the file there, and what is left in the buffer. -/
structure TornWrite where
  reached : Nat
  tail : List UInt8
  left : List UInt8

/-- `Write` and `Flush`, the file with the stream. -/
def ManifestStream.write (st : ManifestStream) (bytes : List UInt8) (torn : Option TornWrite)
    (file : List UInt8) : List UInt8 × ManifestStream :=
  match torn with
  | none =>
    let kept := st.kept ++ (st.pending ++ bytes)
    (kept ++ file.drop kept.length, ⟨kept, []⟩)
  | some torn =>
    let kept := st.kept ++ (st.pending ++ bytes).take torn.reached
    (kept ++ torn.tail, ⟨kept, torn.left⟩)

/-- Only a stream that has something to write can throw at its end. -/
def ManifestStream.EndsWith (st : ManifestStream) (torn : Option TornWrite) : Prop :=
  torn.isSome → st.pending ≠ []

instance (st : ManifestStream) (torn : Option TornWrite) : Decidable (st.EndsWith torn) :=
  inferInstanceAs (Decidable (_ → _))

variable {st : ManifestStream} {bytes file : List UInt8} {torn : Option TornWrite}

theorem ManifestStream.kept_write : st.kept <+: (st.write bytes torn file).2.kept := by
  cases torn with
  | none => exact List.prefix_append _ _
  | some torn => exact List.prefix_append _ _

theorem ManifestStream.kept_prefix_write :
    (st.write bytes torn file).2.kept <+: (st.write bytes torn file).1 := by
  cases torn with
  | none => exact List.prefix_append _ _
  | some torn => exact List.prefix_append _ _

/-- A stream at the end of its file, with nothing in its buffer, appends. -/
theorem ManifestStream.write_appends (hkept : st.kept = file) (hpending : st.pending = []) :
    st.write bytes none file = (file ++ bytes, ⟨file ++ bytes, []⟩) := by
  have hdrop : file.drop (file ++ bytes).length = [] := by simp
  simp only [ManifestStream.write, hkept, hpending, List.nil_append, hdrop, List.append_nil]

end Streams

section Writer

variable (Path Thread : Type)

/-- How a call of `WriteEntry` ended. -/
inductive CallOutcome where
  /-- No stream was open, and the call returned without a word. -/
  | dropped
  | appended (path : Path)
  /-- Without a path, the text could not be built. -/
  | threw (path : Option Path)
deriving DecidableEq

structure FinishedCall where
  thread : Thread
  entry : DateTime × BackupEvent
  outcome : CallOutcome Path

/-- The files of the disk, the streams open on them, and the writer of the session. `fs` names
the stream of the writer, which can have been disposed of already. -/
structure ManifestDisk where
  file : Path → List UInt8
  stream : Path → Option ManifestStream
  fs : Option Path
  building : Thread → Option (DateTime × BackupEvent)
  finished : List (FinishedCall Path Thread)

/-- What happens to the writer. A call of `WriteEntry` builds its text before it takes the
lock. `Open` takes no lock, and it is not called while another call holds it. -/
inductive WriterAction where
  | openPath (path : Path) (opened : Bool)
  | writeEntry (t : Thread) (e : DateTime × BackupEvent)
  | append (t : Thread) (torn : Option TornWrite)
  | dispose (torn : Option TornWrite)
  /-- The finalizer of a stream that the writer has forgotten. -/
  | finalize (path : Path) (torn : Option TornWrite)

variable {Path Thread} [DecidableEq Path] [DecidableEq Thread]

def ManifestDisk.finish (s : ManifestDisk Path Thread) (t : Thread) (e : DateTime × BackupEvent)
    (outcome : CallOutcome Path) : ManifestDisk Path Thread :=
  { s with
    building := Function.update s.building t none
    finished := s.finished ++ [⟨t, e, outcome⟩] }

def outcomeOf (path : Path) : Option TornWrite → CallOutcome Path
  | none => .appended path
  | some _ => .threw (some path)

/-- The statement of `WriteEntry` under the lock, unless it cannot end so. -/
def ManifestDisk.append (culture : CultureInfo) (s : ManifestDisk Path Thread) (t : Thread)
    (e : DateTime × BackupEvent) (torn : Option TornWrite) : Option (ManifestDisk Path Thread) :=
  match s.fs with
  | none => if torn.isSome then none else some (s.finish t e .dropped)
  | some path =>
    match s.stream path with
    -- a stream that has been disposed of throws
    | none => if torn.isSome then some (s.finish t e (.threw (some path))) else none
    | some st =>
      let r := st.write (entryBytes culture e) torn (s.file path)
      some { s.finish t e (outcomeOf path torn) with
        file := Function.update s.file path r.1
        stream := Function.update s.stream path (some r.2) }

/-- The end of a stream writes what is in its buffer. -/
def ManifestDisk.closed (s : ManifestDisk Path Thread) (path : Path) (st : ManifestStream)
    (torn : Option TornWrite) : ManifestDisk Path Thread :=
  { s with
    file := Function.update s.file path (st.write [] torn (s.file path)).1
    stream := Function.update s.stream path none }

def writerStep (culture : CultureInfo) (s : ManifestDisk Path Thread) :
    WriterAction Path Thread → Option (ManifestDisk Path Thread)
  | .openPath path opened =>
    if opened then
      match s.stream path with
      | none => some { s with
          stream := Function.update s.stream path (some ⟨s.file path, []⟩)
          fs := some path }
      -- the share mode of a stream keeps every second writer out
      | some _ => none
    else some { s with fs := none }
  | .writeEntry t e =>
    if (s.building t).isSome then none
    else
      match entryText culture e.1 e.2 with
      | none => some (s.finish t e (.threw none))
      | some _ => some { s with building := Function.update s.building t (some e) }
  | .append t torn => (s.building t).bind fun e => s.append culture t e torn
  | .dispose torn =>
    match s.fs with
    | none => if torn.isSome then none else some s
    | some path =>
      match s.stream path with
      | none => if torn.isSome then none else some { s with fs := none }
      | some st =>
        if st.EndsWith torn then
          -- an exception leaves the method before the field is cleared
          if torn.isSome then some (s.closed path st torn)
          else some { s.closed path st torn with fs := none }
        else none
  | .finalize path torn =>
    if s.fs = some path then none
    else
      match s.stream path with
      | none => none
      | some st => if st.EndsWith torn then some (s.closed path st torn) else none

def ManifestDisk.init (disk : Path → List UInt8) : ManifestDisk Path Thread :=
  ⟨disk, fun _ => none, none, fun _ => none, []⟩

/-- The calls that ended before the first one that threw on the file. -/
def soundCalls (path : Path) (calls : List (FinishedCall Path Thread)) :
    List (FinishedCall Path Thread) :=
  calls.takeWhile fun c => c.outcome ≠ .threw (some path)

def entriesOn (path : Path) (calls : List (FinishedCall Path Thread)) :
    List (DateTime × BackupEvent) :=
  (calls.filter fun c => c.outcome = .appended path).map FinishedCall.entry

def ManifestDisk.finishedBy (s : ManifestDisk Path Thread) (t : Thread) :
    List (DateTime × BackupEvent) :=
  (s.finished.filter fun c => c.thread = t).map FinishedCall.entry

/-- The entries that a thread has called `WriteEntry` with. -/
def callsOf (t : Thread) (as : List (WriterAction Path Thread)) : List (DateTime × BackupEvent) :=
  as.filterMap fun
    | .writeEntry u e => if u = t then some e else none
    | _ => none

/-- The stream of the writer, as the actions tell it. -/
def fsAfter (fs : Option Path) : WriterAction Path Thread → Option Path
  | .openPath path opened => if opened then some path else none
  | .dispose torn => if torn.isSome then fs else none
  | _ => fs

/-- The call that an action ends, and how. -/
def turnOf (culture : CultureInfo) (fs : Option Path) :
    WriterAction Path Thread → Option (Thread × CallOutcome Path)
  | .writeEntry t e =>
    match entryText culture e.1 e.2 with
    | none => some (t, .threw none)
    | some _ => none
  | .append t torn =>
    match fs with
    | none => some (t, .dropped)
    | some path => some (t, outcomeOf path torn)
  | .openPath _ _ | .dispose _ | .finalize _ _ => none

def turns (culture : CultureInfo) :
    Option Path → List (WriterAction Path Thread) → List (Thread × CallOutcome Path)
  | _, [] => []
  | fs, a :: as => (turnOf culture fs a).toList ++ turns culture (fsAfter fs a) as

end Writer

section Files

variable {Path Thread : Type} [DecidableEq Path] {culture : CultureInfo} {path : Path}
  {before file : List UInt8} {stream : Option ManifestStream} {st : ManifestStream}
  {calls : List (FinishedCall Path Thread)} {torn : Option TornWrite}

/-- No call threw on the file. -/
def Undamaged (path : Path) (calls : List (FinishedCall Path Thread)) : Prop :=
  ∀ c ∈ calls, c.outcome ≠ .threw (some path)

/-- What is certain to stand in a file. -/
def sound (culture : CultureInfo) (before : List UInt8) (path : Path)
    (calls : List (FinishedCall Path Thread)) : List UInt8 :=
  before ++ (entriesOn path (soundCalls path calls)).flatMap (entryBytes culture)

/-- A file begins with what is sound of it, and so does what stands before the position of its
stream. Where no call threw there is nothing else. -/
structure FileKept (culture : CultureInfo) (before : List UInt8) (path : Path)
    (file : List UInt8) (stream : Option ManifestStream)
    (calls : List (FinishedCall Path Thread)) : Prop where
  sound_le : sound culture before path calls <+: file
  kept : ∀ st ∈ stream, sound culture before path calls <+: st.kept ∧ st.kept <+: file
  whole : Undamaged path calls →
    file = sound culture before path calls ∧ ∀ st ∈ stream, st.pending = []

omit [DecidableEq Path] in
theorem undamaged_concat {c : FinishedCall Path Thread} :
    Undamaged path (calls ++ [c]) ↔ Undamaged path calls ∧ c.outcome ≠ .threw (some path) := by
  simp [Undamaged, or_imp, forall_and]

theorem soundCalls_concat (path : Path) (calls : List (FinishedCall Path Thread))
    (c : FinishedCall Path Thread) : soundCalls path (calls ++ [c]) =
      if (soundCalls path calls).length = calls.length then calls ++ soundCalls path [c]
      else soundCalls path calls :=
  List.takeWhile_append

theorem soundCalls_of_length (h : (soundCalls path calls).length = calls.length) :
    soundCalls path calls = calls :=
  (List.takeWhile_prefix _).eq_of_length h

theorem soundCalls_eq_iff : soundCalls path calls = calls ↔ Undamaged path calls := by
  rw [soundCalls, List.takeWhile_eq_self_iff]
  simp [Undamaged]

theorem entriesOn_append (path : Path) (calls calls' : List (FinishedCall Path Thread)) :
    entriesOn path (calls ++ calls') = entriesOn path calls ++ entriesOn path calls' := by
  rw [entriesOn, List.filter_append, List.map_append]
  rfl

theorem sound_concat_other {c : FinishedCall Path Thread} (hc : c.outcome ≠ .appended path) :
    sound culture before path (calls ++ [c]) = sound culture before path calls := by
  have hnone : entriesOn path (soundCalls path [c]) = [] := by
    rw [entriesOn, List.map_eq_nil_iff, List.filter_eq_nil_iff]
    intro d hd
    obtain rfl := List.mem_singleton.mp ((List.takeWhile_prefix _).subset hd)
    simpa using hc
  rw [sound, soundCalls_concat]
  split
  · next h =>
    rw [entriesOn_append, hnone, List.append_nil, sound, soundCalls_of_length h]
  · rfl

theorem sound_concat_appended (h : Undamaged path calls) (t : Thread)
    (e : DateTime × BackupEvent) :
    sound culture before path (calls ++ [⟨t, e, .appended path⟩]) =
      sound culture before path calls ++ entryBytes culture e := by
  have hnext : Undamaged path (calls ++ [⟨t, e, .appended path⟩]) :=
    undamaged_concat.mpr ⟨h, nofun⟩
  have hlast : entriesOn path [(⟨t, e, .appended path⟩ : FinishedCall Path Thread)] = [e] := by
    simp [entriesOn]
  rw [sound, soundCalls_eq_iff.mpr hnext, sound, soundCalls_eq_iff.mpr h, entriesOn_append, hlast,
    List.flatMap_append, List.flatMap_singleton, List.append_assoc]

theorem FileKept.elsewhere {c : FinishedCall Path Thread}
    (h : FileKept culture before path file stream calls) (hc : c.outcome ≠ .appended path) :
    FileKept culture before path file stream (calls ++ [c]) := by
  have hsound : sound culture before path (calls ++ [c]) = sound culture before path calls :=
    sound_concat_other hc
  refine ⟨?_, ?_, fun hwhole => ?_⟩
  · rw [hsound]
    exact h.sound_le
  · rw [hsound]
    exact h.kept
  · rw [hsound]
    exact h.whole (undamaged_concat.mp hwhole).1

theorem FileKept.opened (h : FileKept culture before path file none calls) :
    FileKept culture before path file (some ⟨file, []⟩) calls := by
  refine ⟨h.sound_le, ?_, fun hwhole => ⟨(h.whole hwhole).1, ?_⟩⟩
  · rintro st ⟨⟩
    exact ⟨h.sound_le, List.prefix_rfl⟩
  · rintro st ⟨⟩
    rfl

/-- The stream of an undamaged file stands at its end. -/
theorem FileKept.atEnd (h : FileKept culture before path file (some st) calls)
    (hwhole : Undamaged path calls) : st.kept = file ∧ st.pending = [] := by
  obtain ⟨hfile, hpending⟩ := h.whole hwhole
  obtain ⟨hsound, hkept⟩ := h.kept st rfl
  refine ⟨hkept.eq_of_length_le ?_, hpending st rfl⟩
  rw [hfile]
  exact hsound.length_le

theorem FileKept.written (h : FileKept culture before path file (some st) calls)
    (bytes : List UInt8) (torn : Option TornWrite) :
    sound culture before path calls <+: (st.write bytes torn file).2.kept ∧
      (st.write bytes torn file).2.kept <+: (st.write bytes torn file).1 :=
  ⟨(h.kept st rfl).1.trans ManifestStream.kept_write, ManifestStream.kept_prefix_write⟩

theorem FileKept.closed (h : FileKept culture before path file (some st) calls)
    (htorn : st.EndsWith torn) :
    FileKept culture before path (st.write [] torn file).1 none calls := by
  obtain ⟨hsound, hkept⟩ := h.written [] torn
  refine ⟨hsound.trans hkept, nofun, fun hwhole => ⟨?_, nofun⟩⟩
  obtain ⟨hend, hpending⟩ := h.atEnd hwhole
  cases torn with
  | none =>
    rw [ManifestStream.write_appends hend hpending, List.append_nil]
    exact (h.whole hwhole).1
  | some torn => exact absurd hpending (htorn rfl)

theorem FileKept.appended (h : FileKept culture before path file (some st) calls)
    (hwhole : Undamaged path calls) (t : Thread) (e : DateTime × BackupEvent) :
    FileKept culture before path (st.write (entryBytes culture e) none file).1
      (some (st.write (entryBytes culture e) none file).2)
      (calls ++ [⟨t, e, .appended path⟩]) := by
  obtain ⟨hend, hpending⟩ := h.atEnd hwhole
  have hsound : sound culture before path (calls ++ [⟨t, e, .appended path⟩]) =
      sound culture before path calls ++ entryBytes culture e :=
    sound_concat_appended hwhole t e
  rw [← (h.whole hwhole).1] at hsound
  rw [ManifestStream.write_appends hend hpending]
  refine ⟨?_, ?_, fun _ => ⟨hsound.symm, ?_⟩⟩
  · rw [hsound]
  · rintro st' ⟨⟩
    rw [hsound]
    exact ⟨List.prefix_rfl, List.prefix_rfl⟩
  · rintro st' ⟨⟩
    rfl

/-- A call on a stream, of which nothing is certain where this or another call threw. -/
theorem FileKept.finished (h : FileKept culture before path file (some st) calls) (t : Thread)
    (e : DateTime × BackupEvent) (torn : Option TornWrite) :
    FileKept culture before path (st.write (entryBytes culture e) torn file).1
      (some (st.write (entryBytes culture e) torn file).2)
      (calls ++ [⟨t, e, outcomeOf path torn⟩]) := by
  by_cases hnow : Undamaged path calls ∧ torn = none
  · obtain ⟨hwhole, rfl⟩ := hnow
    exact h.appended hwhole t e
  · obtain ⟨hsound, hkept⟩ := h.written (entryBytes culture e) torn
    have hdamaged : ¬ Undamaged path (calls ++ [⟨t, e, outcomeOf path torn⟩]) := by
      rw [undamaged_concat]
      rintro ⟨hwhole, houtcome⟩
      cases torn with
      | none => exact hnow ⟨hwhole, rfl⟩
      | some torn => exact houtcome rfl
    have hsame : sound culture before path (calls ++ [⟨t, e, outcomeOf path torn⟩]) =
        sound culture before path calls := by
      by_cases hwhole : Undamaged path calls
      · refine sound_concat_other ?_
        cases torn with
        | none => exact absurd ⟨hwhole, rfl⟩ hnow
        | some torn => exact nofun
      · rw [sound, soundCalls_concat, if_neg, sound]
        exact fun hlength => hwhole (soundCalls_eq_iff.mp (soundCalls_of_length hlength))
    refine ⟨?_, ?_, fun hwhole => absurd hwhole hdamaged⟩
    · rw [hsame]
      exact hsound.trans hkept
    · rintro st' ⟨⟩
      rw [hsame]
      exact ⟨hsound, hkept⟩

end Files

section Runs

open Runs

variable {Path Thread : Type} [DecidableEq Path] [DecidableEq Thread] {culture : CultureInfo}
  {disk : Path → List UInt8} {s s' : ManifestDisk Path Thread} {a : WriterAction Path Thread}
  {path : Path} {st : ManifestStream} {torn : Option TornWrite}

def FilesKept (culture : CultureInfo) (disk : Path → List UInt8) (s : ManifestDisk Path Thread) :
    Prop :=
  ∀ path, FileKept culture (disk path) path (s.file path) (s.stream path) s.finished

/-- What one step of the writer does. -/
inductive WriterMove (culture : CultureInfo) (s : ManifestDisk Path Thread) :
    WriterAction Path Thread → ManifestDisk Path Thread → Prop where
  | opened {path : Path} (hst : s.stream path = none) :
      WriterMove culture s (.openPath path true) { s with
        stream := Function.update s.stream path (some ⟨s.file path, []⟩)
        fs := some path }
  | refused (path : Path) : WriterMove culture s (.openPath path false) { s with fs := none }
  | built {t : Thread} {e : DateTime × BackupEvent} {entry : List Wchar}
      (hidle : s.building t = none) (htext : entryText culture e.1 e.2 = some entry) :
      WriterMove culture s (.writeEntry t e)
        { s with building := Function.update s.building t (some e) }
  | unbuilt {t : Thread} {e : DateTime × BackupEvent} (hidle : s.building t = none)
      (htext : entryText culture e.1 e.2 = none) :
      WriterMove culture s (.writeEntry t e) (s.finish t e (.threw none))
  | dropped {t : Thread} {e : DateTime × BackupEvent} (hbuilt : s.building t = some e)
      (hfs : s.fs = none) : WriterMove culture s (.append t none) (s.finish t e .dropped)
  | late {t : Thread} {e : DateTime × BackupEvent} {path : Path} (torn : TornWrite)
      (hbuilt : s.building t = some e) (hfs : s.fs = some path) (hst : s.stream path = none) :
      WriterMove culture s (.append t (some torn)) (s.finish t e (.threw (some path)))
  | written {t : Thread} {e : DateTime × BackupEvent} {path : Path} {st : ManifestStream}
      (torn : Option TornWrite) (hbuilt : s.building t = some e) (hfs : s.fs = some path)
      (hst : s.stream path = some st) :
      WriterMove culture s (.append t torn) { s.finish t e (outcomeOf path torn) with
        file := Function.update s.file path (st.write (entryBytes culture e) torn (s.file path)).1
        stream := Function.update s.stream path
          (some (st.write (entryBytes culture e) torn (s.file path)).2) }
  | forgotten : WriterMove culture s (.dispose none) { s with fs := none }
  | disposed {path : Path} {st : ManifestStream} (hfs : s.fs = some path)
      (hst : s.stream path = some st) (hend : st.EndsWith none) :
      WriterMove culture s (.dispose none) { s.closed path st none with fs := none }
  | failed {path : Path} {st : ManifestStream} (torn : TornWrite) (hfs : s.fs = some path)
      (hst : s.stream path = some st) (hend : st.EndsWith (some torn)) :
      WriterMove culture s (.dispose (some torn)) (s.closed path st (some torn))
  | finalized {path : Path} {st : ManifestStream} {torn : Option TornWrite}
      (hfs : s.fs ≠ some path) (hst : s.stream path = some st) (hend : st.EndsWith torn) :
      WriterMove culture s (.finalize path torn) (s.closed path st torn)

theorem append_move {t : Thread} {e : DateTime × BackupEvent} (hbuilt : s.building t = some e)
    (hs : s.append culture t e torn = some s') : WriterMove culture s (.append t torn) s' := by
  unfold ManifestDisk.append at hs
  split at hs
  · next hfs =>
    cases torn with
    | none =>
      obtain rfl := Option.some.inj hs
      exact .dropped hbuilt hfs
    | some torn => cases hs
  · next path hfs =>
    split at hs
    · next hst =>
      cases torn with
      | none => cases hs
      | some torn =>
        obtain rfl := Option.some.inj hs
        exact .late torn hbuilt hfs hst
    · next st hst =>
      obtain rfl := Option.some.inj hs
      exact .written torn hbuilt hfs hst

theorem dispose_move (hs : writerStep culture s (.dispose torn) = some s') :
    WriterMove culture s (.dispose torn) s' := by
  simp only [writerStep] at hs
  split at hs
  · next hfs =>
    cases torn with
    | none =>
      obtain rfl := Option.some.inj hs
      have hsame : s = { s with fs := none } := by rw [← hfs]
      have hmove : WriterMove culture s (.dispose none) { s with fs := none } := .forgotten
      rwa [← hsame] at hmove
    | some torn => cases hs
  · next path hfs =>
    split at hs
    · cases torn with
      | none =>
        obtain rfl := Option.some.inj hs
        exact .forgotten
      | some torn => cases hs
    · next st hst =>
      split at hs
      · next hend =>
        cases torn with
        | none =>
          obtain rfl := Option.some.inj hs
          exact .disposed hfs hst hend
        | some torn =>
          obtain rfl := Option.some.inj hs
          exact .failed torn hfs hst hend
      · cases hs

theorem writerStep_move (hs : writerStep culture s a = some s') : WriterMove culture s a s' := by
  cases a with
  | openPath path opened =>
    simp only [writerStep] at hs
    cases opened with
    | false =>
      obtain rfl := Option.some.inj hs
      exact .refused path
    | true =>
      rw [if_pos rfl] at hs
      split at hs
      · next hst =>
        obtain rfl := Option.some.inj hs
        exact .opened hst
      · cases hs
  | writeEntry t e =>
    simp only [writerStep] at hs
    split at hs
    · cases hs
    · next hidle =>
      have hnone : s.building t = none := by simpa using hidle
      split at hs
      · next htext =>
        obtain rfl := Option.some.inj hs
        exact .unbuilt hnone htext
      · next htext =>
        obtain rfl := Option.some.inj hs
        exact .built hnone htext
  | append t torn =>
    obtain ⟨e, hbuilt, hs⟩ := Option.bind_eq_some_iff.mp hs
    exact append_move hbuilt hs
  | dispose torn => exact dispose_move hs
  | finalize path torn =>
    simp only [writerStep] at hs
    split at hs
    · cases hs
    · next hfs =>
      split at hs
      · cases hs
      · next st hst =>
        split at hs
        · next hend =>
          obtain rfl := Option.some.inj hs
          exact .finalized hfs hst hend
        · cases hs

omit [DecidableEq Thread] in
theorem filesKept_init (disk : Path → List UInt8) :
    FilesKept culture disk (.init disk : ManifestDisk Path Thread) := by
  intro path
  have hsound : sound culture (disk path) path ([] : List (FinishedCall Path Thread)) =
      disk path := List.append_nil _
  refine ⟨?_, nofun, fun _ => ⟨hsound.symm, nofun⟩⟩
  change sound culture (disk path) path [] <+: disk path
  rw [hsound]

omit [DecidableEq Path] in
theorem outcomeOf_ne {other : Path} (hne : other ≠ path) (torn : Option TornWrite) :
    outcomeOf path torn ≠ .appended other := by
  cases torn with
  | none =>
    intro heq
    cases heq
    exact hne rfl
  | some torn => exact nofun

theorem FilesKept.finish (h : FilesKept culture disk s) (t : Thread) (e : DateTime × BackupEvent)
    {outcome : CallOutcome Path} (houtcome : ∀ path, outcome ≠ .appended path) :
    FilesKept culture disk (s.finish t e outcome) :=
  fun path => (h path).elsewhere (houtcome path)

omit [DecidableEq Thread] in
/-- A step that touches one file and its stream. -/
theorem filesKept_update {file : List UInt8} {stream : Option ManifestStream}
    (hfile : s'.file = Function.update s.file path file)
    (hstream : s'.stream = Function.update s.stream path stream)
    (hhere : FileKept culture (disk path) path file stream s'.finished)
    (hother : ∀ other, other ≠ path →
      FileKept culture (disk other) other (s.file other) (s.stream other) s'.finished) :
    FilesKept culture disk s' := by
  intro other
  rw [hfile, hstream]
  by_cases hne : other = path
  · obtain rfl := hne
    rwa [Function.update_self, Function.update_self]
  · rw [Function.update_of_ne hne, Function.update_of_ne hne]
    exact hother other hne

omit [DecidableEq Thread] in
theorem FilesKept.closed (h : FilesKept culture disk s) (hst : s.stream path = some st)
    (hend : st.EndsWith torn) : FilesKept culture disk (s.closed path st torn) := by
  have hpath := h path
  rw [hst] at hpath
  exact filesKept_update rfl rfl (hpath.closed hend) fun other _ => h other

theorem FilesKept.step (h : FilesKept culture disk s) (hs : writerStep culture s a = some s') :
    FilesKept culture disk s' := by
  cases writerStep_move hs with
  | @opened path hst =>
    have hpath := h path
    rw [hst] at hpath
    exact filesKept_update (Function.update_eq_self path s.file).symm rfl hpath.opened
      fun other _ => h other
  | refused path => exact h
  | built hidle htext => exact h
  | @unbuilt t e hidle htext => exact h.finish t e nofun
  | @dropped t e hbuilt hfs => exact h.finish t e nofun
  | @late t e path torn hbuilt hfs hst => exact h.finish t e nofun
  | @written t e path st torn hbuilt hfs hst =>
    have hpath := h path
    rw [hst] at hpath
    exact filesKept_update rfl rfl (hpath.finished t e torn)
      fun other hne => (h other).elsewhere (outcomeOf_ne hne torn)
  | forgotten => exact h
  | disposed hfs hst hend => exact h.closed hst hend
  | failed torn hfs hst hend => exact h.closed hst hend
  | finalized hfs hst hend => exact h.closed hst hend

omit [DecidableEq Path] in
/-- A call is under way, or it has ended, and a thread's calls keep their order. -/
theorem calls_finish {t : Thread} {e : DateTime × BackupEvent} (hbuilt : s.building t = some e)
    (outcome : CallOutcome Path) (u : Thread) :
    (s.finish t e outcome).finishedBy u ++ ((s.finish t e outcome).building u).toList =
      s.finishedBy u ++ (s.building u).toList := by
  by_cases htu : t = u
  · obtain rfl := htu
    simp [ManifestDisk.finishedBy, ManifestDisk.finish, List.filter_append, hbuilt]
  · have hut : u ≠ t := fun h => htu h.symm
    simp [ManifestDisk.finishedBy, ManifestDisk.finish, List.filter_append, htu, hut]

theorem calls_step (hs : writerStep culture s a = some s') (t : Thread) :
    s'.finishedBy t ++ (s'.building t).toList =
      s.finishedBy t ++ (s.building t).toList ++ callsOf t [a] := by
  cases writerStep_move hs with
  | opened | refused | forgotten | disposed | failed | finalized =>
    exact (List.append_nil _).symm
  | @built u e entry hidle htext =>
    by_cases hut : u = t
    · obtain rfl := hut
      simp [ManifestDisk.finishedBy, callsOf, hidle]
    · have htu : t ≠ u := fun h => hut h.symm
      simp [ManifestDisk.finishedBy, callsOf, hut, htu]
  | @unbuilt u e hidle htext =>
    by_cases hut : u = t
    · obtain rfl := hut
      simp [ManifestDisk.finishedBy, ManifestDisk.finish, callsOf, List.filter_append, hidle]
    · have htu : t ≠ u := fun h => hut h.symm
      simp [ManifestDisk.finishedBy, ManifestDisk.finish, callsOf, List.filter_append, hut, htu]
  | dropped hbuilt hfs => exact (calls_finish hbuilt _ t).trans (List.append_nil _).symm
  | late torn hbuilt hfs hst => exact (calls_finish hbuilt _ t).trans (List.append_nil _).symm
  | written torn hbuilt hfs hst => exact (calls_finish hbuilt _ t).trans (List.append_nil _).symm

theorem calls_run {as : List (WriterAction Path Thread)}
    (h : exec (writerStep culture) s as = some s') (t : Thread) :
    s'.finishedBy t ++ (s'.building t).toList =
      s.finishedBy t ++ (s.building t).toList ++ callsOf t as := by
  induction as generalizing s with
  | nil =>
    obtain rfl : s = s' := by simpa using h
    rw [callsOf, List.filterMap_nil, List.append_nil]
  | cons a as ih =>
    obtain ⟨u, hu, hr⟩ := exec_cons_eq_some.mp h
    have hsplit : callsOf t (a :: as) = callsOf t [a] ++ callsOf t as :=
      List.filterMap_append (l := [a])
    rw [ih hr, calls_step hu, hsplit, List.append_assoc _ (callsOf t [a])]

/-- The calls that have ended, and how, in the order of the lock. -/
def ManifestDisk.endings (s : ManifestDisk Path Thread) : List (Thread × CallOutcome Path) :=
  s.finished.map fun c => (c.thread, c.outcome)

theorem endings_step (hs : writerStep culture s a = some s') :
    s'.fs = fsAfter s.fs a ∧ s'.endings = s.endings ++ (turnOf culture s.fs a).toList := by
  cases writerStep_move hs with
  | opened | refused | forgotten | disposed | failed | finalized =>
    exact ⟨rfl, (List.append_nil _).symm⟩
  | built hidle htext =>
    refine ⟨rfl, ?_⟩
    rw [turnOf, htext]
    exact (List.append_nil _).symm
  | unbuilt hidle htext =>
    refine ⟨rfl, ?_⟩
    rw [turnOf, htext]
    exact List.map_append
  | dropped hbuilt hfs =>
    refine ⟨rfl, ?_⟩
    simp only [turnOf, hfs]
    exact List.map_append
  | late torn hbuilt hfs hst =>
    refine ⟨rfl, ?_⟩
    simp only [turnOf, hfs]
    exact List.map_append
  | written torn hbuilt hfs hst =>
    refine ⟨rfl, ?_⟩
    simp only [turnOf, hfs]
    exact List.map_append

theorem endings_run {as : List (WriterAction Path Thread)}
    (h : exec (writerStep culture) s as = some s') :
    s'.endings = s.endings ++ turns culture s.fs as := by
  induction as generalizing s with
  | nil =>
    obtain rfl : s = s' := by simpa using h
    rw [turns, List.append_nil]
  | cons a as ih =>
    obtain ⟨u, hu, hr⟩ := exec_cons_eq_some.mp h
    obtain ⟨hfs, hendings⟩ := endings_step hu
    rw [ih hr, hendings, hfs, turns, List.append_assoc]

/-- Every file begins with what it held and a line for each entry that was appended before a
write on it threw, and where none threw there is nothing else. A thread's calls end in their
order, each once, and a call is dropped exactly where no stream is open at its turn. -/
structure ManifestRun (culture : CultureInfo) (disk : Path → List UInt8)
    (as : List (WriterAction Path Thread)) (s : ManifestDisk Path Thread) : Prop where
  file : ∀ path, ∃ added rest, s.file path = disk path ++ (added ++ rest) ∧
    ReadsBack added (entriesOn path (soundCalls path s.finished)) ∧
    (Undamaged path s.finished → rest = [] ∧ soundCalls path s.finished = s.finished)
  calls : ∀ t, callsOf t as = s.finishedBy t ++ (s.building t).toList
  endings : s.endings = turns culture none as

omit [DecidableEq Path] in
theorem mem_callsOf {t : Thread} {e : DateTime × BackupEvent}
    {as : List (WriterAction Path Thread)} (h : e ∈ callsOf t as) : .writeEntry t e ∈ as := by
  obtain ⟨a, ha, he⟩ := List.mem_filterMap.mp h
  split at he
  · next u e' =>
    split at he
    · next hut =>
      obtain rfl := Option.some.inj he
      exact hut ▸ ha
    · cases he
  · cases he

/-- Runs of the writer whose entries the culture can spell. -/
theorem manifest_file_runs (culture : CultureInfo) (disk : Path → List UInt8)
    (as : List (WriterAction Path Thread))
    (hspells : ∀ t e, .writeEntry t e ∈ as → culture.SpellsWell e)
    (s : ManifestDisk Path Thread) (h : exec (writerStep culture) (.init disk) as = some s) :
    ManifestRun culture disk as s := by
  have hkept := exec_invariant (fun _ _ _ hs hstep => hs.step hstep) h (filesKept_init disk)
  have hcalls (t : Thread) : callsOf t as = s.finishedBy t ++ (s.building t).toList :=
    (calls_run h t).symm
  refine ⟨fun path => ?_, hcalls, endings_run h⟩
  obtain ⟨rest, hrest⟩ := (hkept path).sound_le
  refine ⟨_, rest, ?_, @readsBack_entryBytes culture _ fun e he => ?_, fun hwhole => ?_⟩
  · rw [← hrest, sound, List.append_assoc]
  · obtain ⟨c, hc, rfl⟩ := List.mem_map.mp he
    have hmem := (List.takeWhile_prefix _).subset (List.mem_filter.mp hc).1
    refine hspells c.thread c.entry (mem_callsOf ?_)
    rw [hcalls]
    exact List.mem_append_left _ (List.mem_map.mpr ⟨c, by simpa using hmem, rfl⟩)
  · refine ⟨?_, soundCalls_eq_iff.mpr hwhole⟩
    rw [((hkept path).whole hwhole).1] at hrest
    exact List.append_right_eq_self.mp hrest

def loneSurrogate : BackupEvent :=
  { id := 7, pid := 8, rootPid := 8, flags := 1, sizeHint := 0,
    srcNt := text "C:\\" ++ [0xD83D, 0xDE00, 0xD800], dest := text "d", status := 0 }

/-- Two threads write the same event, one of them once too late and once into a file that is
opened again. -/
def twoThreads : List (WriterAction Bool Nat) :=
  [.openPath true true, .writeEntry 1 (⟨2024, 1, 2, 3, 4, 5, 6⟩, loneSurrogate),
    .writeEntry 2 (⟨2024, 1, 2, 3, 4, 5, 7⟩, loneSurrogate), .append 2 none, .dispose none,
    .append 1 none, .writeEntry 1 (⟨2024, 1, 2, 3, 4, 5, 8⟩, loneSurrogate), .openPath true true,
    .append 1 none]

theorem manifest_file_runs_two :
    ∃ s, exec (writerStep .invariant) (.init fun _ => []) twoThreads = some s ∧
      (entriesOn true s.finished).length = 2 ∧
      ManifestRun .invariant (fun _ => []) twoThreads s :=
  ⟨_, rfl, rfl, manifest_file_runs .invariant _ _ (fun _ e _ => spellsWell_invariant e) _ rfl⟩

end Runs

end KnFileCatcher

import KnFileCatcher.JsonMarks
import KnFileCatcher.WorkerLoop

/-! The manifest of a session: one line of JSON for each capture. -/

namespace KnFileCatcher

section Writer

def newline : Wchar := wchar '\n'

/-- What `JsonEscape` appends for one unit. -/
def jsonEscapeUnit (c : Wchar) : List Wchar :=
  if c = wchar '\\' then text "\\\\"
  else if c = wchar '"' then text "\\\""
  else if c = wchar '\n' then text "\\n"
  else if c = wchar '\r' then text "\\r"
  else if c = wchar '\t' then text "\\t"
  else if c.toNat < 0x20 then
    text "\\u" ++ ((Nat.toDigits 16 c.toNat).leftpad 4 '0').map wchar
  else [c]

def jsonEscape (s : List Wchar) : List Wchar := s.flatMap jsonEscapeUnit

/-- A time in UTC, by the parts that the format of the manifest names. -/
structure DateTime where
  year : Nat
  month : Nat
  day : Nat
  hour : Nat
  minute : Nat
  second : Nat
  millisecond : Nat

def paddedDecimal (width n : Nat) : List Wchar :=
  ((Nat.toDigits 10 n).leftpad width '0').map wchar

/-- `yyyy-MM-ddTHH:mm:ss.fffZ` in the invariant culture. -/
def DateTime.format (t : DateTime) : List Wchar :=
  paddedDecimal 4 t.year ++ text "-" ++ paddedDecimal 2 t.month ++ text "-" ++
    paddedDecimal 2 t.day ++ text "T" ++ paddedDecimal 2 t.hour ++ text ":" ++
    paddedDecimal 2 t.minute ++ text ":" ++ paddedDecimal 2 t.second ++ text "." ++
    paddedDecimal 3 t.millisecond ++ text "Z"

/-- What the culture of the thread decides: the sign of a negative number, and the text of a
time in the format of the manifest, unless its calendar does not reach there and `ToString`
throws. No culture signs with a digit or breaks these texts into lines. -/
structure CultureInfo where
  negativeSign : List Wchar
  timeStamp : DateTime → Option (List Wchar)
  sign_noDigit : ∀ c ∈ negativeSign, Json.isDigit c = false
  sign_oneLine : Json.OneLine negativeSign
  stamp_oneLine : ∀ {t : DateTime} {stamp : List Wchar}, timeStamp t = some stamp →
    Json.OneLine stamp

def unsignedText {w : Nat} (n : BitVec w) : List Wchar := text (toString n.toNat)

def signedText (culture : CultureInfo) {w : Nat} (n : BitVec w) : List Wchar :=
  if n.toInt < 0 then culture.negativeSign ++ text (toString n.toInt.natAbs)
  else text (toString n.toInt.natAbs)

/-- The text that `WriteEntry` builds, if it does not throw there. -/
def entryText (culture : CultureInfo) (tsUtc : DateTime) (evt : BackupEvent) :
    Option (List Wchar) := do
  let stamp ← culture.timeStamp tsUtc
  some (text "\x7b" ++
    (text "\"id\":" ++ unsignedText evt.id) ++
    (text ",\"ts\":\"" ++ stamp ++ text "\"") ++
    (text ",\"pid\":" ++ unsignedText evt.pid) ++
    (text ",\"root_pid\":" ++ unsignedText evt.rootPid) ++
    (text ",\"flags\":" ++ unsignedText evt.flags) ++
    (text ",\"size_hint\":" ++ unsignedText evt.sizeHint) ++
    (text ",\"src\":\"" ++ jsonEscape evt.srcNt ++ text "\"") ++
    (text ",\"dest\":\"" ++ jsonEscape evt.dest ++ text "\"") ++
    (text ",\"status\":" ++ signedText culture evt.status) ++
    text "\x7d" ++ text "\n")

/-- The text of the open manifest, if it could be opened. -/
structure ManifestWriter where
  fs : Option (List Wchar)

def writeEntry (culture : CultureInfo) (w : ManifestWriter) (e : DateTime × BackupEvent) :
    ManifestWriter :=
  match entryText culture e.1 e.2 with
  | none => w
  | some entry => ⟨w.fs.map fun file => file ++ entry⟩

end Writer

section Escape

/-- The four digits of a control character name it. -/
theorem hexUnit_control : ∀ n < 0x20,
    ((Nat.toDigits 16 n).leftpad 4 '0').map wchar =
        [wchar '0', wchar '0', wchar (n / 16).digitChar, wchar (n % 16).digitChar] ∧
      Json.hexUnit (wchar '0') (wchar '0') (wchar (n / 16).digitChar)
        (wchar (n % 16).digitChar) = some (BitVec.ofNat 16 n) := by
  decide

theorem spells_control {c : Wchar} (hc : c.toNat < 0x20) :
    Json.Spells (text "\\u" ++ ((Nat.toDigits 16 c.toNat).leftpad 4 '0').map wchar) c := by
  obtain ⟨hdigits, hunit⟩ := hexUnit_control c.toNat hc
  rw [BitVec.ofNat_toNat, BitVec.setWidth_eq] at hunit
  rw [hdigits]
  exact Json.spells_hex hunit

theorem spells_jsonEscapeUnit (c : Wchar) : Json.Spells (jsonEscapeUnit c) c := by
  unfold jsonEscapeUnit
  split
  · next hc => exact hc ▸ Json.spells_escaped (by decide)
  split
  · next hc => exact hc ▸ Json.spells_escaped (by decide)
  split
  · next hc => exact hc ▸ Json.spells_escaped (by decide)
  split
  · next hc => exact hc ▸ Json.spells_escaped (by decide)
  split
  · next hc => exact hc ▸ Json.spells_escaped (by decide)
  split
  · next hlow => exact spells_control hlow
  · next hbackslash hquote _ _ _ hlow =>
    exact Json.spells_plain ⟨Nat.le_of_not_lt hlow, hquote, hbackslash⟩

theorem isContent_jsonEscape (s : List Wchar) : Json.IsContent (jsonEscape s) s :=
  Json.isChars_flatMap (fun c _ => spells_jsonEscapeUnit c) []

end Escape

section Pieces

theorem text_toString (n : Nat) : text (toString n) = Json.decimal n := by
  rw [text, Nat.toString_eq_repr, Nat.toList_repr]
  rfl

theorem unsignedText_eq {w : Nat} (n : BitVec w) : unsignedText n = Json.integer n.toNat := by
  rw [unsignedText, text_toString, Json.integer, if_neg (by omega), Int.natAbs_natCast]

theorem signedText_nonneg (culture : CultureInfo) {w : Nat} {n : BitVec w} (hn : 0 ≤ n.toInt) :
    signedText culture n = Json.integer n.toInt := by
  rw [signedText, if_neg (by omega), text_toString, Json.integer, if_neg (by omega)]

theorem signedText_negative (culture : CultureInfo) {w : Nat} {n : BitVec w} (hn : n.toInt < 0) :
    signedText culture n = culture.negativeSign ++ Json.decimal n.toInt.natAbs := by
  rw [signedText, if_pos hn, text_toString]

theorem oneLine_signedText (culture : CultureInfo) {w : Nat} (n : BitVec w) :
    Json.OneLine (signedText culture n) := by
  rcases lt_or_ge n.toInt 0 with hn | hn
  · rw [signedText_negative culture hn]
    exact culture.sign_oneLine.append (Json.oneLine_decimal _)
  · rw [signedText_nonneg culture hn]
    exact Json.oneLine_integer _

theorem plain_paddedDecimal (width n : Nat) : Json.AllPlain (paddedDecimal width n) := by
  intro c hc
  obtain ⟨d, hd, rfl⟩ := List.mem_map.mp hc
  have hdigit : d.isDigit = true := by
    rcases List.mem_append.mp hd with hd | hd
    · rw [List.eq_of_mem_replicate hd]
      decide
    · exact Json.isDigit_toDigits hd
  obtain ⟨hnat, hlow, hhigh⟩ := Json.toNat_unit_digit hdigit
  change Json.Plain (Json.unit d)
  refine ⟨by omega, ?_, ?_⟩
  · intro h
    have hquote : (Json.unit d).toNat = 0x22 := congrArg BitVec.toNat h
    omega
  · intro h
    have hsolidus : (Json.unit d).toNat = 0x5C := congrArg BitVec.toNat h
    omega

theorem plain_format (t : DateTime) : Json.AllPlain t.format := by
  unfold DateTime.format
  repeat' apply Json.AllPlain.append
  all_goals first
    | exact plain_paddedDecimal _ _
    | decide

end Pieces

section Lines

theorem isContent_plain {s : List Wchar} (hs : Json.AllPlain s) : Json.IsContent s s :=
  Json.isChars_plain hs []

def CultureInfo.invariant : CultureInfo where
  negativeSign := text "-"
  timeStamp t := some t.format
  sign_noDigit := by
    intro c hc
    obtain rfl : c = Json.minus := List.mem_singleton.mp hc
    decide
  sign_oneLine := by decide
  stamp_oneLine := by
    intro t stamp h
    obtain rfl := Option.some.inj h
    exact (plain_format t).oneLine

/-- What stands in an entry before its time. -/
def entryHead (evt : BackupEvent) : List Wchar :=
  text "\x7b" ++ (text "\"id\":" ++ unsignedText evt.id) ++ text ",\"ts\":\""

/-- What stands between the mark behind the time and the status. -/
def entryMiddle (evt : BackupEvent) : List Wchar :=
  (text ",\"pid\":" ++ unsignedText evt.pid) ++
    (text ",\"root_pid\":" ++ unsignedText evt.rootPid) ++
    (text ",\"flags\":" ++ unsignedText evt.flags) ++
    (text ",\"size_hint\":" ++ unsignedText evt.sizeHint) ++
    (text ",\"src\":\"" ++ jsonEscape evt.srcNt ++ text "\"") ++
    (text ",\"dest\":\"" ++ jsonEscape evt.dest ++ text "\"") ++
    text ",\"status\":"

/-- An entry without the end of its line. -/
def stampedLine (culture : CultureInfo) (stamp : List Wchar) (evt : BackupEvent) : List Wchar :=
  entryHead evt ++ (stamp ++ Json.quotationMark ::
    (entryMiddle evt ++ (signedText culture evt.status ++ [Json.endObject])))

def entryLine (culture : CultureInfo) (e : DateTime × BackupEvent) : Option (List Wchar) :=
  (culture.timeStamp e.1).map fun stamp => stampedLine culture stamp e.2

theorem entryText_eq (culture : CultureInfo) (e : DateTime × BackupEvent) :
    entryText culture e.1 e.2 = (entryLine culture e).map fun line => line ++ [newline] := by
  have hquote : text "\"" = [Json.quotationMark] := rfl
  have hclose : text "\x7d" = [Json.endObject] := rfl
  have hnewline : text "\n" = [newline] := rfl
  rw [entryText, entryLine, Option.map_map]
  cases culture.timeStamp e.1 with
  | none => rfl
  | some stamp =>
    simp only [Option.bind_eq_bind, Option.bind_some, Option.map_some, Function.comp_apply,
      stampedLine, entryHead, entryMiddle, hquote, hclose, hnewline, List.append_assoc,
      List.cons_append, List.nil_append]

theorem newline_notMem_entryLine {culture : CultureInfo} {e : DateTime × BackupEvent}
    {line : List Wchar} (h : entryLine culture e = some line) : newline ∉ line := by
  have hnumber {w : Nat} (n : BitVec w) : Json.OneLine (unsignedText n) := by
    rw [unsignedText_eq]
    exact Json.oneLine_integer _
  have hpath (s : List Wchar) : Json.OneLine (jsonEscape s) := (isContent_jsonEscape s).oneLine
  have hstatus := oneLine_signedText culture e.2.status
  obtain ⟨stamp, hstamp, rfl⟩ := Option.map_eq_some_iff.mp h
  have htime := culture.stamp_oneLine hstamp
  change Json.OneLine (stampedLine culture stamp e.2)
  rw [stampedLine, ← List.singleton_append]
  simp only [entryHead, entryMiddle, Json.oneLine_append_iff, hnumber, hpath, hstatus, htime,
    true_and, and_true]
  and_intros <;> decide

end Lines

section Objects

/-- The object that an entry stands for. -/
def entryObject (stamp : List Wchar) (evt : BackupEvent) : Json.Value :=
  .object
    [(text "id", .number ⟨evt.id.toNat, 0⟩),
      (text "ts", .string stamp),
      (text "pid", .number ⟨evt.pid.toNat, 0⟩),
      (text "root_pid", .number ⟨evt.rootPid.toNat, 0⟩),
      (text "flags", .number ⟨evt.flags.toNat, 0⟩),
      (text "size_hint", .number ⟨evt.sizeHint.toNat, 0⟩),
      (text "src", .string evt.srcNt),
      (text "dest", .string evt.dest),
      (text "status", .number ⟨evt.status.toInt, 0⟩)]

def numberMember (name : List Wchar) (hname : Json.AllPlain name) (i : Int) : Json.Member where
  name
  raw := Json.integer i
  value := .number ⟨i, 0⟩
  plain := hname
  reads := Json.reads_integer i

def stringMember (name : List Wchar) (hname : Json.AllPlain name) {raw s : List Wchar}
    (hraw : Json.IsContent raw s) : Json.Member where
  name
  raw := Json.quotationMark :: raw ++ [Json.quotationMark]
  value := .string s
  plain := hname
  reads := Json.reads_string hraw

def idMember (evt : BackupEvent) : Json.Member :=
  numberMember (text "id") (by decide) evt.id.toNat

/-- All members but the status. -/
def leadingMembers {stamp u : List Wchar} (hstamp : Json.IsContent stamp u) (evt : BackupEvent) :
    List Json.Member :=
  [idMember evt,
    stringMember (text "ts") (by decide) hstamp,
    numberMember (text "pid") (by decide) evt.pid.toNat,
    numberMember (text "root_pid") (by decide) evt.rootPid.toNat,
    numberMember (text "flags") (by decide) evt.flags.toNat,
    numberMember (text "size_hint") (by decide) evt.sizeHint.toNat,
    stringMember (text "src") (by decide) (isContent_jsonEscape evt.srcNt),
    stringMember (text "dest") (by decide) (isContent_jsonEscape evt.dest)]

/-- How the literal in front of a number ends the one before it and names its own. -/
theorem text_number {s : String} (name : String)
    (h : s.toList = ',' :: '"' :: (name.toList ++ ['"', ':'])) :
    text s = Json.valueSeparator :: Json.quotationMark ::
      (text name ++ [Json.quotationMark, Json.nameSeparator]) := by
  rw [text, h, List.map_cons, List.map_cons, List.map_append]
  rfl

theorem text_string {s : String} (name : String)
    (h : s.toList = ',' :: '"' :: (name.toList ++ ['"', ':', '"'])) :
    text s = Json.valueSeparator :: Json.quotationMark ::
      (text name ++ [Json.quotationMark, Json.nameSeparator, Json.quotationMark]) := by
  rw [text, h, List.map_cons, List.map_cons, List.map_append]
  rfl

theorem entryHead_eq (evt : BackupEvent) : entryHead evt =
    Json.beginObject :: (Json.renderPrefix [idMember evt] ++
      Json.quotationMark :: (text "ts" ++ [Json.quotationMark, Json.nameSeparator,
        Json.quotationMark])) := by
  have hopen : text "\x7b" = [Json.beginObject] := rfl
  have hid : text "\"id\":" = Json.quotationMark ::
      (text "id" ++ [Json.quotationMark, Json.nameSeparator]) := rfl
  have hts : text ",\"ts\":\"" = _ := text_string "ts" rfl
  simp only [entryHead, hopen, hid, hts, unsignedText_eq, Json.renderPrefix, idMember,
    numberMember, Json.Member.render, List.flatMap_cons, List.flatMap_nil, List.append_assoc,
    List.cons_append, List.nil_append]

/-- An entry up to the value of its status. -/
theorem entryMiddle_eq {stamp u : List Wchar} (hstamp : Json.IsContent stamp u)
    (evt : BackupEvent) : entryHead evt ++ (stamp ++ Json.quotationMark :: entryMiddle evt) =
      Json.beginObject :: (Json.renderPrefix (leadingMembers hstamp evt) ++
        Json.quotationMark :: (text "status" ++ [Json.quotationMark, Json.nameSeparator])) := by
  have hquote : text "\"" = [Json.quotationMark] := rfl
  have hpid : text ",\"pid\":" = _ := text_number "pid" rfl
  have hroot : text ",\"root_pid\":" = _ := text_number "root_pid" rfl
  have hflags : text ",\"flags\":" = _ := text_number "flags" rfl
  have hsize : text ",\"size_hint\":" = _ := text_number "size_hint" rfl
  have hsrc : text ",\"src\":\"" = _ := text_string "src" rfl
  have hdest : text ",\"dest\":\"" = _ := text_string "dest" rfl
  have hstatus : text ",\"status\":" = _ := text_number "status" rfl
  rw [entryHead_eq]
  simp only [entryMiddle, hpid, hroot, hflags, hsize, hsrc, hdest, hstatus, hquote,
    unsignedText_eq, leadingMembers, Json.renderPrefix, numberMember, stringMember,
    Json.Member.render, List.flatMap_cons, List.flatMap_nil, List.append_assoc, List.cons_append,
    List.nil_append]

/-- A reader of JSON takes the sign for a minus. -/
def CultureInfo.SignsAsJson (culture : CultureInfo) : Prop :=
  ∃ blanks, culture.negativeSign = blanks ++ [Json.minus] ∧
    ∀ c ∈ blanks, Json.isWhitespace c = true

/-- The culture has a text for the time which is the inside of a JSON string, and no sign to write
or one of JSON. -/
def CultureInfo.Spells (culture : CultureInfo) (e : DateTime × BackupEvent) : Prop :=
  (0 ≤ e.2.status.toInt ∨ culture.SignsAsJson) ∧
    ∃ stamp u, culture.timeStamp e.1 = some stamp ∧ Json.IsContent stamp u

theorem reads_signedText {culture : CultureInfo} {w : Nat} {n : BitVec w}
    (h : 0 ≤ n.toInt ∨ culture.SignsAsJson) :
    Json.Reads (signedText culture n) (.number ⟨n.toInt, 0⟩) := by
  rcases lt_or_ge n.toInt 0 with hn | hn
  · obtain ⟨blanks, hsign, hblanks⟩ := h.resolve_left (by omega)
    have hraw : signedText culture n = blanks ++ Json.integer n.toInt := by
      rw [signedText_negative culture hn, hsign, Json.integer, if_pos hn, List.append_assoc]
      rfl
    rw [hraw]
    exact (Json.reads_integer n.toInt).blanks hblanks
  · rw [signedText_nonneg culture hn]
    exact Json.reads_integer n.toInt

def statusMember {culture : CultureInfo} {status : Win32Error}
    (h : 0 ≤ status.toInt ∨ culture.SignsAsJson) : Json.Member where
  name := text "status"
  raw := signedText culture status
  value := .number ⟨status.toInt, 0⟩
  plain := by decide
  reads := reads_signedText h

theorem stampedLine_status {stamp u : List Wchar} (culture : CultureInfo)
    (hstamp : Json.IsContent stamp u) (evt : BackupEvent) : stampedLine culture stamp evt =
      Json.beginObject :: (Json.renderPrefix (leadingMembers hstamp evt) ++
        Json.quotationMark :: (text "status" ++ Json.quotationMark :: Json.nameSeparator ::
          (signedText culture evt.status ++ [Json.endObject]))) := by
  have hsplit : stampedLine culture stamp evt =
      (entryHead evt ++ (stamp ++ Json.quotationMark :: entryMiddle evt)) ++
        (signedText culture evt.status ++ [Json.endObject]) := by
    simp [stampedLine]
  rw [hsplit, entryMiddle_eq hstamp]
  simp

theorem isText_stampedLine {culture : CultureInfo} {stamp u : List Wchar} {evt : BackupEvent}
    (hstamp : Json.IsContent stamp u) (hstatus : 0 ≤ evt.status.toInt ∨ culture.SignsAsJson) :
    Json.IsText (stampedLine culture stamp evt) (entryObject u evt) := by
  have hmembers : leadingMembers hstamp evt ++ [statusMember hstatus] ≠ [] :=
    List.cons_ne_nil _ _
  have hobject := Json.isText_renderObject hmembers
  rw [Json.renderObject, Json.renderMembers_append, Json.Member.render_append] at hobject
  rw [stampedLine_status culture hstamp]
  exact hobject

end Objects

section Necessity

theorem passes_unsignedText {w : Nat} (n : BitVec w) :
    Json.passes .outside (unsignedText n) = some (.outside, 0) := by
  have hbare : ∀ c ∈ unsignedText n, Json.isBare c = true := by
    rw [unsignedText, text_toString]
    exact fun c hc => Json.isBare_of_isDigit (Json.isDigit_decimal hc)
  have hpasses := Json.passes_bare hbare []
  rwa [List.append_nil] at hpasses

/-- The time is written inside a string. -/
theorem passes_entryHead (evt : BackupEvent) :
    Json.passes .outside (entryHead evt) = some (.inside, 5) := by
  have hopen : Json.passes .outside (text "\x7b") = some (.outside, 0) := rfl
  have hid : Json.passes .outside (text "\"id\":") = some (.outside, 2) := rfl
  have hts : Json.passes .outside (text ",\"ts\":\"") = some (.inside, 3) := rfl
  simp only [entryHead, Json.passes_append, hopen, hid, hts, passes_unsignedText,
    Option.bind_some, Option.map_some]

theorem passes_entryMiddle (evt : BackupEvent) :
    Json.passes .outside (entryMiddle evt) = some (.outside, 18) := by
  have hpid : Json.passes .outside (text ",\"pid\":") = some (.outside, 2) := rfl
  have hroot : Json.passes .outside (text ",\"root_pid\":") = some (.outside, 2) := rfl
  have hflags : Json.passes .outside (text ",\"flags\":") = some (.outside, 2) := rfl
  have hsize : Json.passes .outside (text ",\"size_hint\":") = some (.outside, 2) := rfl
  have hsrc : Json.passes .outside (text ",\"src\":\"") = some (.inside, 3) := rfl
  have hdest : Json.passes .outside (text ",\"dest\":\"") = some (.inside, 3) := rfl
  have hstatus : Json.passes .outside (text ",\"status\":") = some (.outside, 2) := rfl
  have hquote : Json.passes .inside (text "\"") = some (.outside, 1) := rfl
  have hpath (s : List Wchar) : Json.passes .inside (jsonEscape s) = some (.inside, 0) :=
    (isContent_jsonEscape s).passes
  simp only [entryMiddle, Json.passes_append, hpid, hroot, hflags, hsize, hsrc, hdest, hstatus,
    hquote, hpath, passes_unsignedText, Option.bind_some, Option.map_some]

/-- Unless the time leaves the reader inside its string, the name behind it stands outside of
every string. -/
theorem passes_stamp {p : Json.Place} {evt : BackupEvent} {t : List Wchar} {r : Json.Place × Nat}
    (h : Json.passes p (Json.quotationMark :: (entryMiddle evt ++ t)) = some r) :
    p = .inside ∧ 19 ≤ r.2 := by
  cases p with
  | outside =>
    have hname : Json.passes .outside (Json.quotationMark :: (entryMiddle evt ++ t)) = none := rfl
    rw [hname] at h
    cases h
  | escape =>
    have hname : Json.passes .escape (Json.quotationMark :: (entryMiddle evt ++ t)) = none := rfl
    rw [hname] at h
    cases h
  | inside =>
    rw [Json.passes, if_pos rfl, Json.passes_append, passes_entryMiddle, Option.bind_some,
      Option.map_map] at h
    obtain ⟨q, -, rfl⟩ := Option.map_eq_some_iff.mp h
    exact ⟨rfl, by simp only [Function.comp_apply]; omega⟩

variable {culture : CultureInfo} {stamp u : List Wchar} {evt : BackupEvent}

/-- The marks of the object leave none for the time. -/
theorem passes_stamp_of_isText
    (h : Json.IsText (stampedLine culture stamp evt) (entryObject u evt)) :
    Json.passes .inside stamp = some (.inside, 0) := by
  have hmarks := Json.passes_isText h
  have hcount : Json.marks (entryObject u evt) = 24 := rfl
  rw [hcount, stampedLine, Json.passes_append, passes_entryHead, Option.bind_some,
    Json.passes_append] at hmarks
  obtain ⟨q, hq, hsum⟩ := Option.map_eq_some_iff.mp hmarks
  obtain ⟨⟨p, k⟩, hstamp, hrest⟩ := Option.bind_eq_some_iff.mp hq
  obtain ⟨r, hr, rfl⟩ := Option.map_eq_some_iff.mp hrest
  obtain ⟨rfl, hmany⟩ := passes_stamp hr
  -- five marks stand before the time and at least nineteen behind it
  have htotal : 5 + (k + r.2) = 24 := congrArg Prod.snd hsum
  have hnone : k = 0 := by omega
  rw [hstamp, hnone]

theorem stampedLine_time (culture : CultureInfo) (stamp : List Wchar) (evt : BackupEvent) :
    stampedLine culture stamp evt = Json.beginObject :: (Json.renderPrefix [idMember evt] ++
      Json.quotationMark :: (text "ts" ++ Json.quotationMark :: Json.nameSeparator ::
        (Json.quotationMark :: (stamp ++ Json.quotationMark ::
          (entryMiddle evt ++ (signedText culture evt.status ++ [Json.endObject])))))) := by
  rw [stampedLine, entryHead_eq]
  simp

theorem isContent_of_isText
    (h : Json.IsText (stampedLine culture stamp evt) (entryObject u evt)) :
    Json.IsContent stamp u := by
  have hnone := passes_stamp_of_isText h
  rw [stampedLine_time] at h
  obtain ⟨t, hmembers, -⟩ := Json.isMembers_of_isText h (List.cons_ne_nil _ _)
  have hbehind := Json.isMembers_renderPrefix [(text "id", .number ⟨evt.id.toNat, 0⟩)] rfl
    hmembers
  obtain ⟨s, r, hws, hv, -, -⟩ := Json.isMembers_named (by decide) hbehind
  obtain rfl := Json.ws_cons (by decide) hws
  cases hv with
  | string hs => exact Json.isContent_of_passes hs hnone

theorem signsAsJson_of_isText
    (h : Json.IsText (stampedLine culture stamp evt) (entryObject u evt))
    (hnegative : evt.status.toInt < 0) : culture.SignsAsJson := by
  have hstamp := isContent_of_isText h
  rw [stampedLine_status culture hstamp] at h
  obtain ⟨t, hmembers, -⟩ := Json.isMembers_of_isText h (List.cons_ne_nil _ _)
  have hbehind := Json.isMembers_renderPrefix ((leadingMembers hstamp evt).map Json.Member.pair)
    (List.length_map _) hmembers
  obtain ⟨s, r, hws, hv, -, -⟩ := Json.isMembers_named (by decide) hbehind
  obtain ⟨e, ds, hds⟩ := List.exists_cons_of_ne_nil
    (Json.decimal_ne_nil evt.status.toInt.natAbs)
  have he : Json.isDigit e = true := Json.isDigit_decimal (hds ▸ List.mem_cons_self)
  rw [signedText_negative culture hnegative, hds, List.append_assoc] at hws
  cases hv with
  | number hn =>
    obtain ⟨d, s', rfl, hd⟩ := Json.isNumber_of_negative hn hnegative
    exact Json.ws_sign culture.sign_noDigit he hd hws

theorem isText_stampedLine_iff {stamp' : List Wchar} :
    Json.IsText (stampedLine culture stamp evt) (entryObject stamp' evt) ↔
      (0 ≤ evt.status.toInt ∨ culture.SignsAsJson) ∧ Json.IsContent stamp stamp' := by
  constructor
  · intro h
    refine ⟨?_, isContent_of_isText h⟩
    rcases lt_or_ge evt.status.toInt 0 with hnegative | hnonneg
    · exact .inr (signsAsJson_of_isText h hnegative)
    · exact .inl hnonneg
  · intro ⟨hstatus, hstamp⟩
    exact isText_stampedLine hstamp hstatus

end Necessity

section ReadingBack

def numberOf (v : Json.Value) (name : String) : Option Int :=
  (v.member (text name)).bind Json.Value.integer?

def stringOf (v : Json.Value) (name : String) : Option (List Wchar) :=
  (v.member (text name)).bind Json.Value.string?

/-- The row of the history that an object of the manifest tells of. -/
def eventOf (v : Json.Value) : Option BackupEvent := do
  let id ← numberOf v "id"
  let pid ← numberOf v "pid"
  let rootPid ← numberOf v "root_pid"
  let flags ← numberOf v "flags"
  let sizeHint ← numberOf v "size_hint"
  let srcNt ← stringOf v "src"
  let dest ← stringOf v "dest"
  let status ← numberOf v "status"
  some
    { id := BitVec.ofInt 64 id
      pid := BitVec.ofInt 64 pid
      rootPid := BitVec.ofInt 64 rootPid
      flags := BitVec.ofInt 32 flags
      sizeHint := BitVec.ofInt 64 sizeHint
      srcNt
      dest
      status := BitVec.ofInt 32 status }

theorem eventOf_entryObject (stamp : List Wchar) (evt : BackupEvent) :
    eventOf (entryObject stamp evt) = some evt := by
  have hid : numberOf (entryObject stamp evt) "id" = some (evt.id.toNat : Int) := rfl
  have hpid : numberOf (entryObject stamp evt) "pid" = some (evt.pid.toNat : Int) := rfl
  have hroot : numberOf (entryObject stamp evt) "root_pid" = some (evt.rootPid.toNat : Int) := rfl
  have hflags : numberOf (entryObject stamp evt) "flags" = some (evt.flags.toNat : Int) := rfl
  have hsize : numberOf (entryObject stamp evt) "size_hint" = some (evt.sizeHint.toNat : Int) := rfl
  have hsrc : stringOf (entryObject stamp evt) "src" = some evt.srcNt := rfl
  have hdest : stringOf (entryObject stamp evt) "dest" = some evt.dest := rfl
  have hstatus : numberOf (entryObject stamp evt) "status" = some evt.status.toInt := rfl
  simp only [eventOf, hid, hpid, hroot, hflags, hsize, hsrc, hdest, hstatus, Option.bind_eq_bind,
    Option.bind_some, BitVec.ofInt_natCast, BitVec.ofNat_toNat, BitVec.setWidth_eq,
    BitVec.ofInt_toInt]

variable {culture : CultureInfo} {entries : List (DateTime × BackupEvent)}

/-- What a sequence of entries appends. -/
def appended (culture : CultureInfo) (entries : List (DateTime × BackupEvent)) : List Wchar :=
  (entries.filterMap (entryLine culture)).flatMap fun line => line ++ [newline]

theorem foldl_writeEntry (culture : CultureInfo) (file : List Wchar)
    (entries : List (DateTime × BackupEvent)) :
    (entries.foldl (writeEntry culture) ⟨some file⟩).fs =
      some (file ++ appended culture entries) := by
  induction entries generalizing file with
  | nil => simp [appended]
  | cons e entries ih =>
    cases hline : entryLine culture e with
    | none =>
      have hstep : writeEntry culture ⟨some file⟩ e = ⟨some file⟩ := by
        rw [writeEntry, entryText_eq, hline, Option.map_none]
      rw [List.foldl_cons, hstep, ih, appended, appended, List.filterMap_cons_none hline]
    | some line =>
      have hstep : writeEntry culture ⟨some file⟩ e = ⟨some (file ++ (line ++ [newline]))⟩ := by
        rw [writeEntry, entryText_eq, hline, Option.map_some]
        rfl
      rw [List.foldl_cons, hstep, ih, appended, appended, List.filterMap_cons_some hline,
        List.flatMap_cons, List.append_assoc]

theorem splitOn_appended (culture : CultureInfo) (entries : List (DateTime × BackupEvent)) :
    (appended culture entries).splitOn newline = entries.filterMap (entryLine culture) ++ [[]] := by
  induction entries with
  | nil => rfl
  | cons e entries ih =>
    cases hline : entryLine culture e with
    | none =>
      have hsame : appended culture (e :: entries) = appended culture entries := by
        rw [appended, appended, List.filterMap_cons_none hline]
      rw [hsame, ih, List.filterMap_cons_none hline]
    | some line =>
      have hcons : appended culture (e :: entries) =
          line ++ newline :: appended culture entries := by
        rw [appended, List.filterMap_cons_some hline, List.flatMap_cons, List.append_assoc]
        rfl
      rw [hcons, List.splitOn_append_cons_self,
        List.splitOn_eq_singleton (newline_notMem_entryLine hline), ih,
        List.filterMap_cons_some hline]
      rfl

/-- The line is a JSON object with the members of the entry and a text for its time, and the
parser gives the entry back. -/
def IsLineOf (line : List Wchar) (e : DateTime × BackupEvent) : Prop :=
  ∃ stamp, Json.IsText line (entryObject stamp e.2) ∧
    Json.parse line = some (entryObject stamp e.2) ∧ eventOf (entryObject stamp e.2) = some e.2

/-- The text that a sequence of entries appends has one line for each in their order. -/
def LinesReadBack (culture : CultureInfo) (file : List Wchar)
    (entries : List (DateTime × BackupEvent)) : Prop :=
  ∃ added lines, (entries.foldl (writeEntry culture) ⟨some file⟩).fs = some (file ++ added) ∧
    added.splitOn newline = lines ++ [[]] ∧ List.Forall₂ IsLineOf lines entries

theorem isLineOf_iff {e : DateTime × BackupEvent} :
    (∃ line, entryLine culture e = some line ∧ IsLineOf line e) ↔ culture.Spells e := by
  constructor
  · rintro ⟨line, hline, stamp, htext, -⟩
    obtain ⟨raw, hraw, rfl⟩ := Option.map_eq_some_iff.mp hline
    obtain ⟨hstatus, hstamp⟩ := isText_stampedLine_iff.mp htext
    exact ⟨hstatus, raw, stamp, hraw, hstamp⟩
  · intro ⟨hstatus, raw, stamp, hraw, hstamp⟩
    have htext : Json.IsText (stampedLine culture raw e.2) (entryObject stamp e.2) :=
      isText_stampedLine hstamp hstatus
    exact ⟨_, Option.map_eq_some_iff.mpr ⟨raw, hraw, rfl⟩, stamp, htext,
      Json.parse_eq_some_iff.mpr htext, eventOf_entryObject stamp e.2⟩

/-- A list matches what `f` keeps of it if `f` keeps all of it. -/
theorem forall₂_filterMap_iff {α β : Type} {f : α → Option β} {P : β → α → Prop} {l : List α} :
    List.Forall₂ P (l.filterMap f) l ↔ ∀ a ∈ l, ∃ b, f a = some b ∧ P b a := by
  induction l with
  | nil => simp
  | cons a l ih =>
    rw [List.forall_mem_cons, ← ih]
    cases hf : f a with
    | none =>
      have hshort := List.length_filterMap_le f l
      rw [List.filterMap_cons_none hf]
      refine ⟨fun h => absurd h.length_eq (by rw [List.length_cons]; omega), ?_⟩
      rintro ⟨⟨b, hb, -⟩, -⟩
      cases hb
    | some b =>
      rw [List.filterMap_cons_some hf, List.forall₂_cons]
      simp

theorem forall₂_entryLine_iff :
    List.Forall₂ IsLineOf (entries.filterMap (entryLine culture)) entries ↔
      ∀ e ∈ entries, culture.Spells e := by
  rw [forall₂_filterMap_iff]
  simp only [isLineOf_iff]

theorem LinesReadBack.spells {file : List Wchar} (h : LinesReadBack culture file entries) :
    ∀ e ∈ entries, culture.Spells e := by
  obtain ⟨added, lines, hfile, hlines, hread⟩ := h
  rw [foldl_writeEntry] at hfile
  obtain rfl := List.append_cancel_left (Option.some.inj hfile)
  rw [splitOn_appended] at hlines
  rw [← List.append_cancel_right hlines] at hread
  exact forall₂_entryLine_iff.mp hread

/-- The manifest reads back as JSON exactly when the culture spells every entry. -/
theorem manifest_reads_back_iff (culture : CultureInfo) (file : List Wchar)
    (entries : List (DateTime × BackupEvent)) :
    LinesReadBack culture file entries ↔ ∀ e ∈ entries, culture.Spells e := by
  refine ⟨LinesReadBack.spells, fun h => ?_⟩
  exact ⟨_, _, foldl_writeEntry culture file entries, splitOn_appended culture entries,
    forall₂_entryLine_iff.mpr h⟩

/-- The negative sign of Swedish, which is not the one of JSON. -/
def minusSignCulture : CultureInfo where
  negativeSign := [0x2212]
  timeStamp := CultureInfo.invariant.timeStamp
  sign_noDigit := by
    intro c hc
    obtain rfl : c = 0x2212 := List.mem_singleton.mp hc
    decide
  sign_oneLine := by decide
  stamp_oneLine := CultureInfo.invariant.stamp_oneLine

/-- A source on a locked volume. -/
def lockedVolume : BackupEvent :=
  { id := 1, pid := 8, rootPid := 8, flags := 1, sizeHint := 0, srcNt := text "s",
    dest := [], status := 0x80310000 }

theorem negative_status_is_no_json :
    ¬ LinesReadBack minusSignCulture [] [(⟨2024, 1, 2, 3, 4, 5, 6⟩, lockedVolume)] := by
  intro h
  rcases (h.spells _ List.mem_cons_self).1 with hnonneg | ⟨blanks, hsign, -⟩
  · exact absurd hnonneg (by decide)
  · have hlast := congrArg List.getLast? hsign
    rw [List.getLast?_concat] at hlast
    exact absurd hlast (by decide)

end ReadingBack

end KnFileCatcher

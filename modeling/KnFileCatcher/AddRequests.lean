import KnFileCatcher.CommFetches
import KnFileCatcher.SelfExcludes

/-! Which buffers add a watch root or an exclude pattern, and what they add. -/

namespace KnFileCatcher.Comm

open LittleEndian SharedMemory

/-- A message that the client leaves alone while it is handled. -/
structure ClientBuffer where
  bytes : List Byte
  fits : bytes.length < 2 ^ 32

namespace ClientBuffer

def type (b : ClientBuffer) : Ulong := readWord 4 0 b.bytes
def size (b : ClientBuffer) : Nat := (readWord 4 4 b.bytes).toNat
def payloadLength (b : ClientBuffer) : Nat := (readWord 4 8 b.bytes).toNat
def payload (b : ClientBuffer) : List Byte := (b.bytes.drop sizeofAddReq).take b.payloadLength

/-- The form of a request with a payload of at most `most` units. -/
structure WellFormed (most : Nat) (b : ClientBuffer) : Prop where
  header : sizeofMsgHeader ≤ b.bytes.length
  header_le : sizeofMsgHeader ≤ b.size
  size_le : b.size ≤ b.bytes.length
  request_le : sizeofAddReq ≤ b.size
  ne : b.payloadLength ≠ 0
  even : b.payloadLength % 2 = 0
  limit : b.payloadLength ≤ most * 2
  payload_le : sizeofAddReq + b.payloadLength ≤ b.size

end ClientBuffer

def send (env : CommEnv) (g : FilterTables) (b : ClientBuffer) (out : OutputBuffer) : CommResult :=
  ((knFcCommMessage env g true (BitVec.ofNat 32 b.bytes.length) out).run
    (fun _ => steady b.bytes) 0).2

def Accepted (r : CommResult) : Prop :=
  ∃ status, r.outcome = .returned status ∧ ntSuccess status = true

def Rejected (g : FilterTables) (r : CommResult) : Prop :=
  ∃ status, r.outcome = .returned status ∧ ntSuccess status = false ∧ r.tables = g

/-- A string of the runtime, which limits its length. -/
structure ClrString where
  chars : List Wchar
  fits : chars.length ≤ 0x3FFFFFDF

/-- The buffer that `SendVariablePayload` hands over. -/
def sendVariablePayload (type : Ulong) (payload : ClrString) : ClientBuffer where
  bytes :=
    let bytes : Ulong := BitVec.ofNat 32 (payload.chars.length * 2)
    let msgLen : Ulong := BitVec.ofNat 32 sizeofAddReq + bytes
    @word 4 type ++ (@word 4 msgLen ++ (@word 4 bytes ++ units payload.chars))
  fits := by
    have hlen := payload.fits
    simp
    omega

section Tables

def RootsFull (g : FilterTables) : Prop := knfcMaxWatchRoots ≤ g.config.roots.length
def PatternsFull (g : FilterTables) : Prop := knfcMaxExcludePatterns ≤ g.excludes.patterns.length

def RootAppended (g : FilterTables) (s : UnicodeString) (g' : FilterTables) : Prop :=
  g'.config.roots = g.config.roots ++ [s] ∧ g'.excludes = g.excludes

def PatternAppended (g : FilterTables) (s : UnicodeString) (g' : FilterTables) : Prop :=
  g'.excludes.patterns = g.excludes.patterns ++ [s] ∧
    g'.excludes.matchedCount = g.excludes.matchedCount ∧ g'.config = g.config

/-- How `add` treats a string of a length within the limit. -/
structure Adds (most : Nat) (full : Prop) (appended : UnicodeString → FilterTables → Prop)
    (g : FilterTables) (add : UnicodeString → NtStatus × FilterTables) : Prop where
  stored : ∀ s, s.length ≠ 0 → s.length ≤ most * 2 → ¬ full →
    (add s).1 = statusSuccess ∧ appended s (add s).2
  refused : ∀ s, s.length ≠ 0 → s.length ≤ most * 2 → full → add s = (statusQuotaExceeded, g)

theorem adds_addRoot {env : CommEnv} (htable : env.tableAlloc = true) (g : FilterTables) :
    Adds knfcMaxWatchPathChars (RootsFull g) (RootAppended g) g (addRoot env g) where
  stored s hne hle hroom := by
    have hlen := Nat.not_lt.mpr hle
    unfold RootsFull at hroom
    rw [addRoot, knFcConfigAddRoot, dif_neg hne, dif_neg hlen, htable, if_neg (by decide),
      dif_neg hroom]
    exact ⟨rfl, rfl, rfl⟩
  refused s hne hle hfull := by
    have hlen := Nat.not_lt.mpr hle
    unfold RootsFull at hfull
    rw [addRoot, knFcConfigAddRoot, dif_neg hne, dif_neg hlen, htable, if_neg (by decide),
      dif_pos hfull]

theorem adds_addPattern {env : CommEnv} (htable : env.tableAlloc = true) (g : FilterTables) :
    Adds knfcMaxExcludeChars (PatternsFull g) (PatternAppended g) g (addPattern env g) where
  stored s hne hle hroom := by
    have hlen := Nat.not_lt.mpr hle
    rw [addPattern, htable, knFcExcludeAdd_accepted hroom hne hlen]
    exact ⟨rfl, rfl, rfl, rfl⟩
  refused s hne hle hfull := by
    have hlen := Nat.not_lt.mpr hle
    unfold PatternsFull at hfull
    rw [addPattern, knFcExcludeAdd, dif_neg hne, dif_neg hlen, htable, if_neg (by decide),
      dif_pos hfull]

end Tables

section Steady

variable {env : CommEnv} {g : FilterTables} {b : ClientBuffer} {out : OutputBuffer}

theorem send_eq_eval (env : CommEnv) (g : FilterTables) (b : ClientBuffer) (out : OutputBuffer) :
    send env g b out = (knFcCommMessage env g true (BitVec.ofNat 32 b.bytes.length) out).eval
      (steady b.bytes) := Program.run_unchanged _ _ _

theorem send_short (h : b.bytes.length < sizeofMsgHeader) :
    send env g b out = g.returned statusInvalidParameter := by
  have hlen : (BitVec.ofNat 32 b.bytes.length).toNat = b.bytes.length := Nat.mod_eq_of_lt b.fits
  rw [send_eq_eval]
  unfold knFcCommMessage
  rw [hlen, if_pos (Or.inr h)]
  rfl

theorem send_eq (h : sizeofMsgHeader ≤ b.bytes.length) :
    send env g b out =
      if b.size < sizeofMsgHeader ∨ b.bytes.length < b.size then g.returned statusInvalidParameter
      else (handleType env g true b.size out b.type).eval (steady b.bytes) := by
  have hlen : (BitVec.ofNat 32 b.bytes.length).toNat = b.bytes.length := Nat.mod_eq_of_lt b.fits
  rw [send_eq_eval]
  unfold knFcCommMessage
  rw [hlen, if_neg (by simpa using h), Program.eval_bind, eval_probeAndCopy_steady h]
  dsimp only
  rw [readWord_take (by decide), readWord_take (by decide), ← ClientBuffer.size, ← ClientBuffer.type]
  split <;> rfl

/-- What of the form the handler of the request checks. -/
structure RequestFormed (most : Nat) (b : ClientBuffer) : Prop where
  request_le : sizeofAddReq ≤ b.size
  ne : b.payloadLength ≠ 0
  even : b.payloadLength % 2 = 0
  limit : b.payloadLength ≤ most * 2
  payload_le : sizeofAddReq + b.payloadLength ≤ b.size

theorem ClientBuffer.WellFormed.request {most : Nat} (h : b.WellFormed most) :
    RequestFormed most b := ⟨h.request_le, h.ne, h.even, h.limit, h.payload_le⟩

theorem RequestFormed.unicodeString {most : Nat} (h : RequestFormed most b)
    (hmost : most * 2 < 65536) (hsize : b.size ≤ b.bytes.length) :
    units (unicodeString b.payload b.payloadLength).buffer = b.payload ∧
      (unicodeString b.payload b.payloadLength).length = b.payloadLength := by
  have hfits := h.payload_le
  have hlimit := h.limit
  have hlen : b.payload.length = b.payloadLength := by
    simp only [ClientBuffer.payload, List.length_take, List.length_drop]
    omega
  exact unicodeString_eq hlen (by omega) h.even

theorem handleAdd_formed {most : Nat} {add : UnicodeString → NtStatus × FilterTables}
    (halloc : env.localAlloc = true) (hsize : b.size ≤ b.bytes.length)
    (h : RequestFormed most b) :
    (handleAdd most add env g true b.size).eval (steady b.bytes) =
      (add (unicodeString b.payload b.payloadLength)).2.returned
        (add (unicodeString b.payload b.payloadLength)).1 := by
  obtain ⟨hreq, hne, heven, hle, hfits⟩ := h
  have hcheck : ¬ (b.payloadLength = 0 ∨ b.payloadLength % 2 ≠ 0 ∨ most * 2 < b.payloadLength) := by
    omega
  have hpayload := @answer_copy_steady NtStatus Byte _ _ _ _ (hfits.trans hsize) b.payloadLength
  unfold handleAdd
  rw [if_neg (by simpa using hreq), Program.eval_bind, eval_probeAndCopy_steady (hreq.trans hsize)]
  dsimp only
  rw [readWord_take (by decide), ← ClientBuffer.payloadLength, if_neg hcheck,
    if_neg (Nat.not_lt.mpr hfits), halloc]
  simp only [knFcAllocateNonPaged, if_true, Program.eval, hpayload]
  rfl

theorem handleAdd_malformed {most : Nat} {add : UnicodeString → NtStatus × FilterTables}
    (hsize : b.size ≤ b.bytes.length) (h : ¬ RequestFormed most b) :
    (handleAdd most add env g true b.size).eval (steady b.bytes) =
      g.returned statusInvalidParameter := by
  unfold handleAdd
  by_cases hreq : sizeofAddReq ≤ b.size
  · rw [if_neg (by simpa using hreq), Program.eval_bind,
      eval_probeAndCopy_steady (hreq.trans hsize)]
    dsimp only
    rw [readWord_take (by decide), ← ClientBuffer.payloadLength]
    by_cases hcheck : b.payloadLength = 0 ∨ b.payloadLength % 2 ≠ 0 ∨ most * 2 < b.payloadLength
    · rw [if_pos hcheck]
      rfl
    · have hfits : b.size < sizeofAddReq + b.payloadLength := by
        by_contra hle
        exact h ⟨hreq, by omega, by omega, by omega, by omega⟩
      rw [if_neg hcheck, if_pos hfits]
      rfl
  · rw [if_pos (Or.inr (Nat.not_le.mp hreq))]
    rfl

end Steady

section Decides

/-- The message is accepted just when its form is right and the table has room; then
the payload is appended, and otherwise nothing changes. -/
structure Decides (most : Nat) (full : Prop) (appended : UnicodeString → FilterTables → Prop)
    (g : FilterTables) (b : ClientBuffer) (r : CommResult) : Prop where
  accepted_iff : Accepted r ↔ b.WellFormed most ∧ ¬ full
  appended : Accepted r → ∃ s, units s.buffer = b.payload ∧ appended s r.tables
  rejected : ¬ Accepted r → Rejected g r

variable {most : Nat} {full : Prop} {appended : UnicodeString → FilterTables → Prop}
  {g : FilterTables} {b : ClientBuffer}

theorem accepted_returned {status : NtStatus} :
    Accepted (g.returned status) ↔ ntSuccess status = true := by
  constructor
  · rintro ⟨_, heq, h⟩
    obtain rfl := CommOutcome.returned.inj heq
    exact h
  · intro h
    exact ⟨status, rfl, h⟩

theorem Decides.of_rejected {status : NtStatus} (hs : ntSuccess status = false)
    (h : ¬ (b.WellFormed most ∧ ¬ full)) :
    Decides most full appended g b (g.returned status) := by
  have hnot : ¬ Accepted (g.returned status) := by simp [accepted_returned, hs]
  exact ⟨iff_of_false hnot h, fun ha => absurd ha hnot, fun _ => ⟨status, rfl, hs, rfl⟩⟩

theorem decides_send {env : CommEnv} {out : OutputBuffer}
    {add : UnicodeString → NtStatus × FilterTables} (halloc : env.localAlloc = true)
    (hmost : most * 2 < 65536) (hadds : Adds most full appended g add)
    (htype : handleType env g true b.size out b.type = handleAdd most add env g true b.size) :
    Decides most full appended g b (send env g b out) := by
  by_cases hheader : sizeofMsgHeader ≤ b.bytes.length
  · rw [send_eq hheader]
    split
    · next hsize =>
      refine .of_rejected rfl fun h => ?_
      have hge := h.1.header_le
      have hle := h.1.size_le
      omega
    next hsize =>
    obtain ⟨hge, hle⟩ := not_or.mp hsize
    -- the callback has checked `Size`; what is left of the form is the handler's
    rw [htype]
    by_cases hformed : RequestFormed most b
    · have hwell : b.WellFormed most := ⟨hheader, Nat.not_lt.mp hge, Nat.not_lt.mp hle,
        hformed.request_le, hformed.ne, hformed.even, hformed.limit, hformed.payload_le⟩
      obtain ⟨hunits, hlength⟩ := hformed.unicodeString hmost (Nat.not_lt.mp hle)
      have hne : (unicodeString b.payload b.payloadLength).length ≠ 0 := by
        rw [hlength]
        exact hformed.ne
      have hmax : (unicodeString b.payload b.payloadLength).length ≤ most * 2 := by
        rw [hlength]
        exact hformed.limit
      rw [handleAdd_formed halloc (Nat.not_lt.mp hle) hformed]
      by_cases hfull : full
      · rw [hadds.refused _ hne hmax hfull]
        dsimp only
        exact .of_rejected rfl fun h => h.2 hfull
      · obtain ⟨hsuccess, happended⟩ := hadds.stored _ hne hmax hfull
        rw [hsuccess]
        have haccepted : Accepted (FilterTables.returned
            (add (unicodeString b.payload b.payloadLength)).2 statusSuccess) :=
          accepted_returned.mpr rfl
        exact ⟨iff_of_true haccepted ⟨hwell, hfull⟩, fun _ => ⟨_, hunits, happended⟩,
          fun h => absurd haccepted h⟩
    · rw [handleAdd_malformed (Nat.not_lt.mp hle) hformed]
      exact .of_rejected rfl fun h => hformed h.1.request
  · rw [send_short (Nat.not_le.mp hheader)]
    exact .of_rejected rfl fun h => hheader h.1.header

end Decides

section Strings

variable {payload : ClrString}

theorem type_sendVariablePayload (type : Ulong) (payload : ClrString) :
    (sendVariablePayload type payload).type = type := by
  simp [ClientBuffer.type, sendVariablePayload]

theorem length_sendVariablePayload (type : Ulong) (payload : ClrString) :
    (sendVariablePayload type payload).bytes.length = sizeofAddReq + payload.chars.length * 2 := by
  simp [sendVariablePayload, sizeofAddReq]
  omega

theorem payloadLength_sendVariablePayload (type : Ulong) (payload : ClrString) :
    (sendVariablePayload type payload).payloadLength = payload.chars.length * 2 := by
  have hfits := payload.fits
  simp [ClientBuffer.payloadLength, sendVariablePayload, readWord_skip]
  omega

theorem size_sendVariablePayload (type : Ulong) (payload : ClrString) :
    (sendVariablePayload type payload).size = sizeofAddReq + payload.chars.length * 2 := by
  have hfits := payload.fits
  simp [ClientBuffer.size, sendVariablePayload, readWord_skip, sizeofAddReq]
  omega

theorem payload_sendVariablePayload (type : Ulong) (payload : ClrString) :
    (sendVariablePayload type payload).payload = units payload.chars := by
  rw [ClientBuffer.payload, payloadLength_sendVariablePayload]
  simp [sendVariablePayload, drop_word, sizeofAddReq]
  omega

theorem wellFormed_sendVariablePayload {most : Nat} {type : Ulong} {payload : ClrString} :
    (sendVariablePayload type payload).WellFormed most ↔
      payload.chars ≠ [] ∧ payload.chars.length ≤ most := by
  have hbytes := length_sendVariablePayload type payload
  have hsize := size_sendVariablePayload type payload
  have hlength := payloadLength_sendVariablePayload type payload
  have hne : payload.chars ≠ [] ↔ payload.chars.length ≠ 0 := List.length_eq_zero_iff.not.symm
  have hheader : sizeofMsgHeader ≤ sizeofAddReq := by decide
  rw [hne]
  constructor
  · intro h
    have hpos := h.ne
    have hle := h.limit
    omega
  · rintro ⟨hpos, hle⟩
    constructor <;> omega

theorem Decides.string {most : Nat} {type : Ulong} {payload : ClrString} {full : Prop}
    {appended : UnicodeString → FilterTables → Prop} {g : FilterTables} {r : CommResult}
    (h : Decides most full appended g (sendVariablePayload type payload) r) :
    (Accepted r ↔ payload.chars ≠ [] ∧ payload.chars.length ≤ most ∧ ¬ full) ∧
      (Accepted r → ∃ s, s.buffer = payload.chars ∧ appended s r.tables) := by
  constructor
  · rw [h.accepted_iff, wellFormed_sendVariablePayload, and_assoc]
  · intro ha
    obtain ⟨s, hunits, happended⟩ := h.appended ha
    rw [payload_sendVariablePayload] at hunits
    have hbuffer := congrArg readUnits hunits
    rw [readUnits_units, readUnits_units] at hbuffer
    exact ⟨s, hbuffer, happended⟩

/-- What the handler makes of a string: one that is empty or too long is no request. -/
theorem send_sendVariablePayload {env : CommEnv} {out : OutputBuffer} {g : FilterTables}
    {type : Ulong} {most : Nat} {add : UnicodeString → NtStatus × FilterTables}
    (payload : ClrString) (halloc : env.localAlloc = true) (hmost : most * 2 < 65536)
    (htype : ∀ size, handleType env g true size out type = handleAdd most add env g true size) :
    send env g (sendVariablePayload type payload) out =
      if h : payload.chars = [] ∨ most * 2 < 2 * payload.chars.length then
        g.returned statusInvalidParameter
      else
        let r := add ⟨payload.chars, by omega⟩
        r.2.returned r.1 := by
  have hbytes := length_sendVariablePayload type payload
  have hsize := size_sendVariablePayload type payload
  have hlength := payloadLength_sendVariablePayload type payload
  have hpayload := payload_sendVariablePayload type payload
  have hheader : sizeofMsgHeader ≤ sizeofAddReq := by decide
  have hwell := @wellFormed_sendVariablePayload most type payload
  rw [send_eq (by omega), if_neg (by omega), type_sendVariablePayload, htype]
  split
  · next hbad =>
    refine handleAdd_malformed (by omega) fun h => ?_
    rcases hbad with hnil | hlong
    · rw [hnil] at hlength
      exact h.ne hlength
    · have hle := h.limit
      omega
  · next hgood =>
    obtain ⟨hne, hle⟩ := not_or.mp hgood
    have hformed := (hwell.mpr ⟨hne, by omega⟩).request
    have hbuffer := congrArg readUnits (hformed.unicodeString hmost (by omega)).1
    rw [readUnits_units, hpayload, readUnits_units] at hbuffer
    rw [handleAdd_formed halloc (by omega) hformed, hpayload]
    generalize unicodeString (units payload.chars) _ = pat at hbuffer ⊢
    obtain ⟨buffer, hfits⟩ := pat
    subst hbuffer
    rfl

/-- On its way through the port an exclude pattern meets the same checks as in
`addExclude`. -/
theorem send_addExclude {env : CommEnv} {out : OutputBuffer} (g : FilterTables)
    (payload : ClrString) (halloc : env.localAlloc = true) (htable : env.tableAlloc = true) :
    send env g (sendVariablePayload knFcMsgAddExclude payload) out =
      let r := KnFileCatcher.knFcHandleAddExclude g.excludes payload.chars
      { g with excludes := r.2 }.returned r.1 := by
  have htype (size : Nat) : handleType env g true size out knFcMsgAddExclude =
      handleAdd knfcMaxExcludeChars (addPattern env g) env g true size := rfl
  rw [send_sendVariablePayload payload halloc (by decide) htype]
  unfold KnFileCatcher.knFcHandleAddExclude addPattern
  rw [htable]
  split <;> rfl

end Strings

/-- A request to add is accepted just when it has the documented form and the table has
room, and what it adds is its payload; of the strings, the non-empty ones within
the limit are accepted. -/
theorem add_request_accepted_iff (env : CommEnv) (g : FilterTables) (out : OutputBuffer)
    (hlocal : env.localAlloc = true) (htable : env.tableAlloc = true) :
    (∀ b : ClientBuffer,
      (b.type = knFcMsgAddWatchRoot → Decides knfcMaxWatchPathChars (RootsFull g)
        (RootAppended g) g b (send env g b out)) ∧
      (b.type = knFcMsgAddExclude → Decides knfcMaxExcludeChars (PatternsFull g)
        (PatternAppended g) g b (send env g b out))) ∧
    ∀ payload : ClrString,
      let root := send env g (sendVariablePayload knFcMsgAddWatchRoot payload) out
      let pattern := send env g (sendVariablePayload knFcMsgAddExclude payload) out
      ((Accepted root ↔ payload.chars ≠ [] ∧ payload.chars.length ≤ knfcMaxWatchPathChars ∧
          ¬ RootsFull g) ∧
        (Accepted root → ∃ s, s.buffer = payload.chars ∧ RootAppended g s root.tables)) ∧
      (Accepted pattern ↔ payload.chars ≠ [] ∧ payload.chars.length ≤ knfcMaxExcludeChars ∧
          ¬ PatternsFull g) ∧
        (Accepted pattern → ∃ s, s.buffer = payload.chars ∧ PatternAppended g s pattern.tables) := by
  have hroot (b : ClientBuffer) (h : b.type = knFcMsgAddWatchRoot) :
      Decides knfcMaxWatchPathChars (RootsFull g) (RootAppended g) g b (send env g b out) :=
    decides_send hlocal (by decide) (adds_addRoot htable g) (by rw [h]; rfl)
  have hpattern (b : ClientBuffer) (h : b.type = knFcMsgAddExclude) :
      Decides knfcMaxExcludeChars (PatternsFull g) (PatternAppended g) g b (send env g b out) :=
    decides_send hlocal (by decide) (adds_addPattern htable g) (by rw [h]; rfl)
  exact ⟨fun b => ⟨hroot b, hpattern b⟩, fun payload =>
    ⟨(hroot _ (type_sendVariablePayload _ payload)).string,
      (hpattern _ (type_sendVariablePayload _ payload)).string⟩⟩

def workingEnv : CommEnv := ⟨fun _ => true, true, true, true, statusSuccess⟩

def emptyTables : FilterTables := ⟨knFcConfigInitialize, knFcExcludeInitialize⟩

theorem add_request_accepted_root :
    Accepted (send workingEnv emptyTables
      (sendVariablePayload knFcMsgAddWatchRoot ⟨[backslash], by decide⟩) ⟨false, 0, none⟩) := by
  have h := (add_request_accepted_iff workingEnv emptyTables ⟨false, 0, none⟩ rfl rfl).2
    ⟨[backslash], by decide⟩
  exact h.1.1.mpr ⟨by decide, by decide, by unfold RootsFull; decide⟩

end KnFileCatcher.Comm

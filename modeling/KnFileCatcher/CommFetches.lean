import KnFileCatcher.CommMessage

/-! What the message callback reads from a client that rewrites its buffer between
the accesses. -/

namespace KnFileCatcher.Comm

open LittleEndian SharedMemory

abbrev Trace := List (Program.Event NtStatus Byte)

/-- The length was read by the header fetch of the request, and passed its checks. -/
def Validated (trace : Trace) (lengthBytes : Nat) : Prop :=
  ∃ hdr, (.copy 0 sizeofAddReq sizeofAddReq, .ok hdr) ∈ trace ∧
    lengthBytes = (readWord 4 8 hdr).toNat ∧ lengthBytes ≠ 0 ∧ lengthBytes % 2 = 0 ∧
    lengthBytes ≤ knfcMaxWatchPathChars * 2

/-- The entry is what the payload fetch brought. -/
structure Captured (most : Nat) (trace : Trace) (s : UnicodeString) : Prop where
  ne : s.length ≠ 0
  le : s.length ≤ most * 2
  fetched : ∃ room, (.copy sizeofAddReq s.length room, .ok (units s.buffer)) ∈ trace

/-- Every entry of `g'` was in `g` or has been captured. -/
structure StoredFrom (g : FilterTables) (trace : Trace) (g' : FilterTables) : Prop where
  roots : ∀ s ∈ g'.config.roots, s ∈ g.config.roots ∨ Captured knfcMaxWatchPathChars trace s
  patterns : ∀ s ∈ g'.excludes.patterns, s ∈ g.excludes.patterns ∨
    Captured knfcMaxExcludeChars trace s

theorem StoredFrom.same (g : FilterTables) (trace : Trace) : StoredFrom g trace g where
  roots _ hs := Or.inl hs
  patterns _ hs := Or.inl hs

/-- What a call on the tables `g` may have done after the accesses of `trace`. -/
structure Honest (g : FilterTables) (trace : Trace) (r : CommResult) : Prop where
  copies : ∀ offset count room answer, (.copy offset count room, answer) ∈ trace →
    offset = 0 ∧ count = room ∨ offset = sizeofAddReq ∧ Validated trace count
  stored : StoredFrom g trace r.tables

/-- Only headers have been fetched. -/
def HeadersOnly (trace : Trace) : Prop :=
  ∀ offset count room answer, (.copy offset count room, answer) ∈ trace →
    offset = 0 ∧ count = room

theorem HeadersOnly.append {past tail : Trace} (h : HeadersOnly past) {probed size : Nat}
    (htail : ∀ e ∈ tail, e.1 = .probe 0 probed ∨ e.1 = .copy 0 size size) :
    HeadersOnly (past ++ tail) := by
  intro offset count room answer hmem
  rcases List.mem_append.mp hmem with hmem | hmem
  · exact h offset count room answer hmem
  · rcases htail _ hmem with hprobe | hcopy
    · cases hprobe
    · obtain ⟨rfl, rfl, rfl⟩ := Access.copy.inj hcopy
      exact ⟨rfl, rfl⟩

theorem HeadersOnly.honest {g : FilterTables} {trace : Trace} {r : CommResult}
    (h : HeadersOnly trace) (hstored : StoredFrom g trace r.tables) : Honest g trace r where
  copies offset count room answer hmem := Or.inl (h offset count room answer hmem)
  stored := hstored

theorem Validated.mono {trace : Trace} {lengthBytes : Nat} (h : Validated trace lengthBytes)
    (last : Trace) : Validated (trace ++ last) lengthBytes := by
  obtain ⟨hdr, hmem, hrest⟩ := h
  exact ⟨hdr, List.mem_append_left _ hmem, hrest⟩

/-- The copy of the payload is the last access. -/
theorem HeadersOnly.honest_payload {g : FilterTables} {past : Trace} {r : CommResult}
    {lengthBytes room : Nat} {answer : Except NtStatus (List Byte)} (h : HeadersOnly past)
    (hvalid : Validated past lengthBytes)
    (hstored : StoredFrom g (past ++ [(.copy sizeofAddReq lengthBytes room, answer)]) r.tables) :
    Honest g (past ++ [(.copy sizeofAddReq lengthBytes room, answer)]) r where
  copies offset count room answer hmem := by
    rcases List.mem_append.mp hmem with hmem | hmem
    · exact Or.inl (h offset count room answer hmem)
    · obtain ⟨hcopy, -⟩ := Prod.mk.inj (List.mem_singleton.mp hmem)
      obtain ⟨rfl, rfl, rfl⟩ := Access.copy.inj hcopy
      exact Or.inr ⟨rfl, hvalid.mono _⟩
  stored := hstored

theorem unicodeString_eq {cells : List Byte} {lengthBytes : Nat} (hlen : cells.length = lengthBytes)
    (hlt : lengthBytes < 65536) (heven : lengthBytes % 2 = 0) :
    units (unicodeString cells lengthBytes).buffer = cells ∧
      (unicodeString cells lengthBytes).length = lengthBytes := by
  subst hlen
  have hbuffer : (unicodeString cells cells.length).buffer = readUnits cells := by
    simp only [unicodeString, Nat.mod_eq_of_lt hlt, List.take_length]
  have hunits : units (unicodeString cells cells.length).buffer = cells := by
    rw [hbuffer, units_readUnits cells heven]
  refine ⟨hunits, ?_⟩
  rw [UnicodeString.length, ← length_units, hunits]

section Sound

variable {env : CommEnv} {g : FilterTables} {present : Bool} {bound : Nat} {past : Trace}

theorem handleAdd_sound {most size : Nat} {add : UnicodeString → NtStatus × FilterTables}
    (hmost : most ≤ knfcMaxWatchPathChars) (hsize : size ≤ bound) (hpast : HeadersOnly past)
    (hadd : ∀ s trace, Captured most trace s → StoredFrom g trace (add s).2) :
    (handleAdd most add env g present size).Sound bound (Honest g) past := by
  unfold handleAdd
  split
  · exact hpast.honest (.same g past)
  next hroom =>
  obtain ⟨-, hroom⟩ := not_or.mp hroom
  refine Program.Sound.bind
    (Program.sound_probeAndCopy hsize (by omega) (Nat.le_refl _) fun tail answer htail hok => ?_)
  have hheaders := hpast.append htail
  cases answer with
  | error code => exact hheaders.honest (.same g _)
  | ok hdr =>
    obtain ⟨-, hhdr⟩ := hok hdr rfl
    dsimp only
    split
    · exact hheaders.honest (.same g _)
    next hlength =>
    split
    · exact hheaders.honest (.same g _)
    next hfits =>
    have hvalid : Validated (past ++ tail) (readWord 4 8 hdr).toNat :=
      ⟨hdr, List.mem_append_right _ hhdr, rfl, by omega, by omega, by omega⟩
    cases env.localAlloc with
    | false => exact hheaders.honest (.same g _)
    | true =>
      refine ⟨⟨by omega, Nat.le_refl _⟩, fun answer ha => ?_⟩
      cases answer with
      | error code => exact hheaders.honest_payload hvalid (.same g _)
      | ok cells =>
        have hmax : knfcMaxWatchPathChars * 2 < 65536 := by decide
        have hcells : cells.length = (readWord 4 8 hdr).toNat := ha cells rfl
        obtain ⟨hunits, hlen⟩ := unicodeString_eq hcells (by omega) (by omega)
        refine hheaders.honest_payload hvalid
          (hadd _ _ ⟨by omega, by omega, (readWord 4 8 hdr).toNat, ?_⟩)
        rw [hlen, hunits]
        exact List.mem_append_right _ List.mem_cons_self

theorem mem_roots_of_addRoot {s r : UnicodeString} (h : r ∈ (addRoot env g s).2.config.roots) :
    r ∈ g.config.roots ∨ r = s := by
  rcases knFcConfigAddRoot_roots env.tableAlloc g.config s with hsame | happend
  · exact Or.inl (hsame ▸ h)
  · exact (List.mem_append.mp (happend ▸ h)).imp_right List.mem_singleton.mp

theorem mem_patterns_of_addPattern {s r : UnicodeString}
    (h : r ∈ (addPattern env g s).2.excludes.patterns) : r ∈ g.excludes.patterns ∨ r = s := by
  rcases knFcExcludeAdd_patterns env.tableAlloc g.excludes s with hsame | happend
  · exact Or.inl (hsame ▸ h)
  · exact (List.mem_append.mp (happend ▸ h)).imp_right List.mem_singleton.mp

theorem addRoot_stored {s : UnicodeString} {trace : Trace}
    (hs : Captured knfcMaxWatchPathChars trace s) : StoredFrom g trace (addRoot env g s).2 where
  roots r hr := by
    rcases mem_roots_of_addRoot hr with hr | rfl
    · exact Or.inl hr
    · exact Or.inr hs
  patterns _ hr := Or.inl hr

theorem addPattern_stored {s : UnicodeString} {trace : Trace}
    (hs : Captured knfcMaxExcludeChars trace s) : StoredFrom g trace (addPattern env g s).2 where
  roots _ hr := Or.inl hr
  patterns r hr := by
    rcases mem_patterns_of_addPattern hr with hr | rfl
    · exact Or.inl hr
    · exact Or.inr hs

theorem handleType_sound (out : OutputBuffer) (type : Ulong) {size : Nat} (hsize : size ≤ bound)
    (hpast : HeadersOnly past) :
    (handleType env g present size out type).Sound bound (Honest g) past := by
  have hsame (r : CommResult) (hr : r.tables = g) : Honest g past r :=
    hpast.honest (hr ▸ .same g past)
  unfold handleType
  refine .ite (hsame _ (ping_tables env g out)) ?_
  refine .ite (handleAdd_sound (Nat.le_refl _) hsize hpast fun _ _ => addRoot_stored) ?_
  refine .ite (hpast.honest ⟨by rintro _ ⟨⟩, fun _ hp => Or.inl hp⟩) ?_
  refine .ite (hsame _ rfl) (.ite (hsame _ rfl) ?_)
  refine .ite (handleAdd_sound (by decide) hsize hpast fun _ _ => addPattern_stored) ?_
  refine .ite (hpast.honest ⟨fun _ hr => Or.inl hr, by rintro _ ⟨⟩⟩) ?_
  refine .ite (hsame _ (getStats_tables env g out)) ?_
  exact .ite (hsame _ (getProcessTree_tables env g out)) (hsame _ rfl)

end Sound

/-- Whatever the client writes between the accesses of one message, all of them lie in
its buffer, the payload copies have the length that was checked, and every new
entry of a table is what the payload copy brought. -/
theorem message_honest (env : CommEnv) (g : FilterTables) (present : Bool)
    (inputBufferLength : Ulong) (out : OutputBuffer) (views : Nat → View NtStatus Byte) :
    let r := (knFcCommMessage env g present inputBufferLength out).run views 0
    (∀ e ∈ r.1, e.1.Within inputBufferLength.toNat) ∧ Honest g r.1 r.2 := by
  have hnil : HeadersOnly [] := by rintro _ _ _ _ ⟨⟩
  have hsound : (knFcCommMessage env g present inputBufferLength out).Sound
      inputBufferLength.toNat (Honest g) [] := by
    unfold knFcCommMessage
    split
    · exact hnil.honest (.same g [])
    next hroom =>
    obtain ⟨-, hroom⟩ := not_or.mp hroom
    refine Program.Sound.bind (Program.sound_probeAndCopy (by omega) (by omega) (Nat.le_refl _)
      fun tail answer htail _ => ?_)
    have hheaders := hnil.append htail
    cases answer with
    | error code => exact hheaders.honest (.same g _)
    | ok hdr =>
      dsimp only
      split
      · exact hheaders.honest (.same g _)
      next hsize => exact handleType_sound out _ (by omega) hheaders
  exact hsound.run views 0

end KnFileCatcher.Comm

import KnFileCatcher.Destinations

/-! The loop that copies a captured file, and what its status tells of the copy. -/

namespace KnFileCatcher

section Calls

/-- The last error of a call that failed. -/
abbrev CallError := { e : Win32Error // e ≠ 0 }

/-- A read that succeeds gives at least one byte unless the file is at its end; `more`
is how many it gives beside that one, if there are so many. -/
inductive ReadOutcome where
  | failed (error : CallError)
  | read (more : Nat)

/-- A write that succeeds may write less than it is asked to, and leaves any last error. -/
inductive WriteOutcome where
  | failed (error : CallError)
  | wrote (most : Nat) (lastError : Win32Error)

def chunk : Nat := 1 <<< 20

def ReadOutcome.length : ReadOutcome → Nat
  | .failed _ => 0
  | .read more => min chunk (more + 1)

def readFile (outcome : ReadOutcome) (unread : List Byte) : Except CallError (List Byte) :=
  match outcome with
  | .failed error => .error error
  | .read _ => .ok (unread.take outcome.length)

def writeFile (outcome : WriteOutcome) (got : List Byte) :
    Except CallError (List Byte × Win32Error) :=
  match outcome with
  | .failed error => .error error
  | .wrote most lastError => .ok (got.take most, lastError)

theorem ReadOutcome.length_pos (more : Nat) : 0 < (ReadOutcome.read more).length := by
  simp [length, chunk]

theorem readFile_eq_ok {outcome : ReadOutcome} {unread got : List Byte}
    (h : readFile outcome unread = .ok got) :
    got = unread.take outcome.length ∧ 0 < outcome.length := by
  cases outcome with
  | failed error => cases h
  | read more => exact ⟨(Except.ok.inj h).symm, ReadOutcome.length_pos more⟩

theorem drop_readFile {outcome : ReadOutcome} {unread got : List Byte}
    (h : readFile outcome unread = .ok got) :
    unread.drop got.length = unread.drop outcome.length := by
  rw [(readFile_eq_ok h).1, List.length_take]
  rcases Nat.le_total outcome.length unread.length with hle | hle
  · rw [Nat.min_eq_left hle]
  · rw [Nat.min_eq_right hle, List.drop_of_length_le hle, List.drop_length]

theorem readFile_append {outcome : ReadOutcome} {unread got : List Byte}
    (h : readFile outcome unread = .ok got) : got ++ unread.drop got.length = unread := by
  rw [drop_readFile h, (readFile_eq_ok h).1, List.take_append_drop]

theorem readFile_eq_error {outcome : ReadOutcome} {unread : List Byte} {error : CallError}
    (h : readFile outcome unread = .error error) : outcome.length = 0 := by
  cases outcome with
  | failed error => rfl
  | read more => cases h

theorem writeFile_eq_ok {outcome : WriteOutcome} {got written : List Byte} {lastError : Win32Error}
    (h : writeFile outcome got = .ok (written, lastError)) :
    ∃ most, outcome = .wrote most lastError ∧ written = got.take most := by
  cases outcome with
  | failed error => cases h
  | wrote most error =>
    obtain ⟨rfl, rfl⟩ := Prod.mk.inj (Except.ok.inj h)
    exact ⟨most, rfl, rfl⟩

theorem writeFile_eq_error {outcome : WriteOutcome} {got : List Byte} {error : CallError}
    (h : writeFile outcome got = .error error) : outcome = .failed error := by
  cases outcome with
  | failed e => rw [Except.error.inj h]
  | wrote most lastError => cases h

end Calls

section Loop

/-- `exit` is what a return inside the loop gives; `unread` is what is left of the source. -/
structure CopyResult where
  exit : Option Win32Error
  unread : List Byte
  bytesRead : List Byte
  written : List Byte

variable (reads : Nat → ReadOutcome) (writes : Nat → WriteOutcome)

def copyLoop (turn : Nat) (unread bytesRead written : List Byte) : CopyResult :=
  match _hread : readFile (reads turn) unread with
  | .error error => ⟨some error, unread, bytesRead, written⟩
  | .ok got =>
    if _hgot : got = [] then ⟨none, unread, bytesRead, written⟩
    else
      match writeFile (writes turn) got with
      | .error error => ⟨some error, unread.drop got.length, bytesRead ++ got, written⟩
      | .ok (wrote, lastError) =>
        if wrote.length ≠ got.length then
          ⟨some lastError, unread.drop got.length, bytesRead ++ got, written ++ wrote⟩
        else
          copyLoop (turn + 1) (unread.drop got.length) (bytesRead ++ got) (written ++ wrote)
termination_by unread.length
decreasing_by
  have hpos := List.length_pos_of_ne_nil _hgot
  have hle := congrArg List.length (readFile_eq_ok _hread).1
  rw [List.length_take] at hle
  rw [List.length_drop]
  omega

/-- One turn, where its outcomes may be rewritten. -/
theorem copyLoop_turn (turn : Nat) (unread bytesRead written : List Byte) :
    copyLoop reads writes turn unread bytesRead written =
      match readFile (reads turn) unread with
      | .error error => ⟨some error, unread, bytesRead, written⟩
      | .ok got =>
        if got = [] then ⟨none, unread, bytesRead, written⟩
        else
          match writeFile (writes turn) got with
          | .error error => ⟨some error, unread.drop got.length, bytesRead ++ got, written⟩
          | .ok (wrote, lastError) =>
            if wrote.length ≠ got.length then
              ⟨some lastError, unread.drop got.length, bytesRead ++ got, written ++ wrote⟩
            else
              copyLoop reads writes (turn + 1) (unread.drop got.length) (bytesRead ++ got)
                (written ++ wrote) := by
  rw [copyLoop]
  split
  · next error hread => rw [hread]
  · next got hread => rw [hread]; rfl

/-- What the loop took from the source and what it left are the source. -/
theorem copyLoop_source (turn : Nat) (unread bytesRead written : List Byte) :
    (copyLoop reads writes turn unread bytesRead written).bytesRead ++
      (copyLoop reads writes turn unread bytesRead written).unread = bytesRead ++ unread := by
  induction turn, unread, bytesRead, written using copyLoop.induct reads writes with
  | case1 turn unread bytesRead written error hread => rw [copyLoop_turn, hread]
  | case2 turn unread bytesRead written hread => rw [copyLoop_turn, hread]; rfl
  | case3 turn unread bytesRead written got hread hgot error hwrite =>
    rw [copyLoop_turn, hread]
    simp only [hwrite, if_neg hgot]
    rw [List.append_assoc, readFile_append hread]
  | case4 turn unread bytesRead written got hread hgot wrote lastError hwrite hshort =>
    rw [copyLoop_turn, hread]
    simp only [hwrite, if_neg hgot, if_pos hshort]
    rw [List.append_assoc, readFile_append hread]
  | case5 turn unread bytesRead written got hread hgot wrote lastError hwrite hwhole ih =>
    rw [copyLoop_turn, hread]
    simp only [hwrite, if_neg hgot, if_neg hwhole]
    rw [ih, List.append_assoc, readFile_append hread]

end Loop

/-- The calls of one copy: the two that open the files, and those of the loop. -/
structure CopyCalls where
  srcError : Option CallError
  dstError : Option CallError
  source : List Byte
  reads : Nat → ReadOutcome
  writes : Nat → WriteOutcome

namespace CopyCalls

variable (c : CopyCalls)

def copy : CopyResult := copyLoop c.reads c.writes 0 c.source [] []

/-- What the calls are to the rest of `DoBackup`. -/
def env : CopyEnv where
  srcError := c.srcError.map Subtype.val
  dstError := c.dstError.map Subtype.val
  data := c.copy.written
  copyError := c.copy.exit

/-- Where the read of a turn begins, if every turn before it passed its chunk on. -/
def offset : Nat → Nat
  | 0 => 0
  | turn + 1 => offset turn + (c.reads turn).length

def chunkAt (turn : Nat) : List Byte := (c.source.drop (c.offset turn)).take (c.reads turn).length

/-- The turn reads a chunk and writes all of it. -/
def PassesOn (turn : Nat) : Prop :=
  c.chunkAt turn ≠ [] ∧
    ∃ most lastError, c.writes turn = .wrote most lastError ∧ (c.chunkAt turn).length ≤ most

/-- The write succeeds for a part of the chunk, and the last error is zero after it. -/
def SilentlyShort (turn : Nat) : Prop :=
  ∃ most, c.writes turn = .wrote most 0 ∧ most < (c.chunkAt turn).length

/-- The turn that ends the loop is not a silently short one. -/
def SpeaksUp : Prop := ∀ turn, (∀ i < turn, c.PassesOn i) → ¬ c.SilentlyShort turn

variable {c}

theorem SilentlyShort.chunk_ne_nil {turn : Nat} (h : c.SilentlyShort turn) :
    c.chunkAt turn ≠ [] := by
  obtain ⟨most, -, hlt⟩ := h
  exact List.length_pos_iff.mp (by omega)

theorem PassesOn.not_silentlyShort {turn : Nat} (h : c.PassesOn turn) :
    ¬ c.SilentlyShort turn := by
  rintro ⟨short, hshort, hlt⟩
  obtain ⟨-, most, lastError, hwrite, hle⟩ := h
  obtain ⟨rfl, -⟩ := WriteOutcome.wrote.inj (hwrite.symm.trans hshort)
  omega

theorem forall_turn_iff {P Q : Nat → Prop} (turn : Nat) :
    (∀ k, (∀ i < k, P (turn + i)) → Q (turn + k)) ↔
      Q turn ∧ (P turn → ∀ k, (∀ i < k, P (turn + 1 + i)) → Q (turn + 1 + k)) := by
  constructor
  · intro h
    refine ⟨h 0 (by omega), fun hp k hk => ?_⟩
    have hnext := h (k + 1) fun i hi => by
      cases i with
      | zero => exact hp
      | succ i =>
        have hi' := hk i (by omega)
        rwa [show turn + 1 + i = turn + (i + 1) by omega] at hi'
    rwa [show turn + (k + 1) = turn + 1 + k by omega] at hnext
  · rintro ⟨hzero, hnext⟩ k hk
    cases k with
    | zero => exact hzero
    | succ k =>
      have hrest := hnext (hk 0 (by omega)) k fun i hi => by
        rw [show turn + 1 + i = turn + (i + 1) by omega]
        exact hk (i + 1) (by omega)
      rwa [show turn + 1 + k = turn + (k + 1) by omega] at hrest

/-- From a turn on, the condition for a zero status to mean what it says. -/
theorem speaksUp_from_iff (turn : Nat) :
    (∀ k, (∀ i < k, c.PassesOn (turn + i)) → ¬ c.SilentlyShort (turn + k)) ↔
      ¬ c.SilentlyShort turn ∧
        (c.PassesOn turn →
          ∀ k, (∀ i < k, c.PassesOn (turn + 1 + i)) → ¬ c.SilentlyShort (turn + 1 + k)) :=
  forall_turn_iff (P := c.PassesOn) (Q := fun turn => ¬ c.SilentlyShort turn) turn

theorem speaksUp_from_stop {turn : Nat} (hstop : ¬ c.PassesOn turn) :
    (∀ k, (∀ i < k, c.PassesOn (turn + i)) → ¬ c.SilentlyShort (turn + k)) ↔
      ¬ c.SilentlyShort turn := by
  rw [speaksUp_from_iff]
  exact and_iff_left fun hpasses => absurd hpasses hstop

theorem speaksUp_from_pass {turn : Nat} (hpasses : c.PassesOn turn) :
    (∀ k, (∀ i < k, c.PassesOn (turn + i)) → ¬ c.SilentlyShort (turn + k)) ↔
      ∀ k, (∀ i < k, c.PassesOn (turn + 1 + i)) → ¬ c.SilentlyShort (turn + 1 + k) := by
  rw [speaksUp_from_iff, and_iff_right hpasses.not_silentlyShort, forall_prop_of_true hpasses]

/-- A turn that gets nothing, or fails to write, ends the loop and is not silent. -/
theorem speaksUp_from_quiet {turn : Nat}
    (hquiet : c.chunkAt turn = [] ∨ ∃ error, c.writes turn = .failed error) :
    ∀ k, (∀ i < k, c.PassesOn (turn + i)) → ¬ c.SilentlyShort (turn + k) := by
  rcases hquiet with hchunk | ⟨error, hfailed⟩
  · rw [speaksUp_from_stop fun hpasses => hpasses.1 hchunk]
    exact fun hshort => hshort.chunk_ne_nil hchunk
  · rw [speaksUp_from_stop fun ⟨_, _, _, hwrote, _⟩ => nomatch hwrote.symm.trans hfailed]
    rintro ⟨most, hwrote, -⟩
    cases hwrote.symm.trans hfailed

theorem silentlyShort_iff {turn most : Nat} {lastError : Win32Error}
    (hwrote : c.writes turn = .wrote most lastError) (hmost : most < (c.chunkAt turn).length) :
    c.SilentlyShort turn ↔ lastError = 0 := by
  constructor
  · rintro ⟨_, hzero, -⟩
    exact (WriteOutcome.wrote.inj (hwrote.symm.trans hzero)).2
  · rintro rfl
    exact ⟨most, hwrote, hmost⟩

theorem not_passesOn_of_short {turn most : Nat} {lastError : Win32Error}
    (hwrote : c.writes turn = .wrote most lastError) (hmost : most < (c.chunkAt turn).length) :
    ¬ c.PassesOn turn := by
  rintro ⟨-, _, _, hwhole, hle⟩
  obtain ⟨rfl, -⟩ := WriteOutcome.wrote.inj (hwrote.symm.trans hwhole)
  omega

theorem got_eq_chunkAt {turn : Nat} {unread got : List Byte}
    (hunread : unread = c.source.drop (c.offset turn))
    (hread : readFile (c.reads turn) unread = .ok got) : got = c.chunkAt turn := by
  rw [chunkAt, ← hunread, ← (readFile_eq_ok hread).1]

theorem copyLoop_zero_iff {turn : Nat} {unread bytesRead written : List Byte}
    (hunread : unread = c.source.drop (c.offset turn)) (hwritten : written = bytesRead) :
    ((copyLoop c.reads c.writes turn unread bytesRead written).exit.getD 0 = 0 →
      (copyLoop c.reads c.writes turn unread bytesRead written).unread = [] ∧
        (copyLoop c.reads c.writes turn unread bytesRead written).written =
          (copyLoop c.reads c.writes turn unread bytesRead written).bytesRead) ↔
      ∀ k, (∀ i < k, c.PassesOn (turn + i)) → ¬ c.SilentlyShort (turn + k) := by
  induction turn, unread, bytesRead, written using copyLoop.induct c.reads c.writes with
  | case1 turn unread bytesRead written error hread =>
    have hchunk : c.chunkAt turn = [] := by rw [chunkAt, readFile_eq_error hread, List.take_zero]
    rw [copyLoop_turn, hread]
    exact iff_of_true (fun hzero => absurd hzero error.2) (speaksUp_from_quiet (.inl hchunk))
  | case2 turn unread bytesRead written hread =>
    obtain ⟨hgot, hpos⟩ := readFile_eq_ok hread
    have hend : unread = [] := by
      rcases List.take_eq_nil_iff.mp hgot.symm with hzero | hnil
      · omega
      · exact hnil
    rw [copyLoop_turn, hread]
    refine iff_of_true (fun _ => ⟨hend, hwritten⟩) (speaksUp_from_quiet (.inl ?_))
    exact (got_eq_chunkAt hunread hread).symm
  | case3 turn unread bytesRead written got hread hgot error hwrite =>
    rw [copyLoop_turn, hread]
    simp only [hwrite, if_neg hgot]
    refine iff_of_true (fun hzero => absurd hzero error.2) (speaksUp_from_quiet (.inr ?_))
    exact ⟨error, writeFile_eq_error hwrite⟩
  | case4 turn unread bytesRead written got hread hgot wrote lastError hwrite hshort =>
    have hchunk := got_eq_chunkAt hunread hread
    obtain ⟨most, hwrote, rfl⟩ := writeFile_eq_ok hwrite
    rw [List.length_take] at hshort
    have hmost : most < (c.chunkAt turn).length := by
      rw [← hchunk]
      omega
    have hdiffer : written ++ got.take most ≠ bytesRead ++ got := by
      intro heq
      have hlength := congrArg List.length heq
      rw [hwritten, List.length_append, List.length_append, List.length_take] at hlength
      omega
    rw [speaksUp_from_stop (not_passesOn_of_short hwrote hmost), silentlyShort_iff hwrote hmost,
      copyLoop_turn, hread]
    simp only [hwrite, if_neg hgot, List.length_take, if_pos hshort]
    constructor
    · exact fun hfaithful hzero => hdiffer (hfaithful hzero).2
    · exact fun hloud hzero => absurd hzero hloud
  | case5 turn unread bytesRead written got hread hgot wrote lastError hwrite hwhole ih =>
    have hchunk := got_eq_chunkAt hunread hread
    obtain ⟨most, hwrote, rfl⟩ := writeFile_eq_ok hwrite
    rw [List.length_take] at hwhole
    have hpasses : c.PassesOn turn := by
      refine ⟨hchunk ▸ hgot, most, lastError, hwrote, ?_⟩
      rw [← hchunk]
      omega
    have hall : got.take most = got := List.take_of_length_le (by omega)
    have hnext : unread.drop got.length = c.source.drop (c.offset (turn + 1)) := by
      rw [drop_readFile hread, hunread, List.drop_drop, offset]
    rw [speaksUp_from_pass hpasses, copyLoop_turn, hread]
    simp only [hwrite, if_neg hgot, List.length_take, if_neg hwhole]
    exact ih hnext (by rw [hall, hwritten])

theorem copy_source (c : CopyCalls) : c.copy.bytesRead ++ c.copy.unread = c.source :=
  copyLoop_source c.reads c.writes 0 c.source [] []

end CopyCalls

variable (n : FileNames) (sessionDir : List Wchar)

/-- `DoBackup` returns zero for nothing but a whole copy just when no short write that
leaves a zero last error ends the copy. -/
theorem doBackup_zero_iff (files : SessionFiles) (srcNt : List Wchar) (requestId : Ulonglong)
    (c : CopyCalls) :
    let r := files.doBackup n sessionDir ⟨srcNt, requestId, c.env⟩
    (r.1 = 0 → c.copy.unread = [] ∧ r.2.2 (n.opens r.2.1) = some c.copy.bytesRead) ↔
      (BackupCall.Opens ⟨srcNt, requestId, c.env⟩ → c.SpeaksUp) := by
  have hspeaks := @CopyCalls.copyLoop_zero_iff c 0 c.source [] [] rfl rfl
  simp only [Nat.zero_add] at hspeaks
  have hfails {error : Win32Error} {P : Prop} (h : error ≠ 0) : error = 0 → P :=
    fun hzero => absurd hzero h
  intro r
  by_cases hsrc : srcNt = []
  · have hr : r = (errorInvalidParameter, [], files) := by
      simp only [r, SessionFiles.doBackup, hsrc, if_true]
    rw [hr]
    exact iff_of_true (hfails (show errorInvalidParameter ≠ 0 by decide))
      fun hopens => absurd hsrc hopens.1
  cases hse : c.srcError with
  | some error =>
    have hr : r = (error.1, [], files) := by
      simp only [r, SessionFiles.doBackup, if_neg hsrc, CopyCalls.env, hse, Option.map_some]
    rw [hr]
    refine iff_of_true (hfails error.2) fun hopens => ?_
    have hnone := hopens.2.1
    simp [CopyCalls.env, hse] at hnone
  | none =>
    cases hde : c.dstError with
    | some error =>
      have hr : r.1 = error.1 := by
        simp only [r, SessionFiles.doBackup, if_neg hsrc, CopyCalls.env, hse, hde, Option.map_some,
          Option.map_none]
      rw [hr]
      refine iff_of_true (hfails error.2) fun hopens => ?_
      have hnone := hopens.2.2
      simp [CopyCalls.env, hde] at hnone
    | none =>
      have hopens : BackupCall.Opens ⟨srcNt, requestId, c.env⟩ := by
        simp [BackupCall.Opens, hsrc, CopyCalls.env, hse, hde]
      have hr : r.1 = c.copy.exit.getD 0 ∧ r.2.2 (n.opens r.2.1) = some c.copy.written := by
        simp [r, SessionFiles.doBackup, hsrc, CopyCalls.env, hse, hde]
      rw [hr.1, hr.2, Option.some.injEq]
      exact hspeaks.trans ⟨fun h _ => h, fun h => h hopens⟩

/-- One byte, of which nothing is written. -/
def silentCalls : CopyCalls := ⟨none, none, [1], fun _ => .read 0, fun _ => .wrote 0 0⟩

theorem doBackup_zero_short :
    ¬ ∀ (n : FileNames) (sessionDir : List Wchar) (files : SessionFiles) (srcNt : List Wchar)
      (requestId : Ulonglong) (c : CopyCalls),
      let r := files.doBackup n sessionDir ⟨srcNt, requestId, c.env⟩
      r.1 = 0 → c.copy.unread = [] ∧ r.2.2 (n.opens r.2.1) = some c.copy.bytesRead := by
  intro hall
  have hcopy : silentCalls.copy = ⟨some 0, [], [1], []⟩ := by
    rw [CopyCalls.copy, copyLoop_turn]
    rfl
  have henv : silentCalls.env = ⟨none, none, [], some 0⟩ := by
    rw [CopyCalls.env, hcopy]
    rfl
  have hzero := hall asciiNames [] (fun _ => none) [backslash] 1 silentCalls
  rw [henv, hcopy] at hzero
  simp [SessionFiles.doBackup] at hzero

end KnFileCatcher

import KnFileCatcher.Exclude

/-! The exclude matchers with every read of the path checked. A read outside of the
path, at an odd offset, an offset that wraps and a scan without end are faults. -/

namespace KnFileCatcher

open FoldedText

inductive ReadFault where
  | odd
  | outside
  | wrapped
  | endless
deriving DecidableEq

/-- The units from byte offset `i` on, `n` bytes long. -/
def readWindow (hay : UnicodeString) (i n : Nat) : Except ReadFault (List Wchar) :=
  if i % 2 ≠ 0 ∨ n % 2 ≠ 0 then .error .odd
  else if hay.length < i + n then .error .outside
  else .ok (window hay.buffer (i / 2) (n / 2))

theorem readWindow_eq {hay needle : UnicodeString} {k : Nat}
    (h : k + needle.buffer.length ≤ hay.buffer.length) :
    readWindow hay (2 * k) needle.length = .ok (window hay.buffer k needle.buffer.length) := by
  have heven : ¬ (2 * k % 2 ≠ 0 ∨ needle.length % 2 ≠ 0) := by
    simp only [UnicodeString.length]
    omega
  have hinside : ¬ hay.length < 2 * k + needle.length := by
    simp only [UnicodeString.length]
    omega
  have hk : 2 * k / 2 = k := by omega
  have hn : needle.length / 2 = needle.buffer.length := by
    simp only [UnicodeString.length]
    omega
  rw [readWindow, if_neg heven, if_neg hinside, hk, hn]

section Checked

variable (up : Wchar → Wchar)

def checkedSuffixCi (hay needle : UnicodeString) : Except ReadFault Bool :=
  if needle.length = 0 then .ok true
  else if hay.length < needle.length then .ok false
  else do
    let tail ← readWindow hay (hay.length - needle.length) needle.length
    return rtlEqualUnicodeString up tail needle.buffer

def checkedScan (hay needle : UnicodeString) (span : Nat) : Nat → Nat → Except ReadFault Bool
  | 0, _ => .error .endless
  | fuel + 1, i =>
    if i ≤ span then do
      let w ← readWindow hay i needle.length
      if rtlEqualUnicodeString up w needle.buffer then return true
      else if 65536 ≤ i + 2 then .error .wrapped
      else checkedScan hay needle span fuel (i + 2)
    else .ok false

/-- The fuel allows one pass more than there are even offsets. -/
def checkedSubstringCi (hay needle : UnicodeString) : Except ReadFault Bool :=
  if needle.length = 0 then .ok true
  else if hay.length < needle.length then .ok false
  else checkedScan up hay needle (hay.length - needle.length) 32769 0

def checkedHits (path p : UnicodeString) : Except ReadFault Bool :=
  if p.buffer.head? = some dot then checkedSuffixCi up path p else checkedSubstringCi up path p

/-- The loop over the patterns, which ends at the first hit. -/
def checkedAny (path : UnicodeString) : List UnicodeString → Except ReadFault Bool
  | [] => .ok false
  | p :: patterns => do
    let hit ← checkedHits up path p
    if hit then return true else checkedAny path patterns

def checkedExcludeMatches (g : KnfcExcludeCtx) (path : UnicodeString) :
    Except ReadFault (Bool × KnfcExcludeCtx) :=
  if path.length = 0 then .ok (false, g)
  else do
    let matched ← checkedAny up path g.patterns
    return if matched then (true, { g with matchedCount := g.matchedCount + 1 }) else (false, g)

variable {up}

/-- With `left` windows to go the scan does not fault. The offset stays even, and the
last window ends where the path does. -/
theorem checkedScan_from {hay needle : UnicodeString} (hne : needle.buffer ≠ [])
    (hle : needle.buffer.length ≤ hay.buffer.length) (left k fuel : Nat)
    (hk : k + left = hay.buffer.length - needle.buffer.length + 1) (hfuel : left < fuel) :
    ∃ found, checkedScan up hay needle (hay.length - needle.length) fuel (2 * k) = .ok found ∧
      knFcSubstringScan up hay needle (hay.length - needle.length) fuel (2 * k) = some found := by
  have hpos : 0 < needle.buffer.length := List.length_pos_of_ne_nil hne
  have hfits := hay.fits
  induction left generalizing k fuel with
  | zero =>
    obtain ⟨fuel, rfl⟩ : ∃ n, fuel = n + 1 := ⟨fuel - 1, by omega⟩
    have hout : ¬ 2 * k ≤ hay.length - needle.length := by
      simp only [UnicodeString.length]
      omega
    exact ⟨false, by rw [checkedScan, if_neg hout], by rw [knFcSubstringScan, if_neg hout]⟩
  | succ left ih =>
    obtain ⟨fuel, rfl⟩ : ∃ n, fuel = n + 1 := ⟨fuel - 1, by omega⟩
    have hin : 2 * k ≤ hay.length - needle.length := by
      simp only [UnicodeString.length]
      omega
    have hhalf : 2 * k / 2 = k := by omega
    have hread : readWindow hay (2 * k) needle.length = _ := readWindow_eq (by omega)
    have hroom : ¬ 65536 ≤ 2 * k + 2 := by omega
    have hnext : (2 * k + 2) % 65536 = 2 * (k + 1) := by omega
    rw [checkedScan, knFcSubstringScan, if_pos hin, if_pos hin, hhalf, hread]
    simp only [bind, Except.bind, if_neg hroom, hnext]
    cases rtlEqualUnicodeString up (window hay.buffer k needle.buffer.length) needle.buffer with
    | true => exact ⟨true, rfl, rfl⟩
    | false => exact ih (k + 1) fuel (by omega) (by omega)

theorem checkedSubstringCi_eq (hay needle : UnicodeString) :
    checkedSubstringCi up hay needle = .ok (knFcSubstringCi up hay needle) := by
  unfold checkedSubstringCi knFcSubstringCi
  by_cases hz : needle.length = 0
  · rw [if_pos hz, if_pos hz]
  · have hne := UnicodeString.length_eq_zero_iff.not.mp hz
    by_cases hlt : hay.length < needle.length
    · rw [if_neg hz, if_neg hz, if_pos hlt, if_pos hlt]
    · have hfits := hay.fits
      have hle : needle.buffer.length ≤ hay.buffer.length := by
        simp only [UnicodeString.length] at hlt
        omega
      obtain ⟨found, hchecked, hscan⟩ := @checkedScan_from up _ _ hne hle
        (hay.buffer.length - needle.buffer.length + 1) 0 32769 (by omega) (by omega)
      rw [Nat.mul_zero] at hchecked hscan
      rw [if_neg hz, if_neg hz, if_neg hlt, if_neg hlt, hchecked, hscan]
      rfl

theorem checkedSuffixCi_eq (hay needle : UnicodeString) :
    checkedSuffixCi up hay needle = .ok (knFcSuffixCi up hay needle) := by
  unfold checkedSuffixCi knFcSuffixCi
  by_cases hz : needle.length = 0
  · rw [if_pos hz, if_pos hz]
  · by_cases hlt : hay.length < needle.length
    · rw [if_neg hz, if_neg hz, if_pos hlt, if_pos hlt]
    · have hle : needle.buffer.length ≤ hay.buffer.length := by
        simp only [UnicodeString.length] at hlt
        omega
      have hoff : hay.length - needle.length =
          2 * (hay.buffer.length - needle.buffer.length) := by
        simp only [UnicodeString.length]
        omega
      have hhalf : 2 * (hay.buffer.length - needle.buffer.length) / 2 =
          hay.buffer.length - needle.buffer.length := by omega
      rw [if_neg hz, if_neg hz, if_neg hlt, if_neg hlt, hoff, readWindow_eq (by omega), hhalf]
      rfl

theorem checkedHits_eq (path p : UnicodeString) :
    checkedHits up path p = .ok (patternHits up path p) := by
  unfold checkedHits patternHits
  split
  · exact checkedSuffixCi_eq path p
  · exact checkedSubstringCi_eq path p

theorem checkedAny_eq (path : UnicodeString) (patterns : List UnicodeString) :
    checkedAny up path patterns = .ok (patterns.any (patternHits up path)) := by
  induction patterns with
  | nil => rfl
  | cons p patterns ih =>
    rw [checkedAny, checkedHits_eq, List.any_cons]
    cases patternHits up path p with
    | true => rfl
    | false => exact ih

theorem checkedExcludeMatches_eq (g : KnfcExcludeCtx) (path : UnicodeString) :
    checkedExcludeMatches up g path = .ok (knFcExcludeMatches up g path) := by
  unfold checkedExcludeMatches knFcExcludeMatches
  by_cases hz : path.length = 0
  · rw [if_pos hz, if_pos hz]
  · rw [if_neg hz, if_neg hz, checkedAny_eq]
    cases g.patterns.any (patternHits up path) <;> rfl

end Checked

section Meaning

variable (up : Wchar → Wchar)

/-- An extension at the end of the path, or any other pattern somewhere in it. -/
def Excludes (p path : UnicodeString) : Prop :=
  if p.buffer.head? = some dot then SuffixOf up p.buffer path.buffer
  else InfixOf up p.buffer path.buffer

variable {up}

theorem patternHits_iff_excludes {path p : UnicodeString} :
    patternHits up path p = true ↔ Excludes up p path := by
  unfold patternHits Excludes
  split
  · exact knFcSuffixCi_iff
  · exact knFcSubstringCi_iff

theorem Excludes.length_ne_zero {p path : UnicodeString} (h : Excludes up p path)
    (hp : p.buffer ≠ []) : path.length ≠ 0 := by
  have hle : p.buffer.length ≤ path.buffer.length := by
    unfold Excludes at h
    split at h
    · exact h.length_le
    · exact h.length_le
  have hpos := List.length_pos_of_ne_nil hp
  simp only [UnicodeString.length]
  omega

theorem knFcExcludeMatches_iff (g : KnfcExcludeCtx) (path : UnicodeString) :
    (knFcExcludeMatches up g path).1 = true ↔ ∃ p ∈ g.patterns, Excludes up p path := by
  by_cases hz : path.length = 0
  · rw [knFcExcludeMatches, if_pos hz]
    refine iff_of_false Bool.false_ne_true ?_
    rintro ⟨p, hp, h⟩
    exact h.length_ne_zero (g.sized p hp).1 hz
  · rw [knFcExcludeMatches_fst hz, List.any_eq_true]
    exact exists_congr fun p => and_congr_right fun _ => patternHits_iff_excludes

theorem knFcExcludeMatches_counts (g : KnfcExcludeCtx) (path : UnicodeString) :
    (knFcExcludeMatches up g path).2.patterns = g.patterns ∧
      (knFcExcludeMatches up g path).2.matchedCount =
        g.matchedCount + if (knFcExcludeMatches up g path).1 then 1 else 0 := by
  unfold knFcExcludeMatches
  split
  · exact ⟨rfl, rfl⟩
  · split
    · exact ⟨rfl, rfl⟩
    · exact ⟨rfl, rfl⟩

/-- Every match ends without a fault, answers whether a pattern excludes the path, and
counts the paths it excludes. -/
theorem exclude_match_reads_inside (up : Wchar → Wchar) (g : KnfcExcludeCtx)
    (path : UnicodeString) :
    ∃ matched g', checkedExcludeMatches up g path = .ok (matched, g') ∧
      knFcExcludeMatches up g path = (matched, g') ∧
      (matched = true ↔ ∃ p ∈ g.patterns, Excludes up p path) ∧
      g'.patterns = g.patterns ∧ g'.matchedCount = g.matchedCount + if matched then 1 else 0 := by
  obtain ⟨hpatterns, hcount⟩ := @knFcExcludeMatches_counts up g path
  exact ⟨_, _, checkedExcludeMatches_eq g path, rfl, knFcExcludeMatches_iff g path, hpatterns,
    hcount⟩

end Meaning

end KnFileCatcher

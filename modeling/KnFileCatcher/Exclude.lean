import KnFileCatcher.FoldedText
import KnFileCatcher.Windows

/-! The exclude pattern table of the driver and its two matchers. -/

namespace KnFileCatcher

open FoldedText

def knfcMaxExcludePatterns : Nat := 64
def knfcMaxExcludeChars : Nat := 128

structure KnfcExcludeCtx where
  patterns : List UnicodeString
  matchedCount : Nat
  room : patterns.length ≤ knfcMaxExcludePatterns
  sized : ∀ p ∈ patterns, p.buffer ≠ [] ∧ p.buffer.length ≤ knfcMaxExcludeChars

def knFcExcludeInitialize : KnfcExcludeCtx := ⟨[], 0, by decide, by simp⟩

def KnfcExcludeCtx.append (g : KnfcExcludeCtx) (p : UnicodeString)
    (hroom : ¬ knfcMaxExcludePatterns ≤ g.patterns.length)
    (hne : p.length ≠ 0) (hlen : ¬ knfcMaxExcludeChars * 2 < p.length) : KnfcExcludeCtx where
  patterns := g.patterns ++ [p]
  matchedCount := g.matchedCount
  room := UnicodeString.length_concat_le hroom p
  sized := UnicodeString.sized_concat g.sized hne hlen

/-- `alloc` is the outcome of the pool allocation of the copy. -/
def knFcExcludeAdd (alloc : Bool) (g : KnfcExcludeCtx) (pattern : UnicodeString) :
    NtStatus × KnfcExcludeCtx :=
  if hne : pattern.length = 0 then (statusInvalidParameter, g)
  else if hlen : knfcMaxExcludeChars * 2 < pattern.length then (statusNameTooLong, g)
  else if !alloc then (statusInsufficientResources, g)
  else if hroom : knfcMaxExcludePatterns ≤ g.patterns.length then (statusQuotaExceeded, g)
  else (statusSuccess, g.append pattern hroom hne hlen)

theorem knFcExcludeAdd_accepted {g : KnfcExcludeCtx} {p : UnicodeString}
    (hroom : ¬ knfcMaxExcludePatterns ≤ g.patterns.length) (hne : p.length ≠ 0)
    (hlen : ¬ knfcMaxExcludeChars * 2 < p.length) :
    knFcExcludeAdd true g p = (statusSuccess, g.append p hroom hne hlen) := by
  rw [knFcExcludeAdd, dif_neg hne, dif_neg hlen, if_neg (by decide), dif_neg hroom]

theorem knFcExcludeAdd_patterns (alloc : Bool) (g : KnfcExcludeCtx) (pattern : UnicodeString) :
    (knFcExcludeAdd alloc g pattern).2.patterns = g.patterns ∨
      (knFcExcludeAdd alloc g pattern).2.patterns = g.patterns ++ [pattern] := by
  unfold knFcExcludeAdd
  split
  · exact Or.inl rfl
  · split
    · exact Or.inl rfl
    · split
      · exact Or.inl rfl
      · split
        · exact Or.inl rfl
        · exact Or.inr rfl

def knFcExcludeClear (g : KnfcExcludeCtx) : KnfcExcludeCtx :=
  { g with patterns := [], room := by decide, sized := by simp }

section Matching

variable (up : Wchar → Wchar)

def knFcSuffixCi (hay needle : UnicodeString) : Bool :=
  if needle.length = 0 then true
  else if hay.length < needle.length then false
  else rtlEqualUnicodeString up
    (window hay.buffer ((hay.length - needle.length) / 2) needle.buffer.length) needle.buffer

/-- The window loop. `i` is the USHORT byte offset, so its increment wraps;
`none` is a scan that has not ended when the fuel is spent. -/
def knFcSubstringScan (hay needle : UnicodeString) (span : Nat) : Nat → Nat → Option Bool
  | 0, _ => none
  | fuel + 1, i =>
    if i ≤ span then
      if rtlEqualUnicodeString up (window hay.buffer (i / 2) needle.buffer.length) needle.buffer
      then some true
      else knFcSubstringScan hay needle span fuel ((i + 2) % 65536)
    else some false

/-- The fuel covers every even offset once, and `knFcSubstringScan_eq` shows
that the scan ends within it: the default is never read. -/
def knFcSubstringCi (hay needle : UnicodeString) : Bool :=
  if needle.length = 0 then true
  else if hay.length < needle.length then false
  else (knFcSubstringScan up hay needle (hay.length - needle.length) 32769 0).getD false

def patternHits (path p : UnicodeString) : Bool :=
  if p.buffer.head? = some dot then knFcSuffixCi up path p else knFcSubstringCi up path p

def knFcExcludeMatches (g : KnfcExcludeCtx) (path : UnicodeString) : Bool × KnfcExcludeCtx :=
  if path.length = 0 then (false, g)
  else if g.patterns.any (patternHits up path) then
    (true, { g with matchedCount := g.matchedCount + 1 })
  else (false, g)

variable {up}

theorem rtlEqualUnicodeString_iff {a b : List Wchar} :
    rtlEqualUnicodeString up a b = true ↔ a.map up = b.map up := by
  simp [rtlEqualUnicodeString]

/-- From window `k` on the scan answers whether a later window is equal. The
induction is on the windows that are left. -/
theorem knFcSubstringScan_from {hay needle : UnicodeString} (hne : needle.buffer ≠ [])
    (hle : needle.buffer.length ≤ hay.buffer.length) (left k fuel : Nat)
    (hk : k + left = hay.buffer.length - needle.buffer.length + 1) (hfuel : left < fuel) :
    ∃ found, knFcSubstringScan up hay needle (hay.length - needle.length) fuel (2 * k) =
        some found ∧
      (found = true ↔ ∃ j, k ≤ j ∧ j + needle.buffer.length ≤ hay.buffer.length ∧
        (window hay.buffer j needle.buffer.length).map up = needle.buffer.map up) := by
  have hpos : 0 < needle.buffer.length := List.length_pos_of_ne_nil hne
  have hfits := hay.fits
  induction left generalizing k fuel with
  | zero =>
    obtain ⟨fuel, rfl⟩ : ∃ n, fuel = n + 1 := ⟨fuel - 1, by omega⟩
    have hout : ¬ 2 * k ≤ hay.length - needle.length := by
      simp only [UnicodeString.length]
      omega
    refine ⟨false, by rw [knFcSubstringScan, if_neg hout], ?_⟩
    simp only [Bool.false_eq_true, false_iff]
    rintro ⟨j, hj, hb, -⟩
    omega
  | succ left ih =>
    obtain ⟨fuel, rfl⟩ : ∃ n, fuel = n + 1 := ⟨fuel - 1, by omega⟩
    have hin : 2 * k ≤ hay.length - needle.length := by
      simp only [UnicodeString.length]
      omega
    have hhalf : 2 * k / 2 = k := by omega
    rw [knFcSubstringScan, if_pos hin, hhalf]
    by_cases hw : (window hay.buffer k needle.buffer.length).map up = needle.buffer.map up
    · refine ⟨true, by rw [if_pos (rtlEqualUnicodeString_iff.mpr hw)], ?_⟩
      simpa using ⟨k, Nat.le_refl k, by omega, hw⟩
    -- no wrap: the next window begins within the text
    · have hnext : (2 * k + 2) % 65536 = 2 * (k + 1) := by omega
      obtain ⟨found, hscan, hfound⟩ := ih (k + 1) fuel (by omega) (by omega)
      refine ⟨found, ?_, ?_⟩
      · rw [if_neg (rtlEqualUnicodeString_iff.not.mpr hw), hnext, hscan]
      · rw [hfound]
        constructor
        · rintro ⟨j, hj, hb, he⟩
          exact ⟨j, by omega, hb, he⟩
        · rintro ⟨j, hj, hb, he⟩
          have hkj : k ≠ j := by rintro rfl; exact hw he
          exact ⟨j, by omega, hb, he⟩

theorem knFcSubstringScan_eq {hay needle : UnicodeString} (hne : needle.buffer ≠ [])
    (hle : needle.buffer.length ≤ hay.buffer.length) :
    knFcSubstringScan up hay needle (hay.length - needle.length) 32769 0 =
      some (decide (InfixOf up needle.buffer hay.buffer)) := by
  have hfits := hay.fits
  have hpos : 0 < needle.buffer.length := List.length_pos_of_ne_nil hne
  obtain ⟨found, hscan, hfound⟩ := @knFcSubstringScan_from up _ _ hne hle
    (hay.buffer.length - needle.buffer.length + 1) 0 32769 (by omega) (by omega)
  simp only [Nat.zero_le, true_and, ← infixOf_iff_window] at hfound
  simp only [Nat.mul_zero] at hscan
  rw [hscan, Option.some.injEq, Bool.eq_iff_iff, decide_eq_true_iff]
  exact hfound

theorem knFcSubstringCi_iff {hay needle : UnicodeString} :
    knFcSubstringCi up hay needle = true ↔ InfixOf up needle.buffer hay.buffer := by
  unfold knFcSubstringCi
  by_cases hz : needle.length = 0
  · have hb := UnicodeString.length_eq_zero_iff.mp hz
    simp [hz, hb, InfixOf]
  · have hb := UnicodeString.length_eq_zero_iff.not.mp hz
    by_cases hlt : hay.length < needle.length
    · rw [if_neg hz, if_pos hlt]
      simp only [Bool.false_eq_true, false_iff]
      intro h
      have hle := h.length_le
      simp only [UnicodeString.length] at hlt
      omega
    · have hle : needle.buffer.length ≤ hay.buffer.length := by
        simp only [UnicodeString.length] at hlt
        omega
      rw [if_neg hz, if_neg hlt, knFcSubstringScan_eq hb hle]
      simp

theorem knFcSuffixCi_iff {hay needle : UnicodeString} :
    knFcSuffixCi up hay needle = true ↔ SuffixOf up needle.buffer hay.buffer := by
  unfold knFcSuffixCi
  by_cases hz : needle.length = 0
  · have hb := UnicodeString.length_eq_zero_iff.mp hz
    simp [hz, hb, SuffixOf]
  · by_cases hlt : hay.length < needle.length
    · rw [if_neg hz, if_pos hlt]
      simp only [Bool.false_eq_true, false_iff]
      intro h
      have hle := h.length_le
      simp only [UnicodeString.length] at hlt
      omega
    · have hle : needle.buffer.length ≤ hay.buffer.length := by
        simp only [UnicodeString.length] at hlt
        omega
      have hoff : (hay.length - needle.length) / 2 =
          hay.buffer.length - needle.buffer.length := by
        simp only [UnicodeString.length]
        omega
      rw [if_neg hz, if_neg hlt, hoff, rtlEqualUnicodeString_iff, suffixOf_iff_window hle]

theorem knFcExcludeMatches_fst {g : KnfcExcludeCtx} {path : UnicodeString}
    (hne : path.length ≠ 0) :
    (knFcExcludeMatches up g path).1 = g.patterns.any (patternHits up path) := by
  unfold knFcExcludeMatches
  rw [if_neg hne]
  split <;> simp_all

end Matching

end KnFileCatcher

import KnFileCatcher.Exclude

/-! The excludes that the client registers for its own files, and the paths that
they suppress. -/

namespace KnFileCatcher

open FoldedText

def text (s : String) : List Wchar := s.toList.map wchar

def colon : Wchar := wchar ':'

/-- The part of `knFcHandleAddExclude` after the request has been read. -/
def knFcHandleAddExclude (g : KnfcExcludeCtx) (pattern : List Wchar) : NtStatus × KnfcExcludeCtx :=
  if h : pattern = [] ∨ knfcMaxExcludeChars * 2 < 2 * pattern.length then
    (statusInvalidParameter, g)
  else
    knFcExcludeAdd true g ⟨pattern, by simp only [knfcMaxExcludeChars] at h; omega⟩

/-- `DriverClient.AddExclude`: whether the pattern was accepted. -/
def addExclude (g : KnfcExcludeCtx) (pattern : List Wchar) : Bool × KnfcExcludeCtx :=
  if pattern = [] then (false, g)
  else
    let r := knFcHandleAddExclude g pattern
    (ntSuccess r.1, r.2)

/-- How the current culture answers `EndsWith("\\")`. It finds a backslash that is the last
unit, and may find one behind which only units without weight stand. -/
structure CompareInfo where
  isSuffix : List Wchar → Bool
  isSuffix_last : ∀ s, s.getLast? = some backslash → isSuffix s = true

/-- The answer for every text when units are compared by their numbers. -/
def CompareInfo.ordinal : CompareInfo where
  isSuffix s := decide (s.getLast? = some backslash)
  isSuffix_last _ h := decide_eq_true h

def dosToNtSubstring (ci : CompareInfo) (dosPath : List Wchar) : List Wchar :=
  if dosPath = [] ∨ dosPath.length < 2 ∨ dosPath[1]? ≠ some colon then []
  else
    let tail := dosPath.drop 2
    if ci.isSuffix tail then tail else tail ++ [backslash]

def manifestPattern : List Wchar := text "\\manifest.jsonl"

def registerSelfExcludes (ci : CompareInfo) (backupRoot : List Wchar) (g : KnfcExcludeCtx) :
    KnfcExcludeCtx :=
  let g := (addExclude g manifestPattern).2
  let nt := dosToNtSubstring ci backupRoot
  if nt ≠ [] then (addExclude g nt).2 else g

/-- A drive letter and a path from the root of the drive. -/
def DriveRoot (dosPath : List Wchar) : Prop :=
  ∃ drive rest, dosPath = drive :: colon :: backslash :: rest

section Tail

variable (ci : CompareInfo) {root : List Wchar}

theorem dosToNtSubstring_drive (drive : Wchar) (rest : List Wchar) :
    dosToNtSubstring ci (drive :: colon :: backslash :: rest) =
      if ci.isSuffix (backslash :: rest) then backslash :: rest
      else backslash :: rest ++ [backslash] := by
  simp [dosToNtSubstring]

theorem DriveRoot.head?_dosToNtSubstring (h : DriveRoot root) :
    (dosToNtSubstring ci root).head? = some backslash := by
  obtain ⟨drive, rest, rfl⟩ := h
  rw [dosToNtSubstring_drive]
  split <;> rfl

theorem DriveRoot.dosToNtSubstring_ne_nil (h : DriveRoot root) :
    dosToNtSubstring ci root ≠ [] := by
  intro hnil
  have hhead := h.head?_dosToNtSubstring ci
  rw [hnil] at hhead
  cases hhead

def withoutSeparator (path : List Wchar) : List Wchar :=
  if path.getLast? = some backslash then path.dropLast else path

theorem withoutSeparator_append (path : List Wchar) :
    withoutSeparator path ++ [backslash] =
      if path.getLast? = some backslash then path else path ++ [backslash] := by
  unfold withoutSeparator
  split
  · next h => exact List.dropLast_append_getLast? backslash h
  · rfl

/-- The guard is the directory of the root, and its last separator may be missing. -/
theorem DriveRoot.dosToNtSubstring_prefix (h : DriveRoot root) :
    dosToNtSubstring ci root <+: withoutSeparator (root.drop 2) ++ [backslash] := by
  obtain ⟨drive, rest, rfl⟩ := h
  rw [dosToNtSubstring_drive, withoutSeparator_append]
  by_cases hlast : (backslash :: rest).getLast? = some backslash
  · rw [if_pos (ci.isSuffix_last _ hlast)]
    exact (if_pos hlast).symm ▸ List.prefix_rfl
  · rw [show (drive :: colon :: backslash :: rest).drop 2 = backslash :: rest from rfl,
      if_neg hlast]
    split
    · exact List.prefix_append _ _
    · exact List.prefix_rfl

end Tail

section Suppressed

variable {up : Wchar → Wchar} {ci : CompareInfo}

theorem patternHits_of_head_ne (up : Wchar → Wchar) (path : UnicodeString) {p : UnicodeString}
    (h : p.buffer.head? ≠ some dot) :
    patternHits up path p = true ↔ InfixOf up p.buffer path.buffer := by
  rw [patternHits, if_neg h, knFcSubstringCi_iff]

def someRoot : List Wchar := text "C:\\Backup"

def someVolume : List Wchar := text "\\Device\\HarddiskVolume3"

end Suppressed

end KnFileCatcher

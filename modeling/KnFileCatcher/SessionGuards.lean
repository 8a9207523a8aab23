import KnFileCatcher.Session

/-! Whether an open session can capture its own files. -/

namespace KnFileCatcher

open FoldedText Runs

/-- The kernel's name of a file: the name of the drive's volume, and the path on it.
`device` names the volumes, and `other` resolves every other kind of path. -/
def ntPath (device : Wchar → List Wchar) (other : List Wchar → List Wchar) : List Wchar → List Wchar
  | drive :: c :: b :: rest =>
    if c = colon ∧ b = backslash then device drive ++ b :: rest else other (drive :: c :: b :: rest)
  | path => other path

section Patterns

theorem addExclude_cases (g : KnfcExcludeCtx) (pattern : List Wchar) :
    (addExclude g pattern).2 = g ∨
      ∃ p, p.buffer = pattern ∧ (addExclude g pattern).2.patterns = g.patterns ++ [p] := by
  unfold addExclude knFcHandleAddExclude knFcExcludeAdd
  dsimp only
  repeat' split
  all_goals first
    | exact Or.inl rfl
    | exact Or.inr ⟨_, rfl, rfl⟩

theorem addExclude_accepted {g : KnfcExcludeCtx} {pattern : List Wchar} (hne : pattern ≠ [])
    (hlen : pattern.length ≤ knfcMaxExcludeChars)
    (hroom : g.patterns.length < knfcMaxExcludePatterns) :
    ∃ p, p.buffer = pattern ∧ (addExclude g pattern).2.patterns = g.patterns ++ [p] := by
  have hpos := List.length_pos_of_ne_nil hne
  have hread : ¬ (pattern = [] ∨ knfcMaxExcludeChars * 2 < 2 * pattern.length) := by
    simp only [hne, false_or]
    omega
  have hfits : 2 * pattern.length < 65536 := by
    simp only [knfcMaxExcludeChars] at hlen
    omega
  have hadd := knFcExcludeAdd_accepted (g := g) (p := ⟨pattern, hfits⟩) (by omega)
    (by simp only [UnicodeString.length]; omega) (by simp only [UnicodeString.length]; omega)
  exact ⟨⟨pattern, hfits⟩, rfl,
    by simp only [addExclude, if_neg hne, knFcHandleAddExclude, dif_neg hread, hadd]; rfl⟩

theorem addExclude_subset (g : KnfcExcludeCtx) (pattern : List Wchar) :
    g.patterns ⊆ (addExclude g pattern).2.patterns := by
  rcases addExclude_cases g pattern with h | ⟨p, -, h⟩
  · rw [h]
    exact List.Subset.refl _
  · rw [h]
    exact List.subset_append_left _ _

theorem addExclude_length_le (g : KnfcExcludeCtx) (pattern : List Wchar) :
    (addExclude g pattern).2.patterns.length ≤ g.patterns.length + 1 := by
  rcases addExclude_cases g pattern with h | ⟨p, -, h⟩
  · rw [h]
    omega
  · simp [h]

theorem foldl_addExclude_subset (ps : List (List Wchar)) (g : KnfcExcludeCtx) :
    g.patterns ⊆ (ps.foldl (fun g p => (addExclude g p).2) g).patterns := by
  induction ps generalizing g with
  | nil => exact List.Subset.refl _
  | cons p ps ih => exact List.Subset.trans (addExclude_subset g p) (ih _)

end Patterns

section Guard

variable {ci : CompareInfo}

/-- The root is a path on a drive, its directory ends where the session's begins,
and its guard is short enough for the driver. -/
structure GuardFits (ci : CompareInfo) (root : List Wchar) : Prop where
  onDrive : DriveRoot root
  noSlash : root.getLast? ≠ some slash
  noColon : root.getLast? ≠ some colon
  short : (dosToNtSubstring ci root).length ≤ knfcMaxExcludeChars

def HasGuard (ci : CompareInfo) (root : List Wchar) (g : KnfcExcludeCtx) : Prop :=
  ∃ p ∈ g.patterns, p.buffer = dosToNtSubstring ci root

theorem HasGuard.mono {root : List Wchar} {g g' : KnfcExcludeCtx} (h : HasGuard ci root g)
    (hsub : g.patterns ⊆ g'.patterns) : HasGuard ci root g' := by
  obtain ⟨p, hp, hbuffer⟩ := h
  exact ⟨p, hsub hp, hbuffer⟩

theorem GuardFits.registered {root : List Wchar} (h : GuardFits ci root) {g : KnfcExcludeCtx}
    (hroom : g.patterns.length + 2 ≤ knfcMaxExcludePatterns) :
    HasGuard ci root (registerSelfExcludes ci root g) := by
  have hne := h.onDrive.dosToNtSubstring_ne_nil ci
  have hlen := addExclude_length_le g manifestPattern
  obtain ⟨p, hp, heq⟩ := addExclude_accepted (g := (addExclude g manifestPattern).2) hne h.short
    (by omega)
  refine ⟨p, ?_, hp⟩
  simp only [registerSelfExcludes, if_pos hne, heq]
  exact List.mem_append_right _ List.mem_cons_self

theorem HasGuard.matches {up : Wchar → Wchar} {root : List Wchar} {g : KnfcExcludeCtx}
    (h : HasGuard ci root g) (hroot : DriveRoot root) {path : UnicodeString}
    (hin : InfixOf up (dosToNtSubstring ci root) path.buffer) :
    (knFcExcludeMatches up g path).1 = true := by
  obtain ⟨p, hp, hbuffer⟩ := h
  have hpos := List.length_pos_of_ne_nil (hroot.dosToNtSubstring_ne_nil ci)
  have hne : path.length ≠ 0 := by
    have hle := hin.length_le
    simp only [UnicodeString.length]
    omega
  have hhead : p.buffer.head? ≠ some dot := by
    rw [hbuffer, hroot.head?_dosToNtSubstring]
    decide
  rw [knFcExcludeMatches_fst hne]
  refine List.any_eq_true.mpr ⟨p, hp, (patternHits_of_head_ne up path hhead).mpr ?_⟩
  rwa [hbuffer]

theorem pathCombine_extends (path1 : List Wchar) {path2 : List Wchar}
    (h : isPathRooted path2 = false) : ∃ more, pathCombine path1 path2 = path1 ++ more := by
  unfold pathCombine
  split
  · next h1 => exact ⟨path2, by rw [h1, List.nil_append]⟩
  · split
    · exact ⟨[], (List.append_nil path1).symm⟩
    · rw [if_neg (by simp [h])]
      split
      · exact ⟨path2, rfl⟩
      · exact ⟨[backslash] ++ path2, List.append_assoc _ _ _⟩

/-- The guard stands right behind the drive in the path of the session's directory. -/
theorem GuardFits.sessionDir {root : List Wchar} (h : GuardFits ci root) (stamp : List Wchar) :
    ∃ drive more, pathCombine root (text "session_" ++ stamp) =
        drive :: colon :: dosToNtSubstring ci root ++ more := by
  obtain ⟨name, hdirectory⟩ := h.onDrive.dosToNtSubstring_prefix ci
  obtain ⟨drive, rest, rfl⟩ := h.onDrive
  refine ⟨drive, name ++ (text "session_" ++ stamp), ?_⟩
  have hrooted : isPathRooted (text "session_" ++ stamp) = false := rfl
  have hname : text "session_" ++ stamp ≠ [] := by simp [text]
  have hlast : (drive :: colon :: backslash :: rest).getLast? = (backslash :: rest).getLast? := rfl
  have hs := h.noSlash
  have hc := h.noColon
  rw [hlast] at hs hc
  rw [withoutSeparator_append, show (drive :: colon :: backslash :: rest).drop 2 = backslash :: rest
    from rfl] at hdirectory
  rw [List.cons_append, List.cons_append, ← List.append_assoc, hdirectory, pathCombine,
    if_neg (by simp), if_neg hname, hrooted, hlast]
  by_cases hb : (backslash :: rest).getLast? = some backslash
  · simp [hb]
  · simp [hb, hs, hc]

end Guard

section Guarded

variable (up : Wchar → Wchar) (device : Wchar → List Wchar) (other : List Wchar → List Wchar)

def Excluded (g : KnfcExcludeCtx) (file : List Wchar) : Prop :=
  ∀ path : UnicodeString, path.buffer = ntPath device other file →
    (knFcExcludeMatches up g path).1 = true

/-- With a session open, its manifest is excluded and so is every file that
`doBackup` creates under its directory. -/
def SessionGuarded (s : MainViewModel) : Prop :=
  s.sessionOpen = true →
    Excluded up device other s.driver s.manifestPath ∧
    ∀ srcNt requestId opened isThere dest,
      doBackup s.sessionDir srcNt requestId opened isThere = some dest →
      (∃ name, dest = s.sessionDir ++ backslash :: name) →
      Excluded up device other s.driver dest

/-- The command starts the first session, and its directory and manifest can be made. -/
def Opens (s : MainViewModel) : UxCommand → Prop
  | .start _ created opened =>
    s.sessionOpen = false ∧ isNullOrWhiteSpace s.backupRoot = false ∧ created = true ∧
      opened = true
  | _ => False

/-- A session opens on a root whose guard fits, with room for two more patterns. -/
def OpensGuarded (ci : CompareInfo) (s : MainViewModel) (c : UxCommand) : Prop :=
  Opens s c → GuardFits ci s.backupRoot ∧ s.driver.patterns.length + 2 ≤ knfcMaxExcludePatterns

/-- What every command keeps once a session has opened so. -/
structure Secured (ci : CompareInfo) (s : MainViewModel) : Prop where
  fits : GuardFits ci s.backupRoot
  dir : ∃ stamp, s.sessionDir = pathCombine s.backupRoot (text "session_" ++ stamp)
  manifest : s.manifestPath = pathCombine s.sessionDir (text "manifest.jsonl")
  guard : HasGuard ci s.backupRoot s.driver

variable {up device other} {ci : CompareInfo}

theorem Secured.excluded {s : MainViewModel} (h : Secured ci s) (more : List Wchar) :
    Excluded up device other s.driver (s.sessionDir ++ more) := by
  intro path hpath
  obtain ⟨stamp, hstamp⟩ := h.dir
  obtain ⟨drive, name, hdir⟩ := h.fits.sessionDir stamp
  obtain ⟨rest, hrest⟩ := List.head?_eq_some_iff.mp (h.fits.onDrive.head?_dosToNtSubstring ci)
  refine h.guard.matches h.fits.onDrive ?_
  have hnt : ntPath device other (s.sessionDir ++ more) =
      device drive ++ dosToNtSubstring ci s.backupRoot ++ (name ++ more) := by
    rw [hstamp, hdir, hrest]
    simp [ntPath]
  rw [hpath, hnt]
  exact infixOf_append _ _ _

theorem Secured.sessionGuarded {s : MainViewModel} (h : Secured ci s) :
    SessionGuarded up device other s := by
  intro _
  refine ⟨?_, fun _ _ _ _ dest _ hbelow => ?_⟩
  · obtain ⟨more, hmore⟩ := pathCombine_extends s.sessionDir
      (show isPathRooted (text "manifest.jsonl") = false from rfl)
    rw [h.manifest, hmore]
    exact h.excluded more
  · obtain ⟨name, rfl⟩ := hbelow
    exact h.excluded _

theorem Secured.withDriver {s : MainViewModel} (h : Secured ci s) {g : KnfcExcludeCtx}
    (hg : HasGuard ci s.backupRoot g) (excludes : List (List Wchar)) :
    Secured ci { s with excludes := excludes, driver := g } :=
  ⟨h.fits, h.dir, h.manifest, hg⟩

theorem Secured.cleared {s : MainViewModel} (h : Secured ci s) (hopen : s.sessionOpen = true) :
    HasGuard ci s.backupRoot (clearedDriver ci s) := by
  rw [clearedDriver, if_pos hopen]
  exact h.fits.registered (by simp [knFcExcludeClear, knfcMaxExcludePatterns])

theorem invokeAddExclude_sessionOpen (newExclude : List Wchar) (s : MainViewModel) :
    (invokeAddExclude newExclude s).sessionOpen = s.sessionOpen := by
  unfold invokeAddExclude
  dsimp only
  repeat' split
  all_goals rfl

theorem invokeRemoveExclude_sessionOpen (pat : List Wchar) (s : MainViewModel) :
    (invokeRemoveExclude ci pat s).sessionOpen = s.sessionOpen := by
  unfold invokeRemoveExclude
  split <;> rfl

theorem Secured.invokeAddExclude {s : MainViewModel} (h : Secured ci s) (newExclude : List Wchar) :
    Secured ci (invokeAddExclude newExclude s) := by
  have hadd := h.guard.mono (addExclude_subset s.driver (trim newExclude))
  unfold KnFileCatcher.invokeAddExclude
  split
  · exact h
  · dsimp only
    split
    · exact h.withDriver hadd _
    · exact h.withDriver hadd s.excludes

theorem Secured.invokeRemoveExclude {s : MainViewModel} (h : Secured ci s)
    (hopen : s.sessionOpen = true) (pat : List Wchar) : Secured ci (invokeRemoveExclude ci pat s) := by
  unfold KnFileCatcher.invokeRemoveExclude
  split
  · exact h
  · exact h.withDriver ((h.cleared hopen).mono (foldl_addExclude_subset _ _)) _

theorem ensureSessionWorker_open {s : MainViewModel} {stamp : List Wchar} {created opened : Bool}
    (h : (ensureSessionWorker ci stamp created opened s).2.sessionOpen = true) :
    s.sessionOpen = true ∧ (ensureSessionWorker ci stamp created opened s).2 = s ∨
      Opens s (.start stamp created opened) ∧
        (ensureSessionWorker ci stamp created opened s).2 =
          { s with
            sessionDir := pathCombine s.backupRoot (text "session_" ++ stamp)
            manifestPath := pathCombine (pathCombine s.backupRoot (text "session_" ++ stamp))
              (text "manifest.jsonl")
            sessionOpen := true
            driver := registerSelfExcludes ci s.backupRoot s.driver } := by
  cases hs : s.sessionOpen with
  | true => simp [ensureSessionWorker, hs]
  | false =>
    refine Or.inr ?_
    revert h
    unfold ensureSessionWorker
    rw [if_neg (by simp [hs])]
    cases hblank : isNullOrWhiteSpace s.backupRoot with
    | true => simp [hs]
    | false => cases created <;> cases opened <;> simp [hs, hblank, Opens]

theorem secured_step {s t : MainViewModel} {c : UxCommand}
    (hi : s.sessionOpen = true → Secured ci s) (hok : OpensGuarded ci s c)
    (h : uxStep ci s c = some t)
    (hopen : t.sessionOpen = true) : Secured ci t := by
  cases c with
  | editBackupRoot value =>
    simp only [uxStep] at h
    split at h
    · cases h
    · next hclosed =>
      obtain rfl := Option.some.inj h
      exact absurd hopen hclosed
  | addExclude newExclude =>
    simp only [uxStep] at h
    split at h
    · cases h
    · obtain rfl := Option.some.inj h
      have hs : s.sessionOpen = true := (invokeAddExclude_sessionOpen newExclude s).symm.trans hopen
      exact (hi hs).invokeAddExclude newExclude
  | clearExcludes =>
    simp only [uxStep] at h
    split at h
    · cases h
    · obtain rfl := Option.some.inj h
      have hs : s.sessionOpen = true := hopen
      exact (hi hs).withDriver ((hi hs).cleared hs) []
  | removeExclude pat =>
    obtain rfl := Option.some.inj h
    have hs : s.sessionOpen = true := (invokeRemoveExclude_sessionOpen pat s).symm.trans hopen
    exact (hi hs).invokeRemoveExclude hs pat
  | start stamp created opened =>
    simp only [uxStep] at h
    split at h
    · cases h
    · obtain rfl := Option.some.inj h
      rcases ensureSessionWorker_open hopen with ⟨hs, heq⟩ | ⟨hopens, heq⟩
      · rw [heq]
        exact hi hs
      · obtain ⟨hfits, hroom⟩ := hok hopens
        rw [heq]
        exact ⟨hfits, ⟨stamp, rfl⟩, rfl, hfits.registered hroom⟩

/-- In every run whose sessions open so, every state with a session open is guarded. -/
theorem session_always_guarded {s t : MainViewModel} {cs : List UxCommand}
    (hs : s.sessionOpen = false) (hg : Guarded (uxStep ci) (OpensGuarded ci) s cs)
    (h : exec (uxStep ci) s cs = some t) : SessionGuarded up device other t := by
  have hi : t.sessionOpen = true → Secured ci t :=
    hg.invariant (I := fun s => s.sessionOpen = true → Secured ci s)
      (fun _ _ _ hi hok hstep => secured_step hi hok hstep) h (fun ho => by simp [hs] at ho)
  exact fun hopen => (hi hopen).sessionGuarded hopen

end Guarded

section Runs

def freshWindow (backupRoot : List Wchar) : MainViewModel where
  backupRoot := backupRoot
  excludes := []
  sessionDir := []
  manifestPath := []
  sessionOpen := false
  driver := knFcExcludeInitialize

def someStamp : List Wchar := text "20240102T030405Z"

def someDevice : Wchar → List Wchar := fun _ => someVolume

def plainSession : List UxCommand :=
  [.addExclude (text " .tmp"), .start someStamp true true, .clearExcludes]

theorem guardFits_someRoot : GuardFits .ordinal someRoot :=
  ⟨⟨_, _, rfl⟩, by decide, by decide, by decide⟩

theorem plain_session_is_guarded :
    ∃ s, exec (uxStep .ordinal) (freshWindow someRoot) plainSession = some s ∧
      s.sessionOpen = true ∧ SessionGuarded id someDevice id s := by
  have hg : Guarded (uxStep .ordinal) (OpensGuarded .ordinal) (freshWindow someRoot) plainSession :=
    ⟨fun h => h.elim, fun _ => ⟨guardFits_someRoot, by decide⟩, fun h => h.elim, trivial⟩
  exact ⟨_, rfl, rfl, session_always_guarded rfl hg rfl⟩

/-- The guard of this root is one unit longer than the driver takes. -/
def longRoot : List Wchar := text "C:\\" ++ List.replicate 127 (wchar 'a')

def backedUpFile : List Wchar := text "\\Device\\HarddiskVolume4\\f"

theorem long_root_is_captured :
    ∃ s, exec (uxStep .ordinal) (freshWindow longRoot) [.start someStamp true true] = some s ∧
      ¬ SessionGuarded id someDevice id s := by
  refine ⟨_, rfl, fun h => ?_⟩
  obtain ⟨-, hfile⟩ := h rfl
  have hm := hfile backedUpFile 1 true false _ rfl ⟨backedUpFile.drop 1, rfl⟩
    ⟨someVolume ++ longRoot.drop 2 ++ text "\\session_" ++ someStamp ++ backedUpFile,
      by decide +kernel⟩ (by decide +kernel)
  exact absurd hm (by decide +kernel)

end Runs

end KnFileCatcher

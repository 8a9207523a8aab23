import KnFileCatcher.Session

/-! Where the captures of one session go, and when one of them is opened again to be
overwritten. -/

namespace KnFileCatcher

open Runs

section Names

def longPathPrefix : List Wchar := text "\\\\?\\"
def uncPathPrefix : List Wchar := text "\\\\?\\UNC\\"

def makeLongPath (p : List Wchar) : List Wchar :=
  if p = [] then p
  else if longPathPrefix <+: p then p
  else if p.take 2 = [backslash, backslash] then uncPathPrefix ++ p.drop 2
  else if 2 ≤ p.length ∧ p[1]? = some colon then longPathPrefix ++ p
  else p

/-- The suffix of a retained copy. -/
def retainedSuffix (requestId : Ulonglong) : List Wchar :=
  text ".r" ++ text (toString requestId.toNat)

/-- How the system resolves paths: names are compared upcased, and `File.Exists` looks
at the full path that the runtime makes of its argument. -/
structure FileNames where
  up : Wchar → Wchar
  fullPath : List Wchar → List Wchar
  up_digit : ∀ c : Char, c.isDigit = true → up (wchar c) = wchar c
  up_letter : up (wchar 'r') = wchar 'R'

variable (n : FileNames)

/-- The file that `CreateFile` opens for a destination. Destinations are taken to be literal: a
session directory on a drive, on a UNC share or behind `\\?\`, and names without NUL. -/
def FileNames.opens (dest : List Wchar) : List Wchar := (makeLongPath dest).map n.up

/-- The file that `File.Exists` looks at. -/
def FileNames.looksAt (dest : List Wchar) : List Wchar := (n.fullPath dest).map n.up

variable {n}

theorem makeLongPath_append (p : List Wchar) (requestId : Ulonglong) :
    ∃ q, makeLongPath (p ++ retainedSuffix requestId) = q ++ retainedSuffix requestId := by
  obtain ⟨s, hs⟩ : ∃ s, retainedSuffix requestId = dot :: s := ⟨_, rfl⟩
  have hdot : dot ≠ backslash := by decide
  unfold makeLongPath
  split
  · next h => simp [hs] at h
  · split
    · exact ⟨p, rfl⟩
    · split
      · next h =>
        have hlen : 2 ≤ p.length := by
          match p, h with
          | [], h => simp [hs, hdot] at h
          | [c], h => simp [hs, hdot] at h
          | _ :: _ :: _, _ => simp
        refine ⟨uncPathPrefix ++ p.drop 2, ?_⟩
        rw [List.drop_append_of_le_length hlen, List.append_assoc]
      · split
        · exact ⟨longPathPrefix ++ p, (List.append_assoc _ _ _).symm⟩
        · exact ⟨p, rfl⟩

theorem eq_of_append_cons {α : Type*} {p q ds es : List α} {a : α} (hd : a ∉ ds) (he : a ∉ es)
    (h : p ++ a :: ds = q ++ a :: es) : ds = es := by
  rcases List.append_eq_append_iff.mp h with ⟨c, -, hc⟩ | ⟨c, -, hc⟩
  · cases c with
    | nil => exact (List.cons.inj hc).2
    | cons x c =>
      obtain ⟨-, rfl⟩ := List.cons.inj hc
      exact absurd (by simp) hd
  · cases c with
    | nil => exact (List.cons.inj hc).2.symm
    | cons x c =>
      obtain ⟨-, rfl⟩ := List.cons.inj hc
      exact absurd (by simp) he

theorem digits_toString (m : Nat) : ∀ c ∈ (toString m).toList, c.isDigit = true := by
  intro c hc
  rw [Nat.toString_eq_repr, Nat.toList_repr] at hc
  exact Nat.isDigit_of_mem_toDigits (by decide) (by decide) hc

theorem toString_inj {m k : Nat} (h : (toString m).toList = (toString k).toList) : m = k := by
  simp only [Nat.toString_eq_repr, Nat.toList_repr] at h
  rw [← @Nat.ofDigitChars_ten_toDigits m, h, Nat.ofDigitChars_ten_toDigits]

theorem toNat_wchar_digit {c : Char} (h : c.isDigit = true) :
    (wchar c).toNat = c.toNat ∧ c.toNat ≤ 57 := by
  simp only [Char.isDigit, Bool.and_eq_true, decide_eq_true_eq, UInt32.le_iff_toNat_le] at h
  have hle : c.toNat ≤ 57 := h.2
  exact ⟨Nat.mod_eq_of_lt (by omega), hle⟩

theorem ofNat_wchar_digit {c : Char} (h : c.isDigit = true) : Char.ofNat (wchar c).toNat = c := by
  rw [(toNat_wchar_digit h).1, Char.ofNat_toNat]

theorem map_up_digits (m : Nat) : (text (toString m)).map n.up = text (toString m) := by
  rw [text, List.map_map]
  exact List.map_congr_left fun c hc => n.up_digit c (digits_toString m c hc)

theorem letter_notMem_digits (m : Nat) : wchar 'R' ∉ text (toString m) := by
  intro h
  obtain ⟨c, hc, hw⟩ := List.mem_map.mp h
  obtain ⟨hnat, hle⟩ := toNat_wchar_digit (digits_toString m c hc)
  have hletter : (wchar c).toNat = 82 := congrArg BitVec.toNat hw
  omega

theorem text_toString_inj {m k : Nat} (h : text (toString m) = text (toString k)) : m = k := by
  have hback (j : Nat) : (text (toString j)).map (fun w => Char.ofNat w.toNat) =
      (toString j).toList := by
    rw [text, List.map_map]
    exact (List.map_congr_left fun c hc => ofNat_wchar_digit (digits_toString j c hc)).trans
      (List.map_id _)
  refine toString_inj ?_
  rw [← hback m, ← hback k, h]

/-- Two retained copies are one file only if they are copies for one request. -/
theorem opens_retained_inj {p q : List Wchar} {a b : Ulonglong}
    (h : n.opens (p ++ retainedSuffix a) = n.opens (q ++ retainedSuffix b)) : a = b := by
  obtain ⟨p', hp⟩ := makeLongPath_append p a
  obtain ⟨q', hq⟩ := makeLongPath_append q b
  have hsuffix (c : Ulonglong) : (retainedSuffix c).map n.up =
      [n.up dot] ++ wchar 'R' :: text (toString c.toNat) := by
    rw [retainedSuffix, List.map_append, map_up_digits]
    simp [text, dot, n.up_letter]
  simp only [FileNames.opens, hp, hq, List.map_append, hsuffix, ← List.append_assoc] at h
  have hdigits := eq_of_append_cons (letter_notMem_digits _) (letter_notMem_digits _) h
  exact BitVec.toNat_inj.mp (text_toString_inj hdigits)

end Names

section Session

/-- A status of the client: an `int` that holds a Win32 error. -/
abbrev Win32Error := BitVec 32

def errorInvalidParameter : Win32Error := 87

/-- The outcomes of the calls that one copy makes; `data` is what it writes before
it ends. -/
structure CopyEnv where
  srcError : Option Win32Error
  dstError : Option Win32Error
  data : List Byte
  copyError : Option Win32Error
deriving DecidableEq

structure BackupCall where
  srcNt : List Wchar
  requestId : Ulonglong
  env : CopyEnv
deriving DecidableEq

/-- The contents of the files, by the names that the system compares. -/
abbrev SessionFiles := List Wchar → Option (List Byte)

variable (n : FileNames) (sessionDir : List Wchar)

def plainDest (c : BackupCall) : List Wchar := pathCombine sessionDir (sanitizeNt c.srcNt)

/-- `File.Exists` for the destination without a suffix. -/
def SessionFiles.taken (files : SessionFiles) (c : BackupCall) : Bool :=
  (files (n.looksAt (plainDest sessionDir c))).isSome

/-- `DoBackup`: the status, the destination it reports, and the files after it. -/
def SessionFiles.doBackup (files : SessionFiles) (c : BackupCall) :
    Win32Error × List Wchar × SessionFiles :=
  if c.srcNt = [] then (errorInvalidParameter, [], files)
  else
    match c.env.srcError with
    | some error => (error, [], files)
    | none =>
      let dest :=
        if files.taken n sessionDir c then plainDest sessionDir c ++ retainedSuffix c.requestId
        else plainDest sessionDir c
      match c.env.dstError with
      | some error => (error, dest, files)
      | none =>
        (c.env.copyError.getD 0, dest,
          Function.update files (n.opens dest) (some c.env.data))

theorem doBackup_dest (files : SessionFiles) (c : BackupCall) :
    (files.doBackup n sessionDir c).2.1 = (doBackup sessionDir c.srcNt c.requestId
      c.env.srcError.isNone (files.taken n sessionDir c)).getD [] := by
  unfold SessionFiles.doBackup doBackup
  split
  · rfl
  · cases c.env.srcError with
    | some error => rfl
    | none =>
      cases files.taken n sessionDir c <;> cases c.env.dstError <;>
        simp [plainDest, retainedSuffix]

def BackupCall.Opens (c : BackupCall) : Prop :=
  c.srcNt ≠ [] ∧ c.env.srcError = none ∧ c.env.dstError = none

instance (c : BackupCall) : Decidable c.Opens := inferInstanceAs (Decidable (_ ∧ _ ∧ _))

/-- A session, and beside its files what happened: the identifiers handled, the
files that successful requests wrote, under their plain name or at all, and those
that a later request opened again. -/
structure BackupSession where
  files : SessionFiles
  used : List Ulonglong
  plain : List (List Wchar)
  captured : List (List Wchar)
  overwritten : List (List Wchar)

def BackupSession.init : BackupSession := ⟨fun _ => none, [], [], [], []⟩

def addIf (p : Prop) [Decidable p] (x : List Wchar) (l : List (List Wchar)) : List (List Wchar) :=
  if p then x :: l else l

/-- One request of the session; an identifier comes only once. -/
def backupStep (s : BackupSession) (c : BackupCall) : Option BackupSession :=
  if c.requestId ∈ s.used then none
  else
    let r := s.files.doBackup n sessionDir c
    let file := n.opens r.2.1
    some
      { files := r.2.2
        used := c.requestId :: s.used
        plain := addIf (c.Opens ∧ r.1 = 0 ∧ s.files.taken n sessionDir c = false) file s.plain
        captured := addIf (c.Opens ∧ r.1 = 0) file s.captured
        overwritten := addIf (c.Opens ∧ file ∈ s.captured) file s.overwritten }

/-- The plain destination is taken, and the suffixed one is the plain name of an
earlier capture; or it is not seen to be taken, and a capture is there. -/
def Collides (s : BackupSession) (c : BackupCall) : Prop :=
  c.requestId ∉ s.used ∧ c.Opens ∧
    if s.files.taken n sessionDir c then
      n.opens (plainDest sessionDir c ++ retainedSuffix c.requestId) ∈ s.plain
    else n.opens (plainDest sessionDir c) ∈ s.captured

instance (s : BackupSession) (c : BackupCall) : Decidable (Collides n sessionDir s c) :=
  inferInstanceAs (Decidable (_ ∧ _ ∧ _))

structure BackupSession.Kept (s : BackupSession) : Prop where
  named : ∀ file ∈ s.captured, file ∈ s.plain ∨
    ∃ p, ∃ requestId ∈ s.used, file = n.opens (p ++ retainedSuffix requestId)
  plain : ∀ file ∈ s.plain, file ∈ s.captured
  present : ∀ file ∈ s.captured, (s.files file).isSome = true

theorem mem_addIf {p : Prop} [Decidable p] {x y : List Wchar} {l : List (List Wchar)} :
    y ∈ addIf p x l ↔ (p ∧ y = x) ∨ y ∈ l := by
  by_cases h : p <;> simp [addIf, h]

theorem addIf_eq_nil {p : Prop} [Decidable p] {x : List Wchar} {l : List (List Wchar)} :
    addIf p x l = [] ↔ ¬ p ∧ l = [] := by
  by_cases h : p <;> simp [addIf, h]

variable {n sessionDir}

theorem doBackup_opens {c : BackupCall} (h : c.Opens) (files : SessionFiles) :
    files.doBackup n sessionDir c =
      (c.env.copyError.getD 0,
        if files.taken n sessionDir c then plainDest sessionDir c ++ retainedSuffix c.requestId
        else plainDest sessionDir c,
        Function.update files (n.opens (if files.taken n sessionDir c then
          plainDest sessionDir c ++ retainedSuffix c.requestId else plainDest sessionDir c))
          (some c.env.data)) := by
  simp only [SessionFiles.doBackup, if_neg h.1, h.2.1, h.2.2]

theorem isSome_update {files : SessionFiles} {file : List Wchar}
    (h : (files file).isSome = true) (written : List Wchar) (data : List Byte) :
    (Function.update files written (some data) file).isSome = true := by
  by_cases hfile : file = written
  · simp [hfile]
  · simpa [hfile] using h

theorem doBackup_files {c : BackupCall} (files : SessionFiles) {file : List Wchar}
    (h : (files file).isSome = true) :
    ((files.doBackup n sessionDir c).2.2 file).isSome = true := by
  by_cases hc : c.Opens
  · rw [doBackup_opens hc]
    exact isSome_update h _ _
  · have hsame : (files.doBackup n sessionDir c).2.2 = files := by
      unfold SessionFiles.doBackup
      split
      · rfl
      · next hne =>
        split
        · rfl
        · next hsrc =>
          cases hdst : c.env.dstError with
          | some error => rfl
          | none => exact absurd ⟨hne, hsrc, hdst⟩ hc
    rwa [hsame]

theorem BackupSession.Kept.step {s t : BackupSession} {c : BackupCall} (h : s.Kept n)
    (hs : backupStep n sessionDir s c = some t) : t.Kept n := by
  simp only [backupStep] at hs
  split at hs
  · cases hs
  · obtain rfl := Option.some.inj hs
    refine ⟨fun file hfile => ?_, fun file hfile => ?_, fun file hfile => ?_⟩
    · rcases mem_addIf.mp hfile with ⟨⟨hc, hok⟩, rfl⟩ | hfile
      · by_cases htaken : s.files.taken n sessionDir c = false
        · exact Or.inl (mem_addIf.mpr (Or.inl ⟨⟨hc, hok, htaken⟩, rfl⟩))
        · refine Or.inr ⟨plainDest sessionDir c, c.requestId, List.mem_cons_self, ?_⟩
          rw [doBackup_opens hc, if_pos (by simpa using htaken)]
      · rcases h.named file hfile with hplain | ⟨p, id, hid, hp⟩
        · exact Or.inl (mem_addIf.mpr (Or.inr hplain))
        · exact Or.inr ⟨p, id, List.mem_cons_of_mem _ hid, hp⟩
    · rcases mem_addIf.mp hfile with ⟨⟨hc, hok, -⟩, rfl⟩ | hfile
      · exact mem_addIf.mpr (Or.inl ⟨⟨hc, hok⟩, rfl⟩)
      · exact mem_addIf.mpr (Or.inr (h.plain file hfile))
    · rcases mem_addIf.mp hfile with ⟨⟨hc, -⟩, rfl⟩ | hfile
      · simp [doBackup_opens hc]
      · exact doBackup_files s.files (h.present file hfile)

theorem kept_init : BackupSession.init.Kept n :=
  ⟨nofun, nofun, nofun⟩

/-- A request opens an earlier capture exactly when it collides. -/
theorem BackupSession.Kept.collides_iff {s t : BackupSession} {c : BackupCall} (h : s.Kept n)
    (h0 : s.overwritten = []) (hs : backupStep n sessionDir s c = some t) :
    ¬ Collides n sessionDir s c ↔ t.overwritten = [] := by
  simp only [backupStep] at hs
  split at hs
  · cases hs
  · next hused =>
    obtain rfl := Option.some.inj hs
    rw [addIf_eq_nil, and_iff_left h0, not_iff_not, Collides, and_iff_right hused]
    refine and_congr_right fun hc => ?_
    rw [doBackup_opens hc]
    cases htaken : s.files.taken n sessionDir c with
    | false => rfl
    | true =>
      simp only [if_true]
      refine ⟨h.plain _, fun hfile => (h.named _ hfile).resolve_right ?_⟩
      rintro ⟨p, id, hid, hp⟩
      exact hused (opens_retained_inj hp ▸ hid)

/-- In a session whose requests never collide no capture is overwritten, and only
in such a session. -/
theorem captures_kept_iff (n : FileNames) (sessionDir : List Wchar) (cs : List BackupCall) :
    Guarded (backupStep n sessionDir) (fun s c => ¬ Collides n sessionDir s c) .init cs ↔
      Always (backupStep n sessionDir) (fun s => s.overwritten = []) .init cs := by
  refine guarded_iff_always (I := fun s => s.Kept n) (fun _ _ _ hi hs => hi.step hs)
    (fun _ _ _ hi h0 hs => hi.collides_iff h0 hs) (fun s c hs => ?_) cs kept_init rfl
  rintro ⟨hused, -⟩
  simp only [backupStep, if_neg hused] at hs
  cases hs

/-- Where `File.Exists` looks at the file that `CreateFile` opens, only a source named
like a retained copy collides. -/
theorem BackupSession.Kept.lookalike {s : BackupSession} {c : BackupCall} (h : s.Kept n)
    (hlook : n.looksAt (plainDest sessionDir c) = n.opens (plainDest sessionDir c))
    (hc : Collides n sessionDir s c) :
    s.files.taken n sessionDir c = true ∧
      n.opens (plainDest sessionDir c ++ retainedSuffix c.requestId) ∈ s.plain := by
  obtain ⟨-, -, hcase⟩ := hc
  cases htaken : s.files.taken n sessionDir c with
  | true => exact ⟨rfl, by simpa [htaken] using hcase⟩
  | false =>
    have hpresent := h.present _ (by simpa [htaken] using hcase)
    rw [SessionFiles.taken, hlook, hpresent] at htaken
    cases htaken

end Session

section Overwrite

def asciiNames : FileNames where
  up := asciiUp
  fullPath := makeLongPath
  up_digit c h := by
    obtain ⟨hnat, hle⟩ := toNat_wchar_digit h
    rw [asciiUp, if_neg (by omega)]
  up_letter := by decide

def copied (data : List Byte) : CopyEnv := ⟨none, none, data, none⟩

/-- The first source has the name that the third one's copy is given. -/
def lookalikeRun : List BackupCall :=
  [⟨text "\\a.r3", 1, copied [1]⟩, ⟨text "\\a", 2, copied [2]⟩, ⟨text "\\a", 3, copied [3]⟩]

theorem lookalike_overwritten :
    ∃ s, exec (backupStep asciiNames (text "C:\\S")) .init lookalikeRun = some s ∧
      s.overwritten ≠ [] ∧ s.files (asciiNames.opens (text "C:\\S\\a.r3")) = some [3] := by
  refine ⟨_, rfl, ?_, ?_⟩ <;> decide

end Overwrite

end KnFileCatcher

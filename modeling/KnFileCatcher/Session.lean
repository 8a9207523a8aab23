import KnFileCatcher.Runs
import KnFileCatcher.SelfExcludes

/-! The commands of the window, and what keeps a session from capturing its own
output. -/

namespace KnFileCatcher

open FoldedText Runs

section Text

def slash : Wchar := wchar '/'

def isWhiteSpace (c : Wchar) : Bool :=
  let n := c.toNat
  decide (9 ≤ n ∧ n ≤ 13) || decide (0x2000 ≤ n ∧ n ≤ 0x200A) ||
    [0x20, 0x85, 0xA0, 0x1680, 0x2028, 0x2029, 0x202F, 0x205F, 0x3000].contains n

def isNullOrWhiteSpace (s : List Wchar) : Bool := s.all isWhiteSpace

def trim (s : List Wchar) : List Wchar :=
  ((s.dropWhile isWhiteSpace).reverse.dropWhile isWhiteSpace).reverse

def isDirectorySeparator (c : Wchar) : Bool := decide (c = backslash) || decide (c = slash)

def isValidDriveChar (c : Wchar) : Bool := decide (((c ||| 0x20) - wchar 'a').toNat ≤ 25)

def isPathRooted (path : List Wchar) : Bool :=
  match path with
  | [] => false
  | c :: path =>
    isDirectorySeparator c || isValidDriveChar c && decide (path.head? = some colon)

/-- `Path.Combine`. A drive reference gets no separator. -/
def pathCombine (path1 path2 : List Wchar) : List Wchar :=
  if path1 = [] then path2
  else if path2 = [] then path1
  else if isPathRooted path2 then path2
  else if path1.getLast? = some backslash ∨ path1.getLast? = some slash ∨
      path1.getLast? = some colon then
    path1 ++ path2
  else path1 ++ [backslash] ++ path2

end Text

section Backup

def sanitizeNt (nt : List Wchar) : List Wchar :=
  (if nt.head? = some backslash then nt.drop 1 else nt).map fun c =>
    if c = colon then wchar '$' else c

/-- The file that `DoBackup` creates. `opened` is the outcome of opening the source,
`exists` whether an earlier copy is in the way. -/
def doBackup (sessionDir srcNt : List Wchar) (requestId : Ulonglong) (opened isThere : Bool) :
    Option (List Wchar) :=
  if srcNt = [] then none
  else if !opened then none
  else
    let dest := pathCombine sessionDir (sanitizeNt srcNt)
    some (if isThere then dest ++ text ".r" ++ text (toString requestId.toNat) else dest)

end Backup

/-- The fields of the view model that the exclude list depends on, and the driver. -/
structure MainViewModel where
  backupRoot : List Wchar
  excludes : List (List Wchar)
  sessionDir : List Wchar
  manifestPath : List Wchar
  sessionOpen : Bool
  driver : KnfcExcludeCtx

section Commands

variable (ci : CompareInfo)

/-- `stamp` is the time of the call; `created` and `opened` are the outcomes of making
the directory and opening the manifest. -/
def ensureSessionWorker (stamp : List Wchar) (created opened : Bool) (s : MainViewModel) :
    Bool × MainViewModel :=
  if s.sessionOpen then (true, s)
  else if isNullOrWhiteSpace s.backupRoot then (false, s)
  else
    let sessionDir := pathCombine s.backupRoot (text "session_" ++ stamp)
    let s := { s with
      sessionDir := sessionDir
      manifestPath := pathCombine sessionDir (text "manifest.jsonl") }
    if !created then (false, s)
    else if !opened then (false, s)
    else
      (true, { s with
        driver := registerSelfExcludes ci s.backupRoot s.driver
        sessionOpen := true })

def invokeAddExclude (newExclude : List Wchar) (s : MainViewModel) : MainViewModel :=
  if isNullOrWhiteSpace newExclude then s
  else
    let pat := trim newExclude
    let r := addExclude s.driver pat
    if r.1 then
      { s with
        driver := r.2
        excludes := if s.excludes.contains pat then s.excludes else s.excludes ++ [pat] }
    else { s with driver := r.2 }

def clearedDriver (s : MainViewModel) : KnfcExcludeCtx :=
  if s.sessionOpen then registerSelfExcludes ci s.backupRoot (knFcExcludeClear s.driver)
  else knFcExcludeClear s.driver

def invokeClearExcludes (s : MainViewModel) : MainViewModel :=
  { s with excludes := [], driver := clearedDriver ci s }

def invokeRemoveExclude (pat : List Wchar) (s : MainViewModel) : MainViewModel :=
  if pat = [] ∨ !s.excludes.contains pat then s
  else
    let excludes := s.excludes.erase pat
    { s with
      excludes := excludes
      driver := excludes.foldl (fun g p => (addExclude g p).2) (clearedDriver ci s) }

inductive UxCommand where
  | editBackupRoot (value : List Wchar)
  | addExclude (newExclude : List Wchar)
  | clearExcludes
  | removeExclude (pat : List Wchar)
  | start (stamp : List Wchar) (created opened : Bool)

/-- A command that the window does not offer is no step. -/
def uxStep (s : MainViewModel) : UxCommand → Option MainViewModel
  | .editBackupRoot value => if s.sessionOpen then none else some { s with backupRoot := value }
  | .addExclude newExclude =>
    if isNullOrWhiteSpace newExclude then none else some (invokeAddExclude newExclude s)
  | .clearExcludes => if s.excludes = [] then none else some (invokeClearExcludes ci s)
  | .removeExclude pat => some (invokeRemoveExclude ci pat s)
  | .start stamp created opened =>
    if isNullOrWhiteSpace s.backupRoot then none
    else some (ensureSessionWorker ci stamp created opened s).2

end Commands

end KnFileCatcher

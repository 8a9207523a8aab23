import KnFileCatcher.ExcludeReads
import KnFileCatcher.StringTables

/-! The exclude patterns as a table under its push lock, with every access of every thread
apart. -/

namespace KnFileCatcher

open PushLock FoldedText StringTable
open PushLock.Program (perform wp wp_bind wp_call wp_look wp_ite)
open Ownership (Block)
open Runs (Reachable)

namespace ExcludeTable

variable (up : Wchar → Wchar)

def knFcExcludeAdd (alloc : Bool) (pattern : UnicodeString) : TableProgram NtStatus :=
  addString knfcMaxExcludePatterns knfcMaxExcludeChars alloc pattern

def knFcExcludeClear : TableProgram (Option Unit) := clearStrings knfcMaxExcludePatterns

/-- `RtlEqualUnicodeString` of the window at byte offset `i` and the pattern. -/
def equalAt (hay : UnicodeString) (i : Nat) (needle : TableString) : TableProgram (Option Bool) := do
  let text ← readString needle
  return text.map (rtlEqualUnicodeString up (window hay.buffer (i / 2) (needle.length / 2)))

def knFcSuffixCi (hay : UnicodeString) (needle : TableString) : TableProgram (Option Bool) :=
  if needle.length = 0 then return some true
  else if hay.length < needle.length then return some false
  else equalAt up hay (hay.length - needle.length) needle

def substringScan (hay : UnicodeString) (needle : TableString) (span : Nat) :
    Nat → Nat → TableProgram (Option Bool)
  | 0, _ => return none
  | fuel + 1, i =>
    if i ≤ span then do
      let equal ← equalAt up hay i needle
      match equal with
      | some false => substringScan hay needle span fuel ((i + 2) % 65536)
      | _ => return equal
    else return some false

def knFcSubstringCi (hay : UnicodeString) (needle : TableString) : TableProgram (Option Bool) :=
  if needle.length = 0 then return some true
  else if hay.length < needle.length then return some false
  else substringScan up hay needle (hay.length - needle.length) 32769 0

/-- The first character is read if the pattern has one. -/
def hitsPattern (path : UnicodeString) (p : TableString) : TableProgram (Option Bool) :=
  if 2 ≤ p.length then do
    let text ← readString p
    match text with
    | none => return none
    | some text =>
      if text.head? = some dot then knFcSuffixCi up path p else knFcSubstringCi up path p
  else knFcSubstringCi up path p

/-- The lock is released, and the counter ticks on a hit. -/
def endMatch : Option Bool → TableProgram (Option Bool)
  | none => return none
  | some matched => do
    perform .release
    if matched then do
      perform .tick
      return some true
    else return some false

def knFcExcludeMatches (path : UnicodeString) : TableProgram (Option Bool) :=
  if path.length = 0 then return some false
  else do
    perform (.acquire .shared)
    let matched ← anyString (hitsPattern up path) (knfcMaxExcludePatterns + 1) 0
    endMatch matched

def program : TableOp → TableProgram (Option TableAnswer)
  | .add alloc pattern => do
    let st ← knFcExcludeAdd alloc pattern
    return some (.status st)
  | .clear => do
    let r ← knFcExcludeClear
    return r.map fun _ => .cleared
  | .test path => do
    let r ← knFcExcludeMatches up path
    return r.map .tested

/-- The functions on whole tables, of which each call is to be one. -/
def spec : TableOp → KnfcExcludeCtx → TableAnswer × KnfcExcludeCtx
  | .add alloc pattern, g =>
    let r := KnFileCatcher.knFcExcludeAdd alloc g pattern
    (.status r.1, r.2)
  | .clear, g => (.cleared, KnFileCatcher.knFcExcludeClear g)
  | .test path, g => (.tested (KnFileCatcher.knFcExcludeMatches up g path).1, g)

section Matching

variable {up : Wchar → Wchar} {ν : Type}
  {C : Contract Unit StringTable (List Wchar) TableOp (Option TableAnswer) ν} {op : TableOp}
  {g : StringTable} {n : ν} {G L : Own Unit (List Wchar)} {b : Block Unit} {s : UnicodeString}

theorem finds_equalAt (hG : G b = some s.buffer) (hay : UnicodeString) (i : Nat) :
    (equalAt up hay i ⟨some b, s.length, s.length⟩).Finds C op L (.reading g G n)
      (some (rtlEqualUnicodeString up (window hay.buffer (i / 2) s.buffer.length) s.buffer)) := by
  have hlength : s.length / 2 = s.buffer.length := by
    simp only [UnicodeString.length]
    omega
  refine (finds_readString rfl hG).bind ⟨?_, rfl, rfl⟩
  rw [hlength]
  rfl

theorem finds_substringScan (hG : G b = some s.buffer) (hay : UnicodeString) (span fuel i : Nat) :
    (substringScan up hay ⟨some b, s.length, s.length⟩ span fuel i).Finds C op L (.reading g G n)
      (knFcSubstringScan up hay s span fuel i) := by
  induction fuel generalizing i with
  | zero => exact ⟨rfl, rfl, rfl⟩
  | succ fuel ih =>
    rw [substringScan, knFcSubstringScan]
    by_cases hi : i ≤ span
    · rw [if_pos hi, if_pos hi]
      refine (finds_equalAt hG hay i).bind ?_
      cases rtlEqualUnicodeString up (window hay.buffer (i / 2) s.buffer.length) s.buffer with
      | true => exact ⟨rfl, rfl, rfl⟩
      | false => exact ih ((i + 2) % 65536)
    · rw [if_neg hi, if_neg hi]
      exact ⟨rfl, rfl, rfl⟩

theorem finds_knFcSubstringCi (hG : G b = some s.buffer) (hay : UnicodeString) :
    (knFcSubstringCi up hay ⟨some b, s.length, s.length⟩).Finds C op L (.reading g G n)
      (some (KnFileCatcher.knFcSubstringCi up hay s)) := by
  unfold knFcSubstringCi KnFileCatcher.knFcSubstringCi
  by_cases hz : s.length = 0
  · rw [if_pos hz, if_pos hz]
    exact ⟨rfl, rfl, rfl⟩
  · rw [if_neg hz, if_neg hz]
    by_cases hlt : hay.length < s.length
    · rw [if_pos hlt, if_pos hlt]
      exact ⟨rfl, rfl, rfl⟩
    · have hne := UnicodeString.length_eq_zero_iff.not.mp hz
      have hle : s.buffer.length ≤ hay.buffer.length := by
        simp only [UnicodeString.length] at hlt
        omega
      have hscan := @knFcSubstringScan_eq up _ _ hne hle
      rw [if_neg hlt, if_neg hlt]
      refine (finds_substringScan hG hay (hay.length - s.length) 32769 0).mono ?_
      rw [hscan]
      exact fun _ _ _ => id

theorem finds_knFcSuffixCi (hG : G b = some s.buffer) (hay : UnicodeString) :
    (knFcSuffixCi up hay ⟨some b, s.length, s.length⟩).Finds C op L (.reading g G n)
      (some (KnFileCatcher.knFcSuffixCi up hay s)) := by
  unfold knFcSuffixCi KnFileCatcher.knFcSuffixCi
  by_cases hz : s.length = 0
  · rw [if_pos hz, if_pos hz]
    exact ⟨rfl, rfl, rfl⟩
  · rw [if_neg hz, if_neg hz]
    by_cases hlt : hay.length < s.length
    · rw [if_pos hlt, if_pos hlt]
      exact ⟨rfl, rfl, rfl⟩
    · rw [if_neg hlt, if_neg hlt]
      exact finds_equalAt hG hay _

theorem finds_hitsPattern (hG : G b = some s.buffer) (path : UnicodeString) :
    (hitsPattern up path ⟨some b, s.length, s.length⟩).Finds C op L (.reading g G n)
      (some (patternHits up path s)) := by
  unfold hitsPattern patternHits
  by_cases htwo : 2 ≤ s.length
  · rw [if_pos htwo]
    refine (finds_readString rfl hG).bind ?_
    by_cases hdot : s.buffer.head? = some dot
    · rw [if_pos hdot]
      dsimp only
      rw [if_pos hdot]
      exact finds_knFcSuffixCi hG path
    · rw [if_neg hdot]
      dsimp only
      rw [if_neg hdot]
      exact finds_knFcSubstringCi hG path
  · have hempty : s.buffer = [] := by
      apply UnicodeString.length_eq_zero_iff.mp
      simp only [UnicodeString.length] at htwo ⊢
      omega
    rw [if_neg htwo, if_neg (by simp [hempty])]
    exact finds_knFcSubstringCi hG path

end Matching

section Contract

variable (up : Wchar → Wchar)

abbrev contract : Contract Unit StringTable (List Wchar) TableOp (Option TableAnswer)
    KnfcExcludeCtx :=
  tableContract knfcMaxExcludePatterns 1 KnfcExcludeCtx.patterns (spec up)

variable {up}

theorem added_eq (alloc : Bool) (n : KnfcExcludeCtx) (s : UnicodeString) :
    addedString knfcMaxExcludePatterns knfcMaxExcludeChars alloc n.patterns s =
      ((KnFileCatcher.knFcExcludeAdd alloc n s).1,
        (KnFileCatcher.knFcExcludeAdd alloc n s).2.patterns) := by
  unfold addedString KnFileCatcher.knFcExcludeAdd
  split_ifs <;> rfl

theorem refused_same {alloc : Bool} {n : KnfcExcludeCtx} {s : UnicodeString}
    (h : (KnFileCatcher.knFcExcludeAdd alloc n s).2.patterns = n.patterns) :
    (KnFileCatcher.knFcExcludeAdd alloc n s).2 = n := by
  unfold KnFileCatcher.knFcExcludeAdd at h ⊢
  split_ifs at h ⊢ <;> try rfl
  simp [KnfcExcludeCtx.append] at h

theorem sound_matches (path : UnicodeString) :
    (program up (.test path)).wp (contract up) (.test path) .empty .before
      (Returns (contract up) (.test path)) := by
  refine wp_bind (wp_ite (fun hz => ?_) fun hz => ?_)
  · refine ⟨fun _ => rfl, fun n => ?_, rfl⟩
    simp only [contract, tableContract, spec, KnFileCatcher.knFcExcludeMatches, if_pos hz,
      Option.map_some]
  · refine wp_call ⟨rfl, fun g G n hinv _ => ?_⟩
    have hroom := hinv.room
    refine (finds_anyString hinv (fun b s _ hb => finds_hitsPattern hb path)
      (knfcMaxExcludePatterns + 1) 0 (by omega)).bind ?_
    have hmatch := @knFcExcludeMatches_fst up n path hz
    have hans : (contract up).spec (.test path) n =
        (some (.tested (n.patterns.any (patternHits up path))), n) := by
      simp only [contract, tableContract, spec, hmatch]
    rw [List.drop_zero]
    refine wp_call ⟨by rw [hans], ?_⟩
    rw [hans]
    cases n.patterns.any (patternHits up path) with
    | true => exact wp_bind (wp_call ⟨_, 0, rfl, Nat.one_pos, fun _ => rfl, rfl, rfl⟩)
    | false => exact ⟨fun _ => rfl, rfl, rfl⟩

theorem program_sound : PushLock.Sound (contract up) (program up) := by
  intro op
  cases op with
  | add alloc s =>
    refine wp_bind ((wp_addString fun n => ?_).mono fun st L' ph' h => h)
    rw [added_eq]
    exact ⟨rfl, rfl, refused_same⟩
  | clear => exact wp_bind ((wp_clearStrings fun n => ⟨rfl, rfl⟩).mono fun r L' ph' h => h)
  | test path => exact sound_matches path

end Contract

end ExcludeTable

section Runs

variable {T : Type} [DecidableEq T] (up : Wchar → Wchar) (content : Block Unit → List Wchar)

/-- Threads that add, clear and match exclude patterns in any interleaving: each call answers
what `knFcExcludeAdd`, `knFcExcludeClear` and `knFcExcludeMatches` answer for the patterns
of one moment. -/
theorem exclude_table_runs (s : TableSystem T)
    (h : Reachable (PushLock.step (ExcludeTable.program up)) (.init .zeroed content) s) :
    TableRun knfcMaxExcludePatterns 1 KnfcExcludeCtx.patterns (ExcludeTable.spec up)
      (ExcludeTable.program up) knFcExcludeInitialize s :=
  tableRun_of_reachable ExcludeTable.program_sound rfl h

def dotPattern : UnicodeString := ⟨[dot, wchar 'a'], by simp⟩

/-- A match that is called while a pattern is added, and takes the lock after it. -/
def matchAfterAdd : List (Action Bool TableOp) :=
  [.call true (.add true dotPattern), .call false (.test dotPattern)] ++
    List.replicate 9 (.step true) ++ [.step false, .step true] ++ List.replicate 6 (.step false)

theorem exclude_table_runs_hit :
    ∃ s : TableSystem Bool, Runs.exec (PushLock.step (ExcludeTable.program id))
        (.init .zeroed fun _ => []) matchAfterAdd = some s ∧
      s.history.head? = some (.returned false (.test dotPattern) (some (.tested true))) ∧
      TableRun knfcMaxExcludePatterns 1 KnfcExcludeCtx.patterns (ExcludeTable.spec id)
        (ExcludeTable.program id) knFcExcludeInitialize s :=
  have hrun : Runs.exec (PushLock.step (ExcludeTable.program id)) (.init .zeroed fun _ => [])
      matchAfterAdd = some (_ : TableSystem Bool) := rfl
  ⟨_, hrun, rfl, exclude_table_runs id (fun _ => []) _ ⟨_, hrun⟩⟩

end Runs

end KnFileCatcher

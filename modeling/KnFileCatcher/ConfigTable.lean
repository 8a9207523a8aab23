import KnFileCatcher.Config
import KnFileCatcher.StringTables

/-! The watch roots as a table under its push lock. -/

namespace KnFileCatcher

open PushLock StringTable
open PushLock.Program (perform wp wp_bind wp_call wp_ite)
open Ownership (Block)
open Runs (Reachable)

namespace ConfigTable

variable (up : Wchar → Wchar)

def knFcConfigAddRoot (alloc : Bool) (path : UnicodeString) : TableProgram NtStatus :=
  addString knfcMaxWatchRoots knfcMaxWatchPathChars alloc path

def knFcConfigClearRoots : TableProgram (Option Unit) := clearStrings knfcMaxWatchRoots

/-- The character that ends the root, or else the one of the path behind it, is read. -/
def endsAtBoundary (path : UnicodeString) (root : TableString) : TableProgram (Option Bool) := do
  let text ← readString root
  return text.map fun text =>
    let rootCch := root.length / 2
    if text[rootCch - 1]? = some backslash then true
    else if path.length = root.length then true
    else path.buffer[rootCch]? = some backslash

def hitsRoot (path : UnicodeString) (root : TableString) : TableProgram (Option Bool) :=
  if root.length = 0 ∨ path.length < root.length then return some false
  else do
    let text ← readString root
    match text with
    | none => return none
    | some text =>
      if !rtlPrefixUnicodeString up text path.buffer then return some false
      else endsAtBoundary path root

def endTest : Option Bool → TableProgram (Option Bool)
  | none => return none
  | some result => do
    perform .release
    return some result

def knFcConfigPathStartsWithAnyRoot (path : UnicodeString) : TableProgram (Option Bool) :=
  if path.length = 0 then return some false
  else do
    perform (.acquire .shared)
    let result ← anyString (hitsRoot up path) (knfcMaxWatchRoots + 1) 0
    endTest result

def program : TableOp → TableProgram (Option TableAnswer)
  | .add alloc path => do
    let st ← knFcConfigAddRoot alloc path
    return some (.status st)
  | .clear => do
    let r ← knFcConfigClearRoots
    return r.map fun _ => .cleared
  | .test path => do
    let r ← knFcConfigPathStartsWithAnyRoot up path
    return r.map .tested

def spec : TableOp → KnfcConfig → TableAnswer × KnfcConfig
  | .add alloc path, g =>
    let r := KnFileCatcher.knFcConfigAddRoot alloc g path
    (.status r.1, r.2)
  | .clear, g => (.cleared, KnFileCatcher.knFcConfigClearRoots g)
  | .test path, g => (.tested (KnFileCatcher.knFcConfigPathStartsWithAnyRoot up g path), g)

abbrev contract : Contract Unit StringTable (List Wchar) TableOp (Option TableAnswer) KnfcConfig :=
  tableContract knfcMaxWatchRoots 0 KnfcConfig.roots (spec up)

variable {up}

theorem finds_hitsRoot {ν : Type}
    {C : Contract Unit StringTable (List Wchar) TableOp (Option TableAnswer) ν} {op : TableOp}
    {g : StringTable} {n : ν} {G L : Own Unit (List Wchar)} {b : Block Unit} {s : UnicodeString}
    (hG : G b = some s.buffer) (path : UnicodeString) :
    (hitsRoot up path ⟨some b, s.length, s.length⟩).Finds C op L (.reading g G n)
      (some (rootHits up path s)) := by
  unfold hitsRoot rootHits
  by_cases hshort : s.length = 0 ∨ path.length < s.length
  · rw [if_pos hshort, if_pos hshort]
    exact ⟨rfl, rfl, rfl⟩
  · rw [if_neg hshort, if_neg hshort]
    refine (finds_readString rfl hG).bind ?_
    dsimp only
    by_cases hpre : (!rtlPrefixUnicodeString up s.buffer path.buffer) = true
    · rw [if_pos hpre, if_pos hpre]
      exact ⟨rfl, rfl, rfl⟩
    · rw [if_neg hpre, if_neg hpre]
      exact (finds_readString rfl hG).bind ⟨rfl, rfl, rfl⟩

theorem added_eq (alloc : Bool) (n : KnfcConfig) (s : UnicodeString) :
    addedString knfcMaxWatchRoots knfcMaxWatchPathChars alloc n.roots s =
      ((KnFileCatcher.knFcConfigAddRoot alloc n s).1,
        (KnFileCatcher.knFcConfigAddRoot alloc n s).2.roots) := by
  unfold addedString KnFileCatcher.knFcConfigAddRoot
  split_ifs <;> rfl

theorem refused_same {alloc : Bool} {n : KnfcConfig} {s : UnicodeString}
    (h : (KnFileCatcher.knFcConfigAddRoot alloc n s).2.roots = n.roots) :
    (KnFileCatcher.knFcConfigAddRoot alloc n s).2 = n := by
  unfold KnFileCatcher.knFcConfigAddRoot at h ⊢
  split_ifs at h ⊢ <;> try rfl
  simp [KnfcConfig.append] at h

theorem sound_test (path : UnicodeString) :
    (program up (.test path)).wp (contract up) (.test path) .empty .before
      (Returns (contract up) (.test path)) := by
  refine wp_bind (wp_ite (fun hz => ?_) fun hz => ?_)
  · refine ⟨fun _ => rfl, fun n => ?_, rfl⟩
    simp only [contract, tableContract, spec, KnFileCatcher.knFcConfigPathStartsWithAnyRoot,
      if_pos hz, Option.map_some]
  · refine wp_call ⟨rfl, fun g G n hinv _ => ?_⟩
    have hroom := hinv.room
    refine (finds_anyString hinv (fun b s _ hb => finds_hitsRoot hb path)
      (knfcMaxWatchRoots + 1) 0 (by omega)).bind ?_
    have hans : (contract up).spec (.test path) n =
        (some (.tested (n.roots.any (rootHits up path))), n) := by
      simp only [contract, tableContract, spec, KnFileCatcher.knFcConfigPathStartsWithAnyRoot,
        if_neg hz]
    rw [List.drop_zero]
    refine wp_call ⟨by rw [hans], ?_⟩
    rw [hans]
    exact ⟨fun _ => rfl, rfl, by simp [tableContract]⟩

theorem program_sound : PushLock.Sound (contract up) (program up) := by
  intro op
  cases op with
  | add alloc s =>
    refine wp_bind ((wp_addString fun n => ?_).mono fun st L' ph' h => h)
    rw [added_eq]
    exact ⟨rfl, rfl, refused_same⟩
  | clear => exact wp_bind ((wp_clearStrings fun n => ⟨rfl, rfl⟩).mono fun r L' ph' h => h)
  | test path => exact sound_test path

end ConfigTable

section Runs

variable {T : Type} [DecidableEq T] (up : Wchar → Wchar) (content : Block Unit → List Wchar)

/-- Each call answers what it answers for the roots of one moment. -/
theorem config_table_runs (s : TableSystem T)
    (h : Reachable (PushLock.step (ConfigTable.program up)) (.init .zeroed content) s) :
    TableRun knfcMaxWatchRoots 0 KnfcConfig.roots (ConfigTable.spec up)
      (ConfigTable.program up) knFcConfigInitialize s :=
  tableRun_of_reachable ConfigTable.program_sound rfl h

/-- A test that is called before a clearing and takes the lock after it. -/
def testDuringClear : List (Action Bool TableOp) :=
  .call true (.add true (.inRoot 'a')) :: List.replicate 10 (.step true) ++
    [.call false (.test (.inRoot 'a')), .call true .clear] ++ List.replicate 10 (.step true) ++
      List.replicate 4 (.step false) ++ [.step true]

theorem config_table_runs_clear :
    ∃ s : TableSystem Bool, Runs.exec (PushLock.step (ConfigTable.program id))
        (.init .zeroed fun _ => []) testDuringClear = some s ∧
      s.history[1]? = some (.returned false (.test (.inRoot 'a')) (some (.tested false))) ∧
      TableRun knfcMaxWatchRoots 0 KnfcConfig.roots (ConfigTable.spec id)
        (ConfigTable.program id) knFcConfigInitialize s :=
  have hrun : Runs.exec (PushLock.step (ConfigTable.program id)) (.init .zeroed fun _ => [])
      testDuringClear = some (_ : TableSystem Bool) := rfl
  ⟨_, hrun, rfl, config_table_runs id (fun _ => []) _ ⟨_, hrun⟩⟩

end Runs

end KnFileCatcher

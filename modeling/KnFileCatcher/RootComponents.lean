import KnFileCatcher.Config
import KnFileCatcher.ExcludeReads

/-! The watch-root match with every read checked, and what it means of the components of a
path. -/

namespace KnFileCatcher

open FoldedText

def readUnit (s : UnicodeString) (i : Nat) : Except ReadFault Wchar :=
  match s.buffer[i]? with
  | some c => .ok c
  | none => .error .outside

section Checked

variable (up : Wchar → Wchar)

def checkedRootHits (path root : UnicodeString) : Except ReadFault Bool :=
  if root.length = 0 ∨ path.length < root.length then .ok false
  else do
    let pre ← readWindow root 0 root.length
    let head ← readWindow path 0 root.length
    if !rtlEqualUnicodeString up head pre then return false
    else
      let rootCch := root.length / 2
      let rootLastChar ← readUnit root (rootCch - 1)
      if rootLastChar = backslash then return true
      else if path.length = root.length then return true
      else
        let next ← readUnit path rootCch
        return decide (next = backslash)

/-- The loop over the roots ends at the first hit. -/
def checkedStartsWithAnyRoot (g : KnfcConfig) (path : UnicodeString) : Except ReadFault Bool :=
  if path.length = 0 then .ok false else g.roots.anyM (checkedRootHits up path)

variable {up}

theorem readUnit_eq {s : UnicodeString} {i : Nat} {c : Wchar} (h : s.buffer[i]? = some c) :
    readUnit s i = .ok c := by
  rw [readUnit, h]

theorem readWindow_start {hay needle : UnicodeString}
    (h : needle.buffer.length ≤ hay.buffer.length) :
    readWindow hay 0 needle.length = .ok (hay.buffer.take needle.buffer.length) := by
  have hread := @readWindow_eq hay needle 0 (by omega)
  rwa [Nat.mul_zero, window, List.drop_zero] at hread

theorem checkedRootHits_eq (path root : UnicodeString) :
    checkedRootHits up path root = .ok (rootHits up path root) := by
  unfold checkedRootHits rootHits
  by_cases hskip : root.length = 0 ∨ path.length < root.length
  · rw [if_pos hskip, if_pos hskip]
  · have hne : root.buffer ≠ [] := UnicodeString.length_eq_zero_iff.not.mp (not_or.mp hskip).1
    have hpos := List.length_pos_of_ne_nil hne
    have hle : root.buffer.length ≤ path.buffer.length := by
      simp only [UnicodeString.length] at hskip
      omega
    have hcch : root.length / 2 = root.buffer.length := by
      simp only [UnicodeString.length]
      omega
    have hlast := List.getElem?_eq_getElem (l := root.buffer) (i := root.buffer.length - 1) (by omega)
    rw [if_neg hskip, if_neg hskip, readWindow_start (le_refl _), readWindow_start hle, hcch,
      List.take_length]
    simp only [bind, Except.bind, readUnit_eq hlast, rtlPrefixUnicodeString, decide_eq_true hle,
      Bool.true_and, hlast, Option.some.injEq]
    split
    · rfl
    split
    · rfl
    split
    · rfl
    · next hlonger =>
      have hnext := List.getElem?_eq_getElem (l := path.buffer) (i := root.buffer.length) (by
        simp only [UnicodeString.length] at hlonger
        omega)
      rw [readUnit_eq hnext, hnext]
      simp only [Option.some.injEq]
      rfl

theorem anyM_ok {α : Type} {p : α → Except ReadFault Bool} {q : α → Bool}
    (h : ∀ x, p x = .ok (q x)) (xs : List α) : xs.anyM p = .ok (xs.any q) := by
  induction xs with
  | nil => rfl
  | cons x xs ih =>
    rw [List.anyM, h, List.any_cons]
    cases q x with
    | true => rfl
    | false => exact ih

theorem checkedStartsWithAnyRoot_eq (g : KnfcConfig) (path : UnicodeString) :
    checkedStartsWithAnyRoot up g path = .ok (knFcConfigPathStartsWithAnyRoot up g path) := by
  unfold checkedStartsWithAnyRoot knFcConfigPathStartsWithAnyRoot
  split
  · rfl
  · exact anyM_ok (checkedRootHits_eq path) g.roots

end Checked

section Meaning

variable (up : Wchar → Wchar)

/-- A root with a separator at its end covers what it is a prefix of, any other root what
its components are a prefix of. -/
def Covers (path root : UnicodeString) : Prop :=
  if root.buffer.getLast? = some backslash then PrefixOf up root.buffer path.buffer
  else ComponentPrefixOf up backslash root.buffer path.buffer

variable {up}

theorem rtlPrefixUnicodeString_iff {pre s : List Wchar} :
    rtlPrefixUnicodeString up pre s = true ↔ PrefixOf up pre s := by
  rw [rtlPrefixUnicodeString, Bool.and_eq_true, decide_eq_true_iff, rtlEqualUnicodeString_iff,
    PrefixOf, List.prefix_iff_eq_take, List.length_map, ← List.map_take, eq_comm]
  refine and_iff_right_of_imp fun h => ?_
  have hlen := congrArg List.length h
  simp only [List.length_map, List.length_take] at hlen
  omega

theorem rootHits_iff_covers (hup : ∀ c, up c = up backslash → c = backslash)
    {path root : UnicodeString} (hne : root.buffer ≠ []) :
    rootHits up path root = true ↔ Covers up path root := by
  have hpos := List.length_pos_of_ne_nil hne
  have hcch : root.length / 2 = root.buffer.length := by
    simp only [UnicodeString.length]
    omega
  have hlast : root.buffer[root.buffer.length - 1]? = root.buffer.getLast? :=
    List.getLast?_eq_getElem?.symm
  have hshort (h : PrefixOf up root.buffer path.buffer) :
      ¬ (root.length = 0 ∨ path.length < root.length) := by
    have hle : root.buffer.length ≤ path.buffer.length := by simpa using h.length_le
    simp only [UnicodeString.length]
    omega
  have hlength : path.buffer.length = root.buffer.length ↔ path.length = root.length := by
    simp only [UnicodeString.length]
    omega
  rw [Covers, componentPrefixOf_iff hup]
  by_cases hpre : PrefixOf up root.buffer path.buffer
  · rw [rootHits, if_neg (hshort hpre), rtlPrefixUnicodeString_iff.mpr hpre]
    simp only [hcch, hlast]
    by_cases hends : root.buffer.getLast? = some backslash
    · simp [hends, hpre]
    · by_cases hsame : path.length = root.length
      · simp [hends, hpre, hlength, hsame]
      · simp [hends, hpre, hlength, hsame]
  · have hmiss : rootHits up path root = false := by
      have hno := rtlPrefixUnicodeString_iff.not.mpr hpre
      rw [rootHits]
      split
      · rfl
      · rw [Bool.not_eq_true] at hno
        rw [hno]
        rfl
    rw [hmiss]
    simp [hpre]

theorem not_covers_empty {path root : UnicodeString} (hne : root.buffer ≠ [])
    (hup : ∀ c, up c = up backslash → c = backslash) (h : path.length = 0) :
    ¬ Covers up path root := by
  rw [← rootHits_iff_covers hup hne]
  have hroot := UnicodeString.length_eq_zero_iff.not.mpr hne
  have hskip : root.length = 0 ∨ path.length < root.length := .inr (by omega)
  rw [rootHits, if_pos hskip]
  exact Bool.false_ne_true

theorem startsWithAnyRoot_iff (hup : ∀ c, up c = up backslash → c = backslash) (g : KnfcConfig)
    (path : UnicodeString) :
    knFcConfigPathStartsWithAnyRoot up g path = true ↔ ∃ r ∈ g.roots, Covers up path r := by
  by_cases hz : path.length = 0
  · rw [knFcConfigPathStartsWithAnyRoot, if_pos hz]
    refine iff_of_false Bool.false_ne_true ?_
    rintro ⟨r, hr, h⟩
    exact not_covers_empty (g.sized r hr).1 hup hz h
  · rw [knFcConfigPathStartsWithAnyRoot, if_neg hz, List.any_eq_true]
    exact exists_congr fun r => and_congr_right fun hr => rootHits_iff_covers hup (g.sized r hr).1

/-- Where nothing but the backslash is upcased to what the backslash is: every match ends
without a fault and answers whether a root covers the path, whatever the order of the
roots. -/
theorem root_match_reads_inside (hup : ∀ c, up c = up backslash → c = backslash)
    (g : KnfcConfig) (path : UnicodeString) :
    ∃ tracked, checkedStartsWithAnyRoot up g path = .ok tracked ∧
      knFcConfigPathStartsWithAnyRoot up g path = tracked ∧
      (tracked = true ↔ ∃ r ∈ g.roots, Covers up path r) ∧
      ∀ g' : KnfcConfig, g'.roots.Perm g.roots →
        knFcConfigPathStartsWithAnyRoot up g' path = tracked := by
  refine ⟨_, checkedStartsWithAnyRoot_eq g path, rfl, startsWithAnyRoot_iff hup g path, ?_⟩
  intro g' hperm
  rw [Bool.eq_iff_iff, startsWithAnyRoot_iff hup, startsWithAnyRoot_iff hup]
  exact exists_congr fun r => and_congr_left fun _ => hperm.mem_iff

theorem asciiUp_backslash (c : Wchar) (h : asciiUp c = asciiUp backslash) : c = backslash := by
  have hup : asciiUp backslash = backslash := by decide
  have hnat : backslash.toNat = 92 := by decide
  rw [hup] at h
  unfold asciiUp at h
  split at h
  · have hval := congrArg BitVec.toNat h
    rw [BitVec.toNat_sub, hnat, show (32 : Wchar).toNat = 32 from rfl] at hval
    omega
  · exact h

/-- The root `\a` and a path `\A\b` under it. -/
theorem root_match_reads_inside_upcased :
    ∃ tracked, checkedStartsWithAnyRoot asciiUp
        (knFcConfigAddRoot true knFcConfigInitialize (.inRoot 'a')).2
        ⟨[backslash, wchar 'A', backslash, wchar 'b'], by decide⟩ = .ok tracked ∧
      tracked = true := by
  obtain ⟨tracked, hchecked, htracked, -, -⟩ := root_match_reads_inside asciiUp_backslash
    (knFcConfigAddRoot true knFcConfigInitialize (.inRoot 'a')).2
    ⟨[backslash, wchar 'A', backslash, wchar 'b'], by decide⟩
  exact ⟨tracked, hchecked, htracked ▸ by decide⟩

end Meaning

end KnFileCatcher

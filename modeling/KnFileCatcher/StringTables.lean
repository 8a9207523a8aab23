import KnFileCatcher.PushLockSections
import KnFileCatcher.Windows

/-! A table of counted strings with their buffers in the pool, one access at a time. The
exclude patterns and the watch roots are such tables. -/

namespace KnFileCatcher

open PushLock
open PushLock.Program (perform wp wp_bind wp_call wp_look wp_ite)
open Ownership (Block)

/-- A `UNICODE_STRING` of a table. -/
structure TableString where
  buffer : Option (Block Unit)
  length : Nat
  maximumLength : Nat

/-- `overrun` records a write behind the array. -/
structure StringTable where
  count : Nat
  strings : Nat → TableString
  overrun : Bool

abbrev TableProgram := PushLock.Program Unit StringTable (List Wchar)

inductive TableOp where
  | add (alloc : Bool) (s : UnicodeString)
  | clear
  | test (path : UnicodeString)
deriving DecidableEq

inductive TableAnswer where
  | status (st : NtStatus)
  | cleared
  | tested (hit : Bool)
deriving DecidableEq

namespace StringTable

def zeroed : StringTable := ⟨0, fun _ => ⟨none, 0, 0⟩, false⟩

def write (max i : Nat) (f : TableString → TableString) (g : StringTable) : StringTable :=
  { g with
    strings := Function.update g.strings i (f (g.strings i))
    overrun := g.overrun || decide (max ≤ i) }

/-- The section of an addition. What is left is the copy that the table did not take. -/
def insertString (max : Nat) (copy : Block Unit) (bytes : Nat) :
    TableProgram (NtStatus × Option (Block Unit)) := do
  let g : StringTable ← perform .look
  if max ≤ g.count then return (statusQuotaExceeded, some copy)
  else
    perform (.set fun g => g.write max g.count fun s => { s with buffer := some copy })
    perform (.set fun g => g.write max g.count fun s => { s with length := bytes })
    perform (.set fun g => g.write max g.count fun s => { s with maximumLength := bytes })
    perform (.set fun g => { g with count := g.count + 1 })
    return (statusSuccess, none)

def freeLeft : Option (Block Unit) → TableProgram Unit
  | some copy => perform (.free copy)
  | none => return ()

def addString (max maxChars : Nat) (alloc : Bool) (s : UnicodeString) : TableProgram NtStatus :=
  if s.length = 0 then return statusInvalidParameter
  else if maxChars * 2 < s.length then return statusNameTooLong
  else if !alloc then return statusInsufficientResources
  else do
    let copy : Block Unit ← perform (.alloc ())
    perform (.write copy fun _ => s.buffer)
    perform (.acquire .exclusive)
    let r ← insertString max copy s.length
    perform .release
    freeLeft r.2
    return r.1

def freeBuffer (max i : Nat) : Option (Block Unit) → TableProgram Unit
  | some b => do
    perform (.free b)
    perform (.set (write max i fun s => { s with buffer := none }))
  | none => return ()

def freeLocked (max i : Nat) : TableProgram Unit := do
  let g : StringTable ← perform .look
  freeBuffer max i (g.strings i).buffer
  perform (.set (write max i fun s => { s with length := 0 }))
  perform (.set (write max i fun s => { s with maximumLength := 0 }))

/-- `none` is a loop that has not ended when the fuel is spent. -/
def clearFrom (max : Nat) : Nat → Nat → TableProgram (Option Unit)
  | 0, _ => return none
  | fuel + 1, i => do
    let g : StringTable ← perform .look
    if i < g.count then do
      freeLocked max i
      clearFrom max fuel (i + 1)
    else return some ()

def endClear : Option Unit → TableProgram (Option Unit)
  | none => return none
  | some () => do
    perform (.set fun g => { g with count := 0 })
    perform .release
    return some ()

def clearStrings (max : Nat) : TableProgram (Option Unit) := do
  perform (.acquire .exclusive)
  let r ← clearFrom max (max + 1) 0
  endClear r

/-- The units of a string, read from its buffer. A null buffer and a length beyond the
block are faults. -/
def readString (p : TableString) : TableProgram (Option (List Wchar)) :=
  match p.buffer with
  | none => return none
  | some b => do
    let v : List Wchar ← perform (.read b)
    return if 2 * v.length < p.length then none else some (v.take (p.length / 2))

/-- The loop over the strings, which ends at the first hit. -/
def anyString (test : TableString → TableProgram (Option Bool)) :
    Nat → Nat → TableProgram (Option Bool)
  | 0, _ => return none
  | fuel + 1, i => do
    let g : StringTable ← perform .look
    if i < g.count then do
      let hit ← test (g.strings i)
      match hit with
      | some false => anyString test fuel (i + 1)
      | _ => return hit
    else return some false

end StringTable

section Invariant

/-- From index `i` on the table has the strings of the list, each in a block of its own, and
no other blocks. -/
structure HoldsFrom (max i : Nat) (g : StringTable) (G : Own Unit (List Wchar))
    (l : List UnicodeString) : Prop where
  inside : g.overrun = false
  count : g.count = l.length
  room : l.length ≤ max
  string : ∀ j s, i ≤ j → l[j]? = some s →
    ∃ b, g.strings j = ⟨some b, s.length, s.length⟩ ∧ G b = some s.buffer
  owned : ∀ b, G b ≠ none → ∃ j, i ≤ j ∧ j < l.length ∧ (g.strings j).buffer = some b
  distinct : ∀ j k, i ≤ j → j < l.length → i ≤ k → k < l.length →
    (g.strings j).buffer = (g.strings k).buffer → j = k

def StringTable.Seen (g : StringTable) (l : List UnicodeString) : Prop :=
  g.overrun = false ∧ g.count = l.length

/-- A hit costs `cost` ticks of the counter. -/
def tableContract {ν : Type} (max cost : Nat) (list : ν → List UnicodeString)
    (spec : TableOp → ν → TableAnswer × ν) :
    Contract Unit StringTable (List Wchar) TableOp (Option TableAnswer) ν where
  inv g G n := HoldsFrom max 0 g G (list n)
  spec op n := (some (spec op n).1, (spec op n).2)
  seen g n := g.Seen (list n)
  cost a := if a = some (.tested true) then cost else 0
  inv_seen _ _ _ h := ⟨h.inside, h.count⟩

variable {max i : Nat} {g : StringTable} {G L : Own Unit (List Wchar)} {l : List UnicodeString}
  {b : Block Unit} {s : UnicodeString}

/-- An addition fills the entry behind the last. -/
def StringTable.filled (g : StringTable) (max : Nat) (copy : Block Unit) (bytes : Nat) :
    StringTable :=
  { g.write max g.count fun _ => ⟨some copy, bytes, bytes⟩ with count := g.count + 1 }

theorem HoldsFrom.add (h : HoldsFrom max 0 g G l) (hroom : ¬ max ≤ l.length) (hG : G b = none) :
    HoldsFrom max 0 (g.filled max b s.length) (Function.update G b (some s.buffer))
      (l ++ [s]) where
  inside := by
    have hlt : ¬ max ≤ g.count := by
      rw [h.count]
      exact hroom
    simp [StringTable.filled, StringTable.write, h.inside, hlt]
  count := by simp [StringTable.filled, h.count]
  room := by
    simp only [List.length_append, List.length_singleton]
    omega
  string j s' _ hj := by
    by_cases hlt : j < l.length
    · rw [List.getElem?_append_left hlt] at hj
      obtain ⟨b', hs, hb'⟩ := h.string j s' (Nat.zero_le j) hj
      have hne : b' ≠ b := by
        rintro rfl
        rw [hG] at hb'
        cases hb'
      have hjne : j ≠ g.count := by
        rw [h.count]
        omega
      refine ⟨b', ?_, ?_⟩
      · simpa [StringTable.filled, StringTable.write, hjne] using hs
      · rwa [Function.update_of_ne hne]
    · have hj' : j < (l ++ [s]).length := (List.getElem?_eq_some_iff.mp hj).1
      have hj'' : j = l.length := by
        simp only [List.length_append, List.length_singleton] at hj'
        omega
      subst hj''
      rw [List.getElem?_concat_length] at hj
      obtain rfl := Option.some.inj hj
      refine ⟨b, ?_, Function.update_self ..⟩
      simp [StringTable.filled, StringTable.write, h.count]
  owned b' hb' := by
    by_cases hbb : b' = b
    · subst hbb
      refine ⟨l.length, Nat.zero_le _, by simp, ?_⟩
      simp [StringTable.filled, StringTable.write, h.count]
    · rw [Function.update_of_ne hbb] at hb'
      obtain ⟨j, hj0, hj, hbuf⟩ := h.owned b' hb'
      have hjne : j ≠ g.count := by
        rw [h.count]
        omega
      refine ⟨j, hj0, by simp; omega, ?_⟩
      simpa [StringTable.filled, StringTable.write, hjne] using hbuf
  distinct := by
    -- the copy is in no other entry: their blocks are of the table
    have hother (j : Nat) (hj : j < l.length) : (g.strings j).buffer ≠ some b := by
      intro hbuf
      obtain ⟨b', hs, hb'⟩ := h.string j l[j] (Nat.zero_le j) (List.getElem?_eq_getElem hj)
      rw [hs] at hbuf
      obtain rfl := Option.some.inj hbuf
      rw [hG] at hb'
      cases hb'
    have hbuf (j : Nat) : ((g.filled max b s.length).strings j).buffer =
        if j = l.length then some b else (g.strings j).buffer := by
      by_cases hj : j = l.length
      · simp [StringTable.filled, StringTable.write, h.count, hj]
      · simp [StringTable.filled, StringTable.write, h.count, hj]
    intro j k _ hj _ hk heq
    simp only [List.length_append, List.length_singleton] at hj hk
    rw [hbuf, hbuf] at heq
    by_cases hjl : j = l.length <;> by_cases hkl : k = l.length
    · omega
    · rw [if_pos hjl, if_neg hkl] at heq
      exact absurd heq.symm (hother k (by omega))
    · rw [if_neg hjl, if_pos hkl] at heq
      exact absurd heq (hother j (by omega))
    · rw [if_neg hjl, if_neg hkl] at heq
      exact h.distinct j k (Nat.zero_le _) (by omega) (Nat.zero_le _) (by omega) heq

/-- The clearing of an entry frees its block. -/
theorem HoldsFrom.clear (h : HoldsFrom max i g L l) (hi : i < l.length) :
    ∃ b, (g.strings i).buffer = some b ∧ L b ≠ none ∧
      HoldsFrom max (i + 1) (g.write max i fun _ => ⟨none, 0, 0⟩) (Function.update L b none) l := by
  obtain ⟨b, hs, hb⟩ := h.string i l[i] le_rfl (List.getElem?_eq_getElem hi)
  have hbuf : (g.strings i).buffer = some b := by rw [hs]
  have hsame (j : Nat) (hj : i + 1 ≤ j) :
      (g.write max i fun _ => ⟨none, 0, 0⟩).strings j = g.strings j :=
    Function.update_of_ne (by omega) ..
  refine ⟨b, hbuf, by simp [hb], ?_, h.count, h.room, fun j s hj hs' => ?_, fun b' hb' => ?_,
    fun j k hj hjl hk hkl heq => ?_⟩
  · have hroom := h.room
    have hlt : ¬ max ≤ i := by omega
    simp [StringTable.write, h.inside, hlt]
  · obtain ⟨b', hs'', hb'⟩ := h.string j s (by omega) hs'
    have hjl : j < l.length := (List.getElem?_eq_some_iff.mp hs').1
    have hne : b' ≠ b := by
      rintro rfl
      have heq := h.distinct i j le_rfl hi (by omega) hjl (by rw [hs, hs''])
      omega
    exact ⟨b', by rw [hsame j hj, hs''], by rwa [Function.update_of_ne hne]⟩
  · by_cases hbb : b' = b
    · subst hbb
      exact absurd (Function.update_self ..) hb'
    · rw [Function.update_of_ne hbb] at hb'
      obtain ⟨j, hj, hjl, hbuf'⟩ := h.owned b' hb'
      have hne : j ≠ i := by
        rintro rfl
        rw [hbuf] at hbuf'
        exact hbb (Option.some.inj hbuf').symm
      have hj' : i + 1 ≤ j := by omega
      exact ⟨j, hj', hjl, by rw [hsame j hj', hbuf']⟩
  · rw [hsame j hj, hsame k hk] at heq
    exact h.distinct j k (by omega) hjl (by omega) hkl heq

theorem HoldsFrom.nothing (h : HoldsFrom max i g L l) (hi : l.length ≤ i) : L = .empty := by
  funext b
  by_contra hb
  obtain ⟨j, hj, hjl, -⟩ := h.owned b hb
  omega

end Invariant

section Rules

open StringTable

variable {ν : Type} {max cost : Nat} {list : ν → List UnicodeString}
  {spec : TableOp → ν → TableAnswer × ν} {op : TableOp} {g : StringTable} {n : ν}
  {G L : Own Unit (List Wchar)}

theorem filled_eq (g : StringTable) (max : Nat) (copy : Block Unit) (bytes : Nat) :
    { ((g.write max g.count fun s => { s with buffer := some copy }).write max g.count
        fun s => { s with length := bytes }).write max g.count
          fun s => { s with maximumLength := bytes } with count := g.count + 1 } =
      g.filled max copy bytes := by
  simp [StringTable.filled, StringTable.write]

/-- A write within the array keeps what is seen. -/
theorem StringTable.Seen.write {l : List UnicodeString} (h : g.Seen l) {i : Nat} (hi : ¬ max ≤ i)
    (f : TableString → TableString) : (g.write max i f).Seen l :=
  ⟨by simp [StringTable.write, h.1, hi], h.2⟩

theorem wp_insertString {copy : Block Unit} {bytes : Nat} (hseen : g.Seen (list n))
    (hgrown : ¬ max ≤ g.count → (list (spec op n).2).length = (list n).length + 1) :
    (insertString max copy bytes).wp (tableContract max cost list spec) op L (.writing g n)
      fun r L' ph' => L' = L ∧
        (max ≤ g.count ∧ r = (statusQuotaExceeded, some copy) ∧ ph' = .writing g n ∨
          ¬ max ≤ g.count ∧ r = (statusSuccess, none) ∧
            ph' = .writing (g.filled max copy bytes) n) := by
  refine wp_look rfl (wp_ite (fun hfull => ?_) fun hroom => ?_)
  · exact ⟨rfl, Or.inl ⟨hfull, rfl, rfl⟩⟩
  · have hbuffer := hseen.write hroom fun s => { s with buffer := some copy }
    have hlength := hbuffer.write hroom fun s => { s with length := bytes }
    have hmaximum := hlength.write hroom fun s => { s with maximumLength := bytes }
    refine wp_call ⟨g, n, rfl, Or.inl hbuffer, wp_call ⟨_, n, rfl, Or.inl hlength,
      wp_call ⟨_, n, rfl, Or.inl hmaximum, wp_call ⟨_, n, rfl, Or.inr ⟨hmaximum.1, ?_⟩, ?_⟩⟩⟩⟩
    · change g.count + 1 = (list (spec op n).2).length
      rw [hgrown hroom, hseen.2]
    · exact ⟨rfl, Or.inr ⟨hroom, rfl, congrArg (Phase.writing · n) (filled_eq g max copy bytes)⟩⟩

/-- What an addition to the list answers, and what it leaves. -/
def addedString (max maxChars : Nat) (alloc : Bool) (l : List UnicodeString) (s : UnicodeString) :
    NtStatus × List UnicodeString :=
  if s.length = 0 then (statusInvalidParameter, l)
  else if maxChars * 2 < s.length then (statusNameTooLong, l)
  else if !alloc then (statusInsufficientResources, l)
  else if max ≤ l.length then (statusQuotaExceeded, l)
  else (statusSuccess, l ++ [s])

theorem wp_addString {maxChars : Nat} {alloc : Bool} {s : UnicodeString}
    (hspec : ∀ n, (spec op n).1 = .status (addedString max maxChars alloc (list n) s).1 ∧
      list (spec op n).2 = (addedString max maxChars alloc (list n) s).2 ∧
      ((addedString max maxChars alloc (list n) s).2 = list n → (spec op n).2 = n)) :
    (addString max maxChars alloc s).wp (tableContract max cost list spec) op .empty .before
      fun st => Returns (tableContract max cost list spec) op (some (.status st)) := by
  have hrefuse (st : NtStatus)
      (h : ∀ n, addedString max maxChars alloc (list n) s = (st, list n)) :
      Returns (tableContract max cost list spec) op (some (.status st)) .empty .before := by
    refine ⟨fun _ => rfl, fun n => ?_, rfl⟩
    obtain ⟨hans, -, hsame⟩ := hspec n
    rw [h n] at hans hsame
    exact Prod.ext (congrArg some hans) (hsame rfl)
  refine wp_ite (fun hz => hrefuse _ fun n => by rw [addedString, if_pos hz]) fun hz => ?_
  refine wp_ite (fun hlong => hrefuse _ fun n => by rw [addedString, if_neg hz, if_pos hlong])
    fun hlong => ?_
  refine wp_ite (fun hfail => hrefuse _ fun n => by
    rw [addedString, if_neg hz, if_neg hlong, if_pos hfail]) fun halloc => ?_
  refine wp_call fun copy v _ _ _ => wp_call ⟨v, Function.update_self .., wp_call ⟨rfl, ?_⟩⟩
  intro g G n hinv hdisj
  have hG : G copy = none := by
    by_contra hne
    have hnone := hdisj copy hne
    rw [Function.update_self] at hnone
    cases hnone
  have hadded : addedString max maxChars alloc (list n) s =
      if max ≤ (list n).length then (statusQuotaExceeded, list n)
      else (statusSuccess, list n ++ [s]) := by
    rw [addedString, if_neg hz, if_neg hlong, if_neg halloc]
  obtain ⟨hans, hlist, hsame⟩ := hspec n
  rw [Function.update_idem, Own.join_single hG]
  refine wp_bind ((wp_insertString ⟨hinv.inside, hinv.count⟩ fun hroom => ?_).mono ?_)
  · rw [hinv.count] at hroom
    rw [hlist, hadded, if_neg hroom, List.length_append, List.length_singleton]
  rintro _ _ _ ⟨rfl, ⟨hfull, rfl, rfl⟩ | ⟨hroom, rfl, rfl⟩⟩
  · rw [hinv.count] at hfull
    rw [hadded, if_pos hfull] at hans hsame
    -- the table gets back its own blocks, and the copy is freed
    refine wp_call ⟨G, fun b v hb => ?_, ?_, wp_call ⟨?_, ?_⟩⟩
    · rw [Function.update_of_ne]
      · exact hb
      · rintro rfl
        rw [hG] at hb
        cases hb
    · change HoldsFrom max 0 g G (list (spec op n).2)
      rwa [hsame rfl]
    · simp [Own.without, hG]
    · refine ⟨fun b => ?_, congrArg some hans, rfl⟩
      by_cases hb : b = copy
      · subst hb
        simp
      · rw [Function.update_of_ne hb]
        cases hGb : G b <;> simp [Own.without, hGb, hb]
  · rw [hinv.count] at hroom
    rw [hadded, if_neg hroom] at hans hlist
    refine wp_call ⟨_, fun _ _ => id, ?_, ?_⟩
    · change HoldsFrom max 0 _ _ (list (spec op n).2)
      rw [hlist]
      exact hinv.add hroom hG
    · rw [Own.without_self]
      exact ⟨fun _ => rfl, congrArg some hans, rfl⟩

end Rules

section Loops

open StringTable

variable {ν : Type} {max cost : Nat} {list : ν → List UnicodeString}
  {spec : TableOp → ν → TableAnswer × ν} {op : TableOp} {g : StringTable} {n : ν}
  {G L : Own Unit (List Wchar)}

theorem cleared_eq (g : StringTable) (max i : Nat) :
    (((g.write max i fun s => { s with buffer := none }).write max i
      fun s => { s with length := 0 }).write max i fun s => { s with maximumLength := 0 }) =
      g.write max i fun _ => ⟨none, 0, 0⟩ := by
  simp [StringTable.write]

theorem wp_freeLocked {i : Nat} (h : HoldsFrom max i g L (list n)) (hi : i < (list n).length)
    {Q : Unit → Own Unit (List Wchar) → Phase Unit StringTable (List Wchar) (Option TableAnswer) ν →
      Prop}
    (hQ : ∀ L' g', HoldsFrom max (i + 1) g' L' (list n) → Q () L' (.writing g' n)) :
    (freeLocked max i).wp (tableContract max cost list spec) op L (.writing g n) Q := by
  obtain ⟨b, hbuf, hb, hnext⟩ := h.clear hi
  have hroom := h.room
  have hlt : ¬ max ≤ i := by omega
  have hseen : g.Seen (list n) := ⟨h.inside, h.count⟩
  have hbuffer := hseen.write hlt fun s => { s with buffer := none }
  have hlength := hbuffer.write hlt fun s => { s with length := 0 }
  have hmaximum := hlength.write hlt fun s => { s with maximumLength := 0 }
  refine wp_look rfl ?_
  rw [hbuf]
  refine wp_bind (wp_call ⟨hb, g, n, rfl, Or.inl hbuffer, wp_call ⟨_, n, rfl, Or.inl hlength,
    _, n, rfl, Or.inl hmaximum, ?_⟩⟩)
  rw [cleared_eq]
  exact hQ _ _ hnext

/-- The induction is on the fuel; the entries before `i` are cleared. -/
theorem wp_clearFrom (fuel i : Nat) (h : HoldsFrom max i g L (list n))
    (hi : i ≤ (list n).length) (hfuel : (list n).length - i < fuel) :
    (clearFrom max fuel i).wp (tableContract max cost list spec) op L (.writing g n)
      fun r L' ph' => r = some () ∧ L' = .empty ∧ ∃ g', ph' = .writing g' n ∧ g'.Seen (list n) := by
  induction fuel generalizing i g L with
  | zero => omega
  | succ fuel ih =>
    refine wp_look rfl (wp_ite (fun hlt => ?_) fun hge => ?_)
    · rw [h.count] at hlt
      exact wp_bind (wp_freeLocked h hlt fun L' g' h' => ih (i + 1) h' (by omega) (by omega))
    · rw [h.count] at hge
      exact ⟨rfl, h.nothing (by omega), g, rfl, h.inside, h.count⟩

theorem wp_clearStrings
    (hspec : ∀ n, (spec op n).1 = .cleared ∧ list (spec op n).2 = []) :
    (clearStrings max).wp (tableContract max cost list spec) op .empty .before
      fun r => Returns (tableContract max cost list spec) op (r.map fun _ => .cleared) := by
  refine wp_call ⟨rfl, fun g G n hinv _ => ?_⟩
  obtain ⟨hans, hlist⟩ := hspec n
  rw [Own.empty_join]
  refine wp_bind ((wp_clearFrom (max + 1) 0 hinv (Nat.zero_le _) ?_).mono ?_)
  · have hroom := hinv.room
    omega
  rintro _ _ _ ⟨rfl, rfl, g', rfl, hseen⟩
  have hempty : HoldsFrom max 0 { g' with count := 0 } .empty (list (spec op n).2) := by
    rw [hlist]
    exact ⟨hseen.1, rfl, Nat.zero_le _, nofun, fun b hb => absurd rfl hb, nofun⟩
  refine wp_call ⟨g', n, rfl, Or.inr ⟨hseen.1, ?_⟩, wp_call ⟨.empty, fun _ _ => id, hempty, ?_⟩⟩
  · change 0 = (list (spec op n).2).length
    rw [hlist]
    rfl
  · exact ⟨fun _ => rfl, congrArg some hans, rfl⟩

section Scan

variable {C : Contract Unit StringTable (List Wchar) TableOp (Option TableAnswer) ν}
  {l : List UnicodeString} {p : TableString} {s : UnicodeString} {b : Block Unit}

theorem finds_readString (hp : p = ⟨some b, s.length, s.length⟩) (hG : G b = some s.buffer) :
    (readString p).Finds C op L (.reading g G n) (some s.buffer) := by
  subst hp
  have hfits : ¬ 2 * s.buffer.length < s.length := by
    simp only [UnicodeString.length]
    omega
  have hwhole : s.buffer.take (s.length / 2) = s.buffer := by
    rw [List.take_of_length_le]
    simp only [UnicodeString.length]
    omega
  refine wp_call ⟨s.buffer, Or.inr hG, ?_, rfl, rfl⟩
  rw [if_neg hfits, hwhole]

theorem finds_anyString {test : TableString → TableProgram (Option Bool)}
    {hits : UnicodeString → Bool} (h : HoldsFrom max 0 g G l)
    (htest : ∀ (b : Block Unit) (s : UnicodeString), s ∈ l → G b = some s.buffer →
      (test ⟨some b, s.length, s.length⟩).Finds C op L (.reading g G n) (some (hits s)))
    (fuel i : Nat) (hfuel : l.length - i < fuel) :
    (anyString test fuel i).Finds C op L (.reading g G n) (some ((l.drop i).any hits)) := by
  induction fuel generalizing i with
  | zero => omega
  | succ fuel ih =>
    refine wp_look rfl (wp_ite (fun hlt => ?_) fun hge => ?_)
    · rw [h.count] at hlt
      obtain ⟨b, hs, hb⟩ := h.string i l[i] (Nat.zero_le i) (List.getElem?_eq_getElem hlt)
      rw [hs, List.drop_eq_getElem_cons hlt, List.any_cons]
      refine (htest b l[i] (List.getElem_mem hlt) hb).bind ?_
      cases hits l[i] with
      | true => exact ⟨rfl, rfl, rfl⟩
      | false => exact ih (i + 1) (by omega)
    · rw [h.count] at hge
      rw [List.drop_eq_nil_of_le (by omega)]
      exact ⟨rfl, rfl, rfl⟩

end Scan

end Loops

section Runs

open Runs (Reachable)

variable {T ν : Type} [DecidableEq T] {max cost : Nat} {list : ν → List UnicodeString}
  {spec : TableOp → ν → TableAnswer × ν}

abbrev TableSystem (T : Type) :=
  PushLock.System T Unit StringTable (List Wchar) TableOp (Option TableAnswer)

/-- In a run every access is in order, and each operation takes effect at one moment. The
count is never behind by more than the section that is at work. At rest the live blocks are
the buffers of the strings, and the counter has the ticks of the hits. Nobody waits forever
for a lock that nobody will release. -/
structure TableRun (max cost : Nat) (list : ν → List UnicodeString)
    (spec : TableOp → ν → TableAnswer × ν) (program : TableOp → TableProgram (Option TableAnswer))
    (n : ν) (s : TableSystem T) : Prop where
  noMisuse : s.misused = false
  orderly : Ownership.Orderly s.log
  atomic : Linearizable (tableContract max cost list spec) n s.history
  counted : s.table.Seen (list (after (tableContract max cost list spec) n s.history)) ∨
    ∃ t op, s.writer = some t ∧ s.operation t = some op ∧
      s.table.Seen (list (spec op (after (tableContract max cost list spec) n s.history)).2)
  settled : s.AtRest → ∃ G,
    HoldsFrom max 0 s.table G (list (after (tableContract max cost list spec) n s.history)) ∧
      s.Keeps G
  ticked : s.AtRest → s.ticks.Perm (charges (tableContract max cost list spec) s.history)
  progress : ∀ t, s.running t ≠ none → ∃ t' s', PushLock.step program s (.step t') = some s'

theorem tableRun_of_reachable {program : TableOp → TableProgram (Option TableAnswer)} {n : ν}
    {content : Block Unit → List Wchar} {s : TableSystem T}
    (hs : PushLock.Sound (tableContract max cost list spec) program) (hn : list n = [])
    (h : Reachable (PushLock.step program) (.init .zeroed content) s) :
    TableRun max cost list spec program n s := by
  have hinv : (tableContract max cost list spec).inv .zeroed .empty n := by
    change HoldsFrom max 0 .zeroed .empty (list n)
    rw [hn]
    exact ⟨rfl, rfl, Nat.zero_le _, nofun, fun b hb => absurd rfl hb, nofun⟩
  obtain ⟨g, hk⟩ := kept_of_reachable hs hinv h
  exact ⟨hk.lock.noMisuse, hk.memory.orderly, hk.explained, hk.lock.seen,
    fun hrest => (hk.rest hrest).1, fun hrest => (hk.rest hrest).2, fun _ => hk.progress⟩

end Runs

end KnFileCatcher

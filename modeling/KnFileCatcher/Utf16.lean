import Mathlib.Tactic

/-! Texts of 16-bit units and the characters they spell. A high surrogate and a low one
behind it spell one character; a surrogate that is not in such a pair spells none, and a
decoder puts U+FFFD in its place. -/

namespace Utf16

abbrev CodeUnit := BitVec 16

def isHigh (c : CodeUnit) : Bool := decide (0xD800 ≤ c.toNat) && decide (c.toNat < 0xDC00)
def isLow (c : CodeUnit) : Bool := decide (0xDC00 ≤ c.toNat) && decide (c.toNat < 0xE000)
def isSurrogate (c : CodeUnit) : Bool := isHigh c || isLow c

/-- The character of a unit that stands alone. -/
def single (c : CodeUnit) : Char :=
  if isSurrogate c then Char.ofNat 0xFFFD else Char.ofNat c.toNat

def pair (hi lo : CodeUnit) : Char :=
  Char.ofNat (0x10000 + (hi.toNat - 0xD800) * 0x400 + (lo.toNat - 0xDC00))

def decode : List CodeUnit → List Char
  | [] => []
  | [c] => [single c]
  | c :: d :: s =>
    if isHigh c && isLow d then pair c d :: decode s else single c :: decode (d :: s)

def encodeChar (ch : Char) : List CodeUnit :=
  if ch.toNat < 0x10000 then [BitVec.ofNat 16 ch.toNat]
  else
    [BitVec.ofNat 16 (0xD800 + (ch.toNat - 0x10000) / 0x400),
      BitVec.ofNat 16 (0xDC00 + (ch.toNat - 0x10000) % 0x400)]

def encode (cs : List Char) : List CodeUnit := cs.flatMap encodeChar

/-- The text as it comes back from a decoder. -/
def repair (s : List CodeUnit) : List CodeUnit := encode (decode s)

inductive WellFormed : List CodeUnit → Prop where
  | nil : WellFormed []
  | unit {c : CodeUnit} {s : List CodeUnit} (hc : isSurrogate c = false) (hs : WellFormed s) :
      WellFormed (c :: s)
  | pair {c d : CodeUnit} {s : List CodeUnit} (hc : isHigh c = true) (hd : isLow d = true)
      (hs : WellFormed s) : WellFormed (c :: d :: s)

section Units

variable {c d : CodeUnit}

theorem isHigh_iff : isHigh c = true ↔ 0xD800 ≤ c.toNat ∧ c.toNat < 0xDC00 := by
  simp [isHigh]

theorem isLow_iff : isLow c = true ↔ 0xDC00 ≤ c.toNat ∧ c.toNat < 0xE000 := by
  simp [isLow]

theorem not_surrogate_iff : isSurrogate c = false ↔ c.toNat < 0xD800 ∨ 0xE000 ≤ c.toNat := by
  rw [isSurrogate, Bool.or_eq_false_iff, ← Bool.not_eq_true, ← Bool.not_eq_true, isHigh_iff,
    isLow_iff]
  omega

theorem toNat_char {n : Nat} (h : n.isValidChar) : (Char.ofNat n).toNat = n := by
  rw [Char.ofNat, dif_pos h]
  rfl

theorem toNat_single (h : isSurrogate c = false) : (single c).toNat = c.toNat := by
  have hlt := c.isLt
  have hvalid : c.toNat.isValidChar := by
    rw [not_surrogate_iff] at h
    unfold Nat.isValidChar
    omega
  rw [single, h, if_neg Bool.false_ne_true, toNat_char hvalid]

theorem toNat_pair (hc : isHigh c = true) (hd : isLow d = true) : (pair c d).toNat =
    0x10000 + (c.toNat - 0xD800) * 0x400 + (d.toNat - 0xDC00) := by
  rw [isHigh_iff] at hc
  rw [isLow_iff] at hd
  have hvalid : (0x10000 + (c.toNat - 0xD800) * 0x400 + (d.toNat - 0xDC00)).isValidChar := by
    unfold Nat.isValidChar
    omega
  rw [pair, toNat_char hvalid]

theorem encodeChar_single (h : isSurrogate c = false) : encodeChar (single c) = [c] := by
  have hlt := c.isLt
  have hsmall : (single c).toNat < 0x10000 := by
    rw [toNat_single h]
    omega
  rw [encodeChar, if_pos hsmall, toNat_single h, BitVec.ofNat_toNat, BitVec.setWidth_eq]

theorem encodeChar_lone (h : isSurrogate c = true) : encodeChar (single c) = [0xFFFD] := by
  rw [single, h, if_pos rfl]
  rfl

theorem encodeChar_pair (hc : isHigh c = true) (hd : isLow d = true) :
    encodeChar (pair c d) = [c, d] := by
  have hnat := toNat_pair hc hd
  rw [isHigh_iff] at hc
  rw [isLow_iff] at hd
  have hbig : ¬ (pair c d).toNat < 0x10000 := by omega
  have hhigh : 0xD800 + ((pair c d).toNat - 0x10000) / 0x400 = c.toNat := by omega
  have hlow : 0xDC00 + ((pair c d).toNat - 0x10000) % 0x400 = d.toNat := by omega
  rw [encodeChar, if_neg hbig, hhigh, hlow, BitVec.ofNat_toNat, BitVec.ofNat_toNat,
    BitVec.setWidth_eq, BitVec.setWidth_eq]

end Units

section Decode

variable {c d : CodeUnit} {s t : List CodeUnit}

theorem decode_pair (hc : isHigh c = true) (hd : isLow d = true) :
    decode (c :: d :: s) = pair c d :: decode s := by
  rw [decode, hc, hd, Bool.and_self, if_pos rfl]

/-- A unit that starts no pair. -/
theorem decode_single (h : isHigh c = true → ∀ d ∈ s.head?, isLow d = false) :
    decode (c :: s) = single c :: decode s := by
  cases s with
  | nil => rfl
  | cons d s =>
    have hno : (isHigh c && isLow d) = false := by
      cases hc : isHigh c with
      | false => rfl
      | true => exact h hc d rfl
    rw [decode, hno, if_neg Bool.false_ne_true]

theorem decode_unit (h : isSurrogate c = false) : decode (c :: s) = single c :: decode s := by
  refine decode_single fun hc => ?_
  rw [isSurrogate, hc] at h
  cases h

theorem decode_plain (h : ∀ c ∈ s, isSurrogate c = false) (t : List CodeUnit) :
    decode (s ++ t) = s.map single ++ decode t := by
  induction s with
  | nil => rfl
  | cons c s ih =>
    have hs : ∀ c ∈ s, isSurrogate c = false := fun c hc => h c (List.mem_cons_of_mem _ hc)
    rw [List.cons_append, decode_unit (h c List.mem_cons_self), ih hs]
    rfl

/-- A text behind another one whose last unit it does not complete. -/
theorem decode_append (h : ∀ d ∈ t.head?, isLow d = false) :
    decode (s ++ t) = decode s ++ decode t := by
  induction s using decode.induct with
  | case1 => rfl
  | case2 c => exact decode_single fun _ => h
  | case3 c d s hpair ih =>
    obtain ⟨hc, hd⟩ := Bool.and_eq_true_iff.mp hpair
    rw [List.cons_append, List.cons_append, decode_pair hc hd, decode_pair hc hd, ih]
    rfl
  | case4 c d s hno ih =>
    have halone (u : List CodeUnit) : decode (c :: d :: u) = single c :: decode (d :: u) := by
      rw [decode, if_neg hno]
    rw [List.cons_append, List.cons_append, halone, halone, ← List.cons_append, ih]
    rfl

/-- A character below the surrogates comes from a unit of its own. -/
theorem mem_of_mem_decode {ch : Char} (hch : ch.toNat < 0xD800) (h : ch ∈ decode s) :
    BitVec.ofNat 16 ch.toNat ∈ s := by
  have hsingle (c : CodeUnit) (hc : ch = single c) : c = BitVec.ofNat 16 ch.toNat := by
    cases hs : isSurrogate c with
    | true =>
      have hvalid : Nat.isValidChar 0xFFFD := by
        unfold Nat.isValidChar
        omega
      rw [hc, single, hs, if_pos rfl, toNat_char hvalid] at hch
      omega
    | false => rw [hc, toNat_single hs, BitVec.ofNat_toNat, BitVec.setWidth_eq]
  induction s using decode.induct with
  | case1 => cases h
  | case2 c => exact List.mem_singleton.mpr (hsingle c (List.mem_singleton.mp h)).symm
  | case3 c d s hpair ih =>
    obtain ⟨hc, hd⟩ := Bool.and_eq_true_iff.mp hpair
    rw [decode_pair hc hd] at h
    obtain heq | h := List.mem_cons.mp h
    · rw [heq, toNat_pair hc hd] at hch
      omega
    · exact List.mem_cons_of_mem _ (List.mem_cons_of_mem _ (ih h))
  | case4 c d s hno ih =>
    rw [decode, if_neg hno] at h
    obtain h | h := List.mem_cons.mp h
    · rw [← hsingle c h]
      exact List.mem_cons_self
    · exact List.mem_cons_of_mem _ (ih h)

end Decode

section Repair

variable {c d : CodeUnit} {s t : List CodeUnit}

theorem repair_append (h : ∀ d ∈ t.head?, isLow d = false) :
    repair (s ++ t) = repair s ++ repair t := by
  rw [repair, decode_append h, encode, List.flatMap_append]
  rfl

theorem repair_plain (h : ∀ c ∈ s, isSurrogate c = false) (t : List CodeUnit) :
    repair (s ++ t) = s ++ repair t := by
  have hs : (s.map single).flatMap encodeChar = s := by
    rw [List.flatMap_map]
    conv_rhs => rw [← List.flatMap_singleton' s]
    exact List.flatMap_congr fun c hc => encodeChar_single (h c hc)
  rw [repair, decode_plain h, encode, List.flatMap_append, hs]
  rfl

theorem repair_pair (hc : isHigh c = true) (hd : isLow d = true) :
    repair (c :: d :: s) = c :: d :: repair s := by
  rw [repair, decode_pair hc hd, encode, List.flatMap_cons, encodeChar_pair hc hd]
  rfl

theorem repair_lone (hc : isSurrogate c = true)
    (h : isHigh c = true → ∀ d ∈ s.head?, isLow d = false) : repair (c :: s) = 0xFFFD :: repair s := by
  rw [repair, decode_single h, encode, List.flatMap_cons, encodeChar_lone hc]
  rfl

theorem repair_eq_of_wellFormed (h : WellFormed s) : repair s = s := by
  induction h with
  | nil => rfl
  | @unit c s hc hs ih =>
    have hplain := @repair_plain [c] (by simpa using hc) s
    rw [List.singleton_append] at hplain
    rw [hplain, ih]
    rfl
  | pair hc hd hs ih => rw [repair_pair hc hd, ih]

/-- A text survives its decoding exactly if no surrogate of it is alone. -/
theorem repair_eq_iff : repair s = s ↔ WellFormed s := by
  refine ⟨fun h => ?_, repair_eq_of_wellFormed⟩
  have hbody (c : CodeUnit) (s : List CodeUnit)
      (hfirst : isHigh c = true → ∀ d ∈ s.head?, isLow d = false) (h : repair (c :: s) = c :: s) :
      isSurrogate c = false ∧ repair s = s := by
    cases hc : isSurrogate c with
    | true =>
      rw [repair_lone hc hfirst] at h
      rw [← (List.cons.inj h).1] at hc
      cases hc
    | false =>
      have hplain := @repair_plain [c] (by simpa using hc) s
      rw [List.singleton_append] at hplain
      rw [hplain] at h
      exact ⟨rfl, (List.cons.inj h).2⟩
  induction s using decode.induct with
  | case1 => exact .nil
  | case2 c =>
    have hfirst : isHigh c = true → ∀ d ∈ ([] : List CodeUnit).head?, isLow d = false :=
      fun _ d hd => by cases hd
    exact .unit (hbody c [] hfirst h).1 .nil
  | case3 c d s hpair ih =>
    obtain ⟨hc, hd⟩ := Bool.and_eq_true_iff.mp hpair
    rw [repair_pair hc hd] at h
    exact .pair hc hd (ih (List.cons.inj (List.cons.inj h).2).2)
  | case4 c d s hno ih =>
    have hfirst : isHigh c = true → ∀ e ∈ (d :: s).head?, isLow e = false := by
      intro hc e he
      obtain rfl : d = e := by simpa using he
      simpa [hc] using hno
    obtain ⟨hc, hs⟩ := hbody c (d :: s) hfirst h
    exact .unit hc (ih hs)

/-- A writer that leaves surrogates alone, and writes something for every other unit. -/
structure Transparent (f : CodeUnit → List CodeUnit) : Prop where
  surrogate : ∀ c, isSurrogate c = true → f c = [c]
  plain : ∀ c, isSurrogate c = false → f c ≠ [] ∧ ∀ d ∈ f c, isSurrogate d = false
  replacement : f 0xFFFD = [0xFFFD]

theorem Transparent.head {f : CodeUnit → List CodeUnit} (hf : Transparent f)
    (h : ∀ d ∈ s.head?, isLow d = false) : ∀ d ∈ (s.flatMap f).head?, isLow d = false := by
  intro d hd
  cases s with
  | nil => cases hd
  | cons c s =>
    rw [List.flatMap_cons] at hd
    cases hc : isSurrogate c with
    | true =>
      rw [hf.surrogate c hc] at hd
      obtain rfl : c = d := by simpa using hd
      exact h c rfl
    | false =>
      obtain ⟨hne, hplain⟩ := hf.plain c hc
      have hmem : d ∈ f c := by
        rw [List.head?_append_of_ne_nil _ hne] at hd
        exact List.mem_of_mem_head? hd
      have hno := hplain d hmem
      rw [isSurrogate, Bool.or_eq_false_iff] at hno
      exact hno.2

theorem Transparent.repair_flatMap {f : CodeUnit → List CodeUnit} (hf : Transparent f)
    (s : List CodeUnit) : repair (s.flatMap f) = (repair s).flatMap f := by
  have hstep (c : CodeUnit) (s : List CodeUnit)
      (hfirst : isHigh c = true → ∀ d ∈ s.head?, isLow d = false)
      (ih : repair (s.flatMap f) = (repair s).flatMap f) :
      repair ((c :: s).flatMap f) = (repair (c :: s)).flatMap f := by
    rw [List.flatMap_cons]
    cases hc : isSurrogate c with
    | true =>
      have hlone := @repair_lone c (s.flatMap f) hc fun hhigh => hf.head (hfirst hhigh)
      rw [hf.surrogate c hc, List.singleton_append, hlone, ih, repair_lone hc hfirst,
        List.flatMap_cons, hf.replacement]
      rfl
    | false =>
      have hplain := @repair_plain [c] (by simpa using hc) s
      rw [List.singleton_append] at hplain
      rw [repair_plain (hf.plain c hc).2, ih, hplain]
      rfl
  induction s using decode.induct with
  | case1 => rfl
  | case2 c => exact hstep c [] (fun _ d hd => by cases hd) rfl
  | case3 c d s hpair ih =>
    obtain ⟨hc, hd⟩ := Bool.and_eq_true_iff.mp hpair
    have hsc : isSurrogate c = true := by rw [isSurrogate, hc, Bool.true_or]
    have hsd : isSurrogate d = true := by rw [isSurrogate, hd, Bool.or_true]
    rw [repair_pair hc hd, List.flatMap_cons, List.flatMap_cons, List.flatMap_cons,
      List.flatMap_cons, hf.surrogate c hsc, hf.surrogate d hsd, List.singleton_append,
      List.singleton_append, repair_pair hc hd, ih]
    rfl
  | case4 c d s hno ih =>
    refine hstep c (d :: s) ?_ ih
    intro hc e he
    obtain rfl : d = e := by simpa using he
    simpa [hc] using hno

end Repair

end Utf16

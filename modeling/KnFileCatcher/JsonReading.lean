import KnFileCatcher.Json

/-! What the grammar derives is what the parser reads. -/

namespace Json

section Numbers

/-- A unit that can stand neither in a number nor behind its digits. -/
def EndsNumber (c : CodeUnit) : Prop :=
  isDigit c = false ∧ c ≠ decimalPoint ∧ isExponentMark c = false

/-- No digit comes first. -/
def NoDigit (t : Text) : Prop := ∀ c ∈ t.head?, isDigit c = false

def NoFraction (t : Text) : Prop := ∀ c ∈ t.head?, isDigit c = false ∧ c ≠ decimalPoint

def NoNumber (t : Text) : Prop := ∀ c ∈ t.head?, EndsNumber c

variable {s t : Text}

theorem NoFraction.noDigit (ht : NoFraction t) : NoDigit t := fun c hc => (ht c hc).1

theorem NoNumber.noFraction (ht : NoNumber t) : NoFraction t :=
  fun c hc => ⟨(ht c hc).1, (ht c hc).2.1⟩

theorem noNumber_cons {c : CodeUnit} (hc : EndsNumber c) : NoNumber (c :: t) := by
  intro d hd
  obtain rfl : c = d := by simpa using hd
  exact hc

theorem endsNumber_of_isWhitespace {c : CodeUnit} (hc : isWhitespace c = true) : EndsNumber c := by
  simp only [isWhitespace, Bool.or_eq_true, decide_eq_true_eq] at hc
  rcases hc with ((rfl | rfl) | rfl) | rfl <;> exact ⟨by decide, by decide, by decide⟩

theorem parseDigits_complete {ds : Text} (h : Digits s ds t) (ht : NoDigit t) :
    parseDigits s = some (ds, t) := by
  obtain ⟨hne, hds, t⟩ := h
  have htake : (ds ++ t).takeWhile isDigit = ds := by
    rw [List.takeWhile_append_of_pos hds]
    cases t with
    | nil => rw [List.takeWhile_nil, List.append_nil]
    | cons c t =>
      rw [List.takeWhile_cons_of_neg (by simp [ht c rfl]), List.append_nil]
  have hdrop : (ds ++ t).dropWhile isDigit = t := by
    rw [List.dropWhile_append_of_pos hds]
    cases t with
    | nil => rfl
    | cons c t => rw [List.dropWhile_cons_of_neg (by simp [ht c rfl])]
  rw [parseDigits, htake, hdrop, if_neg hne]

theorem Digits.head {ds : Text} (h : Digits s ds t) :
    ∃ d s', s = d :: s' ∧ ds.head? = some d ∧ isDigit d = true := by
  obtain ⟨hne, hds, t⟩ := h
  obtain ⟨d, ds, rfl⟩ := List.exists_cons_of_ne_nil hne
  exact ⟨d, ds ++ t, rfl, rfl, hds d List.mem_cons_self⟩

theorem parseInt_complete {i : Text} (h : IsInt s i t) (ht : NoDigit t) :
    parseInt s = some (i, t) := by
  cases h with
  | zero => rfl
  | digits hs h0 =>
    obtain ⟨d, s', rfl, hd, -⟩ := hs.head
    have hne : d ≠ zero := fun heq => h0 (heq ▸ hd)
    rw [parseInt, if_neg hne, parseDigits_complete hs ht]

theorem IsInt.head {i : Text} (h : IsInt s i t) : ∃ d s', s = d :: s' ∧ isDigit d = true := by
  cases h with
  | zero => exact ⟨Json.zero, _, rfl, by decide⟩
  | digits hs h0 =>
    obtain ⟨d, s', hs, -, hd⟩ := hs.head
    exact ⟨d, s', hs, hd⟩

theorem parseFrac_complete {f : Text} (h : IsFrac s f t) (ht : NoFraction t) :
    parseFrac s = some (f, t) := by
  cases h with
  | none =>
    cases s with
    | nil => rfl
    | cons c s => rw [parseFrac, if_neg (ht c rfl).2]
  | digits hs => rw [parseFrac, if_pos rfl, parseDigits_complete hs ht.noDigit]

theorem IsFrac.noDigit {f : Text} (h : IsFrac s f t) (ht : NoFraction t) : NoDigit s := by
  cases h with
  | none => exact ht.noDigit
  | digits hs =>
    intro c hc
    obtain rfl : decimalPoint = c := by simpa using hc
    decide

theorem parseExp_complete {e : Int} (h : IsExp s e t) (ht : NoNumber t) :
    parseExp s = some (e, t) := by
  have hdigit {d : CodeUnit} (hd : isDigit d = true) : d ≠ minus ∧ d ≠ plus := by
    constructor <;> rintro rfl <;> exact absurd hd (by decide)
  cases h with
  | none =>
    cases s with
    | nil => rfl
    | cons c s => rw [parseExp, (ht c rfl).2.2, if_neg Bool.false_ne_true]
  | unsigned hc hs =>
    have hread := parseDigits_complete hs ht.noFraction.noDigit
    obtain ⟨d, s', rfl, -, hd⟩ := hs.head
    rw [parseExp, if_pos hc, parseSigned, if_neg (hdigit hd).1, if_neg (hdigit hd).2, hread]
    rfl
  | positive hc hs =>
    rw [parseExp, if_pos hc, parseSigned, if_neg (by decide), if_pos rfl,
      parseDigits_complete hs ht.noFraction.noDigit]
    rfl
  | negative hc hs =>
    rw [parseExp, if_pos hc, parseSigned, if_pos rfl,
      parseDigits_complete hs ht.noFraction.noDigit]
    rfl

theorem IsExp.noFraction {e : Int} (h : IsExp s e t) (ht : NoNumber t) : NoFraction s := by
  have hmark {c : CodeUnit} {s : Text} (hc : isExponentMark c = true) : NoFraction (c :: s) := by
    intro d hd
    obtain rfl : c = d := by simpa using hd
    simp only [isExponentMark, Bool.or_eq_true, decide_eq_true_eq] at hc
    rcases hc with rfl | rfl <;> exact ⟨by decide, by decide⟩
  cases h with
  | none => exact ht.noFraction
  | unsigned hc hs => exact hmark hc
  | positive hc hs => exact hmark hc
  | negative hc hs => exact hmark hc

theorem parseUnsigned_complete {i f s' s'' : Text} {e : Int} (sign : Int) (hi : IsInt s i s')
    (hf : IsFrac s' f s'') (he : IsExp s'' e t) (ht : NoNumber t) :
    parseUnsigned sign s = some (⟨sign * digitsValue (i ++ f), e - f.length⟩, t) := by
  have hfraction := he.noFraction ht
  rw [parseUnsigned, parseInt_complete hi (hf.noDigit hfraction), Option.bind_some,
    parseFrac_complete hf hfraction, Option.bind_some, parseExp_complete he ht]
  rfl

theorem parseNumber_complete {n : Number} (h : IsNumber s n t) (ht : NoNumber t) :
    parseNumber s = some (n, t) := by
  cases h with
  | positive hi hf he =>
    have hread := parseUnsigned_complete 1 hi hf he ht
    obtain ⟨d, s', rfl, hd⟩ := hi.head
    have hne : d ≠ minus := by
      rintro rfl
      exact absurd hd (by decide)
    rw [parseNumber, if_neg hne, hread, one_mul]
  | negative hi hf he =>
    rw [parseNumber, if_pos rfl, parseUnsigned_complete (-1) hi hf he ht, neg_one_mul]

theorem IsNumber.head {n : Number} (h : IsNumber s n t) :
    ∃ c s', s = c :: s' ∧ (isDigit c = true ∨ c = minus) := by
  cases h with
  | positive hi hf he =>
    obtain ⟨d, s', hs, hd⟩ := hi.head
    exact ⟨d, s', hs, .inl hd⟩
  | negative hi hf he => exact ⟨minus, _, rfl, .inr rfl⟩

end Numbers

section Pieces

variable {s t : Text}

theorem Ws.length_le (h : Ws s t) : t.length ≤ s.length := by
  induction h with
  | nil => exact le_rfl
  | cons hc hs ih => exact ih.trans (Nat.le_succ _)

theorem Ws.skipWs_eq (h : Ws s t) (ht : ∀ c ∈ t.head?, isWhitespace c = false) :
    skipWs s = t := by
  induction h with
  | nil s =>
    cases s with
    | nil => rfl
    | cons c s => simp [skipWs, ht c rfl]
  | cons hc hs ih =>
    have hskip := ih ht
    rw [skipWs] at hskip ⊢
    rw [List.dropWhile_cons_of_pos hc, hskip]

theorem Ws.skipWs_cons {c : CodeUnit} (h : Ws s (c :: t)) (hc : isWhitespace c = false) :
    skipWs s = c :: t := by
  refine h.skipWs_eq fun d hd => ?_
  obtain rfl : c = d := by simpa using hd
  exact hc

theorem Ws.expect_eq {c : CodeUnit} (h : Ws s (c :: t)) (hc : isWhitespace c = false) :
    expect c s = some t := by
  rw [expect, h.skipWs_cons hc]
  exact if_pos rfl

theorem Ws.expect_none {c d : CodeUnit} (h : Ws s (d :: t)) (hd : isWhitespace d = false)
    (hne : d ≠ c) : expect c s = none := by
  rw [expect, h.skipWs_cons hd]
  exact if_neg hne

theorem Ws.noNumber (h : Ws s t) (ht : NoNumber t) : NoNumber s := by
  cases h with
  | nil => exact ht
  | cons hc hs => exact noNumber_cons (endsNumber_of_isWhitespace hc)

theorem parseChars_complete {u : Text} (h : IsChars s u t) : parseChars s = some (u, t) := by
  induction h with
  | close => rw [parseChars.eq_def]; exact if_pos rfl
  | unescaped hc hq hr hs ih =>
    rw [parseChars.eq_def]
    simp only [hq, hr, if_false, Nat.not_lt.mpr hc, ih, Option.map_some]
  | @escaped e c s u t he hs ih =>
    have hu : e ≠ unit 'u' := by
      rintro rfl
      cases he
    have hq : reverseSolidus ≠ quotationMark := by decide
    rw [parseChars.eq_def]
    simp only [hq, hu, if_false, if_true, he, Option.bind_some, ih, Option.map_some]
  | hex hx hs ih =>
    have hq : reverseSolidus ≠ quotationMark := by decide
    rw [parseChars.eq_def]
    simp only [hq, if_false, if_true, hx, Option.bind_some, ih, Option.map_some]

theorem IsChars.length_lt {u : Text} (h : IsChars s u t) : t.length < s.length := by
  induction h with
  | close => exact Nat.lt_succ_self _
  | unescaped hc hq hr hs ih => exact ih.trans (Nat.lt_succ_self _)
  | escaped he hs ih =>
    simp only [List.length_cons]
    omega
  | hex hx hs ih =>
    simp only [List.length_cons]
    omega

theorem Digits.length_le {ds : Text} (h : Digits s ds t) : t.length ≤ s.length := by
  obtain ⟨hne, hds, t⟩ := h
  rw [List.length_append]
  exact Nat.le_add_left _ _

theorem IsNumber.length_le {n : Number} (h : IsNumber s n t) : t.length ≤ s.length := by
  have hint {s t i : Text} (h : IsInt s i t) : t.length ≤ s.length := by
    cases h with
    | zero => exact Nat.le_succ _
    | digits hs h0 => exact hs.length_le
  have hfrac {s t f : Text} (h : IsFrac s f t) : t.length ≤ s.length := by
    cases h with
    | none => exact le_rfl
    | digits hs => exact hs.length_le.trans (Nat.le_succ _)
  have hexp {s t : Text} {e : Int} (h : IsExp s e t) : t.length ≤ s.length := by
    cases h with
    | none => exact le_rfl
    | unsigned hc hs => exact hs.length_le.trans (Nat.le_succ _)
    | positive hc hs => exact hs.length_le.trans (Nat.le_add_right _ 2)
    | negative hc hs => exact hs.length_le.trans (Nat.le_add_right _ 2)
  cases h with
  | positive hi hf he => exact (hexp he).trans ((hfrac hf).trans (hint hi))
  | negative hi hf he => exact (hexp he).trans ((hfrac hf).trans ((hint hi).trans (Nat.le_succ _)))

end Pieces

section Values

theorem numberHead_ne {c d : CodeUnit} (hc : isDigit c = true ∨ c = minus)
    (hd : isDigit d = false) (hm : d ≠ minus) : c ≠ d := by
  rintro rfl
  exact hc.elim (fun h => absurd (h.symm.trans hd) (by decide)) hm

theorem numberHead_ws {c : CodeUnit} (hc : isDigit c = true ∨ c = minus) :
    isWhitespace c = false := by
  have hspace : c ≠ 0x20 := numberHead_ne hc (by decide) (by decide)
  have htab : c ≠ 0x09 := numberHead_ne hc (by decide) (by decide)
  have hlf : c ≠ 0x0A := numberHead_ne hc (by decide) (by decide)
  have hcr : c ≠ 0x0D := numberHead_ne hc (by decide) (by decide)
  rw [isWhitespace, decide_eq_false hspace, decide_eq_false htab, decide_eq_false hlf,
    decide_eq_false hcr]
  rfl

theorem parseValue_number {c : CodeUnit} (hc : isDigit c = true ∨ c = minus) (fuel : Nat)
    (s : Text) : parseValue (fuel + 1) (c :: s) =
      (parseNumber (c :: s)).map fun r => (.number r.1, r.2) := by
  rw [parseValue, if_neg (numberHead_ne hc (by decide) (by decide)),
    if_neg (numberHead_ne hc (by decide) (by decide)),
    if_neg (numberHead_ne hc (by decide) (by decide)),
    if_neg (numberHead_ne hc (by decide) (by decide)),
    if_neg (numberHead_ne hc (by decide) (by decide)),
    if_neg (numberHead_ne hc (by decide) (by decide))]

/-- No value begins with whitespace, or with the end of an array. -/
theorem isValue_head {s t : Text} {v : Value} (h : IsValue s v t) :
    ∃ c s', s = c :: s' ∧ isWhitespace c = false ∧ c ≠ endArray := by
  cases h with
  | null => exact ⟨unit 'n', _, rfl, by decide, by decide⟩
  | true => exact ⟨unit 't', _, rfl, by decide, by decide⟩
  | false => exact ⟨unit 'f', _, rfl, by decide, by decide⟩
  | number hs =>
    obtain ⟨c, s', rfl, hc⟩ := hs.head
    exact ⟨c, s', rfl, numberHead_ws hc, numberHead_ne hc (by decide) (by decide)⟩
  | string hs => exact ⟨quotationMark, _, rfl, by decide, by decide⟩
  | emptyArray hs => exact ⟨beginArray, _, rfl, by decide, by decide⟩
  | array hs => exact ⟨beginArray, _, rfl, by decide, by decide⟩
  | emptyObject hs => exact ⟨beginObject, _, rfl, by decide, by decide⟩
  | object hs => exact ⟨beginObject, _, rfl, by decide, by decide⟩

theorem skipWs_isValue {s s' t : Text} {v : Value} (hws : Ws s s') (hv : IsValue s' v t) :
    skipWs s = s' := by
  obtain ⟨c, rest, rfl, hc, -⟩ := isValue_head hv
  exact hws.skipWs_cons hc

mutual

theorem length_isValue {s t : Text} {v : Value} (h : IsValue s v t) : t.length ≤ s.length := by
  cases h with
  | null | true | false =>
    rw [List.length_append]
    exact Nat.le_add_left _ _
  | number hs => exact hs.length_le
  | string hs => exact hs.length_lt.le.trans (Nat.le_succ _)
  | emptyArray hs | emptyObject hs =>
    have hend := hs.length_le
    simp only [List.length_cons] at hend ⊢
    omega
  | array hs => exact (length_isElements hs).le.trans (Nat.le_succ _)
  | object hs => exact (length_isMembers hs).le.trans (Nat.le_succ _)

theorem length_isElements {s t : Text} {vs : List Value} (h : IsElements s vs t) :
    t.length < s.length := by
  cases h with
  | last hws hv hend =>
    have hvalue := length_isValue hv
    have hlead := hws.length_le
    have hclose := hend.length_le
    simp only [List.length_cons] at hclose
    omega
  | more hws hv hsep hs =>
    have hvalue := length_isValue hv
    have hrest := length_isElements hs
    have hlead := hws.length_le
    have hcomma := hsep.length_le
    simp only [List.length_cons] at hcomma
    omega

theorem length_isMembers {s t : Text} {ms : List (Text × Value)} (h : IsMembers s ms t) :
    t.length < s.length := by
  cases h with
  | last hws hn hcolon hws' hv hend =>
    have hvalue := length_isValue hv
    have hname := hn.length_lt
    have hquote := hws.length_le
    have hlead := hcolon.length_le
    have hlead' := hws'.length_le
    have hclose := hend.length_le
    simp only [List.length_cons] at hquote hlead hclose
    omega
  | more hws hn hcolon hws' hv hsep hs =>
    have hvalue := length_isValue hv
    have hrest := length_isMembers hs
    have hname := hn.length_lt
    have hquote := hws.length_le
    have hlead := hcolon.length_le
    have hlead' := hws'.length_le
    have hcomma := hsep.length_le
    simp only [List.length_cons] at hquote hlead hcomma
    omega

end

theorem parseLiteral_append (name : String) (v : Value) (t : Text) :
    parseLiteral name v (name.toList.map unit ++ t) = some (v, t) := by
  have hdrop : (name.toList.map unit ++ t).drop name.toList.length = t :=
    List.drop_left' (List.length_map _)
  rw [parseLiteral, if_pos (List.prefix_append _ _), hdrop]

theorem expect_isElements {s t : Text} {vs : List Value} (h : IsElements s vs t) :
    expect endArray s = none := by
  cases h with
  | last hws hv hend =>
    obtain ⟨c, rest, rfl, hc, hne⟩ := isValue_head hv
    exact hws.expect_none hc hne
  | more hws hv hsep hs =>
    obtain ⟨c, rest, rfl, hc, hne⟩ := isValue_head hv
    exact hws.expect_none hc hne

theorem expect_isMembers {s t : Text} {ms : List (Text × Value)} (h : IsMembers s ms t) :
    expect endObject s = none := by
  cases h with
  | last hws => exact hws.expect_none (by decide) (by decide)
  | more hws => exact hws.expect_none (by decide) (by decide)

theorem noNumber_end {r t : Text} {c : CodeUnit} (h : Ws r (c :: t)) (hc : EndsNumber c) :
    NoNumber r := h.noNumber (noNumber_cons hc)

mutual

theorem parseValue_complete {s t : Text} {v : Value} (h : IsValue s v t) (ht : NoNumber t)
    {fuel : Nat} (hfuel : s.length ≤ fuel) : parseValue fuel s = some (v, t) := by
  obtain ⟨fuel, rfl⟩ : ∃ n, fuel = n + 1 := by
    obtain ⟨c, s', rfl, -⟩ := isValue_head h
    exact Nat.exists_eq_succ_of_ne_zero (by simp only [List.length_cons] at hfuel; omega)
  cases h with
  | null => exact parseLiteral_append "null" .null t
  | true => exact parseLiteral_append "true" (.bool .true) t
  | false => exact parseLiteral_append "false" (.bool .false) t
  | number hs =>
    have hread := parseNumber_complete hs ht
    obtain ⟨c, s', rfl, hc⟩ := hs.head
    rw [parseValue_number hc, hread]
    rfl
  | string hs =>
    rw [parseValue, if_pos rfl, parseChars_complete hs]
    rfl
  | emptyArray hs =>
    rw [parseValue, if_neg (by decide), if_neg (by decide), if_pos rfl, hs.expect_eq (by decide)]
  | array hs =>
    have hread := parseElements_complete hs (Nat.le_of_succ_le_succ hfuel)
      (Nat.le_of_succ_le_succ hfuel)
    rw [parseValue, if_neg (by decide), if_neg (by decide), if_pos rfl, expect_isElements hs, hread]
    rfl
  | emptyObject hs =>
    rw [parseValue, if_neg (by decide), if_pos rfl, hs.expect_eq (by decide)]
  | object hs =>
    have hread := parseMembers_complete hs (Nat.le_of_succ_le_succ hfuel)
      (Nat.le_of_succ_le_succ hfuel)
    rw [parseValue, if_neg (by decide), if_pos rfl, expect_isMembers hs, hread]
    rfl

theorem parseElements_complete {s t : Text} {vs : List Value} (h : IsElements s vs t)
    {k fuel : Nat} (hk : s.length ≤ k) (hfuel : s.length ≤ fuel) :
    parseElements (parseValue k) fuel s = some (vs, t) := by
  have hlong := length_isElements h
  obtain ⟨fuel, rfl⟩ : ∃ n, fuel = n + 1 := Nat.exists_eq_succ_of_ne_zero (by omega)
  cases h with
  | last hws hv hend =>
    have hread := parseValue_complete hv (noNumber_end hend ⟨by decide, by decide, by decide⟩)
      (hws.length_le.trans hk)
    rw [parseElements, skipWs_isValue hws hv, hread, Option.bind_some, hend.expect_eq (by decide)]
  | more hws hv hsep hs =>
    have hread := parseValue_complete hv (noNumber_end hsep ⟨by decide, by decide, by decide⟩)
      (hws.length_le.trans hk)
    have hlead := hws.length_le
    have hvalue := length_isValue hv
    have hcomma := hsep.length_le
    simp only [List.length_cons] at hcomma
    have hrest : parseElements (parseValue k) fuel _ = _ :=
      parseElements_complete hs (by omega) (by omega)
    rw [parseElements, skipWs_isValue hws hv, hread, Option.bind_some,
      hsep.expect_none (by decide) (by decide), hsep.expect_eq (by decide)]
    simp only [Option.bind_some, hrest, Option.map_some]

theorem parseMembers_complete {s t : Text} {ms : List (Text × Value)} (h : IsMembers s ms t)
    {k fuel : Nat} (hk : s.length ≤ k) (hfuel : s.length ≤ fuel) :
    parseMembers (parseValue k) fuel s = some (ms, t) := by
  have hlong := length_isMembers h
  obtain ⟨fuel, rfl⟩ : ∃ n, fuel = n + 1 := Nat.exists_eq_succ_of_ne_zero (by omega)
  cases h with
  | last hws hn hcolon hws' hv hend =>
    have hquote := hws.length_le
    have hname := hn.length_lt
    have hlead := hcolon.length_le
    have hlead' := hws'.length_le
    simp only [List.length_cons] at hquote hlead
    have hread : parseValue k _ = _ := parseValue_complete hv
      (noNumber_end hend ⟨by decide, by decide, by decide⟩) (by omega)
    rw [parseMembers, hws.expect_eq (by decide), Option.bind_some, parseChars_complete hn,
      Option.bind_some, hcolon.expect_eq (by decide), Option.bind_some, skipWs_isValue hws' hv,
      hread, Option.bind_some, hend.expect_eq (by decide)]
  | more hws hn hcolon hws' hv hsep hs =>
    have hquote := hws.length_le
    have hname := hn.length_lt
    have hlead := hcolon.length_le
    have hlead' := hws'.length_le
    have hvalue := length_isValue hv
    have hcomma := hsep.length_le
    simp only [List.length_cons] at hquote hlead hcomma
    have hread : parseValue k _ = _ := parseValue_complete hv
      (noNumber_end hsep ⟨by decide, by decide, by decide⟩) (by omega)
    have hrest : parseMembers (parseValue k) fuel _ = _ :=
      parseMembers_complete hs (by omega) (by omega)
    rw [parseMembers, hws.expect_eq (by decide), Option.bind_some, parseChars_complete hn,
      Option.bind_some, hcolon.expect_eq (by decide), Option.bind_some, skipWs_isValue hws' hv,
      hread, Option.bind_some, hsep.expect_none (by decide) (by decide),
      hsep.expect_eq (by decide)]
    simp only [Option.bind_some, hrest, Option.map_some]

end

end Values

section Texts

variable {s : Text} {v : Value}

theorem parse_complete (h : IsText s v) : parse s = some v := by
  obtain ⟨s', t, hws, hv, hend⟩ := h
  have hrest : skipWs t = [] := hend.skipWs_eq nofun
  have hread := parseValue_complete hv (hend.noNumber nofun)
    (hws.length_le.trans (Nat.le_succ s.length))
  rw [parse, skipWs_isValue hws hv, hread]
  exact if_pos hrest

/-- The parser reads the texts of the grammar and no others. -/
theorem parse_eq_some_iff : parse s = some v ↔ IsText s v :=
  ⟨parse_sound, parse_complete⟩

end Texts

end Json

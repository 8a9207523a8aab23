import KnFileCatcher.JsonWriting

/-! The quotation marks of a text. They say which parts of it are strings, whatever else the
text is. -/

namespace Json

section Passes

/-- Where a reader is: outside the strings, inside one, or behind a reverse solidus in it. -/
inductive Place where
  | outside
  | inside
  | escape
deriving DecidableEq

/-- The units that the grammar has outside strings. -/
def isBare (c : CodeUnit) : Bool :=
  isWhitespace c || isDigit c || ("+-.eE[]{}:,nultrfas".toList.map unit).contains c

/-- Where the text ends and how many marks it has, unless something else than the grammar's
units stands outside the strings. -/
def passes : Place → Text → Option (Place × Nat)
  | p, [] => some (p, 0)
  | .outside, c :: s =>
    if c = quotationMark then (passes .inside s).map fun r => (r.1, r.2 + 1)
    else if isBare c then passes .outside s
    else none
  | .inside, c :: s =>
    if c = quotationMark then (passes .outside s).map fun r => (r.1, r.2 + 1)
    else if c = reverseSolidus then passes .escape s
    else passes .inside s
  | .escape, _ :: s => passes .inside s

variable {s t u raw : Text}

theorem passes_append (p : Place) (s t : Text) : passes p (s ++ t) =
    (passes p s).bind fun r => (passes r.1 t).map fun q => (q.1, r.2 + q.2) := by
  have hmark (r : Option (Place × Nat)) :
      ((r.bind fun r => (passes r.1 t).map fun q => (q.1, r.2 + q.2)).map
        fun r => (r.1, r.2 + 1)) =
      (r.map fun r => (r.1, r.2 + 1)).bind fun r =>
        (passes r.1 t).map fun q => (q.1, r.2 + q.2) := by
    cases r with
    | none => rfl
    | some r =>
      simp only [Option.bind_some, Option.map_some, Option.map_map]
      congr 1
      funext q
      simp only [Function.comp_apply]
      rw [Nat.add_right_comm]
  fun_induction passes p s with
  | case1 p =>
    rw [List.nil_append, Option.bind_some]
    simp
  | case2 s ih => rw [List.cons_append, passes, if_pos rfl, ih, hmark]
  | case3 c s hc hbare ih => rw [List.cons_append, passes, if_neg hc, if_pos hbare, ih]
  | case4 c s hc hbare => rw [List.cons_append, passes, if_neg hc, if_neg hbare]; rfl
  | case5 s ih => rw [List.cons_append, passes, if_pos rfl, ih, hmark]
  | case6 s hc ih => rw [List.cons_append, passes, if_neg hc, if_pos rfl, ih]
  | case7 c s hc hr ih => rw [List.cons_append, passes, if_neg hc, if_neg hr, ih]
  | case8 c s ih => rw [List.cons_append, passes, ih]

theorem passes_bare (hs : ∀ c ∈ s, isBare c = true) (t : Text) :
    passes .outside (s ++ t) = passes .outside t := by
  induction s with
  | nil => rfl
  | cons c s ih =>
    have hc : c ≠ quotationMark := by
      rintro rfl
      exact absurd (hs _ List.mem_cons_self) (by decide)
    rw [List.cons_append, passes, if_neg hc, if_pos (hs c List.mem_cons_self),
      ih fun d hd => hs d (List.mem_cons_of_mem c hd)]

theorem passes_mark (t : Text) : passes .outside (quotationMark :: t) =
    (passes .inside t).map fun r => (r.1, r.2 + 1) := by
  rw [passes, if_pos rfl]

theorem hexDigit_passes {c : CodeUnit} {n : Nat} (h : hexDigit c = some n) (t : Text) :
    passes .inside (c :: t) = passes .inside t := by
  have hmark : c ≠ quotationMark := by
    rintro rfl
    cases h
  have hsolidus : c ≠ reverseSolidus := by
    rintro rfl
    cases h
  rw [passes, if_neg hmark, if_neg hsolidus]

theorem IsChars.passes (h : IsChars s u t) :
    passes .inside s = (passes .outside t).map fun r => (r.1, r.2 + 1) := by
  induction h with
  | close t => rw [Json.passes, if_pos rfl]
  | unescaped hc hq hr hs ih => rw [Json.passes, if_neg hq, if_neg hr, ih]
  | escaped he hs ih => rw [Json.passes, if_neg (by decide), if_pos rfl, Json.passes, ih]
  | hex hx hs ih =>
    unfold hexUnit at hx
    split at hx
    · next ha hb hc hd =>
      rw [Json.passes, if_neg (by decide), if_pos rfl, Json.passes, hexDigit_passes ha,
        hexDigit_passes hb, hexDigit_passes hc, hexDigit_passes hd, ih]
    · cases hx

/-- The raw text of a string has no mark that is not escaped, and ends none of its escapes
early. -/
theorem IsContent.passes (h : IsContent raw u) : passes .inside raw = some (.inside, 0) := by
  have hclosed : Json.passes .inside (raw ++ [quotationMark]) = some (.outside, 1) :=
    IsChars.passes h
  rw [passes_append] at hclosed
  obtain ⟨⟨p, k⟩, hraw, hlast⟩ := Option.bind_eq_some_iff.mp hclosed
  rw [hraw]
  cases p with
  | outside => cases hlast
  | escape => cases hlast
  | inside =>
    obtain ⟨q, hq, hsum⟩ := Option.map_eq_some_iff.mp hlast
    obtain rfl : (.outside, 1) = q := Option.some.inj hq
    have hk : k + 1 = 1 := congrArg Prod.snd hsum
    rw [Nat.succ.inj hk]

theorem passes_inside_cons (a : Text) {r : Place × Nat}
    (h : passes .inside (quotationMark :: a) = some r) : 0 < r.2 := by
  rw [passes, if_pos rfl] at h
  obtain ⟨q, -, rfl⟩ := Option.map_eq_some_iff.mp h
  exact Nat.succ_pos q.2

theorem passes_split {a b : Text} {k : Nat} (ha : passes .inside a = some (.inside, 0))
    (h : passes .inside (a ++ quotationMark :: b) = some (.inside, k)) : 0 < k := by
  rw [passes_append, ha, Option.bind_some] at h
  obtain ⟨q, hq, hsum⟩ := Option.map_eq_some_iff.mp h
  have hpos := passes_inside_cons b hq
  have hk : 0 + q.2 = k := congrArg Prod.snd hsum
  omega

/-- Where a string is read and its text has no mark, the string ends with the text. -/
theorem isContent_of_passes (h : IsChars (raw ++ quotationMark :: s) u t)
    (hraw : passes .inside raw = some (.inside, 0)) : IsContent raw u := by
  obtain ⟨content, heq, hcontent⟩ := isChars_split h
  have hread : IsContent content u := hcontent []
  have hnone := hread.passes
  rcases List.append_eq_append_iff.mp heq with ⟨a, rfl, htail⟩ | ⟨a, rfl, htail⟩
  · cases a with
    | nil => rwa [List.append_nil] at hread
    | cons c a =>
      obtain rfl := (List.cons.inj htail).1
      exact absurd (passes_split hraw hnone) (Nat.lt_irrefl 0)
  · cases a with
    | nil => rwa [List.append_nil]
    | cons c a =>
      obtain rfl := (List.cons.inj htail).1
      exact absurd (passes_split hnone hraw) (Nat.lt_irrefl 0)

end Passes

section Values

mutual

/-- The marks of every text of a value. -/
def marks : Value → Nat
  | .null => 0
  | .bool _ => 0
  | .number _ => 0
  | .string _ => 2
  | .array items => marksOfItems items
  | .object members => marksOfMembers members

def marksOfItems : List Value → Nat
  | [] => 0
  | v :: vs => marks v + marksOfItems vs

def marksOfMembers : List (Text × Value) → Nat
  | [] => 0
  | m :: ms => 2 + marksOfMember m + marksOfMembers ms

def marksOfMember : Text × Value → Nat
  | (_, v) => marks v

end

variable {s t : Text}

/-- Between `s` and `t` there are `k` marks, and both stand outside the strings. -/
def Spans (k : Nat) (s t : Text) : Prop :=
  passes .outside s = (passes .outside t).map fun r => (r.1, r.2 + k)

theorem spans_nil (s : Text) : Spans 0 s s := by
  unfold Spans
  simp

theorem Spans.trans {k l : Nat} {r : Text} (hs : Spans k s r) (hr : Spans l r t) :
    Spans (k + l) s t := by
  unfold Spans at hs hr ⊢
  rw [hs, hr, Option.map_map]
  congr 1
  funext q
  simp only [Function.comp_apply, Nat.add_assoc, Nat.add_comm k l]

theorem spans_bare {c : CodeUnit} (hc : isBare c = true) (s : Text) : Spans 0 (c :: s) s := by
  have h := passes_bare (s := [c]) (by simpa using hc) s
  rw [List.singleton_append] at h
  unfold Spans
  rw [h]
  simp

theorem isBare_of_isWhitespace {c : CodeUnit} (h : isWhitespace c = true) : isBare c = true := by
  simp [isBare, h]

theorem isBare_of_isDigit {c : CodeUnit} (h : isDigit c = true) : isBare c = true := by
  simp [isBare, h]

theorem isBare_of_isExponentMark {c : CodeUnit} (h : isExponentMark c = true) :
    isBare c = true := by
  simp only [isExponentMark, Bool.or_eq_true, decide_eq_true_eq] at h
  rcases h with rfl | rfl <;> decide

theorem Ws.spans (h : Ws s t) : Spans 0 s t := by
  induction h with
  | nil t => exact spans_nil t
  | cons hc hs ih => exact (spans_bare (isBare_of_isWhitespace hc) _).trans ih

theorem Ws.spans_cons {c : CodeUnit} (h : Ws s (c :: t)) (hc : isBare c = true) : Spans 0 s t :=
  h.spans.trans (spans_bare hc t)

theorem spans_append (hs : ∀ c ∈ s, isBare c = true) (t : Text) : Spans 0 (s ++ t) t := by
  unfold Spans
  rw [passes_bare hs]
  simp

theorem spans_literal (name : String) (hname : (name.toList.map unit).all isBare = true)
    (t : Text) : Spans 0 (name.toList.map unit ++ t) t :=
  spans_append (List.all_eq_true.mp hname) t

theorem Digits.spans {ds : Text} (h : Digits s ds t) : Spans 0 s t := by
  obtain ⟨-, hds, t⟩ := h
  exact spans_append (fun c hc => isBare_of_isDigit (hds c hc)) t

theorem IsInt.spans {ds : Text} (h : IsInt s ds t) : Spans 0 s t := by
  cases h with
  | zero t => exact spans_bare (by decide) t
  | digits hs h0 => exact hs.spans

theorem IsFrac.spans {ds : Text} (h : IsFrac s ds t) : Spans 0 s t := by
  cases h with
  | none t => exact spans_nil s
  | digits hs => exact (spans_bare (by decide) _).trans hs.spans

theorem IsExp.spans {e : Int} (h : IsExp s e t) : Spans 0 s t := by
  cases h with
  | none t => exact spans_nil s
  | unsigned hc hs => exact (spans_bare (isBare_of_isExponentMark hc) _).trans hs.spans
  | positive hc hs =>
    exact (spans_bare (isBare_of_isExponentMark hc) _).trans
      ((spans_bare (by decide) _).trans hs.spans)
  | negative hc hs =>
    exact (spans_bare (isBare_of_isExponentMark hc) _).trans
      ((spans_bare (by decide) _).trans hs.spans)

theorem IsNumber.spans {n : Number} (h : IsNumber s n t) : Spans 0 s t := by
  cases h with
  | positive hi hf he => exact hi.spans.trans (hf.spans.trans he.spans)
  | negative hi hf he =>
    exact (spans_bare (by decide) _).trans (hi.spans.trans (hf.spans.trans he.spans))

/-- A string, its first mark included. -/
theorem IsChars.spans {u : Text} (h : IsChars s u t) : Spans 2 (quotationMark :: s) t := by
  unfold Spans
  rw [passes_mark, h.passes, Option.map_map]
  rfl

theorem Spans.of_eq {k l : Nat} (h : Spans k s t) (hk : k = l) : Spans l s t := hk ▸ h

mutual

theorem spans_isValue {s t : Text} {v : Value} (h : IsValue s v t) : Spans (marks v) s t := by
  cases h with
  | null t => exact (spans_literal "null" rfl t).of_eq (by rw [marks])
  | true t => exact (spans_literal "true" rfl t).of_eq (by rw [marks])
  | false t => exact (spans_literal "false" rfl t).of_eq (by rw [marks])
  | number hs =>
    refine hs.spans.of_eq ?_
    rw [marks]
  | string hs =>
    refine hs.spans.of_eq ?_
    rw [marks]
  | emptyArray hs =>
    refine ((spans_bare (by decide) _).trans (hs.spans_cons (by decide))).of_eq ?_
    rw [marks, marksOfItems]
  | array hs =>
    refine ((spans_bare (by decide) _).trans (spans_isElements hs)).of_eq ?_
    rw [marks, Nat.zero_add]
  | emptyObject hs =>
    refine ((spans_bare (by decide) _).trans (hs.spans_cons (by decide))).of_eq ?_
    rw [marks, marksOfMembers]
  | object hs =>
    refine ((spans_bare (by decide) _).trans (spans_isMembers hs)).of_eq ?_
    rw [marks, Nat.zero_add]

theorem spans_isElements {s t : Text} {vs : List Value} (h : IsElements s vs t) :
    Spans (marksOfItems vs) s t := by
  cases h with
  | last hws hv hend =>
    have hspan := hws.spans.trans ((spans_isValue hv).trans (hend.spans_cons (by decide)))
    refine hspan.of_eq ?_
    rw [marksOfItems, marksOfItems, Nat.zero_add]
  | more hws hv hsep hs =>
    have hrest := (hsep.spans_cons (by decide)).trans (spans_isElements hs)
    refine (hws.spans.trans ((spans_isValue hv).trans hrest)).of_eq ?_
    rw [marksOfItems, Nat.zero_add, Nat.zero_add]

theorem spans_isMembers {s t : Text} {ms : List (Text × Value)} (h : IsMembers s ms t) :
    Spans (marksOfMembers ms) s t := by
  cases h with
  | last hws hn hcolon hws' hv hend =>
    have hname := hws.spans.trans (hn.spans.trans (hcolon.spans_cons (by decide)))
    have hvalue := hws'.spans.trans ((spans_isValue hv).trans (hend.spans_cons (by decide)))
    refine (hname.trans hvalue).of_eq ?_
    rw [marksOfMembers, marksOfMembers, marksOfMember]
    omega
  | more hws hn hcolon hws' hv hsep hs =>
    have hname := hws.spans.trans (hn.spans.trans (hcolon.spans_cons (by decide)))
    have hrest := (hsep.spans_cons (by decide)).trans (spans_isMembers hs)
    refine (hname.trans (hws'.spans.trans ((spans_isValue hv).trans hrest))).of_eq ?_
    rw [marksOfMembers, marksOfMember]
    omega

end

/-- The marks of a text are those of its value. -/
theorem passes_isText {v : Value} (h : IsText s v) :
    passes .outside s = some (.outside, marks v) := by
  obtain ⟨s', t, hws, hv, hend⟩ := h
  have hspan := hws.spans.trans ((spans_isValue hv).trans hend.spans)
  unfold Spans at hspan
  rw [hspan, passes, Option.map_some, Nat.zero_add, Nat.zero_add, Nat.add_zero]

end Values

end Json

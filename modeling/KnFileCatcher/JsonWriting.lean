import KnFileCatcher.JsonReading

/-! Texts put together by a writer, piece by piece, and what the grammar derives from them. -/

namespace Json

section Strings

/-- `raw` stands for `c` inside a string. -/
def Spells (raw : Text) (c : CodeUnit) : Prop :=
  ∀ ⦃s u t : Text⦄, IsChars s u t → IsChars (raw ++ s) (c :: u) t

/-- A unit that stands for itself. -/
def Plain (c : CodeUnit) : Prop := 0x20 ≤ c.toNat ∧ c ≠ quotationMark ∧ c ≠ reverseSolidus

instance : DecidablePred Plain := fun _ => inferInstanceAs (Decidable (_ ∧ _ ∧ _))

def AllPlain (s : Text) : Prop := ∀ c ∈ s, Plain c

instance (s : Text) : Decidable (AllPlain s) := List.decidableBAll Plain s

theorem AllPlain.append {s t : Text} (hs : AllPlain s) (ht : AllPlain t) : AllPlain (s ++ t) := by
  intro c hc
  exact (List.mem_append.mp hc).elim (hs c) (ht c)

def lineFeed : CodeUnit := 0x0A

def OneLine (s : Text) : Prop := lineFeed ∉ s

instance (s : Text) : Decidable (OneLine s) := inferInstanceAs (Decidable (¬ _))

theorem oneLine_nil : OneLine [] := List.not_mem_nil

theorem oneLine_append_iff {s t : Text} : OneLine (s ++ t) ↔ OneLine s ∧ OneLine t := by
  rw [OneLine, List.mem_append, not_or]
  rfl

theorem OneLine.append {s t : Text} (hs : OneLine s) (ht : OneLine t) : OneLine (s ++ t) :=
  oneLine_append_iff.mpr ⟨hs, ht⟩

theorem OneLine.cons {c : CodeUnit} {s : Text} (hc : c ≠ lineFeed) (hs : OneLine s) :
    OneLine (c :: s) :=
  fun h => (List.mem_cons.mp h).elim (fun heq => hc heq.symm) hs

theorem AllPlain.oneLine {s : Text} (hs : AllPlain s) : OneLine s :=
  fun h => absurd (hs lineFeed h).1 (by decide)

theorem spells_plain {c : CodeUnit} (hc : Plain c) : Spells [c] c :=
  fun _ _ _ hs => .unescaped hc.1 hc.2.1 hc.2.2 hs

theorem spells_escaped {e c : CodeUnit} (he : escaped e = some c) :
    Spells [reverseSolidus, e] c :=
  fun _ _ _ hs => .escaped he hs

theorem spells_hex {a b c d x : CodeUnit} (hx : hexUnit a b c d = some x) :
    Spells [reverseSolidus, unit 'u', a, b, c, d] x :=
  fun _ _ _ hs => .hex hx hs

theorem isChars_flatMap {f : CodeUnit → Text} {s : Text} (hf : ∀ c ∈ s, Spells (f c) c)
    (t : Text) : IsChars (s.flatMap f ++ quotationMark :: t) s t := by
  induction s with
  | nil => exact .close t
  | cons c s ih =>
    rw [List.flatMap_cons, List.append_assoc]
    exact hf c List.mem_cons_self (ih fun d hd => hf d (List.mem_cons_of_mem c hd))

theorem isChars_plain {s : Text} (hs : AllPlain s) (t : Text) :
    IsChars (s ++ quotationMark :: t) s t := by
  have h := isChars_flatMap (f := fun c => [c]) (fun c hc => spells_plain (hs c hc)) t
  rwa [List.flatMap_singleton'] at h

/-- The raw text between two marks, without the second. -/
theorem isChars_split {s u t : Text} (h : IsChars s u t) :
    ∃ raw, s = raw ++ quotationMark :: t ∧ ∀ t', IsChars (raw ++ quotationMark :: t') u t' := by
  induction h with
  | close t => exact ⟨[], rfl, fun t' => .close t'⟩
  | unescaped hc hq hr hs ih =>
    obtain ⟨raw, rfl, hraw⟩ := ih
    exact ⟨_ :: raw, rfl, fun t' => .unescaped hc hq hr (hraw t')⟩
  | escaped he hs ih =>
    obtain ⟨raw, rfl, hraw⟩ := ih
    exact ⟨_ :: _ :: raw, rfl, fun t' => .escaped he (hraw t')⟩
  | hex hx hs ih =>
    obtain ⟨raw, rfl, hraw⟩ := ih
    exact ⟨_ :: _ :: _ :: _ :: _ :: _ :: raw, rfl, fun t' => .hex hx (hraw t')⟩

/-- The raw text of a string, between its marks. -/
def IsContent (raw u : Text) : Prop := IsChars (raw ++ [quotationMark]) u []

theorem IsContent.isChars {raw u : Text} (h : IsContent raw u) (t : Text) :
    IsChars (raw ++ quotationMark :: t) u t := by
  obtain ⟨raw', heq, hraw⟩ := isChars_split h
  rw [List.append_cancel_right heq]
  exact hraw t

theorem IsChars.oneLine {s u t : Text} (h : IsChars s u t) (ht : OneLine t) : OneLine s := by
  have hhex {c : CodeUnit} (hc : hexDigit c ≠ none) : c ≠ lineFeed := by
    rintro rfl
    exact hc rfl
  induction h with
  | close => exact ht.cons (by decide)
  | unescaped hc hq hr hs ih =>
    refine (ih ht).cons ?_
    rintro rfl
    exact absurd hc (by decide)
  | escaped he hs ih =>
    refine ((ih ht).cons ?_).cons (by decide)
    rintro rfl
    cases he
  | @hex a b c d x s u t hx hs ih =>
    have hdigits : hexDigit a ≠ none ∧ hexDigit b ≠ none ∧ hexDigit c ≠ none ∧
        hexDigit d ≠ none := by
      unfold hexUnit at hx
      split at hx
      · next ha hb hc hd => simp [ha, hb, hc, hd]
      · cases hx
    obtain ⟨ha, hb, hc, hd⟩ := hdigits
    exact (((((ih ht).cons (hhex hd)).cons (hhex hc)).cons (hhex hb)).cons (hhex ha)).cons
      (by decide) |>.cons (by decide)

theorem IsContent.oneLine {raw u : Text} (h : IsContent raw u) : OneLine raw :=
  fun hmem => IsChars.oneLine h oneLine_nil (List.mem_append_left _ hmem)

end Strings

section Numbers

def decimal (n : Nat) : Text := (Nat.toDigits 10 n).map unit

def integer (i : Int) : Text :=
  if i < 0 then minus :: decimal i.natAbs else decimal i.natAbs

theorem toNat_unit_digit {c : Char} (h : c.isDigit = true) :
    (unit c).toNat = c.toNat ∧ 0x30 ≤ c.toNat ∧ c.toNat ≤ 0x39 := by
  simp only [Char.isDigit, Bool.and_eq_true, decide_eq_true_eq, UInt32.le_iff_toNat_le] at h
  have hlow : 0x30 ≤ c.toNat := h.1
  have hhigh : c.toNat ≤ 0x39 := h.2
  exact ⟨Nat.mod_eq_of_lt (by omega), hlow, hhigh⟩

theorem isDigit_toDigits {n : Nat} {c : Char} (hc : c ∈ Nat.toDigits 10 n) : c.isDigit = true :=
  Nat.isDigit_of_mem_toDigits (by decide) (by decide) hc

theorem isDigit_decimal {n : Nat} {d : CodeUnit} (hd : d ∈ decimal n) : isDigit d = true := by
  obtain ⟨c, hc, rfl⟩ := List.mem_map.mp hd
  obtain ⟨hnat, hlow, hhigh⟩ := toNat_unit_digit (isDigit_toDigits hc)
  simp [isDigit, hnat, hlow, hhigh]

theorem decimal_ne_nil (n : Nat) : decimal n ≠ [] := by
  simp [decimal]

theorem oneLine_decimal (n : Nat) : OneLine (decimal n) :=
  fun h => absurd (isDigit_decimal h) (by decide)

theorem digitsValue_decimal (n : Nat) : digitsValue (decimal n) = n := by
  have hmap (cs : List Char) (hcs : ∀ c ∈ cs, c.isDigit = true) (m : Nat) :
      (cs.map unit).foldl (fun n d => 10 * n + (d.toNat - 0x30)) m = Nat.ofDigitChars 10 cs m := by
    induction cs generalizing m with
    | nil => rfl
    | cons c cs ih =>
      rw [List.map_cons, List.foldl_cons, Nat.ofDigitChars_cons,
        (toNat_unit_digit (hcs c List.mem_cons_self)).1,
        ih fun d hd => hcs d (List.mem_cons_of_mem c hd)]
      rfl
  rw [decimal, digitsValue, hmap _ fun c hc => isDigit_toDigits hc, Nat.ofDigitChars_ten_toDigits]

/-- No number but zero is written with a leading zero. -/
theorem head_toDigits {n : Nat} (h : 0 < n) :
    ∃ c cs, Nat.toDigits 10 n = c :: cs ∧ 0x30 < c.toNat := by
  induction n using Nat.strong_induction_on with
  | _ n ih =>
    rw [Nat.toDigits_eq_if (by decide)]
    by_cases hn : n < 10
    · refine ⟨n.digitChar, [], if_pos hn, ?_⟩
      interval_cases n <;> decide
    · obtain ⟨c, cs, hcs, hc⟩ := ih (n / 10) (by omega) (by omega)
      exact ⟨c, cs ++ [(n % 10).digitChar], by rw [if_neg hn, hcs]; rfl, hc⟩

theorem isInt_decimal (n : Nat) (t : Text) : IsInt (decimal n ++ t) (decimal n) t := by
  rcases Nat.eq_zero_or_pos n with rfl | hn
  · exact .zero t
  · refine .digits (.intro (decimal_ne_nil n) (fun d => isDigit_decimal) t) ?_
    obtain ⟨d, ds, hd, hlarge⟩ := head_toDigits hn
    have hnat := (toNat_unit_digit (isDigit_toDigits (hd ▸ List.mem_cons_self))).1
    rw [decimal, hd, List.map_cons, List.head?_cons]
    intro heq
    rw [Option.some.inj heq] at hnat
    have hzero : zero.toNat = 0x30 := rfl
    omega

theorem isNumber_decimal (n : Nat) (t : Text) : IsNumber (decimal n ++ t) ⟨n, 0⟩ t := by
  have h := IsNumber.positive (isInt_decimal n t) (.none t) (.none t)
  rwa [List.append_nil, digitsValue_decimal] at h

theorem isNumber_negative (n : Nat) (t : Text) : IsNumber (minus :: decimal n ++ t) ⟨-n, 0⟩ t := by
  have h := IsNumber.negative (isInt_decimal n t) (.none t) (.none t)
  rwa [List.append_nil, digitsValue_decimal] at h

theorem isNumber_integer (i : Int) (t : Text) : IsNumber (integer i ++ t) ⟨i, 0⟩ t := by
  unfold integer
  split
  · have hvalue : -(i.natAbs : Int) = i := by omega
    have hread := isNumber_negative i.natAbs t
    rwa [hvalue] at hread
  · have hvalue : (i.natAbs : Int) = i := by omega
    have hread := isNumber_decimal i.natAbs t
    rwa [hvalue] at hread

end Numbers

section Objects

/-- `raw` is a text of `v`, with whitespace around it or not. -/
def Reads (raw : Text) (v : Value) : Prop := ∀ t, ∃ s, Ws (raw ++ t) s ∧ IsValue s v t

theorem reads_string {raw u : Text} (h : IsContent raw u) :
    Reads (quotationMark :: raw ++ [quotationMark]) (.string u) := by
  intro t
  refine ⟨_, .nil _, ?_⟩
  rw [List.append_assoc, List.singleton_append, List.cons_append]
  exact .string (h.isChars t)

theorem reads_integer (i : Int) : Reads (integer i) (.number ⟨i, 0⟩) :=
  fun t => ⟨_, .nil _, .number (isNumber_integer i t)⟩

theorem ws_append {blanks s t : Text} (hblanks : ∀ c ∈ blanks, isWhitespace c = true)
    (h : Ws s t) : Ws (blanks ++ s) t := by
  induction blanks with
  | nil => exact h
  | cons c blanks ih =>
    exact .cons (hblanks c List.mem_cons_self) (ih fun d hd => hblanks d (List.mem_cons_of_mem c hd))

theorem Reads.blanks {blanks raw : Text} {v : Value}
    (hblanks : ∀ c ∈ blanks, isWhitespace c = true) (h : Reads raw v) : Reads (blanks ++ raw) v := by
  intro t
  obtain ⟨s, hws, hv⟩ := h t
  rw [List.append_assoc]
  exact ⟨s, ws_append hblanks hws, hv⟩

theorem oneLine_integer (i : Int) : OneLine (integer i) := by
  unfold integer
  split
  · exact (oneLine_decimal _).cons (by decide)
  · exact oneLine_decimal _

/-- A member as a writer puts it down: its name as it is, and a text for its value. -/
structure Member where
  name : Text
  raw : Text
  value : Value
  plain : AllPlain name
  reads : Reads raw value

def Member.render (m : Member) : Text :=
  quotationMark :: m.name ++ quotationMark :: nameSeparator :: m.raw

def Member.pair (m : Member) : Text × Value := (m.name, m.value)

def renderMembers : List Member → Text
  | [] => [endObject]
  | [m] => m.render ++ [endObject]
  | m :: m' :: ms => m.render ++ valueSeparator :: renderMembers (m' :: ms)

/-- Members that are followed by others. -/
def renderPrefix (ms : List Member) : Text := ms.flatMap fun m => m.render ++ [valueSeparator]

def renderObject (ms : List Member) : Text := beginObject :: renderMembers ms

theorem renderMembers_append (ms : List Member) (m : Member) :
    renderMembers (ms ++ [m]) = renderPrefix ms ++ (m.render ++ [endObject]) := by
  induction ms with
  | nil => rfl
  | cons m' ms ih =>
    have hcons : renderMembers (m' :: (ms ++ [m])) =
        m'.render ++ valueSeparator :: renderMembers (ms ++ [m]) := by
      cases ms <;> rfl
    rw [List.cons_append, hcons, ih]
    simp [renderPrefix]

theorem Member.render_append (m : Member) (t : Text) : m.render ++ t =
    quotationMark :: (m.name ++ quotationMark :: (nameSeparator :: (m.raw ++ t))) := by
  simp [Member.render]

theorem isMembers_renderMembers {ms : List Member} (hne : ms ≠ []) :
    IsMembers (renderMembers ms) (ms.map Member.pair) [] := by
  fun_induction renderMembers ms with
  | case1 => exact absurd rfl hne
  | case2 m =>
    obtain ⟨s, hws, hv⟩ := m.reads [endObject]
    rw [m.render_append]
    exact .last (.nil _) (isChars_plain m.plain _) (.nil _) hws hv (.nil _)
  | case3 m m' ms ih =>
    obtain ⟨s, hws, hv⟩ := m.reads (valueSeparator :: renderMembers (m' :: ms))
    rw [m.render_append]
    exact .more (.nil _) (isChars_plain m.plain _) (.nil _) hws hv (.nil _)
      (ih (List.cons_ne_nil _ _))

/-- What the writer put into an object is what the grammar derives from it. -/
theorem isText_renderObject {ms : List Member} (hne : ms ≠ []) :
    IsText (renderObject ms) (.object (ms.map Member.pair)) :=
  ⟨_, [], .nil _, .object (isMembers_renderMembers hne), .nil _⟩

end Objects

section Inversion

variable {s t : Text} {ms : List (Text × Value)}

theorem ws_cons {c : CodeUnit} (hc : isWhitespace c = false) (h : Ws (c :: s) t) : t = c :: s := by
  cases h with
  | nil => rfl
  | cons hws => rw [hws] at hc; cases hc

theorem isValue_unique {v v' : Value} {t' : Text} (h : IsValue s v t) (h' : IsValue s v' t')
    (ht : NoNumber t) (ht' : NoNumber t') : v = v' ∧ t = t' := by
  have hread := parseValue_complete h ht le_rfl
  rw [parseValue_complete h' ht' le_rfl] at hread
  exact Prod.mk.inj (Option.some.inj hread.symm)

theorem endsNumber_valueSeparator : EndsNumber valueSeparator := ⟨by decide, by decide, by decide⟩

theorem endsNumber_endObject : EndsNumber endObject := ⟨by decide, by decide, by decide⟩

/-- The first member of an object behind its name. -/
theorem isMembers_named {name raw n : Text} {v : Value} (hname : AllPlain name)
    (h : IsMembers (quotationMark :: (name ++ quotationMark :: nameSeparator :: raw))
      ((n, v) :: ms) t) :
    ∃ s r, Ws raw s ∧ IsValue s v r ∧ NoNumber r ∧
      ∀ r', Ws r (valueSeparator :: r') → IsMembers r' ms t := by
  have hbehind {n q q' q'' : Text} (hws : Ws (quotationMark :: (name ++ quotationMark ::
      nameSeparator :: raw)) (quotationMark :: n)) {nm : Text} (hn : IsChars n nm q)
      (hcolon : Ws q (nameSeparator :: q')) (hws' : Ws q' q'') : Ws raw q'' := by
    obtain rfl := (List.cons.inj (ws_cons (by decide) hws)).2
    have hread := parseChars_complete hn
    rw [parseChars_complete (isChars_plain hname _)] at hread
    obtain ⟨-, rfl⟩ := Prod.mk.inj (Option.some.inj hread)
    obtain rfl := (List.cons.inj (ws_cons (by decide) hcolon)).2
    exact hws'
  cases h with
  | last hws hn hcolon hws' hv hend =>
    refine ⟨_, _, hbehind hws hn hcolon hws', hv, noNumber_end hend endsNumber_endObject, ?_⟩
    intro r' hsep
    exact absurd (hend.expect_eq (by decide))
      (by rw [hsep.expect_none (by decide) (by decide)]; exact nofun)
  | more hws hn hcolon hws' hv hsep hs =>
    refine ⟨_, _, hbehind hws hn hcolon hws', hv, noNumber_end hsep endsNumber_valueSeparator, ?_⟩
    intro r' hsep'
    have hrest := hsep.expect_eq (by decide)
    rw [hsep'.expect_eq (by decide)] at hrest
    exact Option.some.inj hrest ▸ hs

theorem isMembers_render {m : Member} {p : Text × Value}
    (h : IsMembers (m.render ++ valueSeparator :: s) (p :: ms) t) : IsMembers s ms t := by
  rw [m.render_append] at h
  obtain ⟨q, r, hws, hv, hr, hrest⟩ := isMembers_named m.plain h
  obtain ⟨q', hws', hv'⟩ := m.reads (valueSeparator :: s)
  obtain rfl : q = q' := (skipWs_isValue hws hv).symm.trans (skipWs_isValue hws' hv')
  obtain ⟨-, rfl⟩ := isValue_unique hv hv' hr (noNumber_cons endsNumber_valueSeparator)
  exact hrest s (.nil _)

theorem isMembers_renderPrefix {written : List Member} (before : List (Text × Value))
    (hlength : before.length = written.length)
    (h : IsMembers (renderPrefix written ++ s) (before ++ ms) t) : IsMembers s ms t := by
  induction written generalizing before with
  | nil =>
    rw [List.length_eq_zero_iff.mp hlength] at h
    exact h
  | cons m written ih =>
    cases before with
    | nil => cases hlength
    | cons p before =>
      refine ih before (Nat.succ.inj hlength) ?_
      have hsplit : renderPrefix (m :: written) ++ s =
          m.render ++ valueSeparator :: (renderPrefix written ++ s) := by
        simp [renderPrefix]
      rw [hsplit] at h
      exact isMembers_render h

theorem isNumber_of_negative {n : Number} (h : IsNumber s n t) (hn : n.mantissa < 0) :
    ∃ d s', s = minus :: d :: s' ∧ isDigit d = true := by
  cases h with
  | positive => exact absurd hn (Int.not_lt.mpr (Int.natCast_nonneg _))
  | negative hi =>
    obtain ⟨d, s', rfl, hd⟩ := hi.head
    exact ⟨d, s', rfl, hd⟩

/-- What stands before the digits of a negative number is its sign. -/
theorem ws_sign {sign ds : Text} {d e : CodeUnit} (hsign : ∀ c ∈ sign, isDigit c = false)
    (he : isDigit e = true) (hd : isDigit d = true)
    (h : Ws (sign ++ e :: ds) (minus :: d :: s)) :
    ∃ blanks, sign = blanks ++ [minus] ∧ ∀ c ∈ blanks, isWhitespace c = true := by
  induction sign with
  | nil =>
    obtain rfl := (List.cons.inj (ws_cons (numberHead_ws (.inl he)) h)).1
    cases he
  | cons c sign ih =>
    rw [List.cons_append] at h
    generalize hrest : sign ++ e :: ds = rest at h
    cases h with
    | nil =>
      cases sign with
      | nil => exact ⟨[], rfl, fun c hc => nomatch hc⟩
      | cons c' sign =>
        obtain rfl := (List.cons.inj hrest).1
        have hnot := hsign c' (List.mem_cons_of_mem _ List.mem_cons_self)
        rw [hd] at hnot
        cases hnot
    | cons hc hs =>
      rw [← hrest] at hs
      obtain ⟨blanks, rfl, hblanks⟩ := ih (fun c hc => hsign c (List.mem_cons_of_mem _ hc)) hs
      exact ⟨c :: blanks, rfl, List.forall_mem_cons.mpr ⟨hc, hblanks⟩⟩

theorem isMembers_of_isText (h : IsText (beginObject :: s) (.object ms)) (hne : ms ≠ []) :
    ∃ t, IsMembers s ms t ∧ Ws t [] := by
  obtain ⟨s', t, hws, hv, hend⟩ := h
  obtain rfl := ws_cons (by decide) hws
  cases hv with
  | emptyObject => exact absurd rfl hne
  | object hs => exact ⟨t, hs, hend⟩

end Inversion

end Json

import KnFileCatcher.PushLock

/-! What a step of sound programs keeps: every block has one owner, and the holders of the
lock know the table. -/

namespace PushLock

open Ownership (Block Event Orderly)

variable {T Kind γ V Op A ν : Type}

section Owners

variable [DecidableEq T]

/-- The blocks of `x`, where `none` is the table. -/
def held (content : Block Kind → V) (who : Block Kind → Option (Option T)) (x : Option T) :
    Own Kind V :=
  fun b => if who b = some x then some (content b) else none

variable {content : Block Kind → V} {who : Block Kind → Option (Option T)} {x y : Option T}
  {b : Block Kind} {v : V} {t : T} {G : Own Kind V}

theorem held_eq_none_iff : held content who x b = none ↔ who b ≠ some x := by
  simp [held]

theorem held_eq_some_iff : held content who x b = some v ↔ who b = some x ∧ content b = v := by
  simp [held]

/-- The thread takes the blocks of the table. -/
def take (who : Block Kind → Option (Option T)) (t : T) : Block Kind → Option (Option T) :=
  fun b => if who b = some none then some (some t) else who b

/-- The thread gives the blocks of `G` to the table. -/
def give (who : Block Kind → Option (Option T)) (G : Own Kind V) :
    Block Kind → Option (Option T) :=
  fun b => if (G b).isSome then some none else who b

theorem take_ne_none : take who t b ≠ none ↔ who b ≠ none := by
  by_cases hb : who b = some none <;> simp [take, hb]

theorem held_take (y : T) : held content (take who t) (some y) =
    if y = t then (held content who (some t)).join (held content who none)
    else held content who (some y) := by
  funext b
  by_cases hy : y = t
  · subst hy
    by_cases hb : who b = some none
    · simp [held, take, hb, Own.join]
    · simp [held, take, hb, Own.join]
  · by_cases hb : who b = some none
    · simp [held, take, hb, hy, Ne.symm hy]
    · simp [held, take, hb, hy]

theorem take_ne_table : take who t b ≠ some none := by
  by_cases hb : who b = some none <;> simp [take, hb]

theorem give_ne_none (hG : ∀ b v, G b = some v → held content who (some t) b = some v) :
    give who G b ≠ none ↔ who b ≠ none := by
  cases hb : G b with
  | none => simp [give, hb]
  | some v =>
    have hwho := (held_eq_some_iff.mp (hG b v hb)).1
    simp [give, hb, hwho]

theorem held_give_table (hG : ∀ b v, G b = some v → held content who (some t) b = some v)
    (hnone : ∀ b, who b ≠ some none) : held content (give who G) none = G := by
  funext b
  cases hb : G b with
  | none => simp [held, give, hb, hnone b]
  | some v =>
    have hc := (held_eq_some_iff.mp (hG b v hb)).2
    simp [held, give, hb, hc]

theorem held_give (hG : ∀ b v, G b = some v → held content who (some t) b = some v) (y : T) :
    held content (give who G) (some y) =
      if y = t then (held content who (some t)).without G else held content who (some y) := by
  funext b
  cases hb : G b with
  | none =>
    by_cases hy : y = t
    · subst hy
      simp [held, give, hb, Own.without]
    · simp [held, give, hb, hy]
  | some v =>
    have hwho := (held_eq_some_iff.mp (hG b v hb)).1
    by_cases hy : y = t
    · subst hy
      simp [held, give, hb, Own.without]
    · simp [held, give, hb, hwho, hy, Ne.symm hy]

section Update

variable [DecidableEq Kind]

theorem held_assign (content : Block Kind → V) (v : V) (y : Option T)
    (hb : who b = none ∨ who b = some x) :
    held (Function.update content b v) (Function.update who b (some x)) y =
      if y = x then Function.update (held content who x) b (some v) else held content who y := by
  funext b'
  by_cases hy : y = x
  · subst hy
    by_cases hb' : b' = b
    · subst hb'
      simp [held]
    · simp [held, hb']
  · by_cases hb' : b' = b
    · subst hb'
      rcases hb with hb | hb <;> simp [held, hb, hy, Ne.symm hy]
    · simp [held, hb', hy]

theorem held_free (hb : who b = some x) : held content (Function.update who b none) y =
    if y = x then Function.update (held content who x) b none else held content who y := by
  funext b'
  by_cases hy : y = x
  · subst hy
    by_cases hb' : b' = b
    · subst hb'
      simp [held]
    · simp [held, hb']
  · by_cases hb' : b' = b
    · subst hb'
      simp [held, hb, hy, Ne.symm hy]
    · simp [held, hb', hy]

end Update

end Owners

section Histories

variable (C : Contract Kind γ V Op A ν) (init : ν)

/-- The last that a history has of `t` is `m`, which comes after `past`. -/
def Last (t : T) (m : Moment T Op A) (past history : List (Moment T Op A)) : Prop :=
  ∃ mid, history = mid ++ m :: past ∧ ∀ m' ∈ mid, m'.thread ≠ t

theorem Last.cons {t : T} {m m' : Moment T Op A} {past history : List (Moment T Op A)}
    (h : Last t m past history) (hm : m'.thread ≠ t) : Last t m past (m' :: history) := by
  obtain ⟨mid, rfl, hmid⟩ := h
  refine ⟨m' :: mid, rfl, fun m'' hm'' => ?_⟩
  rcases List.mem_cons.mp hm'' with rfl | hm''
  · exact hm
  · exact hmid m'' hm''

theorem Last.head (t : T) (m : Moment T Op A) (history : List (Moment T Op A)) :
    Last t m history (m :: history) :=
  ⟨[], rfl, nofun⟩

/-- The section of the running operation of `t` came after `past`. -/
def Sectioned (history : List (Moment T Op A)) (t : T) (op : Op) (a : A) : Prop :=
  ∃ past older, Last t (.sectioned t op) past history ∧ Last t (.called t op) older past ∧
    a = (C.spec op (after C init past)).1

def Traced (history : List (Moment T Op A)) (t : T) (op : Op) : Phase Kind γ V A ν → Prop
  | .after a _ => Sectioned C init history t op a
  | .before | .reading _ _ _ | .writing _ _ => ∃ past, Last t (.called t op) past history

/-- An answer is that of a section between the call and the return, in the state that the
sections before it lead to. Without a section it is the answer in every state. -/
def Explained (history : List (Moment T Op A)) (t : T) (op : Op) (a : A) : Prop :=
  Sectioned C init history t op a ∨
    (∃ past, Last t (.called t op) past history) ∧ ∀ n, C.spec op n = (a, n)

def Linearizable (history : List (Moment T Op A)) : Prop :=
  ∀ later t op a past, history = later ++ .returned t op a :: past → Explained C init past t op a

theorem Traced.cons {history : List (Moment T Op A)} {t : T} {op : Op} {ph : Phase Kind γ V A ν}
    {m : Moment T Op A} (h : Traced C init history t op ph) (hm : m.thread ≠ t) :
    Traced C init (m :: history) t op ph := by
  cases ph with
  | after a paid =>
    obtain ⟨past, older, hs, hc, ha⟩ := h
    exact ⟨past, older, hs.cons hm, hc, ha⟩
  | before | reading _ _ _ | writing _ _ =>
    obtain ⟨past, hc⟩ := h
    exact ⟨past, hc.cons hm⟩

theorem Linearizable.cons {history : List (Moment T Op A)} {m : Moment T Op A}
    (h : Linearizable C init history)
    (hm : ∀ t op a, m = .returned t op a → Explained C init history t op a) :
    Linearizable C init (m :: history) := by
  intro later t op a past heq
  cases later with
  | nil =>
    obtain ⟨rfl, rfl⟩ := List.cons.inj heq
    exact hm t op a rfl
  | cons m' later =>
    obtain ⟨-, rfl⟩ := List.cons.inj heq
    exact h later t op a past rfl

/-- The ticks that the answers of `t` cost. -/
def spent [DecidableEq T] (t : T) : List (Moment T Op A) → Nat
  | [] => 0
  | .returned t' _ a :: past => (if t' = t then C.cost a else 0) + spent t past
  | .called _ _ :: past | .sectioned _ _ :: past => spent t past

/-- One entry for each tick that the answers of a history cost. -/
def charges : List (Moment T Op A) → List T
  | [] => []
  | .returned t _ a :: past => List.replicate (C.cost a) t ++ charges past
  | .called _ _ :: past | .sectioned _ _ :: past => charges past

theorem count_charges [DecidableEq T] (t : T) (history : List (Moment T Op A)) :
    (charges C history).count t = spent C t history := by
  induction history with
  | nil => rfl
  | cons m past ih =>
    cases m with
    | called _ _ | sectioned _ _ => exact ih
    | returned t' _ a =>
      rw [charges, spent, List.count_append, ih, List.count_replicate]
      simp [beq_iff_eq]

def Phase.paid : Phase Kind γ V A ν → Nat
  | .after _ paid => paid
  | .before | .reading _ _ _ | .writing _ _ => 0

end Histories

/-- The ghost: who has a block, and where the operation of a thread is. -/
structure Ghost (T Kind γ V A ν : Type) where
  who : Block Kind → Option (Option T)
  phase : T → Phase Kind γ V A ν

def System.operation (s : System T Kind γ V Op A) (t : T) : Option Op :=
  (s.running t).map Prod.fst

def Phase.Inside : Phase Kind γ V A ν → Prop
  | .reading _ _ _ | .writing _ _ => True
  | .before | .after _ _ => False

theorem Traced.sectioned {C : Contract Kind γ V Op A ν} {init : ν} {t : T} {op : Op}
    {history : List (Moment T Op A)} {ph : Phase Kind γ V A ν}
    (h : Traced C init history t op ph) (hin : ph.Inside) (paid : Nat) :
    Traced C init (.sectioned t op :: history) t op
      (.after (C.spec op (after C init history)).1 paid : Phase Kind γ V A ν) := by
  cases ph with
  | reading _ _ _ | writing _ _ =>
    obtain ⟨past, hcall⟩ := h
    exact ⟨history, past, .head t _ history, hcall, rfl⟩
  | before | after _ _ => exact hin.elim

section LockFacts

variable [DecidableEq T]

/-- The table is in its relation unless a writer is at work, and the holders of the lock
know the table. -/
structure Lock (C : Contract Kind γ V Op A ν) (n : ν) (s : System T Kind γ V Op A)
    (g : Ghost T Kind γ V A ν) : Prop where
  unlocked : s.writer = none → C.inv s.table (held s.content g.who none) n
  writing : ∀ t, s.writer = some t → s.readers = [] ∧ g.phase t = .writing s.table n ∧
    ∀ b, g.who b ≠ some none
  reading : ∀ t ∈ s.readers, g.phase t = .reading s.table (held s.content g.who none) n
  outside : ∀ t, t ∉ s.readers → s.writer ≠ some t → ¬ (g.phase t).Inside
  nodup : s.readers.Nodup
  seen : C.seen s.table n ∨ ∃ t op, s.writer = some t ∧ s.operation t = some op ∧
    C.seen s.table (C.spec op n).2
  noMisuse : s.misused = false

variable {C : Contract Kind γ V Op A ν} {n : ν} {s : System T Kind γ V Op A}
  {g : Ghost T Kind γ V A ν} {t : T} {op : Op}

def Ghost.move (g : Ghost T Kind γ V A ν) (t : T) (ph : Phase Kind γ V A ν) :
    Ghost T Kind γ V A ν :=
  { g with phase := Function.update g.phase t ph }

theorem Lock.resume (h : Lock C n s g) {p p' : Program Kind γ V A}
    (hrun : s.running t = some (op, p)) : Lock C n (s.resume t (some (op, p'))) g where
  unlocked := h.unlocked
  writing := h.writing
  reading := h.reading
  outside := h.outside
  nodup := h.nodup
  seen := by
    rcases h.seen with hseen | ⟨t', op', hw, hop, hseen⟩
    · exact Or.inl hseen
    · refine Or.inr ⟨t', op', hw, ?_, hseen⟩
      by_cases ht : t' = t
      · subst ht
        simpa [System.operation, System.resume, hrun] using hop
      · simpa [System.operation, System.resume, ht] using hop
  noMisuse := h.noMisuse

/-- An operation is lent nothing, or all the blocks of the table. -/
theorem Lock.lent {n : ν} (h : Lock C n s g) (t : T) :
    (g.phase t).lent = .empty ∨ (g.phase t).lent = held s.content g.who none := by
  by_cases ht : t ∈ s.readers
  · rw [h.reading t ht]
    exact Or.inr rfl
  · by_cases hw : s.writer = some t
    · rw [(h.writing t hw).2.1]
      exact Or.inl rfl
    · have hout := h.outside t ht hw
      cases hph : g.phase t with
      | reading g G n =>
        rw [hph] at hout
        exact absurd trivial hout
      | before | writing _ _ | after _ _ => exact Or.inl rfl

theorem Lock.reader_or_writer (h : Lock C n s g) (hin : (g.phase t).Inside) :
    t ∈ s.readers ∨ s.writer = some t := by
  by_contra hno
  obtain ⟨hr, hw⟩ := not_or.mp hno
  exact h.outside t hr hw hin

theorem Lock.table_eq {table : γ} (h : Lock C n s g) (ht : (g.phase t).table = some table) :
    table = s.table ∧ s.holds t = true := by
  have hin : (g.phase t).Inside := by
    cases hph : g.phase t with
    | reading _ _ _ | writing _ _ => trivial
    | before | after _ _ =>
      rw [hph] at ht
      cases ht
  rcases h.reader_or_writer hin with hr | hw
  · rw [h.reading t hr] at ht
    exact ⟨(Option.some.inj ht).symm, by simp [System.holds, hr]⟩
  · rw [(h.writing t hw).2.1] at ht
    exact ⟨(Option.some.inj ht).symm, by simp [System.holds, hw]⟩

theorem Lock.writing_eq {table : γ} {n' : ν} (h : Lock C n s g)
    (ht : g.phase t = .writing table n') : s.writer = some t ∧ table = s.table ∧ n' = n := by
  have hin : (g.phase t).Inside := by
    rw [ht]
    trivial
  rcases h.reader_or_writer hin with hr | hw
  · rw [h.reading t hr] at ht
    cases ht
  · rw [(h.writing t hw).2.1] at ht
    cases ht
    exact ⟨hw, rfl, rfl⟩

theorem Lock.not_reading (h : Lock C n s g) (hph : g.phase t = .before) : t ∉ s.readers := by
  intro hr
  rw [h.reading t hr] at hph
  cases hph

theorem held_disjoint {content : Block Kind → V} {who : Block Kind → Option (Option T)}
    {b : Block Kind} (h : held content who none b ≠ none) : held content who (some t) b = none := by
  have hwho : who b = some none := by
    by_contra hno
    exact h (held_eq_none_iff.mpr hno)
  exact held_eq_none_iff.mpr (by simp [hwho])

/-- A thread outside of the lock begins or ends an operation. -/
theorem Lock.turn {n : ν} (h : Lock C n s g) (hout : ¬ (g.phase t).Inside)
    (history : List (Moment T Op A)) (r : Option (Op × Program Kind γ V A)) :
    Lock C n { s.resume t r with history := history } (g.move t .before) := by
  have hhold : t ∉ s.readers ∧ s.writer ≠ some t := by
    refine ⟨fun hr => hout ?_, fun hw => hout ?_⟩
    · rw [h.reading t hr]
      trivial
    · rw [(h.writing t hw).2.1]
      trivial
  have hother (t' : T) (ht : t' ≠ t) : (g.move t .before).phase t' = g.phase t' :=
    Function.update_of_ne ht ..
  refine ⟨h.unlocked, fun t' hw => ?_, fun t' hr => ?_, fun t' hr hw => ?_, h.nodup, ?_, h.noMisuse⟩
  · rw [hother t' (by rintro rfl; exact hhold.2 hw)]
    exact h.writing t' hw
  · rw [hother t' (by rintro rfl; exact hhold.1 hr)]
    exact h.reading t' hr
  · by_cases ht : t' = t
    · subst ht
      rw [show (g.move t' .before).phase t' = .before from Function.update_self ..]
      exact id
    · rw [hother t' ht]
      exact h.outside t' hr hw
  · rcases h.seen with hseen | ⟨t', op', hw, hop, hseen⟩
    · exact Or.inl hseen
    · have ht : t' ≠ t := by
        rintro rfl
        exact hhold.2 hw
      exact Or.inr ⟨t', op', hw, by simpa [System.operation, System.resume, ht] using hop, hseen⟩

end LockFacts

section Invariant

variable [DecidableEq T] [DecidableEq Kind]

structure Memory (log : List (Event T Kind)) (blocks : Nat)
    (who : Block Kind → Option (Option T)) : Prop where
  live : ∀ b, who b ≠ none ↔ (∃ t, .allocated t b ∈ log) ∧ .freed b ∉ log
  fresh : ∀ t b, .allocated t b ∈ log → b.id < blocks
  orderly : Orderly log

structure Kept (C : Contract Kind γ V Op A ν) (init : ν) (s : System T Kind γ V Op A)
    (g : Ghost T Kind γ V A ν) : Prop where
  sound : ∀ t op p, s.running t = some (op, p) →
    p.wp C op (held s.content g.who (some t)) (g.phase t) (Returns C op)
  idle : ∀ t, s.running t = none → g.phase t = .before ∧ ∀ b, g.who b ≠ some (some t)
  memory : Memory s.log s.blocks g.who
  lock : Lock C (after C init s.history) s g
  traced : ∀ t op p, s.running t = some (op, p) → Traced C init s.history t op (g.phase t)
  explained : Linearizable C init s.history
  paid : ∀ t, s.ticks.count t = spent C t s.history + (g.phase t).paid

section Steps

variable {C : Contract Kind γ V Op A ν} {init : ν} {s : System T Kind γ V Op A}
  {g : Ghost T Kind γ V A ν} {t : T} {op : Op}

/-- A call of `t` after which the others find everything as it was. -/
theorem Kept.next {c : Call Kind γ V} {next : c.Answer → Program Kind γ V A} {answer : c.Answer}
    (hk : Kept C init s g) (s' : System T Kind γ V Op A) (g' : Ghost T Kind γ V A ν)
    (hrun : s.running t = some (op, .call c next))
    (hsound : (next answer).wp C op (held s'.content g'.who (some t)) (g'.phase t) (Returns C op))
    (hother : ∀ t', t' ≠ t → held s'.content g'.who (some t') = held s.content g.who (some t') ∧
      g'.phase t' = g.phase t')
    (hrunning : s'.running = s.running) (hmemory : Memory s'.log s'.blocks g'.who)
    (hlock : Lock C (after C init s'.history) s' g')
    (hhistory : s'.history = s.history ∨ s'.history = .sectioned t op :: s.history)
    (htraced : Traced C init s'.history t op (g'.phase t))
    (hpaid : s'.ticks = s.ticks ∧ (g'.phase t).paid = (g.phase t).paid ∨
      s'.ticks = t :: s.ticks ∧ (g'.phase t).paid = (g.phase t).paid + 1) :
    Kept C init (s'.resume t (some (op, next answer))) g' := by
  have hother_running : ∀ t', t' ≠ t →
      (s'.resume t (some (op, next answer))).running t' = s.running t' := by
    intro t' ht
    simp [System.resume, ht, hrunning]
  have hself : (s'.resume t (some (op, next answer))).running t = some (op, next answer) := by
    simp [System.resume]
  refine ⟨fun t' op' p hp => ?_, fun t' hnone => ?_, hmemory, hlock.resume (by rw [hrunning, hrun]),
    fun t' op' p hp => ?_, ?_, fun t' => ?_⟩
  · by_cases ht : t' = t
    · subst ht
      obtain ⟨rfl, rfl⟩ := Prod.mk.inj (Option.some.inj (hself.symm.trans hp))
      exact hsound
    · rw [hother_running t' ht] at hp
      have hold := hk.sound t' op' p hp
      rw [(hother t' ht).2]
      exact (hother t' ht).1.symm ▸ hold
  · by_cases ht : t' = t
    · subst ht
      rw [hself] at hnone
      cases hnone
    · rw [hother_running t' ht] at hnone
      obtain ⟨hphase, hwho⟩ := hk.idle t' hnone
      refine ⟨(hother t' ht).2.trans hphase, fun b => ?_⟩
      have hnot : held s.content g.who (some t') b = none := held_eq_none_iff.mpr (hwho b)
      rw [← (hother t' ht).1] at hnot
      exact held_eq_none_iff.mp hnot
  · by_cases ht : t' = t
    · subst ht
      obtain ⟨rfl, rfl⟩ := Prod.mk.inj (Option.some.inj (hself.symm.trans hp))
      exact htraced
    · rw [hother_running t' ht] at hp
      have hold := hk.traced t' op' p hp
      rw [(hother t' ht).2]
      change Traced C init s'.history t' op' (g.phase t')
      rcases hhistory with hh | hh
      · rwa [hh]
      · rw [hh]
        exact hold.cons C init (Ne.symm ht)
  · change Linearizable C init s'.history
    rcases hhistory with hh | hh
    · rw [hh]
      exact hk.explained
    · rw [hh]
      exact hk.explained.cons C init (fun _ _ _ heq => by cases heq)
  · have hspent : spent C t' s'.history = spent C t' s.history := by
      rcases hhistory with hh | hh
      · rw [hh]
      · rw [hh, spent]
    change s'.ticks.count t' = spent C t' s'.history + (g'.phase t').paid
    rw [hspent]
    have hold := hk.paid t'
    by_cases ht : t' = t
    · subst ht
      rcases hpaid with ⟨hticks, hp⟩ | ⟨hticks, hp⟩
      · rw [hticks, hp, hold]
      · rw [hticks, hp, List.count_cons_self, hold, Nat.add_assoc]
    · rw [(hother t' ht).2]
      rcases hpaid with ⟨hticks, -⟩ | ⟨hticks, -⟩
      · rw [hticks, hold]
      · rw [hticks, List.count_cons_of_ne (Ne.symm ht), hold]

/-- Blocks of `t` changed, and nothing else. -/
theorem Kept.touch {c : Call Kind γ V} {next : c.Answer → Program Kind γ V A} {answer : c.Answer}
    {blocks : Nat} {log : List (Event T Kind)} {L : Own Kind V} (hk : Kept C init s g)
    (content : Block Kind → V) (who : Block Kind → Option (Option T))
    (hrun : s.running t = some (op, .call c next))
    (hheld : ∀ y, held content who y = if y = some t then L else held s.content g.who y)
    (hsound : (next answer).wp C op L (g.phase t) (Returns C op))
    (hmemory : Memory log blocks who)
    (hwho : ∀ b, g.who b ≠ some none → who b ≠ some none) :
    Kept C init
      ({ s with content := content, blocks := blocks, log := log }.resume t (some (op, next answer)))
      { g with who := who } := by
  have htable : held content who none = held s.content g.who none := by
    rw [hheld, if_neg (by simp)]
  refine hk.next { s with content := content, blocks := blocks, log := log }
    { g with who := who } hrun ?_ (fun t' ht => ⟨?_, rfl⟩) rfl hmemory ?_ (Or.inl rfl)
    (hk.traced t op _ hrun) (Or.inl ⟨rfl, rfl⟩)
  · change (next answer).wp C op (held content who (some t)) (g.phase t) (Returns C op)
    rwa [hheld, if_pos rfl]
  · change held content who (some t') = _
    rw [hheld, if_neg (by simpa using ht)]
  · have hl := hk.lock
    refine ⟨fun hw => ?_, fun t' hw => ?_, fun t' ht => ?_, hl.outside, hl.nodup, hl.seen,
      hl.noMisuse⟩
    · exact htable.symm ▸ hl.unlocked hw
    · obtain ⟨hr, hph, hno⟩ := hl.writing t' hw
      exact ⟨hr, hph, fun b => hwho b (hno b)⟩
    · exact htable.symm ▸ hl.reading t' ht

end Steps

section MemoryCalls

variable {log : List (Event T Kind)} {blocks : Nat} {who who' : Block Kind → Option (Option T)}
  {b : Block Kind}

theorem Memory.new_unowned (h : Memory log blocks who) (hb : blocks ≤ b.id) :
    who b = none ∧ ∀ t, .allocated t b ∉ log := by
  have hno (t : T) : .allocated t b ∉ log := fun hmem => by
    have hlt := h.fresh t b hmem
    omega
  refine ⟨?_, hno⟩
  by_contra hwho
  obtain ⟨⟨t, ht⟩, -⟩ := (h.live b).mp hwho
  exact hno t ht

theorem Memory.alloc (h : Memory log blocks who) (t : T) (kind : Kind) :
    Memory (.allocated t ⟨kind, blocks⟩ :: log) (blocks + 1)
      (Function.update who ⟨kind, blocks⟩ (some (some t))) where
  live b := by
    by_cases hb : b = ⟨kind, blocks⟩
    · subst hb
      have hno := (h.new_unowned (b := ⟨kind, blocks⟩) le_rfl).2
      have hfreed : .freed (⟨kind, blocks⟩ : Block Kind) ∉ log := by
        intro hmem
        obtain ⟨later, past, hsplit⟩ := List.append_of_mem hmem
        obtain ⟨⟨t', ht'⟩, -⟩ := h.orderly later _ past hsplit
        exact hno t' (by simp [hsplit, ht'])
      simp [hfreed]
    · have hlive := h.live b
      simpa [Function.update_of_ne hb, hb] using hlive
  fresh t' b hmem := by
    rcases List.mem_cons.mp hmem with heq | hold
    · cases heq
      exact Nat.lt_succ_self _
    · exact Nat.lt_succ_of_lt (h.fresh t' b hold)
  orderly := h.orderly.cons (h.new_unowned le_rfl).2

theorem Memory.use (h : Memory log blocks who) (hb : who b ≠ none) :
    Memory (.used b :: log) blocks who where
  live b' := by simpa using h.live b'
  fresh t b' hmem := h.fresh t b' (by simpa using hmem)
  orderly := h.orderly.cons ((h.live b).mp hb)

theorem Memory.free (h : Memory log blocks who) (hb : who b ≠ none) :
    Memory (.freed b :: log) blocks (Function.update who b none) where
  live b' := by
    by_cases hb' : b' = b
    · subst hb'
      simp
    · have hlive := h.live b'
      simpa [Function.update_of_ne hb', hb'] using hlive
  fresh t b' hmem := h.fresh t b' (by simpa using hmem)
  orderly := h.orderly.cons ((h.live b).mp hb)

theorem Memory.hand (h : Memory log blocks who) (hwho : ∀ b, who' b ≠ none ↔ who b ≠ none) :
    Memory log blocks who' :=
  ⟨fun b => (hwho b).trans (h.live b), h.fresh, h.orderly⟩

end MemoryCalls

section Calls

variable {C : Contract Kind γ V Op A ν} {init : ν} {s : System T Kind γ V Op A}
  {g : Ghost T Kind γ V A ν} {t : T} {op : Op}

theorem Kept.alloc {kind : Kind} {next : Block Kind → Program Kind γ V A}
    (hk : Kept C init s g) (hrun : s.running t = some (op, .call (.alloc kind) next)) :
    ∃ g', Kept C init ({ s.note (.allocated t ⟨kind, s.blocks⟩) with
      blocks := s.blocks + 1 }.resume t (some (op, next ⟨kind, s.blocks⟩))) g' := by
  have hnew := (hk.memory.new_unowned (b := ⟨kind, s.blocks⟩) le_rfl).1
  have hlent : (g.phase t).lent ⟨kind, s.blocks⟩ = none := by
    rcases hk.lock.lent t with hl | hl
    · rw [hl]
      rfl
    · rw [hl]
      exact held_eq_none_iff.mpr (by simp [hnew])
  have hspec := hk.sound t op _ hrun ⟨kind, s.blocks⟩ (s.content ⟨kind, s.blocks⟩) rfl
    (held_eq_none_iff.mpr (by simp [hnew])) hlent
  refine ⟨_, hk.touch (c := .alloc kind) s.content _ hrun (fun y => ?_) hspec
    (hk.memory.alloc t kind) fun b hb => ?_⟩
  · have hassign := held_assign s.content (s.content ⟨kind, s.blocks⟩) y
      (x := some t) (Or.inl hnew)
    rwa [Function.update_eq_self] at hassign
  · by_cases hb' : b = ⟨kind, s.blocks⟩
    · subst hb'
      simp
    · rwa [Function.update_of_ne hb']

theorem Kept.read {b : Block Kind} {next : V → Program Kind γ V A} (hk : Kept C init s g)
    (hrun : s.running t = some (op, .call (.read b) next)) :
    ∃ g', Kept C init ((s.note (.used b)).resume t (some (op, next (s.content b)))) g' := by
  obtain ⟨v, hv, hspec⟩ := hk.sound t op _ hrun
  have hlive : g.who b ≠ none ∧ s.content b = v := by
    rcases hv with hown | hlent
    · obtain ⟨hwho, hv⟩ := held_eq_some_iff.mp hown
      exact ⟨by simp [hwho], hv⟩
    · rcases hk.lock.lent t with hl | hl
      · rw [hl] at hlent
        cases hlent
      · rw [hl] at hlent
        obtain ⟨hwho, hv⟩ := held_eq_some_iff.mp hlent
        exact ⟨by simp [hwho], hv⟩
  rw [← hlive.2] at hspec
  refine ⟨_, hk.touch (c := .read b) s.content g.who hrun (fun y => ?_) hspec
    (hk.memory.use hlive.1) fun _ => id⟩
  split
  · next hy => rw [hy]
  · rfl

theorem Kept.write {b : Block Kind} {f : V → V} {next : Unit → Program Kind γ V A}
    (hk : Kept C init s g) (hrun : s.running t = some (op, .call (.write b f) next)) :
    ∃ g', Kept C init ({ s.note (.used b) with
      content := Function.update s.content b (f (s.content b)) }.resume t
        (some (op, next ()))) g' := by
  obtain ⟨v, hv, hspec⟩ := hk.sound t op _ hrun
  obtain ⟨hwho, rfl⟩ := held_eq_some_iff.mp hv
  have hsame : Function.update g.who b (some (some t)) = g.who := by
    rw [← hwho, Function.update_eq_self]
  refine ⟨_, hk.touch (c := .write b f) _ g.who hrun (fun y => ?_) hspec
    (hk.memory.use (by simp [hwho])) fun _ => id⟩
  have hassign := held_assign s.content (f (s.content b)) y (Or.inr hwho)
  rwa [hsame] at hassign

theorem Kept.free {b : Block Kind} {next : Unit → Program Kind γ V A} (hk : Kept C init s g)
    (hrun : s.running t = some (op, .call (.free b) next)) :
    ∃ g', Kept C init ((s.note (.freed b)).resume t (some (op, next ()))) g' := by
  obtain ⟨hown, hspec⟩ := hk.sound t op _ hrun
  have hwho : g.who b = some (some t) := by
    by_contra hno
    exact hown (held_eq_none_iff.mpr hno)
  refine ⟨_, hk.touch (c := .free b) s.content _ hrun (fun y => held_free hwho) hspec
    (hk.memory.free (by simp [hwho])) fun b' hb' => ?_⟩
  by_cases hb : b' = b
  · subst hb
    simp
  · rwa [Function.update_of_ne hb]

end Calls

end Invariant

end PushLock

import KnFileCatcher.PushLockRuns
import KnFileCatcher.Runs

/-! The runs of sound programs: every access is in order, and each section happens at one
moment between the call and the return of its operation. -/

namespace PushLock

open Ownership (Block Event Orderly)
open Runs (Reachable)

variable {T Kind γ V Op A ν : Type} [DecidableEq T] [DecidableEq Kind]

section LockCalls

variable {C : Contract Kind γ V Op A ν} {init n : ν} {s : System T Kind γ V Op A}
  {g : Ghost T Kind γ V A ν} {t : T} {op : Op}

theorem Kept.look {next : γ → Program Kind γ V A} (hk : Kept C init s g)
    (hrun : s.running t = some (op, .call .look next)) :
    ∃ g', Kept C init ({ s with misused := s.misused || !s.holds t }.resume t
      (some (op, next s.table))) g' := by
  obtain ⟨table, htable, hspec⟩ := hk.sound t op _ hrun
  obtain ⟨rfl, hholds⟩ := hk.lock.table_eq htable
  have hsame : { s with misused := s.misused || !s.holds t } = s := by
    rw [hholds, Bool.not_true, Bool.or_false]
  rw [hsame]
  exact ⟨g, hk.next (c := .look) s g hrun hspec (fun _ _ => ⟨rfl, rfl⟩) rfl hk.memory hk.lock
    (Or.inl rfl) (hk.traced t op _ hrun) (Or.inl ⟨rfl, rfl⟩)⟩

theorem Kept.set {f : γ → γ} {next : Unit → Program Kind γ V A} (hk : Kept C init s g)
    (hrun : s.running t = some (op, .call (.set f) next)) :
    ∃ g', Kept C init ({ s with
      table := f s.table, misused := s.misused || decide (s.writer ≠ some t) }.resume t
        (some (op, next ()))) g' := by
  obtain ⟨table, n, hph, hseen, hspec⟩ := hk.sound t op _ hrun
  obtain ⟨hw, rfl, rfl⟩ := hk.lock.writing_eq hph
  obtain ⟨hnil, -, hno⟩ := hk.lock.writing t hw
  have hmoved : (g.move t (.writing (f s.table) (after C init s.history))).phase t =
      .writing (f s.table) (after C init s.history) := Function.update_self ..
  refine ⟨g.move t (.writing (f s.table) (after C init s.history)),
    hk.next (c := .set f)
      { s with table := f s.table, misused := s.misused || decide (s.writer ≠ some t) } _ hrun ?_
      (fun t' ht => ⟨rfl, Function.update_of_ne ht ..⟩) rfl hk.memory ?_ (Or.inl rfl) ?_ ?_⟩
  · rw [hmoved]
    exact hspec
  · refine ⟨fun hfree => ?_, fun t' hw' => ?_, fun t' hr => ?_, fun t' hr hw' => ?_, hk.lock.nodup,
      ?_, ?_⟩
    · exact absurd (hw.symm.trans hfree) (by simp)
    · obtain rfl := Option.some.inj (hw.symm.trans hw')
      exact ⟨hnil, hmoved, hno⟩
    · change t' ∈ s.readers at hr
      rw [hnil] at hr
      cases hr
    · have ht : t' ≠ t := by
        rintro rfl
        exact hw' hw
      have hout := hk.lock.outside t' hr hw'
      rwa [show (g.move t _).phase t' = g.phase t' from Function.update_of_ne ht ..]
    · rcases hseen with hseen | hseen
      · exact Or.inl hseen
      · exact Or.inr ⟨t, op, hw, by simp [System.operation, hrun], hseen⟩
    · simp [hk.lock.noMisuse, hw]
  · rw [hmoved]
    have htraced := hk.traced t op _ hrun
    rwa [hph] at htraced
  · rw [hph, hmoved]
    exact Or.inl ⟨rfl, rfl⟩

theorem Kept.acquireShared {next : Unit → Program Kind γ V A} (hk : Kept C init s g)
    (hrun : s.running t = some (op, .call (.acquire .shared) next)) (hw : s.writer = none) :
    ∃ g', Kept C init ({ s with readers := t :: s.readers }.resume t (some (op, next ()))) g' := by
  obtain ⟨hph, hall⟩ := hk.sound t op _ hrun
  have hinv := hk.lock.unlocked hw
  have hspec := hall _ _ _ hinv fun b => held_disjoint
  let ph : Phase Kind γ V A ν :=
    .reading s.table (held s.content g.who none) (after C init s.history)
  have hmoved : (g.move t ph).phase t = ph := Function.update_self ..
  have hother (t' : T) (ht : t' ≠ t) : (g.move t ph).phase t' = g.phase t' :=
    Function.update_of_ne ht ..
  refine ⟨g.move t ph,
    hk.next (c := .acquire .shared) { s with readers := t :: s.readers } _ hrun ?_
      (fun t' ht => ⟨rfl, hother t' ht⟩) rfl hk.memory ?_ (Or.inl rfl) ?_ ?_⟩
  · rw [hmoved]
    exact hspec
  · refine ⟨fun _ => hinv, fun t' hw' => ?_, fun t' hr => ?_, fun t' hr hw' => ?_, ?_, ?_,
      hk.lock.noMisuse⟩
    · exact absurd (hw.symm.trans hw') (by simp)
    · by_cases ht : t' = t
      · subst ht
        exact hmoved
      · rw [hother t' ht]
        exact hk.lock.reading t' ((List.mem_cons.mp hr).resolve_left ht)
    · obtain ⟨ht, hr⟩ := not_or.mp (List.mem_cons.not.mp hr)
      rw [hother t' ht]
      exact hk.lock.outside t' hr hw'
    · exact List.nodup_cons.mpr ⟨hk.lock.not_reading hph, hk.lock.nodup⟩
    · rcases hk.lock.seen with hseen | ⟨t', op', hw', -⟩
      · exact Or.inl hseen
      · exact absurd (hw.symm.trans hw') (by simp)
  · rw [hmoved]
    have htraced := hk.traced t op _ hrun
    rwa [hph] at htraced
  · rw [hph, hmoved]
    exact Or.inl ⟨rfl, rfl⟩

theorem Kept.acquireExclusive {next : Unit → Program Kind γ V A} (hk : Kept C init s g)
    (hrun : s.running t = some (op, .call (.acquire .exclusive) next)) (hw : s.writer = none)
    (hr : s.readers = []) :
    ∃ g', Kept C init ({ s with writer := some t }.resume t (some (op, next ()))) g' := by
  obtain ⟨hph, hall⟩ := hk.sound t op _ hrun
  have hinv := hk.lock.unlocked hw
  have hspec := hall _ _ _ hinv fun b => held_disjoint
  let ph : Phase Kind γ V A ν := .writing s.table (after C init s.history)
  let g' : Ghost T Kind γ V A ν := { g.move t ph with who := take g.who t }
  have hmoved : g'.phase t = ph := Function.update_self ..
  have hother (t' : T) (ht : t' ≠ t) : g'.phase t' = g.phase t' := Function.update_of_ne ht ..
  refine ⟨g', hk.next (c := .acquire .exclusive) { s with writer := some t } g' hrun
    ?_ (fun t' ht => ⟨?_, hother t' ht⟩) rfl (hk.memory.hand fun b => take_ne_none) ?_ (Or.inl rfl)
    ?_ ?_⟩
  · rw [hmoved]
    change (next ()).wp C op (held s.content (take g.who t) (some t)) ph (Returns C op)
    rw [held_take, if_pos rfl]
    exact hspec
  · change held s.content (take g.who t) (some t') = _
    rw [held_take, if_neg ht]
  · refine ⟨nofun, fun t' hw' => ?_, fun t' hr' => ?_, fun t' hr' hw' => ?_,
      hk.lock.nodup, ?_, hk.lock.noMisuse⟩
    · obtain rfl := Option.some.inj hw'
      exact ⟨hr, hmoved, fun b => take_ne_table⟩
    · change t' ∈ s.readers at hr'
      rw [hr] at hr'
      cases hr'
    · have ht : t' ≠ t := by
        rintro rfl
        exact hw' rfl
      rw [hother t' ht]
      exact hk.lock.outside t' hr' (by simp [hw])
    · rcases hk.lock.seen with hseen | ⟨t', op', hw', -⟩
      · exact Or.inl hseen
      · exact absurd (hw.symm.trans hw') (by simp)
  · rw [hmoved]
    have htraced := hk.traced t op _ hrun
    rwa [hph] at htraced
  · rw [hph, hmoved]
    exact Or.inl ⟨rfl, rfl⟩

end LockCalls

section Releases

variable {C : Contract Kind γ V Op A ν} {init : ν} {s : System T Kind γ V Op A}
  {g : Ghost T Kind γ V A ν} {t : T} {op : Op}

theorem Kept.releaseShared {next : Unit → Program Kind γ V A} (hk : Kept C init s g)
    (hrun : s.running t = some (op, .call .release next)) (hw : s.writer ≠ some t) :
    ∃ g', Kept C init ({ s with
      history := .sectioned t op :: s.history
      readers := s.readers.erase t
      misused := s.misused || !s.holds t }.resume t (some (op, next ()))) g' := by
  have hspec := hk.sound t op _ hrun
  have hr : t ∈ s.readers := by
    by_contra hr
    have hout := hk.lock.outside t hr hw
    simp only [Program.wp, Call.Spec] at hspec
    cases hph : g.phase t with
    | reading _ _ _ | writing _ _ =>
      rw [hph] at hout
      exact hout trivial
    | before | after _ _ =>
      rw [hph] at hspec
      exact hspec
  have hph := hk.lock.reading t hr
  rw [hph] at hspec
  obtain ⟨hsame, hspec⟩ := hspec
  let ph : Phase Kind γ V A ν := .after (C.spec op (after C init s.history)).1 0
  have hmoved : (g.move t ph).phase t = ph := Function.update_self ..
  have hother (t' : T) (ht : t' ≠ t) : (g.move t ph).phase t' = g.phase t' :=
    Function.update_of_ne ht ..
  refine ⟨g.move t ph, hk.next (c := .release)
    { s with
      history := .sectioned t op :: s.history
      readers := s.readers.erase t
      misused := s.misused || !s.holds t }
    _ hrun ?_ (fun t' ht => ⟨rfl, hother t' ht⟩) rfl hk.memory ?_ (Or.inr rfl) ?_ ?_⟩
  · rw [hmoved]
    exact hspec
  · change Lock C (C.spec op (after C init s.history)).2 _ _
    rw [hsame]
    refine ⟨hk.lock.unlocked, fun t' hw' => ?_, fun t' hr' => ?_, fun t' hr' hw' => ?_,
      hk.lock.nodup.erase t, hk.lock.seen, ?_⟩
    · have hnil := (hk.lock.writing t' hw').1
      rw [hnil] at hr
      cases hr
    · have hmem := hk.lock.nodup.mem_erase_iff.mp hr'
      rw [hother t' hmem.1]
      exact hk.lock.reading t' hmem.2
    · by_cases ht : t' = t
      · subst ht
        rw [hmoved]
        exact id
      · rw [hother t' ht]
        exact hk.lock.outside t' (fun h => hr' (hk.lock.nodup.mem_erase_iff.mpr ⟨ht, h⟩)) hw'
    · simp [hk.lock.noMisuse, System.holds, hr]
  · rw [hmoved]
    have htraced := hk.traced t op _ hrun
    rw [hph] at htraced
    exact htraced.sectioned trivial 0
  · rw [hph, hmoved]
    exact Or.inl ⟨rfl, rfl⟩

theorem Kept.releaseExclusive {next : Unit → Program Kind γ V A} (hk : Kept C init s g)
    (hrun : s.running t = some (op, .call .release next)) (hw : s.writer = some t) :
    ∃ g', Kept C init ({ s with
      history := .sectioned t op :: s.history
      writer := none }.resume t (some (op, next ()))) g' := by
  have hspec := hk.sound t op _ hrun
  obtain ⟨hnil, hph, hno⟩ := hk.lock.writing t hw
  rw [hph] at hspec
  obtain ⟨G, hG, hinv, hspec⟩ := hspec
  let ph : Phase Kind γ V A ν := .after (C.spec op (after C init s.history)).1 0
  let g' : Ghost T Kind γ V A ν := { g.move t ph with who := give g.who G }
  have hmoved : g'.phase t = ph := Function.update_self ..
  have hother (t' : T) (ht : t' ≠ t) : g'.phase t' = g.phase t' := Function.update_of_ne ht ..
  refine ⟨g', hk.next (c := .release)
    { s with
      history := .sectioned t op :: s.history
      writer := none }
    g' hrun ?_ (fun t' ht => ⟨?_, hother t' ht⟩) rfl (hk.memory.hand fun b => give_ne_none hG) ?_
    (Or.inr rfl) ?_ ?_⟩
  · rw [hmoved]
    change (next ()).wp C op (held s.content (give g.who G) (some t)) ph (Returns C op)
    rw [held_give hG, if_pos rfl]
    exact hspec
  · change held s.content (give g.who G) (some t') = _
    rw [held_give hG, if_neg ht]
  · have hinv' : C.inv s.table (held s.content (give g.who G) none)
        (C.spec op (after C init s.history)).2 := by
      rwa [held_give_table hG hno]
    refine ⟨fun _ => hinv', nofun, fun t' hr' => ?_, fun t' hr' _ => ?_, hk.lock.nodup,
      Or.inl (C.inv_seen _ _ _ hinv'), hk.lock.noMisuse⟩
    · change t' ∈ s.readers at hr'
      rw [hnil] at hr'
      cases hr'
    · by_cases ht : t' = t
      · subst ht
        rw [hmoved]
        exact id
      · rw [hother t' ht]
        exact hk.lock.outside t' hr' fun hw' => ht (Option.some.inj (hw'.symm.trans hw))
  · rw [hmoved]
    have htraced := hk.traced t op _ hrun
    rw [hph] at htraced
    exact htraced.sectioned trivial 0
  · rw [hph, hmoved]
    exact Or.inl ⟨rfl, rfl⟩

theorem Kept.tick {next : Unit → Program Kind γ V A} (hk : Kept C init s g)
    (hrun : s.running t = some (op, .call .tick next)) :
    ∃ g', Kept C init ({ s with ticks := t :: s.ticks }.resume t (some (op, next ()))) g' := by
  obtain ⟨a, paid, hph, -, hspec⟩ := hk.sound t op _ hrun
  let ph : Phase Kind γ V A ν := .after a (paid + 1)
  have hmoved : (g.move t ph).phase t = ph := Function.update_self ..
  have hother (t' : T) (ht : t' ≠ t) : (g.move t ph).phase t' = g.phase t' :=
    Function.update_of_ne ht ..
  refine ⟨g.move t ph, hk.next (c := .tick) { s with ticks := t :: s.ticks } _ hrun ?_
    (fun t' ht => ⟨rfl, hother t' ht⟩) rfl hk.memory ?_ (Or.inl rfl) ?_ ?_⟩
  · rw [hmoved]
    exact hspec
  · have hout : ¬ (g.phase t).Inside := by
      rw [hph]
      exact id
    have hl := hk.lock
    refine ⟨hl.unlocked, fun t' hw => ?_, fun t' hr => ?_, fun t' hr hw => ?_, hl.nodup, hl.seen,
      hl.noMisuse⟩
    · have hphase := (hl.writing t' hw).2.1
      have ht : t' ≠ t := by
        rintro rfl
        rw [hph] at hphase
        cases hphase
      rw [hother t' ht]
      exact hl.writing t' hw
    · have hphase := hl.reading t' hr
      have ht : t' ≠ t := by
        rintro rfl
        rw [hph] at hphase
        cases hphase
      rw [hother t' ht]
      exact hphase
    · by_cases ht : t' = t
      · subst ht
        rw [hmoved]
        exact id
      · rw [hother t' ht]
        exact hl.outside t' hr hw
  · rw [hmoved]
    have htraced := hk.traced t op _ hrun
    rwa [hph] at htraced
  · rw [hph, hmoved]
    exact Or.inr ⟨rfl, rfl⟩

theorem Kept.perform {c : Call Kind γ V} {next : c.Answer → Program Kind γ V A}
    {r : c.Answer × System T Kind γ V Op A} (hk : Kept C init s g)
    (hrun : s.running t = some (op, .call c next)) (hr : s.perform t op c = some r) :
    ∃ g', Kept C init (r.2.resume t (some (op, next r.1))) g' := by
  cases c with
  | alloc kind =>
    obtain rfl := Option.some.inj hr
    exact hk.alloc hrun
  | read b =>
    obtain rfl := Option.some.inj hr
    exact hk.read hrun
  | write b f =>
    obtain rfl := Option.some.inj hr
    exact hk.write hrun
  | free b =>
    obtain rfl := Option.some.inj hr
    exact hk.free hrun
  | look =>
    obtain rfl := Option.some.inj hr
    exact hk.look hrun
  | set f =>
    obtain rfl := Option.some.inj hr
    exact hk.set hrun
  | acquire m =>
    cases m with
    | shared =>
      obtain ⟨hw, hr⟩ := Option.ite_none_right_eq_some.mp hr
      obtain rfl := Option.some.inj hr
      exact hk.acquireShared hrun hw
    | exclusive =>
      obtain ⟨hfree, hr⟩ := Option.ite_none_right_eq_some.mp hr
      obtain rfl := Option.some.inj hr
      exact hk.acquireExclusive hrun hfree.1 hfree.2
  | release =>
    simp only [System.perform] at hr
    split at hr
    · next hw =>
      obtain rfl := Option.some.inj hr
      exact hk.releaseExclusive hrun hw
    · next hw =>
      obtain rfl := Option.some.inj hr
      exact hk.releaseShared hrun hw
  | tick =>
    obtain rfl := Option.some.inj hr
    exact hk.tick hrun

end Releases

section Runs

variable {C : Contract Kind γ V Op A ν} {init : ν} {s s' : System T Kind γ V Op A}
  {g : Ghost T Kind γ V A ν} {t : T} {op : Op} {program : Op → Program Kind γ V A}

theorem Kept.call (hk : Kept C init s g) (hs : Sound C program) (hrun : s.running t = none) :
    ∃ g', Kept C init { s.resume t (some (op, program op)) with
      history := .called t op :: s.history } g' := by
  obtain ⟨hph, hwho⟩ := hk.idle t hrun
  have hsame : g.move t .before = g := by
    rw [← hph]
    exact congrArg (Ghost.mk g.who) (Function.update_eq_self t g.phase)
  have hlock := hk.lock.turn (t := t) (by rw [hph]; exact id) (.called t op :: s.history)
    (some (op, program op))
  rw [hsame] at hlock
  have hempty : held s.content g.who (some t) = .empty :=
    funext fun b => held_eq_none_iff.mpr (hwho b)
  refine ⟨g, fun t' op' p hp => ?_, fun t' hnone => ?_, hk.memory, hlock, fun t' op' p hp => ?_,
    hk.explained.cons C init (fun _ _ _ heq => by cases heq), hk.paid⟩
  · by_cases ht : t' = t
    · subst ht
      obtain ⟨rfl, rfl⟩ : op = op' ∧ program op = p := by simpa [System.resume] using hp
      change (program op).wp C op (held s.content g.who (some t')) (g.phase t') _
      rw [hempty, hph]
      exact hs op
    · exact hk.sound t' op' p (by simpa [System.resume, ht] using hp)
  · by_cases ht : t' = t
    · subst ht
      simp [System.resume] at hnone
    · exact hk.idle t' (by simpa [System.resume, ht] using hnone)
  · by_cases ht : t' = t
    · subst ht
      obtain ⟨rfl, rfl⟩ : op = op' ∧ program op = p := by simpa [System.resume] using hp
      rw [hph]
      exact ⟨s.history, .head t' _ _⟩
    · exact (hk.traced t' op' p (by simpa [System.resume, ht] using hp)).cons C init (Ne.symm ht)

theorem Kept.return {a : A} (hk : Kept C init s g) (hrun : s.running t = some (op, .done a)) :
    ∃ g', Kept C init { s.resume t none with history := .returned t op a :: s.history } g' := by
  obtain ⟨hempty, hret⟩ := hk.sound t op _ hrun
  have htraced := hk.traced t op _ hrun
  have hpaid := hk.paid t
  obtain ⟨hout, hexplained, hcost⟩ : ¬ (g.phase t).Inside ∧ Explained C init s.history t op a ∧
      (g.phase t).paid = C.cost a := by
    cases hph : g.phase t with
    | before =>
      rw [hph] at hret htraced
      exact ⟨id, Or.inr ⟨htraced, hret.1⟩, hret.2.symm⟩
    | after a' paid =>
      rw [hph] at hret htraced
      obtain ⟨rfl, rfl⟩ := hret
      exact ⟨id, Or.inl htraced, rfl⟩
    | reading _ _ _ | writing _ _ =>
      rw [hph] at hret
      exact hret.elim
  have hmoved : (g.move t .before).phase t = .before := Function.update_self ..
  have hother (t' : T) (ht : t' ≠ t) : (g.move t .before).phase t' = g.phase t' :=
    Function.update_of_ne ht ..
  refine ⟨g.move t .before, fun t' op' p hp => ?_, fun t' hnone => ?_, hk.memory,
    hk.lock.turn hout _ _, fun t' op' p hp => ?_, ?_, fun t' => ?_⟩
  · have ht : t' ≠ t := by
      rintro rfl
      simp [System.resume] at hp
    rw [hother t' ht]
    exact hk.sound t' op' p (by simpa [System.resume, ht] using hp)
  · by_cases ht : t' = t
    · subst ht
      exact ⟨hmoved, fun b => held_eq_none_iff.mp (hempty b)⟩
    · rw [hother t' ht]
      exact hk.idle t' (by simpa [System.resume, ht] using hnone)
  · have ht : t' ≠ t := by
      rintro rfl
      simp [System.resume] at hp
    rw [hother t' ht]
    exact (hk.traced t' op' p (by simpa [System.resume, ht] using hp)).cons C init (Ne.symm ht)
  · refine hk.explained.cons C init fun t' op' a' heq => ?_
    obtain ⟨rfl, rfl, rfl⟩ := Moment.returned.inj heq
    exact hexplained
  · change s.ticks.count t' = (if t = t' then C.cost a else 0) + spent C t' s.history + _
    by_cases ht : t' = t
    · subst ht
      rw [hmoved, if_pos rfl, hpaid, hcost, Nat.add_comm]
      rfl
    · rw [hother t' ht, if_neg (Ne.symm ht), Nat.zero_add]
      exact hk.paid t'

theorem Kept.step {a : Action T Op} (hk : Kept C init s g) (hs : Sound C program)
    (h : step program s a = some s') : ∃ g', Kept C init s' g' := by
  cases a with
  | call t op =>
    simp only [PushLock.step] at h
    split at h
    · cases h
    · next hrun =>
      obtain rfl := Option.some.inj h
      exact hk.call hs hrun
  | step t =>
    simp only [PushLock.step] at h
    split at h
    · cases h
    · next op a hrun =>
      obtain rfl := Option.some.inj h
      exact hk.return hrun
    · next op c next hrun =>
      obtain ⟨r, hr, rfl⟩ := Option.map_eq_some_iff.mp h
      exact hk.perform hrun hr

theorem kept_init {table : γ} {content : Block Kind → V} (h : C.inv table .empty init) :
    Kept C init (.init table content : System T Kind γ V Op A) ⟨fun _ => none, fun _ => .before⟩ where
  sound _ _ _ hp := by cases hp
  idle _ _ := ⟨rfl, by simp⟩
  memory := ⟨by simp [System.init], by simp [System.init], fun later _ _ heq => by
    cases later <;> cases heq⟩
  lock := by
    refine ⟨fun _ => h, nofun, nofun, fun _ _ _ => id, List.nodup_nil,
      Or.inl (C.inv_seen _ _ _ h), rfl⟩
  traced _ _ _ hp := by cases hp
  explained later _ _ _ _ heq := by cases later <;> cases heq
  paid _ := rfl

theorem kept_of_reachable {table : γ} {content : Block Kind → V} (hs : Sound C program)
    (hinv : C.inv table .empty init)
    (h : Reachable (PushLock.step program) (.init table content : System T Kind γ V Op A) s) :
    ∃ g, Kept C init s g :=
  h.invariant (I := fun s => ∃ g, Kept C init s g) (fun _ _ _ ⟨_, hk⟩ hstep => hk.step hs hstep)
    ⟨_, kept_init hinv⟩

end Runs

section Results

variable {C : Contract Kind γ V Op A ν} {init : ν} {s : System T Kind γ V Op A}
  {g : Ghost T Kind γ V A ν}

/-- A call is refused only to a thread outside of the lock that wants to take it. -/
theorem Kept.refused {t : T} {op : Op} {c : Call Kind γ V} {next : c.Answer → Program Kind γ V A}
    (hk : Kept C init s g) (hrun : s.running t = some (op, .call c next))
    (hr : s.perform t op c = none) :
    (s.writer ≠ none ∨ s.readers ≠ []) ∧ g.phase t = .before := by
  have hspec := hk.sound t op _ hrun
  cases c with
  | acquire m =>
    cases m with
    | shared =>
      refine ⟨Or.inl fun hw => ?_, hspec.1⟩
      simp [System.perform, hw] at hr
    | exclusive =>
      refine ⟨?_, hspec.1⟩
      by_contra hfree
      obtain ⟨hw, hreaders⟩ := not_or.mp hfree
      simp [System.perform, not_not.mp hw, not_not.mp hreaders] at hr
  | release =>
    simp only [System.perform] at hr
    split at hr <;> cases hr
  | alloc _ | read _ | write _ _ | free _ | look | set _ | tick => cases hr

theorem Kept.can_step {program : Op → Program Kind γ V A} {t : T} (hk : Kept C init s g)
    (hrun : s.running t ≠ none)
    (ht : (g.phase t).Inside ∨ s.writer = none ∧ s.readers = []) :
    ∃ s', PushLock.step program s (.step t) = some s' := by
  obtain ⟨⟨op, p⟩, hp⟩ := Option.ne_none_iff_exists'.mp hrun
  cases p with
  | done a =>
    simp only [PushLock.step, hp]
    exact ⟨_, rfl⟩
  | call c next =>
    cases hr : s.perform t op c with
    | some r => exact ⟨r.2.resume t (some (op, next r.1)), by simp [PushLock.step, hp, hr]⟩
    | none =>
      obtain ⟨hheld, hbefore⟩ := hk.refused hp hr
      rcases ht with hin | ⟨hw, hreaders⟩
      · rw [hbefore] at hin
        exact hin.elim
      · rcases hheld with hne | hne
        · exact absurd hw hne
        · exact absurd hreaders hne

theorem Kept.inside_running {t : T} (hk : Kept C init s g) (hin : (g.phase t).Inside) :
    s.running t ≠ none := by
  intro hnone
  rw [(hk.idle t hnone).1] at hin
  exact hin

/-- No deadlock: a holder of the lock goes on, and without one every thread does. -/
theorem Kept.progress {program : Op → Program Kind γ V A} {t : T} (hk : Kept C init s g)
    (hrun : s.running t ≠ none) : ∃ t' s', PushLock.step program s (.step t') = some s' := by
  cases hw : s.writer with
  | some t' =>
    have hin : (g.phase t').Inside := by
      rw [(hk.lock.writing t' hw).2.1]
      trivial
    exact ⟨t', hk.can_step (hk.inside_running hin) (Or.inl hin)⟩
  | none =>
    cases hr : s.readers with
    | cons t' readers =>
      have hin : (g.phase t').Inside := by
        rw [hk.lock.reading t' (by simp [hr])]
        trivial
      exact ⟨t', hk.can_step (hk.inside_running hin) (Or.inl hin)⟩
    | nil => exact ⟨t, hk.can_step hrun (Or.inr ⟨hw, hr⟩)⟩

def System.AtRest (s : System T Kind γ V Op A) : Prop := ∀ t, s.running t = none

/-- The live blocks are those that were allocated and not freed. -/
def System.Live (s : System T Kind γ V Op A) (b : Block Kind) : Prop :=
  (∃ t, .allocated t b ∈ s.log) ∧ .freed b ∉ s.log

/-- The blocks of `G` are all that is live, with what lies in them. -/
structure System.Keeps (s : System T Kind γ V Op A) (G : Own Kind V) : Prop where
  live : ∀ b, G b ≠ none ↔ s.Live b
  content : ∀ b v, G b = some v → s.content b = v

/-- At rest the lock is free, the live blocks are those of the table, and the counter has
the ticks that the answers cost. -/
theorem Kept.rest (hk : Kept C init s g) (hrest : s.AtRest) :
    (∃ G, C.inv s.table G (after C init s.history) ∧ s.Keeps G) ∧
      s.ticks.Perm (charges C s.history) := by
  have hout (t : T) : g.phase t = .before := (hk.idle t (hrest t)).1
  have hfree : s.writer = none := by
    cases hw : s.writer with
    | none => rfl
    | some t =>
      have hph := (hk.lock.writing t hw).2.1
      rw [hout t] at hph
      cases hph
  refine ⟨⟨_, hk.lock.unlocked hfree, fun b => ?_, fun b v hb => (held_eq_some_iff.mp hb).2⟩, ?_⟩
  · refine Iff.trans ?_ (hk.memory.live b)
    rw [Ne, held_eq_none_iff, not_not]
    refine ⟨fun h => by simp [h], fun h => ?_⟩
    cases hwho : g.who b with
    | none => exact absurd hwho h
    | some x =>
      cases x with
      | none => rfl
      | some t => exact absurd hwho ((hk.idle t (hrest t)).2 b)
  · refine List.perm_iff_count.mpr fun t => ?_
    rw [count_charges, hk.paid t, hout t]
    rfl

end Results

end PushLock

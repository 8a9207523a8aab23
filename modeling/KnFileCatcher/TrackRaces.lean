import KnFileCatcher.Lineage
import KnFileCatcher.TrackCalls

/-! What keeps the two flags and the table together while starts and stops overlap. -/

namespace KnFileCatcher

open Runs ChainedTable

def CallPc.willPurge : CallPc → Bool
  | .testNotify | .remove | .await _ | .clearRegistered | .purge => true
  | _ => false

/-- The call is about to make the flags agree: a start before it sets `Active`, a stop
before it clears `NotifyRegistered`. -/
def CallPc.willAgree : CallPc → Bool
  | .setActive | .testNotify | .remove | .await _ | .clearRegistered => true
  | _ => false

def CallPc.willRemove : CallPc → Bool
  | .testNotify | .remove => true
  | _ => false

theorem CallPc.willPurge_of_willRemove {pc : CallPc} (h : pc.willRemove = true) :
    pc.willPurge = true := by
  cases pc <;> first | rfl | cases h

def TableEmpty (g : KnfcTrackCtx) : Prop := (∀ b, g.buckets b = []) ∧ g.entryCount = 0

namespace TrackCalls

variable {T : Type*}

def PurgePending (s : TrackCalls T) : Prop := ∃ t, (s.calls t).willPurge = true

/-- A snapshot inserts while `Active` is clear and no purge is to come. -/
def InsertsLate (up : Wchar → Wchar) (s : TrackCalls T) : SnapStep → Prop
  | .classify env pid parentPid imagePath =>
    Inserts env.alloc s.globals.table (imageMatches up env.config imagePath) pid parentPid
      imagePath ∧ s.globals.table.active = false ∧ ¬ s.PurgePending
  | _ => False

/-- The steps that act on what was true before: a start sets `Active` after its
registration was taken back, a stop takes back a registration made since, and the late
insertion of a snapshot. -/
def BlindAt (up : Wchar → Wchar) (s : TrackCalls T) (env : CallEnv) : CallPc → Prop
  | .setActive => s.globals.table.notifyRegistered = false
  | .clearRegistered => s.globals.table.active = true ∨ s.globals.routine.isSome = true
  | .snapshot => s.InsertsLate up env.snap
  | _ => False

def Blind (up : Wchar → Wchar) (s : TrackCalls T) : TrackCallAction T → Prop
  | .step t env => s.BlindAt up env (s.calls t)
  | _ => False

/-- Every running callback belongs to the registration in place, or to one whose removal
still waits for it. -/
def Awaits (s : TrackCalls T) : Prop :=
  ∀ c ∈ s.globals.callbacks, s.globals.routine = some c.registration ∨
    ∃ t, s.calls t = .await c.registration

/-- A callback past its test inserts under `Active`, or before a stop that removes its
registration, waits for it, and only then purges. -/
structure Consistent (s : TrackCalls T) : Prop where
  registered : s.globals.table.active = true → s.globals.table.notifyRegistered = true
  agreeing : s.globals.table.notifyRegistered = true → s.globals.table.active = false →
    ∃ t, (s.calls t).willAgree = true
  purged : s.globals.table.active = false → TableEmpty s.globals.table ∨ s.PurgePending
  tested : ∀ c ∈ s.globals.callbacks, c.tested = true →
    (∃ t, s.calls t = .await c.registration) ∨
      s.globals.routine = some c.registration ∧ s.globals.table.notifyRegistered = true ∧
        (s.globals.table.active = true ∨ ∃ t, (s.calls t).willRemove = true)

end TrackCalls

section Table

variable {g : KnfcTrackCtx}

theorem classify_of_not_inserts {alloc : InsertAlloc} {isRoot : Bool} {pid parentPid : Handle}
    {imagePath : Option UnicodeString} {extra : Ulong}
    (h : ¬ Inserts alloc g isRoot pid parentPid imagePath) :
    (classifyLocked alloc g isRoot pid parentPid imagePath extra).1 = g := by
  rw [classifyLocked_eq]
  split
  · next hs =>
    cases hf : knFcTrackFindLocked g pid with
    | some e => rw [classify_present hf]
    | none =>
      have hor : ¬ (isRoot = true ∨ Live g parentPid) := fun hor =>
        h ⟨not_live_iff.mpr hf, hor, hs⟩
      obtain rfl : isRoot = false := by simpa using fun hr => hor (Or.inl hr)
      rw [classify_miss hf (not_live_iff.mp fun hl => hor (Or.inr hl))]
  · rfl

theorem classify_flags (alloc : InsertAlloc) (g : KnfcTrackCtx) (isRoot : Bool)
    (pid parentPid : Handle) (imagePath : Option UnicodeString) (extra : Ulong) :
    (classifyLocked alloc g isRoot pid parentPid imagePath extra).1.active = g.active ∧
      (classifyLocked alloc g isRoot pid parentPid imagePath extra).1.notifyRegistered =
        g.notifyRegistered := by
  rcases classify_cases alloc g isRoot pid parentPid imagePath extra with hc | ⟨push, -, hc⟩
  · rw [hc]
    exact ⟨rfl, rfl⟩
  · rw [hc]
    exact ⟨rfl, rfl⟩

theorem markExited_flags (g : KnfcTrackCtx) (pid : Handle) :
    (knFcMarkExited g pid).1.active = g.active ∧
      (knFcMarkExited g pid).1.notifyRegistered = g.notifyRegistered := by
  cases hf : knFcTrackFindLocked g pid with
  | none =>
    rw [markExited_none hf]
    exact ⟨rfl, rfl⟩
  | some e =>
    rw [markExited_some hf]
    exact ⟨rfl, rfl⟩

theorem NotifyOp.apply_flags (up : Wchar → Wchar) (env : ClassifyEnv) (g : KnfcTrackCtx)
    (op : NotifyOp) : (op.apply up env g).active = g.active ∧
      (op.apply up env g).notifyRegistered = g.notifyRegistered := by
  cases op with
  | create pid parentPid imagePath => exact classify_flags _ _ _ _ _ _ _
  | exit pid => exact markExited_flags g pid

end Table

namespace TrackCalls

variable {T : Type*}

theorem consistent_init : (init T).Consistent where
  registered h := by cases h
  agreeing h := by cases h
  purged _ := Or.inl ⟨fun _ => rfl, rfl⟩
  tested _ h := by cases h

theorem awaits_init : (init T).Awaits := fun _ h => by cases h

variable [DecidableEq T] {s : TrackCalls T}

omit [DecidableEq T] in
/-- A callback still running would belong to a registration, or hold up a stop. -/
theorem Awaits.callbacks_nil (h : s.Awaits) (hnone : s.globals.routine = none)
    (hidle : ∀ t, s.calls t = .idle) : s.globals.callbacks = [] := by
  refine List.eq_nil_iff_forall_not_mem.mpr fun c hc => ?_
  rcases h c hc with hr | ⟨t, ht⟩
  · rw [hnone] at hr
    cases hr
  · rw [hidle t] at ht
    cases ht

/-- The witness of a predicate on places survives a step that keeps it for its thread. -/
theorem exists_update {p : CallPc → Prop} {t : T} {pc : CallPc} (hpc : p (s.calls t) → p pc)
    (h : ∃ t', p (s.calls t')) : ∃ t', p (Function.update s.calls t pc t') := by
  obtain ⟨t', ht'⟩ := h
  by_cases hne : t' = t
  · subst hne
    exact ⟨t', by simpa using hpc ht'⟩
  · exact ⟨t', by simpa [hne] using ht'⟩

theorem exists_here {p : CallPc → Prop} (t : T) {pc : CallPc} (hpc : p pc) :
    ∃ t', p (Function.update s.calls t pc t') := ⟨t, by simpa using hpc⟩

theorem awaits_update {t : T} {pc : CallPc} {r : Nat} (hpc : s.calls t ≠ .await r)
    (h : ∃ t', s.calls t' = .await r) : ∃ t', Function.update s.calls t pc t' = .await r :=
  exists_update (p := (· = .await r)) (fun he => absurd he hpc) h

/-- A step that changes no shared state. -/
theorem Consistent.move (h : s.Consistent) (t : T) {pc : CallPc}
    (hagree : (s.calls t).willAgree = true →
      pc.willAgree = true ∨ s.globals.table.notifyRegistered = false)
    (hpurge : (s.calls t).willPurge = true → pc.willPurge = true)
    (hremove : (s.calls t).willRemove = true → pc.willRemove = true ∨
      s.globals.table.notifyRegistered = false ∨ s.globals.routine = none)
    (hawait : ∀ c ∈ s.globals.callbacks, s.calls t ≠ .await c.registration) :
    ({ s with calls := Function.update s.calls t pc } : TrackCalls T).Consistent where
  registered := h.registered
  agreeing hflag hact := by
    refine exists_update (p := fun pc => pc.willAgree = true) (fun hw => ?_) (h.agreeing hflag hact)
    exact (hagree hw).resolve_right fun hno => Bool.false_ne_true (hno.symm.trans hflag)
  purged hact := (h.purged hact).imp id (exists_update (p := fun pc => pc.willPurge = true) hpurge)
  tested c hc ht := by
    rcases h.tested c hc ht with hw | ⟨hr, hflag, hact | hw⟩
    · exact Or.inl (awaits_update (hawait c hc) hw)
    · exact Or.inr ⟨hr, hflag, Or.inl hact⟩
    · refine Or.inr ⟨hr, hflag, Or.inr (exists_update (p := fun pc => pc.willRemove = true)
        (fun he => ?_) hw)⟩
      rcases hremove he with hpc | hno | hno
      · exact hpc
      · simp [hflag] at hno
      · rw [hr] at hno
        cases hno

/-- The same where the thread's place mattered to nobody. -/
theorem Consistent.pass (h : s.Consistent) (t : T) {pc : CallPc}
    (hagree : (s.calls t).willAgree = false) (hpurge : (s.calls t).willPurge = false) :
    ({ s with calls := Function.update s.calls t pc } : TrackCalls T).Consistent := by
  apply h.move t
  · exact fun hw => by simp [hagree] at hw
  · exact fun hw => by simp [hpurge] at hw
  · exact fun hw => by simp [CallPc.willPurge_of_willRemove hw] at hpurge
  · intro c _ he
    rw [he] at hpurge
    cases hpurge

variable {up : Wchar → Wchar}

theorem Consistent.setActive (h : s.Consistent) (t : T)
    (hflag : s.globals.table.notifyRegistered = true) (hpc : s.calls t = .setActive) :
    ({ globals := { s.globals with table := { s.globals.table with active := true } },
       calls := Function.update s.calls t .snapshot } : TrackCalls T).Consistent where
  registered _ := hflag
  agreeing _ hact := by cases hact
  purged hact := by cases hact
  tested c hc ht := by
    rcases h.tested c hc ht with hw | ⟨hr, -, -⟩
    · exact Or.inl (awaits_update (by simp [hpc]) hw)
    · exact Or.inr ⟨hr, hflag, Or.inl rfl⟩

theorem Consistent.clearActive (h : s.Consistent) (t : T) (hpc : s.calls t = .clearActive) :
    ({ globals := { s.globals with table := { s.globals.table with active := false } },
       calls := Function.update s.calls t .testNotify } : TrackCalls T).Consistent where
  registered hact := by cases hact
  agreeing _ _ := exists_here (p := fun pc => pc.willAgree = true) t rfl
  purged _ := Or.inr (exists_here (p := fun pc => pc.willPurge = true) t rfl)
  tested c hc ht := by
    rcases h.tested c hc ht with hw | ⟨hr, hflag, -⟩
    · exact Or.inl (awaits_update (by simp [hpc]) hw)
    · exact Or.inr ⟨hr, hflag,
        Or.inr (exists_here (p := fun pc => pc.willRemove = true) t rfl)⟩

theorem Consistent.register (h : s.Consistent) (t : T) (hpc : s.calls t = .register)
    (hnone : s.globals.routine = none) (r n : Nat) :
    ({ globals := { s.globals with routine := some r, registrations := n },
       calls := Function.update s.calls t .setRegistered } : TrackCalls T).Consistent where
  registered := h.registered
  agreeing hflag hact := exists_update (p := fun pc => pc.willAgree = true)
    (fun hw => by rw [hpc] at hw; cases hw) (h.agreeing hflag hact)
  purged hact := (h.purged hact).imp id (exists_update (p := fun pc => pc.willPurge = true)
    fun hw => by rw [hpc] at hw; cases hw)
  tested c hc ht := by
    have hw := (h.tested c hc ht).resolve_right fun hr => by simp [hnone] at hr
    exact Or.inl (awaits_update (by simp [hpc]) hw)

theorem Consistent.setRegistered (h : s.Consistent) (t : T) (hpc : s.calls t = .setRegistered) :
    ({ globals := { s.globals with table := { s.globals.table with notifyRegistered := true } },
       calls := Function.update s.calls t .setActive } : TrackCalls T).Consistent where
  registered _ := rfl
  agreeing _ _ := exists_here (p := fun pc => pc.willAgree = true) t rfl
  purged hact := (h.purged hact).imp id (exists_update (p := fun pc => pc.willPurge = true)
    fun hw => by rw [hpc] at hw; cases hw)
  tested c hc ht := by
    rcases h.tested c hc ht with hw | ⟨hr, -, hact⟩
    · exact Or.inl (awaits_update (by simp [hpc]) hw)
    · exact Or.inr ⟨hr, rfl, hact.imp id (exists_update (p := fun pc => pc.willRemove = true)
        fun he => by rw [hpc] at he; cases he)⟩

theorem Consistent.remove (h : s.Consistent) (t : T) (hpc : s.calls t = .remove) {r : Nat}
    (hr : s.globals.routine = some r) :
    ({ globals := { s.globals with routine := none },
       calls := Function.update s.calls t (.await r) } : TrackCalls T).Consistent where
  registered := h.registered
  agreeing _ _ := exists_here (p := fun pc => pc.willAgree = true) t rfl
  purged _ := Or.inr (exists_here (p := fun pc => pc.willPurge = true) t rfl)
  tested c hc ht := by
    rcases h.tested c hc ht with hw | ⟨he, -, -⟩
    · exact Or.inl (awaits_update (by simp [hpc]) hw)
    · obtain rfl : r = c.registration := by simpa [hr] using he
      exact Or.inl (exists_here (p := (· = .await c.registration)) t rfl)

theorem Consistent.clearRegistered (h : s.Consistent) (t : T) (hpc : s.calls t = .clearRegistered)
    (hact : s.globals.table.active = false) (hnone : s.globals.routine = none) :
    ({ globals := { s.globals with table := { s.globals.table with notifyRegistered := false } },
       calls := Function.update s.calls t .purge } : TrackCalls T).Consistent where
  registered hon := absurd (hact.symm.trans hon) Bool.false_ne_true
  agreeing hflag := by cases hflag
  purged _ := Or.inr (exists_here (p := fun pc => pc.willPurge = true) t rfl)
  tested c hc ht := by
    have hw := (h.tested c hc ht).resolve_right fun hr => by simp [hnone] at hr
    exact Or.inl (awaits_update (by simp [hpc]) hw)

theorem Consistent.purge (h : s.Consistent) (t : T) (hpc : s.calls t = .purge) :
    ({ globals := { s.globals with table := knFcTrackPurgeAllLocked s.globals.table },
       calls := Function.update s.calls t .idle } : TrackCalls T).Consistent where
  registered := h.registered
  agreeing hflag hact := exists_update (p := fun pc => pc.willAgree = true)
    (fun hw => by rw [hpc] at hw; cases hw) (h.agreeing hflag hact)
  purged _ := Or.inl ⟨fun _ => rfl, rfl⟩
  tested c hc ht := by
    rcases h.tested c hc ht with hw | ⟨hr, hflag, hact⟩
    · exact Or.inl (awaits_update (by simp [hpc]) hw)
    · exact Or.inr ⟨hr, hflag, hact.imp id (exists_update (p := fun pc => pc.willRemove = true)
        fun he => by rw [hpc] at he; cases he)⟩

theorem Consistent.call {kind : CallKind} {t : T} {s' : TrackCalls T} (h : s.Consistent)
    (hs : trackCallStep up s (.call t kind) = some s') : s'.Consistent := by
  obtain ⟨hidle, rfl⟩ := trackCallStep_call hs
  exact h.pass t (by rw [hidle]; rfl) (by rw [hidle]; rfl)

omit [DecidableEq T] in
/-- A lock section that leaves the flags alone and inserts only where a purge will come. -/
theorem Consistent.withTable (h : s.Consistent) {g : KnfcTrackCtx} {cs : List Callback}
    (hflags : g.active = s.globals.table.active ∧
      g.notifyRegistered = s.globals.table.notifyRegistered)
    (hsub : ∀ c ∈ cs, c ∈ s.globals.callbacks)
    (hpurged : g.active = false → TableEmpty g ∨ s.PurgePending) :
    ({ s with globals := { s.globals with table := g, callbacks := cs } } :
      TrackCalls T).Consistent := by
  obtain ⟨hact, hflag⟩ := hflags
  refine ⟨?_, ?_, hpurged, ?_⟩
  · intro hon
    rw [hflag]
    exact h.registered (hact ▸ hon)
  · intro hreg hoff
    exact h.agreeing (hflag ▸ hreg) (hact ▸ hoff)
  · intro c hc ht
    have hold := h.tested c (hsub c hc) ht
    rw [← hact, ← hflag] at hold
    exact hold

theorem Consistent.snapshot {t : T} {g : TrackGlobals} {pc : CallPc} {env : CallEnv}
    (h : s.Consistent) (hpc : s.calls t = .snapshot) (hok : ¬ s.InsertsLate up env.snap)
    (hc : callStep up s.globals env .snapshot = some (g, pc)) :
    ({ globals := g, calls := Function.update s.calls t pc } : TrackCalls T).Consistent := by
  simp only [callStep] at hc
  split at hc
  · cases hc
    exact h.pass t (by rw [hpc]; rfl) (by rw [hpc]; rfl)
  · next cenv pid parentPid imagePath hsnap =>
    cases hc
    rw [hsnap] at hok
    refine (h.withTable (classify_flags _ _ _ _ _ _ _) (fun c hc => hc) ?_).pass t
      (by rw [hpc]; rfl) (by rw [hpc]; rfl)
    intro hoff
    rw [(classify_flags _ _ _ _ _ _ _).1] at hoff
    by_cases hins : Inserts cenv.alloc s.globals.table (imageMatches up cenv.config imagePath)
        pid parentPid imagePath
    · exact Or.inr (by by_contra hno; exact hok ⟨hins, hoff, hno⟩)
    · rw [classify_of_not_inserts hins]
      exact h.purged hoff
  · cases hc
    exact h.pass t (by rw [hpc]; rfl) (by rw [hpc]; rfl)

theorem Consistent.step {t : T} {env : CallEnv} {s' : TrackCalls T} (h : s.Consistent)
    (hok : ¬ s.Blind up (.step t env)) (hs : trackCallStep up s (.step t env) = some s') :
    s'.Consistent := by
  obtain ⟨g, pc, hc, rfl⟩ := trackCallStep_step hs
  simp only [Blind] at hok
  generalize hpc : s.calls t = place at hc hok
  cases place with
  | idle => cases hc
  | testActive | testRegistered | dump =>
    cases hc
    exact h.pass t (by rw [hpc]; rfl) (by rw [hpc]; rfl)
  | register =>
    simp only [callStep] at hc
    split at hc
    · cases hc
      exact h.pass t (by rw [hpc]; rfl) (by rw [hpc]; rfl)
    · next hfree =>
      cases hc
      exact h.register t hpc (by simpa using fun hr => hfree (Or.inl hr)) _ _
  | setRegistered =>
    cases hc
    exact h.setRegistered t hpc
  | setActive =>
    cases hc
    exact h.setActive t (by simpa [BlindAt] using hok) hpc
  | snapshot => exact h.snapshot hpc hok hc
  | clearActive =>
    cases hc
    exact h.clearActive t hpc
  | testNotify =>
    cases hc
    cases hflag : s.globals.table.notifyRegistered with
    | true =>
      exact h.move t (fun _ => Or.inl rfl) (fun _ => rfl) (fun _ => Or.inl rfl) (by simp [hpc])
    | false =>
      exact h.move t (fun _ => Or.inr hflag) (fun _ => rfl) (fun _ => Or.inr (Or.inl hflag))
        (by simp [hpc])
  | remove =>
    simp only [callStep] at hc
    split at hc
    · next r hr =>
      cases hc
      exact h.remove t hpc hr
    · next hr =>
      cases hc
      refine h.move t (fun _ => Or.inl rfl) (fun _ => rfl) (fun _ => Or.inr (Or.inr hr)) ?_
      simp [hpc]
  | await r =>
    simp only [callStep] at hc
    split at hc
    · cases hc
    · next hdone =>
      cases hc
      refine h.move t (fun _ => Or.inl rfl) (fun _ => rfl) (fun hw => ?_) fun c hc he => ?_
      · rw [hpc] at hw
        cases hw
      · rw [hpc] at he
        exact hdone ⟨c, hc, (CallPc.await.inj he).symm⟩
  | clearRegistered =>
    obtain ⟨hact, hnone⟩ := not_or.mp hok
    cases hc
    exact h.clearRegistered t hpc (by simpa using hact) (by simpa using hnone)
  | purge =>
    cases hc
    exact h.purge t hpc

theorem Consistent.notify {op : NotifyOp} {s' : TrackCalls T} (h : s.Consistent)
    (hs : trackCallStep up s (.notify op) = some s') : s'.Consistent := by
  obtain ⟨r, hr, rfl⟩ := trackCallStep_notify hs
  refine ⟨h.registered, h.agreeing, h.purged, fun c hc ht => ?_⟩
  rcases List.mem_append.mp hc with hc | hc
  · exact h.tested c hc ht
  · obtain rfl := List.mem_singleton.mp hc
    cases ht

/-- A callback that passed its test inserts only under `Active`, or before the purge of
the stop that waits for it. -/
theorem Consistent.callback {i : Nat} {env : ClassifyEnv} {s' : TrackCalls T} (h : s.Consistent)
    (hawaits : s.Awaits) (hs : trackCallStep up s (.callback i env) = some s') :
    s'.Consistent := by
  obtain ⟨c, hc, ⟨-, hact, rfl⟩ | ⟨-, -, rfl⟩ | ⟨htested, rfl⟩⟩ := trackCallStep_callback hs
  · refine ⟨h.registered, h.agreeing, h.purged, fun c' hc' ht' => ?_⟩
    rcases List.mem_or_eq_of_mem_set hc' with hc' | rfl
    · exact h.tested c' hc' ht'
    · rcases hawaits c hc with hr | hw
      · exact Or.inr ⟨hr, h.registered hact, Or.inl hact⟩
      · exact Or.inl hw
  · exact h.withTable ⟨rfl, rfl⟩ (fun c' hc' => List.mem_of_mem_eraseIdx hc') h.purged
  · have hflags := NotifyOp.apply_flags up env s.globals.table c.op
    refine h.withTable hflags (fun c' hc' => List.mem_of_mem_eraseIdx hc') fun hoff => ?_
    rw [hflags.1] at hoff
    refine Or.inr ?_
    rcases h.tested c hc htested with ⟨t, ht⟩ | ⟨-, -, hact | ⟨t, ht⟩⟩
    · exact ⟨t, by rw [ht]; rfl⟩
    · simp [hoff] at hact
    · exact ⟨t, CallPc.willPurge_of_willRemove ht⟩

theorem Awaits.step {t : T} {env : CallEnv} {s' : TrackCalls T} (h : s.Awaits)
    (hs : trackCallStep up s (.step t env) = some s') : s'.Awaits := by
  obtain ⟨g, pc, hc, rfl⟩ := trackCallStep_step hs
  obtain ⟨hcs, hcase⟩ := callStep_routine hc
  intro c hmem
  rw [hcs] at hmem
  rcases hcase with ⟨hr, hne⟩ | ⟨r, hpc, hr, -, rfl⟩ | ⟨hpc, hnone, -⟩
  · rw [hr]
    exact (h c hmem).imp id (awaits_update (hne c hmem))
  · rcases h c hmem with he | hw
    · obtain rfl : r = c.registration := by simpa [hr] using he
      exact Or.inr (exists_here (p := (· = .await c.registration)) t rfl)
    · exact Or.inr (awaits_update (by simp [hpc]) hw)
  · have hw := (h c hmem).resolve_left (by simp [hnone])
    exact Or.inr (awaits_update (by simp [hpc]) hw)

theorem Awaits.next {a : TrackCallAction T} {s' : TrackCalls T} (h : s.Awaits)
    (hs : trackCallStep up s a = some s') : s'.Awaits := by
  cases a with
  | call t kind =>
    obtain ⟨hidle, rfl⟩ := trackCallStep_call hs
    exact fun c hc => (h c hc).imp id (awaits_update (by simp [hidle]))
  | step t env => exact h.step hs
  | notify op =>
    obtain ⟨r, hr, rfl⟩ := trackCallStep_notify hs
    intro c hc
    rcases List.mem_append.mp hc with hc | hc
    · exact h c hc
    · obtain rfl := List.mem_singleton.mp hc
      exact Or.inl hr
  | callback i env =>
    obtain ⟨c, hc, ⟨-, -, rfl⟩ | ⟨-, -, rfl⟩ | ⟨-, rfl⟩⟩ := trackCallStep_callback hs
    · intro c' hc'
      rcases List.mem_or_eq_of_mem_set hc' with hc' | rfl
      · exact h c' hc'
      · exact h c hc
    · exact fun c' hc' => h c' (List.mem_of_mem_eraseIdx hc')
    · exact fun c' hc' => h c' (List.mem_of_mem_eraseIdx hc')

/-- In a run that makes no blind write and no blind insertion: whenever no call is in
progress, the flags agree, and an inactive driver has an empty table. -/
theorem idle_is_consistent (as : List (TrackCallAction T)) (s : TrackCalls T)
    (hok : Guarded (trackCallStep up) (fun s a => ¬ s.Blind up a) (init T) as)
    (h : exec (trackCallStep up) (init T) as = some s) (hidle : ∀ t, s.calls t = .idle) :
    (s.globals.table.active = true ↔ s.globals.table.notifyRegistered = true) ∧
      (s.globals.table.active = false →
        (∀ b, s.globals.table.buckets b = []) ∧ s.globals.table.entryCount = 0) := by
  have hboth : s.Consistent ∧ s.Awaits := by
    refine hok.invariant (I := fun s => s.Consistent ∧ s.Awaits) (fun s a s' hi hn ht => ?_) h
      ⟨consistent_init, awaits_init⟩
    refine ⟨?_, hi.2.next ht⟩
    cases a with
    | call t kind => exact hi.1.call ht
    | step t env => exact hi.1.step hn ht
    | notify op => exact hi.1.notify ht
    | callback i env => exact hi.1.callback hi.2 ht
  have hs := hboth.1
  have hno {p : CallPc → Bool} (hp : p .idle = false) : ¬ ∃ t, p (s.calls t) = true := by
    rintro ⟨t, ht⟩
    rw [hidle t, hp] at ht
    cases ht
  refine ⟨⟨hs.registered, fun hflag => ?_⟩, fun hoff => ?_⟩
  · by_contra hact
    exact hno rfl (hs.agreeing hflag (by simpa using hact))
  · exact (hs.purged hoff).resolve_right (hno (p := CallPc.willPurge) rfl)

section Runs

instance [Fintype T] (s : TrackCalls T) : Decidable s.PurgePending :=
  inferInstanceAs (Decidable (∃ t, (s.calls t).willPurge = true))

instance [Fintype T] (s : TrackCalls T) (step : SnapStep) : Decidable (s.InsertsLate up step) :=
  match step with
  | .classify .. => inferInstanceAs (Decidable (_ ∧ _ ∧ _))
  | .lookup _ => isFalse id
  | .finish => isFalse id

instance [Fintype T] (s : TrackCalls T) (env : CallEnv) (pc : CallPc) :
    Decidable (s.BlindAt up env pc) :=
  match pc with
  | .setActive => inferInstanceAs (Decidable (_ = _))
  | .clearRegistered => inferInstanceAs (Decidable (_ ∨ _))
  | .snapshot => inferInstanceAs (Decidable (s.InsertsLate up env.snap))
  | .idle | .testActive | .testRegistered | .register | .setRegistered | .clearActive
  | .testNotify | .remove | .await _ | .purge | .dump => isFalse id

instance [Fintype T] (s : TrackCalls T) (a : TrackCallAction T) : Decidable (s.Blind up a) :=
  match a with
  | .step t env => inferInstanceAs (Decidable (s.BlindAt up env (s.calls t)))
  | .call .. => isFalse id
  | .notify _ => isFalse id
  | .callback .. => isFalse id

def callConfig : KnfcConfig := (knFcConfigAddRoot true knFcConfigInitialize (.inRoot 'a')).2

def callEnv : CallEnv where
  registerStatus := statusSuccess
  snap := .classify ⟨callConfig, .ok⟩ 8 4 (some (.inRoot 'a'))

def lastSnap : CallEnv := { callEnv with snap := .finish }

def steps (t : Bool) (n : Nat) : List (TrackCallAction Bool) := List.replicate n (.step t callEnv)

/-- A start whose snapshot inserts PID 8, a callback that has passed its test, and a
stop that waits for it. -/
def startThenStop : List (TrackCallAction Bool) :=
  .call true .start :: steps true 6 ++ [.step true lastSnap,
    .notify (.create 12 8 none), .callback 0 ⟨callConfig, .ok⟩, .call false .stop] ++
    steps false 3 ++ [.callback 0 ⟨callConfig, .ok⟩] ++ steps false 3

theorem idle_is_consistent_startThenStop :
    ∃ s, exec (trackCallStep id) (init Bool) startThenStop = some s ∧
      (∀ t, s.calls t = .idle) ∧ s.globals.table.active = false ∧
      s.globals.table.entryCount = 0 :=
  have hrun : exec (trackCallStep id) (init Bool) startThenStop = some _ := rfl
  ⟨_, hrun, by decide, rfl,
    ((idle_is_consistent startThenStop _ (by decide) hrun (by decide)).2 rfl).2⟩

/-- A stop runs between the registration of a start and its write of `Active`. -/
def stopInsideStart : List (TrackCallAction Bool) :=
  .call true .start :: steps true 4 ++ .call false .stop :: steps false 6 ++
    steps true 1 ++ [.step true lastSnap]

/-- Another runs after that write; the snapshot then inserts. -/
def stopInsideSnapshot : List (TrackCallAction Bool) :=
  .call true .start :: steps true 5 ++ .call false .stop :: steps false 6 ++
    steps true 1 ++ [.step true lastSnap]

theorem start_and_stop_race :
    (∃ s, exec (trackCallStep id) (init Bool) stopInsideStart = some s ∧
      (∀ t, s.calls t = .idle) ∧
      s.globals.table.active = true ∧ s.globals.table.notifyRegistered = false) ∧
    ∃ s, exec (trackCallStep id) (init Bool) stopInsideSnapshot = some s ∧
      (∀ t, s.calls t = .idle) ∧
      s.globals.table.active = false ∧ s.globals.table.entryCount = 1 :=
  ⟨⟨_, rfl, by decide, rfl, rfl⟩, ⟨_, rfl, by decide, rfl, rfl⟩⟩

end Runs

end TrackCalls

end KnFileCatcher

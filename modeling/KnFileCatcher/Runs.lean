import Mathlib.Tactic

/-! Runs of a deterministic labelled machine: a step takes a state and an action
to at most one state. An invariant is proved on one step and used on runs; a
guard restricts a run to the steps that meet a condition. -/

namespace Runs

section Machine

variable {σ α : Type*} (step : σ → α → Option σ)

def exec : σ → List α → Option σ
  | s, [] => some s
  | s, a :: as => (step s a).bind fun t => exec t as

def Reachable (s t : σ) : Prop := ∃ as, exec step s as = some t

/-- Every step of the run meets `ok` in the state it is taken from. -/
def Guarded (ok : σ → α → Prop) : σ → List α → Prop
  | _, [] => True
  | s, a :: as => ok s a ∧ match step s a with
    | some t => Guarded ok t as
    | none => True

/-- `φ` holds in every state the run reaches. -/
def Always (φ : σ → Prop) (s : σ) (as : List α) : Prop :=
  ∀ bs t, bs <+: as → exec step s bs = some t → φ t

variable {step}

instance Guarded.decidable {ok : σ → α → Prop} [∀ s a, Decidable (ok s a)] (s : σ)
    (as : List α) : Decidable (Guarded step ok s as) :=
  match as with
  | [] => isTrue trivial
  | a :: as =>
    haveI : Decidable (match step s a with
        | some t => Guarded step ok t as
        | none => True) :=
      match step s a with
      | some t => Guarded.decidable t as
      | none => isTrue trivial
    inferInstanceAs (Decidable (_ ∧ _))

@[simp] theorem exec_nil (s : σ) : exec step s [] = some s := rfl

theorem exec_cons_eq_some {s u : σ} {a : α} {as : List α} :
    exec step s (a :: as) = some u ↔ ∃ t, step s a = some t ∧ exec step t as = some u := by
  simp [exec, Option.bind_eq_some_iff]

theorem Guarded.cons_step {ok : σ → α → Prop} {s t : σ} {a : α} {as : List α}
    (h : Guarded step ok s (a :: as)) (hs : step s a = some t) : Guarded step ok t as := by
  simpa only [Guarded, hs] using h.2

theorem Guarded.of_forall {p : σ → α → Prop} (h : ∀ s a, p s a) (s : σ) (as : List α) :
    Guarded step p s as := by
  induction as generalizing s with
  | nil => trivial
  | cons a as ih =>
    refine ⟨h s a, ?_⟩
    cases step s a with
    | none => trivial
    | some t => exact ih t

/-- Two guards that agree where an invariant holds. -/
theorem Guarded.congr {ok ok' : σ → α → Prop} {I : σ → Prop}
    (hinv : ∀ s a t, I s → step s a = some t → I t) (h : ∀ s a, I s → (ok s a ↔ ok' s a))
    (as : List α) {s : σ} (hs : I s) : Guarded step ok s as ↔ Guarded step ok' s as := by
  induction as generalizing s with
  | nil => exact Iff.rfl
  | cons a as ih =>
    refine and_congr (h s a hs) ?_
    cases ha : step s a with
    | none => exact Iff.rfl
    | some t => exact ih (hinv s a t hs ha)

/-- The run rule under a guard: what each guarded step preserves holds at the end. -/
theorem Guarded.invariant {ok : σ → α → Prop} {I : σ → Prop}
    (hstep : ∀ s a t, I s → ok s a → step s a = some t → I t)
    {s t : σ} {as : List α} (hg : Guarded step ok s as) (h : exec step s as = some t)
    (hs : I s) : I t := by
  induction as generalizing s with
  | nil =>
    obtain rfl : s = t := by simpa using h
    exact hs
  | cons a as ih =>
    obtain ⟨u, hu, hr⟩ := exec_cons_eq_some.mp h
    exact ih (hg.cons_step hu) hr (hstep s a u hs hg.1 hu)

theorem always_cons {φ : σ → Prop} {s : σ} {a : α} {as : List α} :
    Always step φ s (a :: as) ↔ φ s ∧ ∀ t, step s a = some t → Always step φ t as := by
  constructor
  · intro h
    refine ⟨h [] s List.nil_prefix rfl, fun t ht bs u hbs hu => ?_⟩
    exact h (a :: bs) u (List.cons_prefix_cons.mpr ⟨rfl, hbs⟩) (exec_cons_eq_some.mpr ⟨t, ht, hu⟩)
  · rintro ⟨hs, h⟩ bs u hbs hu
    cases bs with
    | nil =>
      obtain rfl : s = u := by simpa using hu
      exact hs
    | cons b bs =>
      obtain ⟨rfl, hpre⟩ := List.cons_prefix_cons.mp hbs
      obtain ⟨t, ht, hr⟩ := exec_cons_eq_some.mp hu
      exact h t ht bs u hpre hr

instance Always.decidable {φ : σ → Prop} [DecidablePred φ] (s : σ) (as : List α) :
    Decidable (Always step φ s as) :=
  match as with
  | [] =>
    decidable_of_iff (φ s) <| by
      refine ⟨fun h bs t hbs ht => ?_, fun h => h [] s List.nil_prefix rfl⟩
      obtain rfl := List.prefix_nil.mp hbs
      obtain rfl : s = t := by simpa using ht
      exact h
  | a :: as =>
    haveI : Decidable (∀ t, step s a = some t → Always step φ t as) :=
      match h : step s a with
      | some t =>
        haveI : Decidable (Always step φ t as) := Always.decidable t as
        decidable_of_iff (Always step φ t as) (by simp)
      | none => isTrue (by simp)
    decidable_of_iff _ always_cons.symm

/-- Where a step from `I` is guarded just when it ends in `φ`, and a guarded one keeps `I`,
the guarded runs of actions of a kind `p` are the runs of that kind that never leave `φ`. -/
theorem guarded_iff_always_while {ok : σ → α → Prop} {I φ : σ → Prop} {p : α → Prop}
    (hinv : ∀ s a t, p a → I s → ok s a → step s a = some t → I t)
    (hok : ∀ s a t, p a → I s → step s a = some t → (ok s a ↔ φ t))
    (hnone : ∀ s a, step s a = none → ok s a) (as : List α) (hp : ∀ a ∈ as, p a) {s : σ}
    (hs : I s) (h0 : φ s) : Guarded step ok s as ↔ Always step φ s as := by
  induction as generalizing s with
  | nil =>
    refine ⟨fun _ bs t hbs ht => ?_, fun _ => trivial⟩
    obtain rfl := List.prefix_nil.mp hbs
    obtain rfl : s = t := by simpa using ht
    exact h0
  | cons a as ih =>
    have hrest : ∀ a ∈ as, p a := fun b hb => hp b (List.mem_cons_of_mem a hb)
    rw [always_cons]
    cases ha : step s a with
    | none => simp [Guarded, ha, h0, hnone s a ha]
    | some t =>
      have hpa := hp a List.mem_cons_self
      have hiff := hok s a t hpa hs ha
      simp only [Guarded, ha, Option.some.injEq, forall_eq', h0, true_and]
      constructor
      · exact fun ⟨hsa, hg⟩ => (ih hrest (hinv s a t hpa hs hsa ha) (hiff.mp hsa)).mp hg
      · intro hal
        have hφ := hal [] t List.nil_prefix rfl
        exact ⟨hiff.mpr hφ, (ih hrest (hinv s a t hpa hs (hiff.mpr hφ) ha) hφ).mpr hal⟩

/-- Where a guarded step is exactly one that keeps `φ`, the guarded runs of actions
of a kind `p` are the runs of that kind that never leave `φ`. -/
theorem guarded_iff_always_of {ok : σ → α → Prop} {I φ : σ → Prop} {p : α → Prop}
    (hinv : ∀ s a t, I s → step s a = some t → I t)
    (hok : ∀ s a t, p a → I s → φ s → step s a = some t → (ok s a ↔ φ t))
    (hnone : ∀ s a, step s a = none → ok s a) (as : List α) (hp : ∀ a ∈ as, p a) {s : σ}
    (hs : I s) (h0 : φ s) : Guarded step ok s as ↔ Always step φ s as :=
  guarded_iff_always_while (I := fun s => I s ∧ φ s)
    (fun s a t hpa hi hsa ha =>
      ⟨hinv s a t hi.1 ha, (hok s a t hpa hi.1 hi.2 ha).mp hsa⟩)
    (fun s a t hpa hi => hok s a t hpa hi.1 hi.2) hnone as hp ⟨hs, h0⟩ h0

theorem guarded_iff_always {ok : σ → α → Prop} {I φ : σ → Prop}
    (hinv : ∀ s a t, I s → step s a = some t → I t)
    (hok : ∀ s a t, I s → φ s → step s a = some t → (ok s a ↔ φ t))
    (hnone : ∀ s a, step s a = none → ok s a) (as : List α) {s : σ} (hs : I s) (h0 : φ s) :
    Guarded step ok s as ↔ Always step φ s as :=
  guarded_iff_always_of (p := fun _ => True) hinv (fun s a t _ => hok s a t) hnone as
    (fun _ _ => trivial) hs h0

/-- An invariant that each step keeps as long as `φ` holds before it. -/
theorem Always.invariant {φ I : σ → Prop} {s t : σ} {as : List α} (h : Always step φ s as)
    (hstep : ∀ s a t, φ s → I s → step s a = some t → I t) (ht : exec step s as = some t)
    (hs : I s) : I t := by
  induction as generalizing s with
  | nil =>
    obtain rfl : s = t := by simpa using ht
    exact hs
  | cons a as ih =>
    obtain ⟨u, hu, hr⟩ := exec_cons_eq_some.mp ht
    obtain ⟨hφ, hrest⟩ := always_cons.mp h
    exact ih (hrest u hu) hr (hstep s a u hφ hs hu)

theorem exec_invariant {I : σ → Prop} (hstep : ∀ s a t, I s → step s a = some t → I t)
    {s t : σ} {as : List α} (h : exec step s as = some t) (hs : I s) : I t :=
  (Guarded.of_forall (p := fun _ _ => True) (fun _ _ => trivial) s as).invariant
    (fun s a t hi _ => hstep s a t hi) h hs

theorem Reachable.invariant {I : σ → Prop}
    (hstep : ∀ s a t, I s → step s a = some t → I t)
    {s t : σ} (h : Reachable step s t) (hs : I s) : I t := by
  obtain ⟨as, ha⟩ := h
  exact exec_invariant hstep ha hs

theorem exec_append (s : σ) (as bs : List α) :
    exec step s (as ++ bs) = (exec step s as).bind fun t => exec step t bs := by
  induction as generalizing s with
  | nil => rfl
  | cons a as ih =>
    simp only [List.cons_append, exec, Option.bind_assoc]
    exact congrArg (step s a).bind (funext ih)

theorem exec_trans {s t u : σ} {as bs : List α} (h : exec step s as = some t)
    (h' : exec step t bs = some u) : exec step s (as ++ bs) = some u := by
  rw [exec_append, h]
  exact h'

theorem Guarded.append {ok : σ → α → Prop} {s t : σ} {as bs : List α}
    (h : Guarded step ok s as) (hs : exec step s as = some t) (ht : Guarded step ok t bs) :
    Guarded step ok s (as ++ bs) := by
  induction as generalizing s with
  | nil =>
    obtain rfl : s = t := by simpa using hs
    exact ht
  | cons a as ih =>
    obtain ⟨u, hu, hr⟩ := exec_cons_eq_some.mp hs
    have hrest := ih (h.cons_step hu) hr
    simp only [List.cons_append, Guarded, hu]
    exact ⟨h.1, hrest⟩

theorem Reachable.refl (s : σ) : Reachable step s s := ⟨[], rfl⟩

theorem Reachable.trans {s t u : σ} (h : Reachable step s t) (h' : Reachable step t u) :
    Reachable step s u := by
  obtain ⟨as, ha⟩ := h
  obtain ⟨bs, hb⟩ := h'
  exact ⟨as ++ bs, exec_trans ha hb⟩

theorem Reachable.snoc {s t u : σ} {a : α} (h : Reachable step s t) (ha : step t a = some u) :
    Reachable step s u :=
  h.trans ⟨[a], exec_cons_eq_some.mpr ⟨u, ha, rfl⟩⟩

/-- An invariant whose step may use what is known of reachable states. -/
theorem Reachable.induction {I : σ → Prop} {s t : σ}
    (hstep : ∀ t a u, Reachable step s t → I t → step t a = some u → I u)
    (h : Reachable step s t) (hs : I s) : I t := by
  have hboth : Reachable step s t ∧ I t :=
    h.invariant (I := fun t => Reachable step s t ∧ I t)
      (fun t a u ht hu => ⟨ht.1.snoc hu, hstep t a u ht.1 ht.2 hu⟩) ⟨.refl s, hs⟩
  exact hboth.2

/-- An action that lowers a measure while it is possible comes to its end. -/
theorem runs_out {I : σ → Prop} {a : α} (measure : σ → Nat)
    (hstep : ∀ s t, I s → step s a = some t → I t ∧ measure t < measure s) {s : σ} (hs : I s) :
    ∃ n t, exec step s (List.replicate n a) = some t ∧ step t a = none ∧ I t := by
  induction hm : measure s using Nat.strong_induction_on generalizing s with
  | _ m ih =>
    cases ha : step s a with
    | none => exact ⟨0, s, rfl, ha, hs⟩
    | some t =>
      obtain ⟨ht, hlt⟩ := hstep s t hs ha
      obtain ⟨n, u, hu, hend, hi⟩ := ih (measure t) (hm ▸ hlt) ht rfl
      exact ⟨n + 1, u, exec_cons_eq_some.mpr ⟨t, ha, hu⟩, hend, hi⟩

end Machine

end Runs

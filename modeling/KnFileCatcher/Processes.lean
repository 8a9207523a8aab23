import KnFileCatcher.Config

/-! Processes as the driver meets them: created in some order, announced, and
gone. A PID is given again only after the exit of its last holder was announced. -/

namespace KnFileCatcher

/-- A process as it was created; `parent` is the process that `parentPid` named then. Its
create notification and the query of its image are taken to show one name. -/
structure Process where
  pid : Handle
  parentPid : Handle
  parent : Option Nat
  imagePath : Option UnicodeString

/-- Before its create notification, between the two notifications, and after
its exit notification. -/
inductive ProcessPhase where
  | creating
  | running
  | exited
deriving DecidableEq

/-- Processes are numbered in the order of their creation. -/
structure World where
  count : Nat
  info : Nat → Process
  phase : Nat → ProcessPhase
  pid_ne_zero : ∀ u < count, (info u).pid ≠ 0
  reused : ∀ v < count, ∀ u < v, (info u).pid = (info v).pid → phase u = .exited
  parents : ∀ u < count, ∀ k ∈ (info u).parent,
    k < u ∧ phase k ≠ .creating ∧ (info k).pid = (info u).parentPid

namespace World

def boot : World where
  count := 0
  info _ := ⟨0, 0, none, none⟩
  phase _ := .creating
  pid_ne_zero _ h := absurd h (Nat.not_lt_zero _)
  reused _ h := absurd h (Nat.not_lt_zero _)
  parents _ h := absurd h (Nat.not_lt_zero _)

def Present (w : World) (u : Nat) : Prop := u < w.count ∧ w.phase u ≠ .exited

instance (w : World) (u : Nat) : Decidable (w.Present u) :=
  inferInstanceAs (Decidable (_ ∧ _))

theorem pid_inj {w : World} {u v : Nat} (hu : w.Present u) (hv : w.Present v)
    (h : (w.info u).pid = (w.info v).pid) : u = v := by
  rcases Nat.lt_trichotomy u v with hlt | rfl | hlt
  · exact absurd (w.reused v hv.1 u hlt h) hu.2
  · rfl
  · exact absurd (w.reused u hu.1 v hlt h.symm) hv.2

def CanSpawn (w : World) (parent : Option Nat) (pid : Handle) : Prop :=
  pid ≠ 0 ∧ (∀ u < w.count, (w.info u).pid = pid → w.phase u = .exited) ∧
    ∀ k ∈ parent, k < w.count ∧ w.phase k = .running

instance (w : World) (parent : Option Nat) (pid : Handle) : Decidable (w.CanSpawn parent pid) :=
  inferInstanceAs (Decidable (_ ∧ _ ∧ _))

def parentPidOf (w : World) : Option Nat → Handle
  | some k => (w.info k).pid
  | none => 0

def spawn (w : World) (parent : Option Nat) (pid : Handle) (imagePath : Option UnicodeString)
    (h : w.CanSpawn parent pid) : World where
  count := w.count + 1
  info := Function.update w.info w.count ⟨pid, w.parentPidOf parent, parent, imagePath⟩
  phase := Function.update w.phase w.count .creating
  pid_ne_zero u hu := by
    rcases Nat.lt_succ_iff_lt_or_eq.mp hu with hu | rfl
    · simpa [Nat.ne_of_lt hu] using w.pid_ne_zero u hu
    · simpa using h.1
  reused v hv u hlt he := by
    rcases Nat.lt_succ_iff_lt_or_eq.mp hv with hv | rfl
    · have hu : u < w.count := hlt.trans hv
      simp only [Function.update_of_ne (Nat.ne_of_lt hv), Function.update_of_ne (Nat.ne_of_lt hu)]
        at he ⊢
      exact w.reused v hv u hlt he
    · simp only [Function.update_self, Function.update_of_ne (Nat.ne_of_lt hlt)] at he ⊢
      exact h.2.1 u hlt he
  parents u hu k hk := by
    rcases Nat.lt_succ_iff_lt_or_eq.mp hu with hu | rfl
    · simp only [Function.update_of_ne (Nat.ne_of_lt hu)] at hk ⊢
      obtain ⟨hlt, hph, hpid⟩ := w.parents u hu k hk
      simp only [Function.update_of_ne (Nat.ne_of_lt (hlt.trans hu))]
      exact ⟨hlt, hph, hpid⟩
    · simp only [Function.update_self] at hk ⊢
      obtain ⟨hlt, hrun⟩ := h.2.2 k hk
      obtain rfl : parent = some k := hk
      simp only [Function.update_of_ne (Nat.ne_of_lt hlt), hrun]
      exact ⟨hlt, by simp, rfl⟩

section Spawn

variable {w : World} {parent : Option Nat} {pid : Handle} {imagePath : Option UnicodeString}
  (h : w.CanSpawn parent pid) {u : Nat}

theorem spawn_info (hu : u < w.count) : (w.spawn parent pid imagePath h).info u = w.info u := by
  simp [spawn, Nat.ne_of_lt hu]

theorem spawn_phase (hu : u < w.count) : (w.spawn parent pid imagePath h).phase u = w.phase u := by
  simp [spawn, Nat.ne_of_lt hu]

theorem spawn_phase_new : (w.spawn parent pid imagePath h).phase w.count = .creating := by
  simp [spawn]

theorem present_spawn (hu : u < w.count) :
    (w.spawn parent pid imagePath h).Present u ↔ w.Present u := by
  rw [Present, Present, spawn_phase h hu]
  simp [spawn, hu, Nat.lt_succ_of_lt hu]

end Spawn

def created (w : World) (u : Nat) (h : w.phase u = .creating) : World where
  count := w.count
  info := w.info
  phase := Function.update w.phase u .running
  pid_ne_zero := w.pid_ne_zero
  reused v hv x hlt he := by
    have hx := w.reused v hv x hlt he
    by_cases hxu : x = u
    · simp [← hxu, hx] at h
    · simpa [hxu] using hx
  parents x hx k hk := by
    obtain ⟨hlt, hph, hpid⟩ := w.parents x hx k hk
    refine ⟨hlt, ?_, hpid⟩
    by_cases hku : k = u
    · simp [hku]
    · simpa [hku] using hph

def exit (w : World) (u : Nat) : World where
  count := w.count
  info := w.info
  phase := Function.update w.phase u .exited
  pid_ne_zero := w.pid_ne_zero
  reused v hv x hlt he := by
    by_cases hxu : x = u
    · simp [hxu]
    · simpa [hxu] using w.reused v hv x hlt he
  parents x hx k hk := by
    obtain ⟨hlt, hph, hpid⟩ := w.parents x hx k hk
    refine ⟨hlt, ?_, hpid⟩
    by_cases hku : k = u
    · simp [hku]
    · simpa [hku] using hph

def newestBelow (w : World) (pid : Handle) : Nat → Option Nat
  | 0 => none
  | n + 1 => if (w.info n).pid = pid then some n else w.newestBelow pid n

theorem newestBelow_of_present {w : World} {u : Nat} (hu : w.Present u) {n : Nat} (hn : u < n)
    (hle : n ≤ w.count) : w.newestBelow (w.info u).pid n = some u := by
  induction n with
  | zero => exact absurd hn (Nat.not_lt_zero u)
  | succ n ih =>
    rcases Nat.lt_succ_iff_lt_or_eq.mp hn with hlt | rfl
    · have hne : (w.info n).pid ≠ (w.info u).pid := fun he =>
        hu.2 (w.reused n (by omega) u hlt he.symm)
      rw [newestBelow, if_neg hne]
      exact ih hlt (by omega)
    · rw [newestBelow, if_pos rfl]

/-- `knFcUtilGetImagePathByPid`. The object of an exited process can still be
there, and no memory for the path is a failure. -/
def knFcUtilGetImagePathByPid (w : World) (alloc lingers : Bool) (pid : Handle) :
    Option UnicodeString :=
  match w.newestBelow pid w.count with
  | none => none
  | some u =>
    if alloc = false ∨ (w.phase u = .exited ∧ lingers = false) then none else (w.info u).imagePath

theorem getImagePathByPid_of_present {w : World} {u : Nat} (hu : w.Present u) (lingers : Bool) :
    w.knFcUtilGetImagePathByPid true lingers (w.info u).pid = (w.info u).imagePath := by
  simp [knFcUtilGetImagePathByPid, newestBelow_of_present hu hu.1 le_rfl, hu.2]

/-- Present processes that descend, through present ones, from one whose image
is a root. -/
inductive HasLineage (w : World) (isRoot : Option UnicodeString → Bool) : Nat → Prop
  | root {u : Nat} (hu : w.Present u) (hr : isRoot (w.info u).imagePath = true) :
      HasLineage w isRoot u
  | child {u k : Nat} (hu : w.Present u) (hk : k ∈ (w.info u).parent)
      (h : HasLineage w isRoot k) : HasLineage w isRoot u

theorem HasLineage.present {w : World} {isRoot : Option UnicodeString → Bool} {u : Nat}
    (h : w.HasLineage isRoot u) : w.Present u := by
  cases h with
  | root hu hr => exact hu
  | child hu hk h => exact hu

def lineageWithin (w : World) (isRoot : Option UnicodeString → Bool) : Nat → Nat → Bool
  | 0, _ => false
  | n + 1, u => decide (w.Present u) &&
      (isRoot (w.info u).imagePath || (w.info u).parent.any (w.lineageWithin isRoot n))

theorem hasLineage_of_within {w : World} {isRoot : Option UnicodeString → Bool} {n u : Nat}
    (h : w.lineageWithin isRoot n u = true) : w.HasLineage isRoot u := by
  induction n generalizing u with
  | zero => simp [lineageWithin] at h
  | succ n ih =>
    simp only [lineageWithin, Bool.and_eq_true, decide_eq_true_eq, Bool.or_eq_true,
      Option.any_eq_true] at h
    obtain ⟨hu, hr | ⟨k, hk, hl⟩⟩ := h
    · exact .root hu hr
    · exact .child hu hk (ih hl)

theorem HasLineage.within {w : World} {isRoot : Option UnicodeString → Bool} {u : Nat}
    (h : w.HasLineage isRoot u) {n : Nat} (hn : u < n) : w.lineageWithin isRoot n u = true := by
  induction h generalizing n with
  | root hu hr =>
    obtain ⟨n, rfl⟩ := Nat.exists_eq_add_of_lt hn
    simp [lineageWithin, hu, hr]
  | @child u k hu hk _ ih =>
    obtain ⟨n, rfl⟩ := Nat.exists_eq_succ_of_ne_zero (Nat.ne_zero_of_lt hn)
    have hlt := (w.parents u hu.1 k hk).1
    have hany : (w.info u).parent.any (w.lineageWithin isRoot n) = true :=
      (Option.any_eq_true _ _).mpr ⟨k, hk, ih (by omega)⟩
    simp [lineageWithin, hu, hany]

instance (w : World) (isRoot : Option UnicodeString → Bool) (u : Nat) :
    Decidable (w.HasLineage isRoot u) :=
  decidable_of_iff (w.lineageWithin isRoot (u + 1) u = true)
    ⟨hasLineage_of_within, fun h => h.within (Nat.lt_succ_self u)⟩

theorem HasLineage.of_spawn {w : World} {parent : Option Nat} {pid : Handle}
    {imagePath : Option UnicodeString} (hs : w.CanSpawn parent pid)
    {isRoot : Option UnicodeString → Bool} {u : Nat}
    (h : (w.spawn parent pid imagePath hs).HasLineage isRoot u) (hlt : u < w.count) :
    w.HasLineage isRoot u := by
  induction h with
  | root hu hr =>
    rw [spawn_info hs hlt] at hr
    exact .root ((present_spawn hs hlt).mp hu) hr
  | @child u k hu hk _ ih =>
    rw [spawn_info hs hlt] at hk
    exact .child ((present_spawn hs hlt).mp hu) hk (ih ((w.parents u hlt k hk).1.trans hlt))

theorem present_created {w : World} {u : Nat} (h : w.phase u = .creating) {x : Nat} :
    (w.created u h).Present x ↔ w.Present x := by
  by_cases hx : x = u
  · simp [Present, created, hx, h]
  · simp [Present, created, hx]

theorem HasLineage.of_created {w : World} {v : Nat} (hv : w.phase v = .creating)
    {isRoot : Option UnicodeString → Bool} {u : Nat}
    (h : (w.created v hv).HasLineage isRoot u) : w.HasLineage isRoot u := by
  induction h with
  | root hu hr => exact .root ((present_created hv).mp hu) hr
  | child hu hk _ ih => exact .child ((present_created hv).mp hu) hk ih

end World

end KnFileCatcher

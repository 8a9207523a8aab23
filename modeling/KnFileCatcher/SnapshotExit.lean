import KnFileCatcher.Runs
import KnFileCatcher.TrackSystem

/-! Entries that outlive their process: the snapshot classifies from a buffer
that an exit notification does not reach. -/

namespace KnFileCatcher

open Runs TrackSystem

section Ghost

variable (up : Wchar → Wchar)

/-- No entry is there for a process whose exit was handled, and an entry that a
new process meets under its PID was inserted for this very process. -/
def ExitsForgotten (s : TrackSystem) : Prop :=
  (∀ u < s.world.count, s.world.phase u = .exited → ∀ pid, s.owner pid ≠ some u) ∧
    ∀ u < s.world.count, s.world.phase u = .creating → Live s.table (s.world.info u).pid →
      s.owner (s.world.info u).pid = some u

/-- The snapshot inserts for a process of its buffer whose exit was handled. -/
def GhostInsert (s : TrackSystem) : TrackAction → Prop
  | .start env =>
    match s.start with
    | .pass _ (r :: _) _ (.classify imagePath) =>
      s.world.phase r.process = .exited ∧
        Inserts env.alloc s.table (imageMatches up env.config imagePath) r.uniqueProcessId
          r.inheritedFromUniqueProcessId imagePath
    | _ => False
  | _ => False

def NoGhost (s : TrackSystem) : Prop :=
  ∀ pid u, s.owner pid = some u → s.world.phase u ≠ .exited

theorem exitsForgotten_iff {s : TrackSystem} (h : s.Wf) : ExitsForgotten s ↔ NoGhost s := by
  constructor
  · intro hf pid u hu hx
    exact hf.1 u (h.ownerPid pid u hu).1 hx pid hu
  · intro hn
    refine ⟨fun u _ hx pid hu => hn pid u hu hx, fun u hlt hph hl => ?_⟩
    obtain ⟨v, hv⟩ := Option.isSome_iff_exists.mp ((h.owned _).mp hl)
    obtain ⟨hvlt, hpid⟩ := h.ownerPid _ v hv
    -- of the processes that have not exited, one at most has this PID
    have huv : v = u := World.pid_inj ⟨hvlt, hn _ v hv⟩ ⟨hlt, by simp [hph]⟩ hpid
    rw [hv, huv]

variable {up}

theorem NoGhost.spawn {s : TrackSystem} (hw : s.Wf) (h : NoGhost s) {parent : Option Nat}
    {pid : Handle} {imagePath : Option UnicodeString} (hs : s.world.CanSpawn parent pid) :
    NoGhost { s with world := s.world.spawn parent pid imagePath hs } := by
  intro pid' u hu
  have hne : u ≠ s.world.count := Nat.ne_of_lt (hw.ownerPid pid' u hu).1
  simpa [World.spawn, hne] using h pid' u hu

theorem NoGhost.createNotify {s : TrackSystem} (hw : s.Wf) (h : NoGhost s) (env : ClassifyEnv)
    {u : Nat} (hu : s.world.phase u = .creating) :
    NoGhost { s.notifyCreate up env u with world := s.world.created u hu } := by
  intro pid v hv
  by_cases hvu : v = u
  · simp [World.created, hvu]
  · have hold : s.owner pid = some v := by
      unfold TrackSystem.notifyCreate at hv
      split at hv
      · exact (owner_of_classify hw.table up env u _ _ _ .notification hv).resolve_left
          fun hown => hvu hown.1
      · exact hv
    simpa [World.created, hvu] using h pid v hold

theorem NoGhost.exitNotify {s : TrackSystem} (hw : s.Wf) (h : NoGhost s) (u : Nat) :
    NoGhost { s.notifyExit u with world := s.world.exit u } := by
  intro pid v hv
  unfold TrackSystem.notifyExit at hv
  cases ha : s.table.active with
  | false => simp [ha, hw.inactive ha pid] at hv
  | true =>
    simp only [ha, if_true, TrackSystem.markExited] at hv
    by_cases hp : pid = (s.world.info u).pid
    · simp [hp] at hv
    · have hold : s.owner pid = some v := by simpa [hp] using hv
      have hvu : v ≠ u := by
        rintro rfl
        exact hp (hw.ownerPid pid v hold).2.symm
      simpa [World.exit, hvu] using h pid v hold

theorem start_noGhost_iff {s t : TrackSystem} (hw : s.Wf) (h : NoGhost s) {env : StartEnv}
    (hs : s.startStep up env = some t) : ¬ GhostInsert up s (.start env) ↔ NoGhost t := by
  by_cases hc : ∃ kind r rest changes imagePath,
      s.start = .pass kind (r :: rest) changes (.classify imagePath)
  · obtain ⟨kind, r, rest, changes, imagePath, hst⟩ := hc
    have ho := classify_owner hw.table up env.toClassifyEnv r.process r.uniqueProcessId
      r.inheritedFromUniqueProcessId imagePath .snapshot
    simp only [TrackSystem.startStep, hst, Option.some.injEq] at hs
    have hto := congrArg TrackSystem.owner hs.symm
    have htw : t.world = s.world := by
      rw [← hs]
      rfl
    simp only [GhostInsert, hst, NoGhost, htw, hto]
    constructor
    · intro hg pid u hu hx
      rcases owner_of_classify hw.table up env.toClassifyEnv _ _ _ _ .snapshot hu with
        ⟨rfl, -, hi⟩ | hu
      · exact hg ⟨hx, hi⟩
      · exact h pid u hu hx
    · rintro hn ⟨hx, hi⟩
      exact hn r.uniqueProcessId r.process ((congrFun ho _).trans (by simp [hi])) hx
  · have hno : ∀ kind r rest changes imagePath,
        s.start ≠ .pass kind (r :: rest) changes (.classify imagePath) :=
      fun kind r rest changes imagePath he => hc ⟨kind, r, rest, changes, imagePath, he⟩
    obtain ⟨hworld, howner, -⟩ := startStep_frame hs hno
    have hg : ¬ GhostInsert up s (.start env) := by
      intro hg
      cases hst : s.start with
      | pass kind rest changes pc =>
        cases rest with
        | nil => simp [GhostInsert, hst] at hg
        | cons r rest =>
          cases pc with
          | classify imagePath => exact hno _ _ _ _ _ hst
          | _ => simp [GhostInsert, hst] at hg
      | _ => simp [GhostInsert, hst] at hg
    simp only [hg, not_false_eq_true, true_iff, NoGhost, hworld, howner]
    exact h

theorem step_noGhost_iff {s t : TrackSystem} (hw : s.Wf) (h : NoGhost s) {a : TrackAction}
    (hs : trackSystemStep up s a = some t) : ¬ GhostInsert up s a ↔ NoGhost t := by
  cases a with
  | spawn parent pid imagePath =>
    obtain ⟨hsp, rfl⟩ := spawn_step hs
    simpa [GhostInsert] using h.spawn hw hsp
  | createNotify u env =>
    obtain ⟨-, hu, rfl⟩ := createNotify_step hs
    simpa [GhostInsert] using h.createNotify hw env hu
  | exitNotify u =>
    obtain rfl := exitNotify_step hs
    simpa [GhostInsert] using h.exitNotify hw u
  | start env => exact start_noGhost_iff hw h hs

theorem not_ghostInsert_of_none {s : TrackSystem} {a : TrackAction}
    (hs : trackSystemStep up s a = none) : ¬ GhostInsert up s a := by
  unfold GhostInsert
  split
  · split
    · next hst => simp [trackSystemStep, TrackSystem.startStep, hst] at hs
    · exact not_false
  · exact not_false

variable (up)

/-- A run forgets every exited process exactly when the snapshot never inserts
for one whose exit was handled. -/
theorem exits_forgotten_iff (as : List TrackAction) :
    Guarded (trackSystemStep up) (fun s a => ¬ GhostInsert up s a) init as ↔
      Always (trackSystemStep up) ExitsForgotten init as := by
  have hinit : ExitsForgotten init := ⟨fun u hu => absurd hu (Nat.not_lt_zero u),
    fun u hu => absurd hu (Nat.not_lt_zero u)⟩
  refine guarded_iff_always (I := Wf) (fun _ _ _ h hs => h.step hs) ?_
    (fun _ _ hs => not_ghostInsert_of_none hs) as wf_init hinit
  intro s a t hw hf hs
  rw [exitsForgotten_iff (hw.step hs)]
  exact step_noGhost_iff hw ((exitsForgotten_iff hw).mp hf) hs

end Ghost

section Run

/-! One process whose image is a root exits after the lookup of its image. -/

def ghostImage : UnicodeString := .inRoot 'a'

def ghostEnv : StartEnv where
  config := (knFcConfigAddRoot true knFcConfigInitialize ghostImage).2
  alloc := .ok
  registerStatus := statusSuccess
  listing := some [0]
  imageAlloc := true
  lingers := false

def ghostRun : List TrackAction :=
  [.spawn none 8 (some ghostImage), .createNotify 0 ghostEnv.toClassifyEnv] ++
    List.replicate 7 (.start ghostEnv) ++ [.exitNotify 0, .start ghostEnv]

theorem exited_process_is_tracked :
    ¬ Always (trackSystemStep id) ExitsForgotten init ghostRun := by
  obtain ⟨s, hs, hcount, hphase, howner⟩ : ∃ s,
      exec (trackSystemStep id) init ghostRun = some s ∧ s.world.count = 1 ∧
        s.world.phase 0 = .exited ∧ s.owner 8 = some 0 :=
    ⟨_, rfl, rfl, rfl, by decide⟩
  intro h
  exact (h ghostRun s List.prefix_rfl hs).1 0 (by omega) hphase 8 howner

end Run

end KnFileCatcher

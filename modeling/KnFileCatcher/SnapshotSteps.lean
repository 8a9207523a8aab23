import KnFileCatcher.Runs
import KnFileCatcher.Snapshot

/-! The steps of a snapshot that nothing interrupts compute `knFcTrackSnapshot`. -/

namespace KnFileCatcher

open Runs

def PassKind.isChild : PassKind → Bool
  | .root => false
  | .child _ => true

namespace TrackSystem

variable (up : Wchar → Wchar) (env : StartEnv)

/-- The starting thread alone, in an environment that stays the same. -/
def aloneStep (s : TrackSystem) (_ : Unit) : Option TrackSystem := s.startStep up env

/-- What the image lookup finds while no process comes or goes. -/
def imageOf (w : World) (pid : Handle) : Option UnicodeString :=
  w.knFcUtilGetImagePathByPid env.imageAlloc env.lingers pid

def information (r : SnapRecord) : KnfcSystemProcessInformation :=
  ⟨0, r.uniqueProcessId, r.inheritedFromUniqueProcessId⟩

/-- The state after a record, or after some of them. -/
structure Passed (s : TrackSystem) (kind : PassKind) (rest : List SnapRecord)
    (r : KnfcTrackCtx × Nat) (t : TrackSystem) : Prop where
  reached : Reachable (aloneStep up env) s t
  world : t.world = s.world
  buffer : t.buffer = s.buffer
  table : t.table = r.1
  start : t.start = .pass kind rest r.2 .test

variable {up env} {s : TrackSystem} {kind : PassKind} {r : SnapRecord} {rest : List SnapRecord}
  {n : Nat}

theorem aloneStep_pass {pc : RecordPc} {t : TrackSystem}
    (h : s.start = .pass kind (r :: rest) n pc) (ht : s.passStep up env kind r rest n pc = t) :
    Reachable (aloneStep up env) s t := by
  refine (Reachable.refl s).snoc (show aloneStep up env s () = some t from ?_)
  rw [aloneStep, startStep, h, ← ht]

theorem Passed.skipped {s' : TrackSystem} (h : Reachable (aloneStep up env) s s')
    (hs' : s' = { s with start := .pass kind rest n .test }) :
    Passed up env s kind rest (s.table, n) s' := by
  subst hs'
  exact ⟨h, rfl, rfl, rfl, rfl⟩

/-- From its classification on, a record is like one that the pass adds. -/
theorem Passed.classified (halloc : env.alloc = .ok) {s' : TrackSystem}
    (h : Reachable (aloneStep up env) s s')
    (hs' : s' = { s with
      start := .pass kind (r :: rest) n (.classify (imageOf env s.world r.uniqueProcessId)) }) :
    ∃ t, Passed up env s kind rest
      (classifyRecord up env.config (imageOf env s.world) s.table (information r), n + 1) t := by
  subst hs'
  refine ⟨_, h.trans (aloneStep_pass rfl rfl), rfl, rfl, ?_, rfl⟩
  simp only [passStep, classify, halloc]
  rfl

theorem record_steps (up : Wchar → Wchar) (halloc : env.alloc = .ok)
    (h : s.start = .pass kind (r :: rest) n .test) :
    ∃ t, Passed up env s kind rest
      (snapshotRecord up env.config (imageOf env s.world) kind.isChild (s.table, n)
        (information r)) t := by
  by_cases hskip : r.uniqueProcessId = 0 ∨
      (knFcTrackIsTracked s.table r.uniqueProcessId).isSome = true
  · have hno : ¬ Classifies up env.config (imageOf env s.world) kind.isChild s.table
        (information r) := by
      rintro ⟨hpid, hnew, -⟩
      rcases hskip with hzero | htracked
      · exact hpid hzero
      · exact Bool.false_ne_true (hnew.symm.trans htracked)
    rw [snapshotRecord_skipped hno]
    exact ⟨_, .skipped (aloneStep_pass h (by simp only [passStep, if_pos hskip])) rfl⟩
  have hnew := not_or.mp hskip
  cases kind with
  | root =>
    have htest : Reachable (aloneStep up env) s
        { s with start := .pass .root (r :: rest) n (.image false) } :=
      aloneStep_pass h (by simp only [passStep, if_neg hskip])
    have himage : Reachable (aloneStep up env) s { s with
        start := .pass .root (r :: rest) n (.rootTest (imageOf env s.world r.uniqueProcessId)) } :=
      htest.trans (aloneStep_pass rfl rfl)
    by_cases hm : Matches up env.config (imageOf env s.world) r.uniqueProcessId
    · have hadds : Classifies up env.config (imageOf env s.world) PassKind.root.isChild s.table
          (information r) := ⟨hnew.1, Bool.eq_false_iff.mpr hnew.2, by simpa [PassKind.isChild]⟩
      rw [snapshotRecord_added hadds]
      exact Passed.classified halloc (himage.trans (aloneStep_pass rfl (if_pos hm))) rfl
    · rw [snapshotRecord_skipped fun hc => hm (by simpa [PassKind.isChild, information] using hc.2.2)]
      exact ⟨_, .skipped (himage.trans (aloneStep_pass rfl (if_neg hm))) rfl⟩
  | child iter =>
    have htest : Reachable (aloneStep up env) s
        { s with start := .pass (.child iter) (r :: rest) n .parentTest } :=
      aloneStep_pass h (by simp only [passStep, if_neg hskip])
    have hparent : Reachable (aloneStep up env) s { s with
        start := .pass (.child iter) (r :: rest) n
          (.image (knFcTrackIsTracked s.table r.inheritedFromUniqueProcessId).isSome) } :=
      htest.trans (aloneStep_pass rfl rfl)
    by_cases hp : (knFcTrackIsTracked s.table r.inheritedFromUniqueProcessId).isSome = true
    · have hadds : Classifies up env.config (imageOf env s.world) (PassKind.child iter).isChild
          s.table (information r) :=
        ⟨hnew.1, Bool.eq_false_iff.mpr hnew.2, by simpa [PassKind.isChild, information]⟩
      rw [snapshotRecord_added hadds]
      exact Passed.classified halloc (hparent.trans (aloneStep_pass rfl (if_pos hp))) rfl
    · rw [snapshotRecord_skipped fun hc => hp
        (by simpa [PassKind.isChild, information] using hc.2.2)]
      exact ⟨_, .skipped (hparent.trans (aloneStep_pass rfl (if_neg hp))) rfl⟩

/-- A pass taken alone goes through its records in order. -/
theorem pass_steps (up : Wchar → Wchar) (halloc : env.alloc = .ok)
    (h : s.start = .pass kind rest n .test) :
    ∃ t, Passed up env s kind []
      ((rest.map information).foldl
        (snapshotRecord up env.config (imageOf env s.world) kind.isChild) (s.table, n)) t := by
  induction rest generalizing s n with
  | nil => exact ⟨s, .refl s, rfl, rfl, rfl, h⟩
  | cons r rest ih =>
    obtain ⟨u, hu⟩ := record_steps up halloc h
    obtain ⟨t, ht⟩ := ih hu.start
    rw [hu.world, hu.table] at ht
    exact ⟨t, hu.reached.trans ht.reached, ht.world.trans hu.world, ht.buffer.trans hu.buffer,
      ht.table, ht.start⟩

theorem Passed.ended {m : KnfcTrackCtx × Nat} {t : TrackSystem}
    (h : Passed up env s kind [] m t) :
    Reachable (aloneStep up env) s { t with start := afterPass s.buffer kind m.2 } := by
  refine h.reached.snoc (show aloneStep up env t () = _ from ?_)
  rw [aloneStep, startStep, h.start, h.buffer]

theorem childPass_steps (up : Wchar → Wchar) (halloc : env.alloc = .ok) {iter : Nat}
    (h : s.start = .pass (.child iter) s.buffer 0 .test) :
    ∃ t, Passed up env s (.child iter) [] (knFcTrackSnapshotPass up env.config
      (imageOf env s.world) (s.buffer.map information) true s.table) t :=
  pass_steps up halloc h

/-- The child passes from one on, with `more` of them allowed after it. -/
theorem childPasses_steps (up : Wchar → Wchar) (halloc : env.alloc = .ok) {iter more : Nat}
    (hiter : iter + more + 1 = knfcChildPasses)
    (h : s.start = .pass (.child iter) s.buffer 0 .test) :
    ∃ t, Reachable (aloneStep up env) s t ∧ t.start = .returned statusSuccess ∧
      t.table = (childPasses up env.config (imageOf env s.world) (s.buffer.map information)
        (more + 1) (s.table, n)).1 := by
  induction more generalizing iter s n with
  | zero =>
    obtain ⟨u, hu⟩ := childPass_steps up halloc h
    refine ⟨_, hu.ended, ?_, ?_⟩
    · rw [afterPass]
      split
      · rfl
      · rw [if_neg (by omega)]
    · rw [childPasses]
      split
      · exact hu.table
      · exact hu.table
  | succ more ih =>
    obtain ⟨u, hu⟩ := childPass_steps up halloc h
    have hended := hu.ended
    rw [childPasses]
    split
    · next hzero =>
      refine ⟨_, hended, ?_, hu.table⟩
      rw [afterPass]
      exact if_pos hzero
    · next hmore =>
      rw [afterPass, if_neg hmore, if_pos (by omega), ← hu.buffer] at hended
      have hnext : ({ u with start := .pass (.child (iter + 1)) u.buffer 0 .test } :
          TrackSystem).start = .pass (.child (iter + 1)) u.buffer 0 .test := rfl
      obtain ⟨t, ht, hret, htable⟩ := ih (by omega) hnext
      refine ⟨t, hended.trans ht, hret, ?_⟩
      rw [htable]
      dsimp only
      rw [hu.world, hu.buffer, hu.table]

/-- From the query on, a snapshot taken alone leaves the table that `knFcTrackSnapshot`
leaves. -/
theorem snapshot_steps (halloc : env.alloc = .ok) (h : s.start = .pass .root s.buffer 0 .test) :
    ∃ t, Reachable (aloneStep up env) s t ∧ t.start = .returned statusSuccess ∧
      t.table = (knFcTrackSnapshot up env.config (imageOf env s.world) (s.buffer.map information)
        s.table).1 := by
  obtain ⟨u, hu⟩ : ∃ u, Passed up env s .root [] (knFcTrackSnapshotPass up env.config
      (imageOf env s.world) (s.buffer.map information) false s.table) u := pass_steps up halloc h
  have hended := hu.ended
  rw [afterPass, ← hu.buffer] at hended
  have hnext : ({ u with start := .pass (.child 0) u.buffer 0 .test } : TrackSystem).start =
      .pass (.child 0) u.buffer 0 .test := rfl
  obtain ⟨t, ht, hret, htable⟩ := childPasses_steps up halloc
    (show 0 + (knfcChildPasses - 1) + 1 = knfcChildPasses from rfl) hnext
  refine ⟨t, hended.trans ht, hret, ?_⟩
  rw [htable]
  dsimp only
  rw [hu.world, hu.buffer, hu.table]
  rfl

end TrackSystem

end KnFileCatcher

import KnFileCatcher.ProcessEvents

/-! The events of a PID are sent in the order of its table changes as long as no push
overtakes an earlier event of that PID on its way to the client. -/

namespace KnFileCatcher

open Runs ChainedTable

def ExitWorkerPc.unpushed : ExitWorkerPc → List KnfcExitDefer
  | .popped e | .push e => [e]
  | _ => []

namespace ExitDeferSystem

variable {X : Type*}

def queued (s : ExitDeferSystem X) : List KnfcExitDefer := s.worker.unpushed ++ s.ctx.list

/-- The record is with its caller, on its way through the list, or lost. -/
def Holds (s : ExitDeferSystem X) (e : KnfcExitDefer) : Prop :=
  (∃ x pc, s.callers x = some (e, pc) ∧ pc.carries = true) ∨ e ∈ s.queued ∨
    e ∈ s.ctx.history.refused

/-- A step of the caller at `x` loses no record but its own. -/
theorem Holds.update [DecidableEq X] {s : ExitDeferSystem X} {e : KnfcExitDefer} (h : s.Holds e)
    {x : X} {c : Option (KnfcExitDefer × DeferPc)} {g : KnfcExitCtx}
    (hlist : ∀ e ∈ s.ctx.list, e ∈ g.list)
    (hrefused : ∀ e ∈ s.ctx.history.refused, e ∈ g.history.refused)
    (hown : ∀ pc, s.callers x = some (e, pc) → pc.carries = true →
      ({ s with ctx := g, callers := Function.update s.callers x c } : ExitDeferSystem X).Holds e) :
    ({ s with ctx := g, callers := Function.update s.callers x c } :
      ExitDeferSystem X).Holds e := by
  rcases h with ⟨x', pc, hx', hpc⟩ | hq | hf
  · by_cases hxx : x' = x
    · subst hxx
      exact hown pc hx' hpc
    · exact Or.inl ⟨x', pc, by simpa [hxx] using hx', hpc⟩
  · rcases List.mem_append.mp hq with hq | hq
    · exact Or.inr (Or.inl (List.mem_append_left _ hq))
    · exact Or.inr (Or.inl (List.mem_append_right _ (hlist e hq)))
  · exact Or.inr (Or.inr (hrefused e hf))

end ExitDeferSystem

namespace EventSystem

variable {C X : Type*}

/-- Change number `k` of the PID has not been sent: the inserting thread has yet to push
it, or its record is on its way, or was dropped. -/
def Unsent (s : EventSystem C X) (pid : Handle) (k : Nat) : Prop :=
  (∃ c push, s.creators c = some (k, push) ∧ push.pid = pid) ∨
    ∃ e, s.exits.Holds e ∧ e.pid = pid ∧ e.link = k

/-- A push that leaves an earlier event of its PID behind. -/
def Overtakes (s : EventSystem C X) : EventAction C X → Prop
  | .pushCreated c => ∃ k push, s.creators c = some (k, push) ∧ ∃ j < k, s.Unsent push.pid j
  | .worker => ∃ e, s.exits.worker = .push e ∧ ∃ j < e.link, s.Unsent e.pid j
  | _ => False

inductive Place (C X : Type*) where
  | creator (c : C)
  | exiter (x : X)
  | queued
  | sent

/-- `push` is change number `k` of its PID. -/
def Numbered (s : EventSystem C X) (k : Nat) (push : ProcessPush) : Prop :=
  (eventsOf push.pid s.changes)[k]? = some push

/-- Every change has one place, and so can be pushed only from there. -/
structure Located (place : Handle × Nat → Place C X) (s : EventSystem C X) : Prop where
  isPrefix : ∀ pid, eventsOf pid s.sent <+: eventsOf pid s.changes
  sent_iff : ∀ pid k, k < s.numberOf pid →
    (place (pid, k) = .sent ↔ k < (eventsOf pid s.sent).length)
  creator : ∀ c k push, s.creators c = some (k, push) →
    s.Numbered k push ∧ place (push.pid, k) = .creator c
  exiter : ∀ x e pc, s.exits.callers x = some (e, pc) → pc.carries = true →
    s.Numbered e.link e.push ∧ place (e.pid, e.link) = .exiter x
  queued : ∀ e ∈ s.exits.queued, s.Numbered e.link e.push ∧ place (e.pid, e.link) = .queued
  nodup : (s.exits.queued.map fun e => (e.pid, e.link)).Nodup
  covered : ∀ pid k, k < s.numberOf pid → place (pid, k) ≠ .sent → s.Unsent pid k

/-- The table and the log of its changes agree on whose turn it is. -/
structure InTurn (s : EventSystem C X) : Prop where
  wf : trackLayout.Wf s.table.buckets
  alternate : ∀ pid, Alternate ((eventsOf pid s.changes).map ProcessPush.eventType)
  live_iff : ∀ pid, Live s.table pid ↔
    ((eventsOf pid s.changes).map ProcessPush.eventType).getLast? = some .created

end EventSystem

theorem eventsOf_append (pid : Handle) (es ds : List ProcessPush) :
    eventsOf pid (es ++ ds) = eventsOf pid es ++ eventsOf pid ds := List.filter_append es ds

theorem eventsOf_singleton (pid : Handle) (e : ProcessPush) :
    eventsOf pid [e] = if e.pid = pid then [e] else [] := by
  by_cases h : e.pid = pid <;> simp [eventsOf, h]

theorem isPrefix_snoc {α : Type*} {l L : List α} {a : α} (h : l <+: L)
    (ha : L[l.length]? = some a) : l ++ [a] <+: L := by
  obtain ⟨r, rfl⟩ := h
  rw [List.getElem?_append_right le_rfl, Nat.sub_self] at ha
  cases r with
  | nil => cases ha
  | cons b r =>
    obtain rfl : b = a := by simpa using ha
    exact ⟨r, by simp⟩

namespace EventSystem

variable {C X : Type*} {s t : EventSystem C X}

theorem Numbered.lt {k : Nat} {push : ProcessPush} (h : s.Numbered k push) :
    k < s.numberOf push.pid := (List.getElem?_eq_some_iff.mp h).1

theorem Numbered.append {k : Nat} {push : ProcessPush} (h : s.Numbered k push)
    {ds : List ProcessPush} (ht : t.changes = s.changes ++ ds) : t.Numbered k push := by
  unfold Numbered
  rw [ht, eventsOf_append, List.getElem?_append_left h.lt]
  exact h

theorem numberOf_append (push : ProcessPush) (ht : t.changes = s.changes ++ [push]) (pid : Handle) :
    t.numberOf pid = s.numberOf pid + if push.pid = pid then 1 else 0 := by
  rw [numberOf, ht, eventsOf_append, eventsOf_singleton, List.length_append]
  split <;> rfl

theorem numbered_last (push : ProcessPush) (ht : t.changes = s.changes ++ [push]) :
    t.Numbered (s.numberOf push.pid) push := by
  rw [Numbered, ht, eventsOf_append, eventsOf_singleton, if_pos rfl]
  exact List.getElem?_concat_length

/-- A change gets the next number of its PID, which nobody holds. -/
theorem Numbered.ne_new {k : Nat} {push new : ProcessPush} (h : s.Numbered k push) :
    (push.pid, k) ≠ (new.pid, s.numberOf new.pid) := by
  intro he
  obtain ⟨hpid, hk⟩ := Prod.mk.inj he
  have hlt := h.lt
  rw [hpid, hk] at hlt
  exact Nat.lt_irrefl _ hlt

theorem lt_of_ne_new {push : ProcessPush} (ht : t.changes = s.changes ++ [push]) {pid : Handle}
    {k : Nat} (hkey : (pid, k) ≠ (push.pid, s.numberOf push.pid)) (hk : k < t.numberOf pid) :
    k < s.numberOf pid := by
  rw [numberOf_append push ht] at hk
  by_cases hpid : push.pid = pid
  · subst hpid
    have hne : k ≠ s.numberOf push.pid := fun he => hkey (by rw [he])
    simp only [if_true] at hk
    omega
  · simpa [hpid] using hk

variable {place : Handle × Nat → Place C X}

section Grow

variable {push : ProcessPush} {p : Place C X} (h : Located place s)
  (ht : t.changes = s.changes ++ [push]) (hsent : t.sent = s.sent)

include h ht hsent

theorem Located.grow_isPrefix (pid : Handle) : eventsOf pid t.sent <+: eventsOf pid t.changes := by
  rw [hsent, ht, eventsOf_append]
  exact (h.isPrefix pid).trans (List.prefix_append _ _)

theorem Located.grow_sent_iff (hp : p ≠ .sent) (pid : Handle) (k : Nat) (hk : k < t.numberOf pid) :
    Function.update place (push.pid, s.numberOf push.pid) p (pid, k) = .sent ↔
      k < (eventsOf pid t.sent).length := by
  rw [hsent]
  by_cases hkey : (pid, k) = (push.pid, s.numberOf push.pid)
  · rw [hkey, Function.update_self]
    obtain ⟨rfl, rfl⟩ := Prod.mk.inj hkey
    have hle : (eventsOf push.pid s.sent).length ≤ s.numberOf push.pid :=
      (h.isPrefix push.pid).length_le
    exact ⟨fun he => absurd he hp, fun hlt => absurd hlt (Nat.not_lt.mpr hle)⟩
  · rw [Function.update_of_ne hkey]
    exact h.sent_iff pid k (lt_of_ne_new ht hkey hk)

omit hsent in
theorem Located.grow_covered {pid : Handle} {k : Nat} (hk : k < t.numberOf pid)
    (hkey : (pid, k) ≠ (push.pid, s.numberOf push.pid))
    (hne : Function.update place (push.pid, s.numberOf push.pid) p (pid, k) ≠ .sent) :
    s.Unsent pid k := by
  rw [Function.update_of_ne hkey] at hne
  exact h.covered pid k (lt_of_ne_new ht hkey hk) hne

omit h hsent in
theorem Numbered.grow {q : Place C X} {k : Nat} {old : ProcessPush}
    (hn : s.Numbered k old ∧ place (old.pid, k) = q) :
    t.Numbered k old ∧
      Function.update place (push.pid, s.numberOf push.pid) p (old.pid, k) = q :=
  ⟨hn.1.append ht, by rw [Function.update_of_ne hn.1.ne_new]; exact hn.2⟩

end Grow

/-- The other changes keep their places when the one at `p` goes to `r`. -/
theorem Numbered.move {p q r : Place C X} {key : Handle × Nat} {k : Nat} {old : ProcessPush}
    (hkey : place key = p) (hne : q ≠ p) (h : s.Numbered k old ∧ place (old.pid, k) = q) :
    s.Numbered k old ∧ Function.update place key r (old.pid, k) = q := by
  refine ⟨h.1, ?_⟩
  have hother : (old.pid, k) ≠ key := by
    intro he
    rw [he, hkey] at h
    exact hne h.2.symm
  rw [Function.update_of_ne hother]
  exact h.2

theorem Located.classify [DecidableEq C] {g : KnfcTrackCtx} {c : C} {push : ProcessPush}
    (h : Located place s) (hc : s.creators c = none) :
    Located (Function.update place (push.pid, s.numberOf push.pid) (.creator c))
      { s with
        table := g
        creators := Function.update s.creators c (some (s.numberOf push.pid, push))
        changes := s.changes ++ [push] } where
  isPrefix := h.grow_isPrefix rfl rfl
  sent_iff := h.grow_sent_iff rfl rfl (by simp)
  creator c' k old hc' := by
    by_cases hcc : c' = c
    · subst hcc
      obtain ⟨rfl, rfl⟩ : s.numberOf push.pid = k ∧ push = old := by simpa using hc'
      exact ⟨numbered_last push rfl, Function.update_self _ _ _⟩
    · simp only [Function.update_of_ne hcc] at hc'
      exact (Numbered.grow rfl (h.creator c' k old hc'))
  exiter x e pc hx hpc := Numbered.grow rfl (h.exiter x e pc hx hpc)
  queued e he := Numbered.grow rfl (h.queued e he)
  nodup := h.nodup
  covered pid k hk hne := by
    by_cases hkey : (pid, k) = (push.pid, s.numberOf push.pid)
    · obtain ⟨rfl, rfl⟩ := Prod.mk.inj hkey
      exact Or.inl ⟨c, push, by simp, rfl⟩
    · rcases h.grow_covered rfl hk hkey hne with ⟨c', old, hc', hpid⟩ | hexit
      · have hcc : c' ≠ c := by
          rintro rfl
          rw [hc] at hc'
          cases hc'
        exact Or.inl ⟨c', old, by simpa [hcc] using hc', hpid⟩
      · exact Or.inr hexit

/-- The record that `knFcMarkExited` brings to the list. -/
theorem Located.markExited [DecidableEq X] {g : KnfcTrackCtx} {x : X} {push : ProcessPush}
    (h : Located place s) (hx : s.exits.callers x = none)
    (hpush : (push.deferred (s.numberOf push.pid)).push = push) :
    Located (Function.update place (push.pid, s.numberOf push.pid) (.exiter x))
      { s with
        table := g
        exits := { s.exits with
          callers := Function.update s.exits.callers x
            (some (push.deferred (s.numberOf push.pid), .testRunning)) }
        changes := s.changes ++ [push] } where
  isPrefix := h.grow_isPrefix rfl rfl
  sent_iff := h.grow_sent_iff rfl rfl (by simp)
  creator c k old hc := Numbered.grow rfl (h.creator c k old hc)
  exiter x' e pc hx' hpc := by
    by_cases hxx : x' = x
    · subst hxx
      obtain ⟨rfl, rfl⟩ : push.deferred (s.numberOf push.pid) = e ∧ DeferPc.testRunning = pc := by
        simpa using hx'
      refine ⟨?_, Function.update_self _ _ _⟩
      rw [hpush]
      exact numbered_last push rfl
    · simp only [Function.update_of_ne hxx] at hx'
      exact Numbered.grow rfl (h.exiter x' e pc hx' hpc)
  queued e he := Numbered.grow rfl (h.queued e he)
  nodup := h.nodup
  covered pid k hk hne := by
    by_cases hkey : (pid, k) = (push.pid, s.numberOf push.pid)
    · obtain ⟨rfl, rfl⟩ := Prod.mk.inj hkey
      exact Or.inr ⟨push.deferred (s.numberOf push.pid), Or.inl ⟨x, .testRunning, by simp, rfl⟩,
        rfl, rfl⟩
    · rcases h.grow_covered rfl hk hkey hne with hc | ⟨e, hold, hpid, hlink⟩
      · exact Or.inl hc
      · refine Or.inr ⟨e, hold.update (fun _ => id) (fun _ => id) fun pc hx' => ?_, hpid, hlink⟩
        rw [hx] at hx'
        cases hx'

section Send

variable {k : Nat} {push : ProcessPush} (h : Located place s) (hn : s.Numbered k push)
  (hplace : place (push.pid, k) ≠ .sent) (hfirst : ∀ j < k, ¬ s.Unsent push.pid j)

include h hn hplace hfirst

/-- A push that overtakes nothing is the next one of its PID. -/
theorem Located.length_sent : (eventsOf push.pid s.sent).length = k := by
  have hge : (eventsOf push.pid s.sent).length ≤ k := by
    by_contra hlt
    exact hplace ((h.sent_iff push.pid k hn.lt).mpr (Nat.lt_of_not_le hlt))
  by_contra hne
  have hlt : (eventsOf push.pid s.sent).length < k := by omega
  have hsent : place (push.pid, (eventsOf push.pid s.sent).length) = .sent := by
    by_contra hp
    exact hfirst _ hlt (h.covered push.pid _ (hlt.trans hn.lt) hp)
  exact Nat.lt_irrefl _ ((h.sent_iff push.pid _ (hlt.trans hn.lt)).mp hsent)

theorem Located.send_isPrefix (pid : Handle) :
    eventsOf pid (s.sent ++ [push]) <+: eventsOf pid s.changes := by
  have hlen := h.length_sent hn hplace hfirst
  rw [eventsOf_append, eventsOf_singleton]
  by_cases hpid : push.pid = pid
  · subst hpid
    rw [if_pos rfl]
    exact isPrefix_snoc (h.isPrefix push.pid) (hlen ▸ hn)
  · rw [if_neg hpid, List.append_nil]
    exact h.isPrefix pid

theorem Located.send_sent_iff (pid : Handle) (j : Nat) (hj : j < s.numberOf pid) :
    Function.update place (push.pid, k) .sent (pid, j) = .sent ↔
      j < (eventsOf pid (s.sent ++ [push])).length := by
  have hlen := h.length_sent hn hplace hfirst
  rw [eventsOf_append, eventsOf_singleton, List.length_append]
  by_cases hkey : (pid, j) = (push.pid, k)
  · obtain ⟨rfl, rfl⟩ := Prod.mk.inj hkey
    simp [hlen]
  · rw [Function.update_of_ne hkey, h.sent_iff pid j hj]
    by_cases hpid : push.pid = pid
    · subst hpid
      have hne : j ≠ k := fun he => hkey (by rw [he])
      simp only [if_true, List.length_singleton]
      omega
    · simp [hpid]

end Send

theorem Located.pushCreated [DecidableEq C] {c : C} {k : Nat} {push : ProcessPush}
    (h : Located place s) (hc : s.creators c = some (k, push))
    (hfirst : ∀ j < k, ¬ s.Unsent push.pid j) :
    Located (Function.update place (push.pid, k) .sent)
      { s with
        creators := Function.update s.creators c none
        sent := s.sent ++ [push] } := by
  obtain ⟨hn, hplace⟩ := h.creator c k push hc
  have hne : place (push.pid, k) ≠ .sent := by rw [hplace]; simp
  refine ⟨h.send_isPrefix hn hne hfirst, h.send_sent_iff hn hne hfirst, ?_, ?_, ?_, h.nodup, ?_⟩
  · intro c' j old hc'
    by_cases hcc : c' = c
    · simp [hcc] at hc'
    · simp only [Function.update_of_ne hcc] at hc'
      exact Numbered.move hplace (by simpa using hcc) (h.creator c' j old hc')
  · intro x e pc hx hpc
    exact Numbered.move hplace (by simp) (h.exiter x e pc hx hpc)
  · intro e he
    exact Numbered.move hplace (by simp) (h.queued e he)
  · intro pid j hj hns
    have hkey : (pid, j) ≠ (push.pid, k) := by
      intro he
      exact hns (by rw [he, Function.update_self])
    rw [Function.update_of_ne hkey] at hns
    rcases h.covered pid j hj hns with ⟨c', old, hc', rfl⟩ | hexit
    · have hcc : c' ≠ c := by
        rintro rfl
        obtain ⟨rfl, rfl⟩ : k = j ∧ push = old := by simpa [hc] using hc'
        exact hkey rfl
      exact Or.inl ⟨c', old, by simpa [hcc] using hc', rfl⟩
    · exact Or.inr hexit

section Exits

variable {x : X} {e : KnfcExitDefer} {pc : DeferPc}

/-- A caller that carries its record after the step carried it before. -/
theorem Located.exiter_update [DecidableEq X] {r : Option DeferPc} (h : Located place s)
    (hx : s.exits.callers x = some (e, pc))
    (hr : r.any DeferPc.carries = true → pc.carries = true) (x' : X) (e' : KnfcExitDefer)
    (pc' : DeferPc)
    (hx' : Function.update s.exits.callers x (r.map fun pc => (e, pc)) x' = some (e', pc'))
    (hpc' : pc'.carries = true) :
    s.Numbered e'.link e'.push ∧ place (e'.pid, e'.link) = .exiter x' := by
  by_cases hxx : x' = x
  · subst hxx
    simp only [Function.update_self, Option.map_eq_some_iff, Prod.mk.injEq] at hx'
    obtain ⟨pc'', hr', rfl, rfl⟩ := hx'
    exact h.exiter x' e pc hx (hr (by rw [hr', Option.any_some, hpc']))
  · simp only [Function.update_of_ne hxx] at hx'
    exact h.exiter x' e' pc' hx' hpc'

/-- The caller keeps its record, or is past it. -/
theorem Located.keep [DecidableEq X] {r : Option DeferPc} (h : Located place s)
    (hx : s.exits.callers x = some (e, pc)) (hr : r.any DeferPc.carries = pc.carries)
    {g : KnfcExitCtx} (hlist : g.list = s.exits.ctx.list)
    (hrefused : g.history.refused = s.exits.ctx.history.refused) :
    Located place
      { s with
        exits := { s.exits with
          ctx := g
          callers := Function.update s.exits.callers x (r.map fun pc => (e, pc)) } } := by
  have hqueued : ({ s.exits with
      ctx := g
      callers := Function.update s.exits.callers x (r.map fun pc => (e, pc)) } :
      ExitDeferSystem X).queued = s.exits.queued := by
    simp only [ExitDeferSystem.queued, hlist]
  constructor
  case isPrefix => exact h.isPrefix
  case sent_iff => exact h.sent_iff
  case creator => exact h.creator
  case exiter => exact h.exiter_update hx fun hc => hr.symm.trans hc
  case queued =>
    rw [hqueued]
    exact h.queued
  case nodup =>
    rw [hqueued]
    exact h.nodup
  case covered =>
    intro pid k hk hne
    rcases h.covered pid k hk hne with hc | ⟨e', hold, hkey⟩
    · exact Or.inl hc
    · refine Or.inr ⟨e', hold.update (by simp [hlist]) (by simp [hrefused]) ?_, hkey⟩
      intro pc' hx' hpc'
      obtain ⟨rfl, rfl⟩ : e = e' ∧ pc = pc' := by simpa [hx] using hx'
      rw [hpc', Option.any_eq_true] at hr
      obtain ⟨pc'', hr', hpc''⟩ := hr
      exact Or.inl ⟨x, pc'', by simp [hr'], hpc''⟩

theorem Located.refuse [DecidableEq X] {r : Option DeferPc} (h : Located place s)
    (hx : s.exits.callers x = some (e, pc)) (hr : r.any DeferPc.carries = false) :
    Located place
      { s with
        exits := { s.exits with
          ctx := s.exits.ctx.refuse e
          callers := Function.update s.exits.callers x (r.map fun pc => (e, pc)) } } := by
  refine ⟨h.isPrefix, h.sent_iff, h.creator, ?_, h.queued, h.nodup, ?_⟩
  · exact h.exiter_update hx fun hc => absurd (hr.symm.trans hc) Bool.false_ne_true
  · intro pid k hk hne
    rcases h.covered pid k hk hne with hc | ⟨e', hold, hkey⟩
    · exact Or.inl hc
    · refine Or.inr ⟨e', hold.update (fun _ => id) (fun _ => List.mem_append_left _) ?_, hkey⟩
      intro pc' hx' _
      obtain ⟨rfl, rfl⟩ : e = e' ∧ pc = pc' := by simpa [hx] using hx'
      exact Or.inr (Or.inr (List.mem_append_right _ (List.mem_singleton_self e)))

theorem Located.insert [DecidableEq X] (h : Located place s)
    (hx : s.exits.callers x = some (e, pc)) (hpc : pc.carries = true) {g : KnfcExitCtx}
    (hlist : g.list = s.exits.ctx.list ++ [e])
    (hrefused : g.history.refused = s.exits.ctx.history.refused) :
    Located (Function.update place (e.pid, e.link) .queued)
      { s with
        exits := { s.exits with
          ctx := g
          callers := Function.update s.exits.callers x (some (e, .signal)) } } := by
  obtain ⟨hn, hplace⟩ := h.exiter x e pc hx hpc
  have hqueued : ({ s.exits with
      ctx := g
      callers := Function.update s.exits.callers x (some (e, .signal)) } :
      ExitDeferSystem X).queued = s.exits.queued ++ [e] := by
    simp only [ExitDeferSystem.queued, hlist, List.append_assoc]
  constructor
  case isPrefix => exact h.isPrefix
  case sent_iff =>
    intro pid k hk
    by_cases hkey : (pid, k) = (e.pid, e.link)
    · have hold := h.sent_iff pid k hk
      rw [hkey, hplace] at hold
      rw [hkey, Function.update_self]
      exact ⟨fun he => (by cases he), fun hlt => by cases hold.mpr hlt⟩
    · rw [Function.update_of_ne hkey]
      exact h.sent_iff pid k hk
  case creator =>
    intro c k push hc
    exact Numbered.move hplace (by simp) (h.creator c k push hc)
  case exiter =>
    intro x' e' pc' hx' hpc'
    by_cases hxx : x' = x
    · subst hxx
      obtain ⟨rfl, rfl⟩ : e = e' ∧ DeferPc.signal = pc' := by simpa using hx'
      cases hpc'
    · simp only [Function.update_of_ne hxx] at hx'
      exact Numbered.move hplace (by simpa using hxx) (h.exiter x' e' pc' hx' hpc')
  case queued =>
    rw [hqueued]
    intro e' he'
    rcases List.mem_append.mp he' with he' | he'
    · exact Numbered.move hplace (by simp) (h.queued e' he')
    · obtain rfl := List.mem_singleton.mp he'
      exact ⟨hn, Function.update_self _ _ _⟩
  case nodup =>
    rw [hqueued, List.map_append, List.map_singleton, List.nodup_append]
    refine ⟨h.nodup, List.nodup_singleton _, ?_⟩
    intro key hkey key' hkey' he
    obtain ⟨e', he', rfl⟩ := List.mem_map.mp hkey
    obtain rfl := List.mem_singleton.mp hkey'
    have ho := (h.queued e' he').2
    rw [he, hplace] at ho
    cases ho
  case covered =>
    intro pid k hk hne
    by_cases hkey : (pid, k) = (e.pid, e.link)
    · obtain ⟨rfl, rfl⟩ := Prod.mk.inj hkey
      exact Or.inr ⟨e, Or.inr (Or.inl (by rw [hqueued]; simp)), rfl, rfl⟩
    · rw [Function.update_of_ne hkey] at hne
      rcases h.covered pid k hk hne with hc | ⟨e', hold, rfl, rfl⟩
      · exact Or.inl hc
      · refine Or.inr ⟨e', hold.update ?_ (by simp [hrefused]) ?_, rfl, rfl⟩
        · rw [hlist]
          exact fun _ => List.mem_append_left _
        · intro pc' hx' _
          obtain ⟨rfl, rfl⟩ : e = e' ∧ pc = pc' := by simpa [hx] using hx'
          exact absurd rfl hkey

end Exits

/-- While no stop is set, a worker step pushes the first unpushed record or none. -/
theorem knFcExitDeferWorker_queued {g g' : KnfcExitCtx} {pc pc' : ExitWorkerPc}
    (hstop : g.stop = false) (h : knFcExitDeferWorker g pc = some (g', pc')) :
    g'.history.refused = g.history.refused ∧
      ((pc'.unpushed ++ g'.list = pc.unpushed ++ g.list ∧ workerPush pc = []) ∨
        ∃ e, pc = .push e ∧ pc.unpushed ++ g.list = e :: (pc'.unpushed ++ g'.list)) := by
  cases exitWorkerMove h with
  | pop e rest hlist => exact ⟨rfl, Or.inl ⟨by simp [KnfcExitCtx.removeHead, hlist,
      ExitWorkerPc.unpushed], rfl⟩⟩
  | drop e hdropped =>
    rw [hstop] at hdropped
    cases hdropped
  | push e => exact ⟨rfl, Or.inr ⟨e, rfl, rfl⟩⟩
  | _ => exact ⟨rfl, Or.inl ⟨rfl, rfl⟩⟩

theorem Located.pushExited {e : KnfcExitDefer} {g : KnfcExitCtx} {pc : ExitWorkerPc}
    (h : Located place s) (hq : s.exits.queued = e :: (pc.unpushed ++ g.list))
    (hrefused : g.history.refused = s.exits.ctx.history.refused)
    (hfirst : ∀ j < e.link, ¬ s.Unsent e.pid j) :
    Located (Function.update place (e.pid, e.link) .sent)
      { s with
        exits := { s.exits with ctx := g, worker := pc }
        sent := s.sent ++ [e.push] } := by
  obtain ⟨hn, hplace⟩ := h.queued e (hq ▸ List.mem_cons_self)
  have hne : place (e.push.pid, e.link) ≠ .sent := by
    rw [show place (e.push.pid, e.link) = .queued from hplace]
    simp
  have hnodup := h.nodup
  rw [hq, List.map_cons, List.nodup_cons] at hnodup
  refine ⟨h.send_isPrefix hn hne hfirst, h.send_sent_iff hn hne hfirst, ?_, ?_, ?_, hnodup.2, ?_⟩
  · intro c k push hc
    exact Numbered.move hplace (by simp) (h.creator c k push hc)
  · intro x e' pc' hx hpc'
    exact Numbered.move hplace (by simp) (h.exiter x e' pc' hx hpc')
  · intro e' he'
    have ho := h.queued e' (hq ▸ List.mem_cons_of_mem _ he')
    have hkey : (e'.pid, e'.link) ≠ (e.pid, e.link) := by
      intro he
      exact hnodup.1 (List.mem_map.mpr ⟨e', he', he⟩)
    exact ⟨ho.1, by rw [Function.update_of_ne hkey]; exact ho.2⟩
  · intro pid k hk hns
    have hkey : (pid, k) ≠ (e.pid, e.link) := by
      intro he
      exact hns (by rw [he]; exact Function.update_self _ _ _)
    rw [Function.update_of_ne hkey] at hns
    rcases h.covered pid k hk hns with hc | ⟨e', hold, rfl, rfl⟩
    · exact Or.inl hc
    · refine Or.inr ⟨e', ?_, rfl, rfl⟩
      rcases hold with hx | hmem | hf
      · exact Or.inl hx
      · rw [hq] at hmem
        rcases List.mem_cons.mp hmem with rfl | hmem
        · exact absurd rfl hkey
        · exact Or.inr (Or.inl hmem)
      · exact Or.inr (Or.inr (hrefused ▸ hf))

theorem Located.worker {g : KnfcExitCtx} {pc : ExitWorkerPc} (h : Located place s)
    (hstop : s.exits.ctx.stop = false)
    (hw : knFcExitDeferWorker s.exits.ctx s.exits.worker = some (g, pc))
    (hok : ¬ s.Overtakes .worker) :
    ∃ place', Located place'
      { s with
        exits := { s.exits with ctx := g, worker := pc }
        sent := s.sent ++ workerPush s.exits.worker } := by
  obtain ⟨hrefused, ⟨hsame, hpush⟩ | ⟨e, hpc, hq⟩⟩ := knFcExitDeferWorker_queued hstop hw
  · refine ⟨place, ?_⟩
    rw [hpush, List.append_nil]
    have hqueued : ({ s.exits with ctx := g, worker := pc } : ExitDeferSystem X).queued =
        s.exits.queued := hsame
    refine ⟨h.isPrefix, h.sent_iff, h.creator, h.exiter, ?_, ?_, ?_⟩
    · rw [hqueued]
      exact h.queued
    · rw [hqueued]
      exact h.nodup
    · intro pid k hk hne
      rcases h.covered pid k hk hne with hc | ⟨e, hold, hpid, hlink⟩
      · exact Or.inl hc
      · refine Or.inr ⟨e, ?_, hpid, hlink⟩
        rcases hold with hx | hmem | hf
        · exact Or.inl hx
        · exact Or.inr (Or.inl (hqueued ▸ hmem))
        · exact Or.inr (Or.inr (hrefused ▸ hf))
  · rw [hpc]
    refine ⟨_, h.pushExited hq hrefused fun j hj hu => hok ⟨e, hpc, j, hj, hu⟩⟩

theorem InTurn.grow {g : KnfcTrackCtx} {push : ProcessPush} (h : s.InTurn)
    (hwf : trackLayout.Wf g.buckets) (ht : t.changes = s.changes ++ [push]) (hg : t.table = g)
    (hturn : push.eventType = .created ↔ ¬ Live s.table push.pid)
    (hlive : ∀ pid, Live g pid ↔
      if pid = push.pid then push.eventType = .created else Live s.table pid) : t.InTurn := by
  have hmap (pid : Handle) : (eventsOf pid t.changes).map ProcessPush.eventType =
      (eventsOf pid s.changes).map ProcessPush.eventType ++
        if push.pid = pid then [push.eventType] else [] := by
    rw [ht, eventsOf_append, eventsOf_singleton, List.map_append]
    split <;> rfl
  refine ⟨hg ▸ hwf, fun pid => ?_, fun pid => ?_⟩
  · rw [hmap]
    by_cases hpid : push.pid = pid
    · subst hpid
      rw [if_pos rfl]
      exact (h.alternate push.pid).snoc (by rw [hturn, h.live_iff])
    · rw [if_neg hpid, List.append_nil]
      exact h.alternate pid
  · rw [hmap, hg, hlive]
    by_cases hpid : push.pid = pid
    · subst hpid
      simp
    · rw [if_neg (Ne.symm hpid), if_neg hpid, List.append_nil]
      exact h.live_iff pid

end EventSystem

theorem classify_push {alloc : InsertAlloc} {g : KnfcTrackCtx} {isRoot : Bool}
    {pid parentPid : Handle} {image : Option UnicodeString} {extra : Ulong} {push : ProcessPush}
    (h : (classifyLocked alloc g isRoot pid parentPid image extra).2 = some push) :
    push.eventType = .created := by
  unfold classifyLocked at h
  split at h
  · cases h
  · split at h
    · simp only [Option.ite_none_right_eq_some, Option.some.injEq] at h
      exact h.2 ▸ rfl
    · split at h
      · simp only [Option.ite_none_right_eq_some, Option.some.injEq] at h
        exact h.2 ▸ rfl
      · cases h

theorem markExited_push {g : KnfcTrackCtx} {pid : Handle} {push : ProcessPush}
    (h : (knFcMarkExited g pid).2 = some push) :
    push.eventType = .exited ∧ push.pid = pid ∧ push.image = none ∧ Live g pid := by
  cases hf : knFcTrackFindLocked g pid with
  | none =>
    simp only [knFcMarkExited, hf] at h
    cases h
  | some e =>
    simp only [knFcMarkExited, hf, Option.some.injEq] at h
    subst h
    exact ⟨rfl, rfl, rfl, by simp [Live, hf]⟩

theorem markExited_quiet {g : KnfcTrackCtx} {pid : Handle} (h : (knFcMarkExited g pid).2 = none) :
    (knFcMarkExited g pid).1 = g := by
  cases hf : knFcTrackFindLocked g pid with
  | none => exact markExited_none hf
  | some e =>
    simp only [knFcMarkExited, hf] at h
    cases h

namespace EventSystem

variable {C X : Type*} {s t : EventSystem C X}

theorem InTurn.classify {up : Wchar → Wchar} {cfg : KnfcConfig} {alloc : InsertAlloc}
    {origin : Origin} {pid parentPid : Handle} {image : Option UnicodeString} {push : ProcessPush}
    (h : s.InTurn) (hpush : (knFcClassifyAndInsert up cfg alloc s.table pid parentPid image
      origin.extraFlags).2 = some push) (ht : t.changes = s.changes ++ [push])
    (hg : t.table = (knFcClassifyAndInsert up cfg alloc s.table pid parentPid image
      origin.extraFlags).1) : t.InTurn := by
  have hcreated := classify_push hpush
  rcases classify_cases alloc s.table (imageMatches up cfg image) pid parentPid image
    origin.extraFlags with hc | ⟨push', hp, hc⟩
  · rw [knFcClassifyAndInsert, hc] at hpush
    cases hpush
  · rw [knFcClassifyAndInsert, hc] at hpush hg
    obtain rfl : push' = push := Option.some.inj hpush
    have hfree : ¬ Live s.table push'.pid := not_live_iff.mpr (hp.pid_eq ▸ hp.free)
    have hwf := h.wf.insertHead hp.live (not_live_iff.mp hfree)
    refine h.grow hwf ht hg (by simp [hcreated, hfree]) fun pid' => ?_
    rw [live_insertHead hp.live]
    by_cases hpid : pid' = push'.pid
    · simp [hpid, hcreated, ProcessPush.entry]
    · have hpid' : ¬ pid' = push'.entry.pid := hpid
      simp [hpid, hpid']

theorem InTurn.markExited {pid : Handle} {push : ProcessPush} (h : s.InTurn)
    (hpush : (knFcMarkExited s.table pid).2 = some push)
    (ht : t.changes = s.changes ++ [push]) (hg : t.table = (knFcMarkExited s.table pid).1) :
    t.InTurn := by
  obtain ⟨hexited, rfl, -, hlive⟩ := markExited_push hpush
  refine h.grow (markExited_wf h.wf _) ht hg (by simp [hexited, hlive]) fun pid' => ?_
  rw [live_markExited h.wf]
  by_cases hpid : pid' = push.pid
  · simp [hpid, hexited]
  · simp [hpid]

/-- What a run that overtakes nothing keeps. -/
structure Ordered (s : EventSystem C X) : Prop where
  turn : s.InTurn
  phases : s.exits.Phases
  stopper : s.exits.stopper = .notCalled
  located : ∃ place, Located place s

theorem ordered_init : (init C X).Ordered where
  turn := ⟨Layout.wf_empty, fun pid => ⟨List.isChain_nil, fun e he => by cases he⟩, fun pid =>
    ⟨fun h => (by cases h), fun h => by cases h⟩⟩
  phases := ExitDeferSystem.phases_init
  stopper := rfl
  located := ⟨fun _ => .sent, fun _ => List.prefix_rfl, fun _ k hk => absurd hk (Nat.not_lt_zero k),
    fun _ _ _ h => (by cases h), fun _ _ _ h => (by cases h), fun _ h => (by cases h),
    List.nodup_nil, fun _ k hk => absurd hk (Nat.not_lt_zero k)⟩

theorem Ordered.open (h : s.Ordered) : s.exits.ctx.stop = false ∧ s.exits.ctx.running = true := by
  refine ⟨?_, ?_⟩
  · rw [h.phases.stop_eq, h.stopper]
    rfl
  · rw [h.phases.running_eq, h.stopper]
    rfl

theorem Ordered.deferred [DecidableEq X] {x : X} {alloc : Bool} {exits : ExitDeferSystem X}
    (h : s.Ordered) (hs : exitDeferStep s.exits (.caller x alloc) = some exits) :
    ({ s with exits } : EventSystem C X).Ordered := by
  have hphases := h.phases.step hs
  obtain ⟨place, hloc⟩ := h.located
  obtain ⟨e, pc, hx, rfl⟩ := exitDeferStep_caller hs
  refine ⟨⟨h.turn.wf, h.turn.alternate, h.turn.live_iff⟩, hphases, h.stopper, ?_⟩
  rcases ExitDeferSystem.knFcExitDeferEnqueue_cases s.exits.ctx alloc e pc with ⟨hctx, -, hr⟩ |
    ⟨hctx, -, hr⟩ | ⟨-, -, hpc, he⟩ | ⟨rfl, he⟩
  · rw [hctx]
    exact ⟨place, hloc.keep hx hr rfl rfl⟩
  · rw [hctx]
    exact ⟨place, hloc.refuse hx hr⟩
  · rw [he]
    exact ⟨_, hloc.insert hx hpc rfl rfl⟩
  · rw [he]
    exact ⟨place, hloc.keep hx rfl rfl rfl⟩

section Step

variable [DecidableEq C] [DecidableEq X] {up : Wchar → Wchar}

theorem Ordered.step {a : EventAction C X} (h : s.Ordered) (hok : ¬ s.Overtakes a)
    (hs : eventStep up s a = some t) : t.Ordered := by
  obtain ⟨place, hloc⟩ := h.located
  cases a with
  | classify c cfg alloc origin pid parentPid image =>
    simp only [eventStep] at hs
    split at hs
    · cases hs
    · next hidle =>
      split at hs
      · next hquiet =>
        have hsame : (knFcClassifyAndInsert up cfg alloc s.table pid parentPid image
            origin.extraFlags).1 = s.table := by
          rcases classify_cases alloc s.table (imageMatches up cfg image) pid parentPid image
            origin.extraFlags with hc | ⟨push, -, hc⟩
          · rw [knFcClassifyAndInsert, hc]
          · rw [knFcClassifyAndInsert, hc] at hquiet
            cases hquiet
        rw [hsame] at hs
        obtain rfl := Option.some.inj hs
        exact h
      · next push hpush =>
        obtain rfl := Option.some.inj hs
        exact ⟨h.turn.classify hpush rfl rfl, h.phases, h.stopper, _, hloc.classify hidle⟩
  | pushCreated c =>
    obtain ⟨⟨k, push⟩, hc, rfl⟩ := Option.map_eq_some_iff.mp hs
    refine ⟨⟨h.turn.wf, h.turn.alternate, h.turn.live_iff⟩, h.phases, h.stopper, _,
      hloc.pushCreated hc fun j hj hu => hok ⟨k, push, hc, j, hj, hu⟩⟩
  | markExited x pid =>
    simp only [eventStep] at hs
    split at hs
    · next hquiet =>
      rw [markExited_quiet hquiet] at hs
      obtain rfl := Option.some.inj hs
      exact h
    · next push hpush =>
      obtain ⟨exits, hexits, rfl⟩ := Option.map_eq_some_iff.mp hs
      have hphases := h.phases.step hexits
      obtain ⟨hidle, rfl⟩ := exitDeferStep_call hexits
      obtain ⟨hexited, -, himage, -⟩ := markExited_push hpush
      have hrecord : (push.deferred (s.numberOf push.pid)).push = push := by
        cases push
        subst hexited himage
        rfl
      exact ⟨h.turn.markExited hpush rfl rfl, hphases, h.stopper, _,
        hloc.markExited hidle hrecord⟩
  | deferred x alloc =>
    obtain ⟨exits, hexits, rfl⟩ := Option.map_eq_some_iff.mp hs
    exact h.deferred hexits
  | worker =>
    obtain ⟨exits, hexits, rfl⟩ := Option.map_eq_some_iff.mp hs
    have hphases := h.phases.step hexits
    obtain ⟨g, pc, hw, rfl⟩ := exitDeferStep_worker hexits
    exact ⟨⟨h.turn.wf, h.turn.alternate, h.turn.live_iff⟩, hphases, h.stopper,
      hloc.worker h.open.1 hw hok⟩

/-- In a run whose pushes overtake no earlier event of their PID, the events sent for a
PID are the first of its table changes, in turns from a CREATED. -/
theorem events_follow_changes (as : List (EventAction C X)) (t : EventSystem C X)
    (hok : Guarded (eventStep up) (fun s a => ¬ s.Overtakes a) (init C X) as)
    (h : exec (eventStep up) (init C X) as = some t) (pid : Handle) :
    eventsOf pid t.sent <+: eventsOf pid t.changes ∧
      Alternate ((eventsOf pid t.sent).map ProcessPush.eventType) := by
  have ht : t.Ordered := hok.invariant (fun _ _ _ hi hn hs => hi.step hn hs) h ordered_init
  obtain ⟨place, hloc⟩ := ht.located
  exact ⟨hloc.isPrefix pid, (ht.turn.alternate pid).isPrefix ((hloc.isPrefix pid).map _)⟩

end Step

section Runs

instance [Fintype C] [Fintype X] (s : EventSystem C X) (pid : Handle) (k : Nat) :
    Decidable (s.Unsent pid k) :=
  decidable_of_iff
    ((∃ c, (s.creators c).any fun i => decide (i.1 = k ∧ i.2.pid = pid)) ∨
      (∃ x, (s.exits.callers x).any fun i =>
        i.2.carries && decide (i.1.pid = pid ∧ i.1.link = k)) ∨
      (∃ e ∈ s.exits.queued ++ s.exits.ctx.history.refused, e.pid = pid ∧ e.link = k)) <| by
    simp only [Unsent, ExitDeferSystem.Holds, Option.any_eq_true, Bool.and_eq_true,
      decide_eq_true_eq, Prod.exists, List.mem_append]
    constructor
    · rintro (⟨c, k', push, hc, rfl, hpid⟩ | ⟨x, e, pc, hx, hpc, hkey⟩ | ⟨e, he, hkey⟩)
      · exact Or.inl ⟨c, push, hc, hpid⟩
      · exact Or.inr ⟨e, Or.inl ⟨x, pc, hx, hpc⟩, hkey⟩
      · exact Or.inr ⟨e, Or.inr he, hkey⟩
    · rintro (⟨c, push, hc, hpid⟩ | ⟨e, ⟨x, pc, hx, hpc⟩ | he, hkey⟩)
      · exact Or.inl ⟨c, k, push, hc, rfl, hpid⟩
      · exact Or.inr (Or.inl ⟨x, e, pc, hx, hpc, hkey⟩)
      · exact Or.inr (Or.inr ⟨e, he, hkey⟩)

instance [Fintype C] [Fintype X] (s : EventSystem C X) (a : EventAction C X) :
    Decidable (s.Overtakes a) :=
  match a with
  | .pushCreated c =>
    decidable_of_iff ((s.creators c).any fun i => decide (∃ j < i.1, s.Unsent i.2.pid j)) <| by
      simp [Overtakes, Option.any_eq_true]
  | .worker =>
    decidable_of_iff (∃ e ∈ s.exits.worker.unpushed, s.exits.worker = .push e ∧
        ∃ j < e.link, s.Unsent e.pid j) <| by
      constructor
      · rintro ⟨e, -, h⟩
        exact ⟨e, h⟩
      · rintro ⟨e, hpc, h⟩
        exact ⟨e, by simp [hpc, ExitWorkerPc.unpushed], hpc, h⟩
  | .classify .. => isFalse id
  | .markExited .. => isFalse id
  | .deferred .. => isFalse id

def eventConfig : KnfcConfig := (knFcConfigAddRoot true knFcConfigInitialize (.inRoot 'a')).2

def create8 (origin : Origin) : EventAction Unit Unit :=
  .classify () eventConfig .ok origin 8 4 (some (.inRoot 'a'))

/-- An exit notification up to the set of the event, and the worker up to its push. -/
def exit8 : List (EventAction Unit Unit) :=
  .markExited () 8 :: List.replicate 4 (.deferred () true) ++ List.replicate 5 .worker

/-- PID 8 is created, exits, and is given again. -/
def reusedPid : List (EventAction Unit Unit) :=
  [create8 .notification, .pushCreated ()] ++ exit8 ++ [create8 .notification, .pushCreated ()]

theorem events_follow_changes_reused :
    ∃ t, exec (eventStep id) (init Unit Unit) reusedPid = some t ∧
      (eventsOf 8 t.sent).map ProcessPush.eventType = [.created, .exited, .created] ∧
      Alternate ((eventsOf 8 t.sent).map ProcessPush.eventType) :=
  ⟨_, rfl, by decide, (events_follow_changes reusedPid _ (by decide)
    (show exec (eventStep id) (init Unit Unit) reusedPid = some _ from rfl) 8).2⟩

/-- The snapshot has inserted PID 8 and is preempted before its push. -/
def ghostPid : List (EventAction Unit Unit) := create8 .snapshot :: exit8 ++ [.pushCreated ()]

theorem exited_overtakes_created :
    ∃ t, exec (eventStep id) (init Unit Unit) ghostPid = some t ∧
      (eventsOf 8 t.changes).map ProcessPush.eventType = [.created, .exited] ∧
      (eventsOf 8 t.sent).map ProcessPush.eventType = [.exited, .created] ∧
      ¬ Alternate ((eventsOf 8 t.sent).map ProcessPush.eventType) := by
  have hsent {es : List ProcessEventType} (he : es = [.exited, .created]) : ¬ Alternate es := by
    intro h
    subst he
    cases h.2 .exited rfl
  exact ⟨_, rfl, by decide, by decide, hsent (by decide)⟩

end Runs

end EventSystem

end KnFileCatcher

import KnFileCatcher.Forests
import KnFileCatcher.TreeForest

/-! When every node of the tree can be reached from the top. The parents in a dump are
PIDs of the past, and need not lead anywhere. -/

namespace KnFileCatcher

open FlagBits Forests Runs

instance : Finite Handle := Finite.of_injective BitVec.toFin fun _ _ => BitVec.eq_of_toFin_eq

def ProcessTree.display (t : ProcessTree) : Display Handle where
  top := t.rootProcesses
  below pid := ((t.nodesByPid pid).map ProcessNode.children).getD []

def ProcessTree.Known (t : ProcessTree) (pid : Handle) : Prop := (t.nodesByPid pid).isSome = true

/-- Every node is found from `RootProcesses` through `Children` on one path and no other. -/
def ProcessTree.IsForest (t : ProcessTree) : Prop := t.display.IsForest t.Known

def ListedParent (procs : List KnfcProc) (ppid pid : Handle) : Prop :=
  ∃ p ∈ procs, p.pid = pid ∧ p.parentPid = ppid ∧ ppid ≠ 0

section Built

variable {t : ProcessTree} {procs : List KnfcProc} {par : KnfcProc → Option Handle} {p : KnfcProc}

def parentOf (procs : List KnfcProc) (par : KnfcProc → Option Handle) (pid : Handle) :
    Option Handle :=
  (procs.find? fun p => decide (p.pid = pid)).bind par

theorem parentOf_eq (hnodup : (procs.map KnfcProc.pid).Nodup) (hp : p ∈ procs) :
    parentOf procs par p.pid = par p := by
  rw [parentOf, (find_pid_iff hnodup).mpr ⟨hp, rfl⟩, Option.bind_some]

theorem mem_above_iff (hnodup : (procs.map KnfcProc.pid).Nodup) {place : Option Handle}
    {pid : Handle} : pid ∈ Above par place procs ↔
      pid ∈ procs.map KnfcProc.pid ∧ parentOf procs par pid = place := by
  constructor
  · intro hmem
    obtain ⟨p, hp, rfl⟩ := List.mem_map.mp hmem
    have hin := List.mem_of_mem_filter hp
    rw [parentOf_eq hnodup hin]
    exact ⟨List.mem_map_of_mem hin, (mem_above hnodup hin).mp hmem⟩
  · rintro ⟨hmem, hplace⟩
    obtain ⟨p, hp, rfl⟩ := List.mem_map.mp hmem
    rw [parentOf_eq hnodup hp] at hplace
    exact (mem_above hnodup hp).mpr hplace

theorem nodup_above (hnodup : (procs.map KnfcProc.pid).Nodup) (place : Option Handle) :
    (Above par place procs).Nodup :=
  hnodup.sublist (List.filter_sublist.map KnfcProc.pid)

/-- A tree of listed processes, each put at the top or below another of them. -/
theorem Shows.places (h : Shows t procs procs par) (hnodup : (procs.map KnfcProc.pid).Nodup)
    (hpar : ∀ p ∈ procs, ∀ q, par p = some q → q ∈ procs.map KnfcProc.pid) :
    Places t.display t.Known (parentOf procs par) := by
  have hbelow (q : Handle) : t.display.below q = Above par (some q) procs := by
    cases hq : t.nodesByPid q with
    | some node => simpa [ProcessTree.display, hq] using h.children q node hq
    | none =>
      have hnone : q ∉ procs.map KnfcProc.pid := by
        rw [← h.known, hq]
        exact Bool.false_ne_true
      refine (show t.display.below q = [] by simp [ProcessTree.display, hq]).trans ?_
      refine (List.eq_nil_iff_forall_not_mem.mpr fun pid hmem => hnone ?_).symm
      obtain ⟨p, hp, -⟩ := List.mem_map.mp hmem
      obtain ⟨hin, hplace⟩ := List.mem_filter.mp hp
      exact hpar p hin q (of_decide_eq_true hplace)
  constructor
  case nodup_top =>
    rw [show t.display.top = _ from h.roots]
    exact nodup_above hnodup none
  case nodup_below =>
    intro q
    rw [hbelow]
    exact nodup_above hnodup (some q)
  case mem_top =>
    intro pid
    rw [show t.display.top = _ from h.roots, mem_above_iff hnodup, ← h.known]
    rfl
  case mem_below =>
    intro q pid
    rw [hbelow, mem_above_iff hnodup, ← h.known]
    rfl
  case parent =>
    intro q pid hknown hq
    obtain ⟨p, hp, rfl⟩ := List.mem_map.mp ((h.known pid).mp hknown)
    rw [parentOf_eq hnodup hp] at hq
    exact (h.known q).mpr (hpar p hp q hq)

theorem buildParent_eq_some {q : Handle} :
    buildParent procs p = some q ↔
      p.parentPid = q ∧ q ≠ 0 ∧ q ∈ procs.map KnfcProc.pid := by
  unfold buildParent
  by_cases h0 : p.parentPid = 0
  · simp only [h0, ne_eq, not_true_eq_false, if_false, Option.filter_none]
    constructor
    · intro h
      cases h
    · rintro ⟨rfl, hq, -⟩
      exact absurd rfl hq
  · rw [if_pos h0, Option.filter_eq_some_iff, Option.some.injEq, decide_eq_true_iff]
    constructor
    · rintro ⟨rfl, hmem⟩
      exact ⟨rfl, h0, hmem⟩
    · rintro ⟨rfl, -, hmem⟩
      exact ⟨rfl, hmem⟩

theorem places_buildTree (hnodup : (procs.map KnfcProc.pid).Nodup) :
    Places (buildTree procs).display (buildTree procs).Known
      (parentOf procs (buildParent procs)) :=
  (shows_buildTree hnodup).places hnodup fun _ _ _ hq => (buildParent_eq_some.mp hq).2.2

/-- The loops of the built tree are those of the list. -/
theorem loopFree_buildTree (hnodup : (procs.map KnfcProc.pid).Nodup) :
    LoopFree (Parent (buildTree procs).Known (parentOf procs (buildParent procs))) ↔
      LoopFree (ListedParent procs) := by
  have hlisted {q pid : Handle}
      (h : Parent (buildTree procs).Known (parentOf procs (buildParent procs)) q pid) :
      ListedParent procs q pid := by
    obtain ⟨p, hp, rfl⟩ := List.mem_map.mp (((shows_buildTree hnodup).known pid).mp h.1)
    have hq := h.2
    rw [parentOf_eq hnodup hp, buildParent_eq_some] at hq
    exact ⟨p, hp, rfl, hq.1, hq.2.1⟩
  have hplaced {q pid : Handle} (h : ListedParent procs q pid)
      (hq : q ∈ procs.map KnfcProc.pid) :
      Parent (buildTree procs).Known (parentOf procs (buildParent procs)) q pid := by
    obtain ⟨p, hp, rfl, hpar, h0⟩ := h
    refine ⟨((shows_buildTree hnodup).known p.pid).mpr (List.mem_map_of_mem hp), ?_⟩
    rw [parentOf_eq hnodup hp]
    exact buildParent_eq_some.mpr ⟨hpar, h0, hq⟩
  have hchild {q pid : Handle} (h : ListedParent procs q pid) : pid ∈ procs.map KnfcProc.pid := by
    obtain ⟨p, hp, rfl, -, -⟩ := h
    exact List.mem_map_of_mem hp
  constructor
  · intro hfree pid hloop
    have hchain {q pid : Handle} (h : Relation.TransGen (ListedParent procs) q pid)
        (hq : q ∈ procs.map KnfcProc.pid) :
        Relation.TransGen
          (Parent (buildTree procs).Known (parentOf procs (buildParent procs))) q pid := by
      induction h with
      | single h => exact .single (hplaced h hq)
      | tail h hlast ih =>
        obtain ⟨r, -, hr⟩ := Relation.TransGen.tail'_iff.mp h
        exact ih.tail (hplaced hlast (hchild hr))
    obtain ⟨r, -, hr⟩ := Relation.TransGen.tail'_iff.mp hloop
    exact hfree pid (hchain hloop (hchild hr))
  · exact fun hfree pid hloop =>
      hfree pid (Relation.TransGen.mono (fun _ _ => hlisted) pid pid hloop)

end Built

section Events

def treeEvent (t : ProcessTree) (e : ProcessEventType × KnfcProc) : Option ProcessTree :=
  some (applyProcessEvent t e.1 e.2)

/-- A process that the event adds is not put under itself. -/
def NotOwnParent (t : ProcessTree) (e : ProcessEventType × KnfcProc) : Prop :=
  e.1 = .created → t.nodesByPid e.2.pid = none → eventParent e.2 ≠ some e.2.pid

variable {t : ProcessTree} {ev : KnfcProc}

def eventPlace (t : ProcessTree) (ev : KnfcProc) : Option Handle :=
  (eventParent ev).filter fun q => ((t.register ev).nodesByPid q).isSome

theorem register_known (t : ProcessTree) (ev : KnfcProc) (pid : Handle) :
    ((t.register ev).nodesByPid pid).isSome = true ↔ t.Known pid ∨ pid = ev.pid := by
  by_cases h : pid = ev.pid
  · simp [ProcessTree.register, h]
  · simp [ProcessTree.register, ProcessTree.Known, h]

theorem attach_known (t : ProcessTree) (pid : Handle) (parent : Option Handle) (k : Handle) :
    ((t.attach pid parent).nodesByPid k).isSome = (t.nodesByPid k).isSome := by
  have hproc := congrArg Option.isSome (t.attach_proc pid parent k)
  rwa [Option.isSome_map, Option.isSome_map] at hproc

theorem register_display (hnew : t.nodesByPid ev.pid = none) :
    (t.register ev).display = t.display := by
  have hbelow : (t.register ev).display.below = t.display.below := by
    funext q
    by_cases hq : q = ev.pid
    · simp [ProcessTree.display, ProcessTree.register, KnfcProc.node, hq, hnew]
    · simp [ProcessTree.display, ProcessTree.register, hq]
  rw [show (t.register ev).display = ⟨t.rootProcesses, (t.register ev).display.below⟩ from rfl,
    hbelow]
  rfl

theorem attach_display (t : ProcessTree) (pid : Handle) (parent : Option Handle) :
    (t.attach pid parent).display =
      t.display.put (parent.filter fun q => (t.nodesByPid q).isSome) pid := by
  cases parent with
  | none => rfl
  | some q =>
    cases hq : t.nodesByPid q with
    | none => simp [ProcessTree.attach, hq, Option.filter, Display.put, ProcessTree.display,
        ProcessTree.addRoot]
    | some node =>
      have hplace : (some q).filter (fun q => (t.nodesByPid q).isSome) = some q := by
        simp [Option.filter, hq]
      rw [hplace]
      simp only [ProcessTree.attach, hq, Display.put, ProcessTree.display, Display.mk.injEq,
        true_and]
      funext k
      by_cases hk : k = q
      · simp [hk]
      · simp [hk]

theorem created_display (hnew : t.nodesByPid ev.pid = none) :
    (applyProcessEvent t .created ev).display = t.display.put (eventPlace t ev) ev.pid := by
  simp only [applyProcessEvent, hnew]
  rw [attach_display, register_display hnew]
  rfl

theorem created_known (hnew : t.nodesByPid ev.pid = none) :
    (applyProcessEvent t .created ev).Known = fun pid => t.Known pid ∨ pid = ev.pid := by
  funext pid
  simp only [applyProcessEvent, hnew, ProcessTree.Known]
  rw [attach_known]
  exact propext (register_known t ev pid)

theorem stamp_display {pid : Handle} {node : ProcessNode} (hnode : t.nodesByPid pid = some node) :
    (t.stamp pid node).display = t.display ∧ (t.stamp pid node).Known = t.Known := by
  simp only [ProcessTree.display, ProcessTree.stamp, Display.mk.injEq, true_and]
  constructor
  · funext q
    by_cases hq : q = pid
    · simp [hq, hnode]
    · simp [hq]
  · funext q
    unfold ProcessTree.Known
    by_cases hq : q = pid
    · simp [hq, hnode]
    · simp [hq]

theorem exited_display (t : ProcessTree) (ev : KnfcProc) :
    (applyProcessEvent t .exited ev).display = t.display ∧
      (applyProcessEvent t .exited ev).Known = t.Known := by
  cases hnode : t.nodesByPid ev.pid with
  | none => simp only [applyProcessEvent, hnode, and_self]
  | some node =>
    have hstamp : applyProcessEvent t .exited ev = t.stamp ev.pid node := by
      simp only [applyProcessEvent, hnode]
      rfl
    rw [hstamp]
    exact stamp_display hnode

theorem eventPlace_eq_self_iff (t : ProcessTree) (ev : KnfcProc) :
    eventPlace t ev = some ev.pid ↔ eventParent ev = some ev.pid := by
  rw [eventPlace, Option.filter_eq_some_iff, register_known]
  simp

/-- A run of events from a tree in which every node has its place. -/
theorem forest_after_events_iff {par : Handle → Option Handle}
    (h : Places t.display t.Known par) (events : List (ProcessEventType × KnfcProc)) :
    ∃ t', exec treeEvent t events = some t' ∧
      (t'.IsForest ↔
        LoopFree (Parent t.Known par) ∧ Guarded treeEvent NotOwnParent t events) := by
  induction events generalizing t par with
  | nil => exact ⟨t, rfl, h.isForest_iff.trans (and_iff_left trivial).symm⟩
  | cons e events ih =>
    -- an event that leaves every node where it was
    have hsame (hd : (applyProcessEvent t e.1 e.2).display = t.display)
        (hk : (applyProcessEvent t e.1 e.2).Known = t.Known) (hok : NotOwnParent t e) :
        ∃ t', exec treeEvent t (e :: events) = some t' ∧
          (t'.IsForest ↔ LoopFree (Parent t.Known par) ∧
            Guarded treeEvent NotOwnParent t (e :: events)) := by
      obtain ⟨t', ht', hiff⟩ := ih (t := applyProcessEvent t e.1 e.2) (by rw [hd, hk]; exact h)
      refine ⟨t', ht', hiff.trans ?_⟩
      rw [hk]
      exact and_congr_right fun _ => (and_iff_right hok).symm
    obtain ⟨eventType, ev⟩ := e
    cases eventType with
    | exited =>
      obtain ⟨hd, hk⟩ := exited_display t ev
      exact hsame hd hk nofun
    | created =>
      cases hnew : t.nodesByPid ev.pid with
      | some node =>
        have hid : applyProcessEvent t .created ev = t := applyCreated_known hnew
        refine hsame (congrArg ProcessTree.display hid) (congrArg ProcessTree.Known hid) ?_
        intro _ hnone
        cases hnew.symm.trans hnone
      | none =>
        have hunknown : ¬ t.Known ev.pid := by simp [ProcessTree.Known, hnew]
        have hplace (q : Handle) (hq : eventPlace t ev = some q) : t.Known q ∨ q = ev.pid := by
          rw [eventPlace, Option.filter_eq_some_iff] at hq
          exact (register_known t ev q).mp hq.2
        have hput := h.put hunknown hplace
        rw [← created_display hnew, ← created_known hnew] at hput
        obtain ⟨t', ht', hiff⟩ := ih hput
        refine ⟨t', ht', hiff.trans ?_⟩
        rw [created_known hnew, loopFree_insert hunknown h.parent, and_assoc]
        refine and_congr_right fun _ => and_congr_left fun _ => ?_
        rw [Ne, eventPlace_eq_self_iff]
        exact ⟨fun hne _ _ => hne, fun hok => hok rfl hnew⟩

/-- The tree built from a list of processes with different PIDs is a forest, after any
events, exactly if no chain of parents in the list comes back to its start and no event
puts a new process under itself. -/
theorem displayed_forest_iff {procs : List KnfcProc} (hnodup : (procs.map KnfcProc.pid).Nodup)
    (events : List (ProcessEventType × KnfcProc)) :
    ∃ t, exec treeEvent (buildTree procs) events = some t ∧
      (t.IsForest ↔ LoopFree (ListedParent procs) ∧
        Guarded treeEvent NotOwnParent (buildTree procs) events) := by
  obtain ⟨t, ht, hiff⟩ := forest_after_events_iff (places_buildTree hnodup) events
  rw [loopFree_buildTree hnodup] at hiff
  exact ⟨t, ht, hiff⟩

def parentAndChild : List KnfcProc :=
  [⟨8, 4, 8, knFcTrackRoot, imageTail (.inRoot 'a')⟩,
    ⟨12, 8, 8, knFcTrackChild, imageTail (.inRoot 'b')⟩]

/-- A third process comes under the child. -/
theorem displayed_forest_iff_parentAndChild :
    ∃ t, exec treeEvent (buildTree parentAndChild)
        [(.created, ⟨16, 12, 8, knFcTrackChild, imageTail (.inRoot 'b')⟩)] = some t ∧
      (t.IsForest ↔ LoopFree (ListedParent parentAndChild) ∧
        Guarded treeEvent NotOwnParent (buildTree parentAndChild)
          [(.created, ⟨16, 12, 8, knFcTrackChild, imageTail (.inRoot 'b')⟩)]) :=
  displayed_forest_iff (by decide) _

/-- The driver never pushes such an event: a child is put under a process that was tracked
before it. -/
theorem notOwnParent_of_pushes {g : KnfcTrackCtx} {isRoot : Bool} {pid parentPid : Handle}
    {image : Option UnicodeString} {o : Origin} {push : ProcessPush}
    (hp : Pushes g isRoot pid parentPid image o.extraFlags push) (t : ProcessTree) :
    NotOwnParent t (push.eventType, push.proc) := by
  intro _ _ hself
  unfold eventParent at hself
  obtain ⟨-, -, hflags⟩ | ⟨p, hfind, -, -⟩ := hp.kind
  · have htop : flagOn push.proc.flags 0x0001 = true := by
      change flagOn push.flags 0x0001 = true
      rw [hflags]
      exact root_flagOn o
    rw [if_pos htop] at hself
    cases hself
  · split at hself
    · cases hself
    split at hself
    · have heq : push.parentPid = push.pid := Option.some.inj hself
      rw [hp.parentPid_eq, hp.pid_eq] at heq
      rw [heq, hp.free] at hfind
      cases hfind
    · cases hself

end Events

section Reuse

/-- A root starts a child and exits, and the child starts a process that gets its PID. -/
def childTakesPid : List TreeAction :=
  [.create (rootCreation 8 4), .create { rootCreation 12 8 with imagePath := some (.inRoot 'b') },
    .exit 8, .create { rootCreation 8 12 with imagePath := some (.inRoot 'b') }]

def eachOthersParent : List KnfcProc :=
  [⟨8, 12, 8, knFcTrackChild, imageTail (.inRoot 'b')⟩,
    ⟨12, 8, 8, knFcTrackChild, imageTail (.inRoot 'b')⟩]

theorem not_forest_of_no_top {t : ProcessTree} (htop : t.rootProcesses = []) {pid : Handle}
    (hknown : t.Known pid) : ¬ t.IsForest := by
  intro hforest
  obtain ⟨path, hpath, -⟩ := hforest pid hknown
  rw [Display.find_of_top_nil (show t.display.top = [] from htop)] at hpath
  cases hpath

theorem eachOthersParent_not_forest : ¬ (buildTree eachOthersParent).IsForest := by
  have hknown : (buildTree eachOthersParent).Known 8 := rfl
  exact not_forest_of_no_top rfl hknown

/-- Each of the two is listed with the other as its parent, and neither is shown. -/
theorem reused_parent_disappears :
    ∃ s, exec (treeStep id) .init childTakesPid = some s ∧ Live s.table 8 ∧ Live s.table 12 ∧
      knFcTrackDump s.table knfcMaxTreeEntries = (eachOthersParent, false) ∧
      (eachOthersParent.map KnfcProc.pid).Nodup ∧ ¬ (buildTree eachOthersParent).IsForest := by
  refine ⟨_, rfl, ?_, ?_, ?_, ?_, eachOthersParent_not_forest⟩
  · decide
  · decide
  · decide
  · decide

end Reuse

end KnFileCatcher

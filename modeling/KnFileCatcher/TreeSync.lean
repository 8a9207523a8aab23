import KnFileCatcher.ProcessTree
import KnFileCatcher.EventOrder

/-! The tree of the client beside the tracking table whose events it is given. A node is
kept when its process exits, so a PID that comes back finds its place taken. -/

namespace KnFileCatcher

open FlagBits Runs ChainedTable

/-- A create notification, or a record of the snapshot. -/
structure Creation where
  config : KnfcConfig
  alloc : InsertAlloc
  origin : Origin
  pid : Handle
  parentPid : Handle
  imagePath : Option UnicodeString

structure TreeSystem where
  table : KnfcTrackCtx
  tree : ProcessTree

inductive TreeAction where
  | create (c : Creation)
  | exit (pid : Handle)

def TreeSystem.init : TreeSystem := ⟨knFcTrackInitialize, .empty⟩

def ProcessTree.deliver (t : ProcessTree) : Option ProcessPush → ProcessTree
  | some push => applyProcessEvent t push.eventType push.proc
  | none => t

section Step

variable (up : Wchar → Wchar)

def Creation.classify (c : Creation) (g : KnfcTrackCtx) : KnfcTrackCtx × Option ProcessPush :=
  knFcClassifyAndInsert up c.config c.alloc g c.pid c.parentPid c.imagePath c.origin.extraFlags

/-- The event of a change is delivered before the next change. -/
def treeStep (s : TreeSystem) : TreeAction → Option TreeSystem
  | .create c => some ⟨(c.classify up s.table).1, s.tree.deliver (c.classify up s.table).2⟩
  | .exit pid => some ⟨(knFcMarkExited s.table pid).1, s.tree.deliver (knFcMarkExited s.table pid).2⟩

end Step

def ProcessNode.exited (node : ProcessNode) : Bool := flagOn node.flags 0x0004

/-- The node is the live one of the tracked process. Of an image the protocol carries the last
120 characters, and these are compared. -/
structure Displays (node : ProcessNode) (e : KnfcTrackEntry) : Prop where
  live : node.exited = false
  ppid : node.ppid = e.parentPid
  root : node.root = e.rootPid
  imageNt : node.imageNt = imageTail e.imagePath

/-- The tree shows exactly the tracked processes as running. -/
structure TreeSystem.Synced (s : TreeSystem) : Prop where
  tracked : ∀ pid e, knFcTrackFindLocked s.table pid = some e →
    ∃ node, s.tree.nodesByPid pid = some node ∧ Displays node e
  live : ∀ pid node, s.tree.nodesByPid pid = some node → node.exited = false →
    ∃ e, knFcTrackFindLocked s.table pid = some e

/-- A process that gets tracked has a PID that the tree has no node for, not even that of
an exited process. -/
def TreeSystem.Fresh (up : Wchar → Wchar) (s : TreeSystem) : TreeAction → Prop
  | .create c =>
    Inserts c.alloc s.table (imageMatches up c.config c.imagePath) c.pid c.parentPid c.imagePath →
      s.tree.nodesByPid c.pid = none
  | .exit _ => True

section Nodes

variable {t : ProcessTree} {e : KnfcTrackEntry}

theorem exists_node {k : Handle} {p : KnfcProc}
    (h : (t.nodesByPid k).map ProcessNode.proc = some p) :
    ∃ node, t.nodesByPid k = some node ∧ node.proc = p :=
  Option.map_eq_some_iff.mp h

theorem Displays.of_proc {node node' : ProcessNode} (h : Displays node e)
    (hp : node'.proc = node.proc) : Displays node' e := by
  obtain ⟨-, hppid, hroot, hflags, himage⟩ : node'.pid = node.pid ∧ node'.ppid = node.ppid ∧
      node'.root = node.root ∧ node'.flags = node.flags ∧ node'.imageNt = node.imageNt := by
    simpa [ProcessNode.proc] using hp
  refine ⟨?_, hppid.trans h.ppid, hroot.trans h.root, himage.trans h.imageNt⟩
  rw [ProcessNode.exited, hflags]
  exact h.live

theorem applyCreated_proc {ev : KnfcProc} (h : t.nodesByPid ev.pid = none) (k : Handle) :
    ((applyProcessEvent t .created ev).nodesByPid k).map ProcessNode.proc =
      if k = ev.pid then some ev else (t.nodesByPid k).map ProcessNode.proc := by
  simp only [applyProcessEvent, h]
  rw [ProcessTree.attach_proc, ProcessTree.register_proc]

theorem applyCreated_known {ev : KnfcProc} {node : ProcessNode}
    (h : t.nodesByPid ev.pid = some node) : applyProcessEvent t .created ev = t := by
  simp only [applyProcessEvent, h]

theorem exited_stamped (node : ProcessNode) :
    ProcessNode.exited { node with flags := node.flags ||| 0x0004 } = true := by
  have hself : flagOn (0x0004 : Ulong) 0x0004 = true := by decide
  rw [ProcessNode.exited, flagOn_or, hself, Bool.or_true]

end Nodes

section Steps

variable {up : Wchar → Wchar} {s t : TreeSystem}

theorem pushProc_live {g : KnfcTrackCtx} {isRoot : Bool} {pid parentPid : Handle}
    {image : Option UnicodeString} {o : Origin} {push : ProcessPush}
    (h : Pushes g isRoot pid parentPid image o.extraFlags push) :
    flagOn push.proc.flags 0x0004 = false := by
  have hlive : decide (push.flags &&& knFcTrackExited = 0) = true := h.live
  rw [flagOn_eq_false_iff]
  exact of_decide_eq_true hlive

/-- The event of an insertion is delivered to a tree that has no node for the PID. -/
theorem TreeSystem.Synced.created (hs : s.Synced) {push : ProcessPush}
    (hlive : trackLayout.live push.entry = true) (hexited : flagOn push.proc.flags 0x0004 = false)
    (hnew : s.tree.nodesByPid push.pid = none) {count : Int} :
    TreeSystem.Synced
      ⟨{ s.table with
          buckets := trackLayout.insertHead s.table.buckets push.entry
          entryCount := count }, applyProcessEvent s.tree .created push.proc⟩ := by
  have hproc := @applyCreated_proc s.tree push.proc hnew
  constructor
  · intro pid e he
    rw [findLocked_insertHead hlive] at he
    have hp := hproc pid
    by_cases hpid : pid = push.entry.pid
    · rw [if_pos hpid] at he
      obtain rfl := Option.some.inj he
      rw [if_pos (show pid = push.proc.pid from hpid)] at hp
      obtain ⟨node, hnode, hn⟩ := exists_node hp
      have hflags : node.flags = push.proc.flags := congrArg KnfcProc.flags hn
      refine ⟨node, hnode, ?_, congrArg KnfcProc.parentPid hn, congrArg KnfcProc.rootPid hn,
        congrArg KnfcProc.image hn⟩
      rw [ProcessNode.exited, hflags]
      exact hexited
    · rw [if_neg hpid] at he
      rw [if_neg (show ¬ pid = push.proc.pid from hpid)] at hp
      obtain ⟨node, hnode, hd⟩ := hs.tracked pid e he
      rw [hnode, Option.map_some] at hp
      obtain ⟨node', hnode', hn⟩ := exists_node hp
      exact ⟨node', hnode', hd.of_proc hn⟩
  · intro pid node hnode hl
    rw [findLocked_insertHead hlive]
    by_cases hpid : pid = push.entry.pid
    · exact ⟨push.entry, if_pos hpid⟩
    · have hp := hproc pid
      rw [if_neg (show ¬ pid = push.proc.pid from hpid), hnode, Option.map_some] at hp
      obtain ⟨node', hnode', hn⟩ := exists_node hp.symm
      have hflags : node'.flags = node.flags := congrArg KnfcProc.flags hn
      rw [if_neg hpid]
      exact hs.live pid node' hnode' (by rw [ProcessNode.exited, hflags]; exact hl)

/-- The tree with the node of the PID stamped as exited. -/
def ProcessTree.stamp (t : ProcessTree) (pid : Handle) (node : ProcessNode) : ProcessTree :=
  { t with
    nodesByPid := Function.update t.nodesByPid pid
      (some { node with flags := node.flags ||| 0x0004 }) }

theorem deliver_exited {e : KnfcTrackEntry} {pid : Handle} {node : ProcessNode}
    (hf : knFcTrackFindLocked s.table pid = some e) (hnode : s.tree.nodesByPid pid = some node) :
    s.tree.deliver (knFcMarkExited s.table pid).2 = s.tree.stamp pid node := by
  simp only [knFcMarkExited, hf, ProcessTree.deliver, applyProcessEvent, ProcessPush.proc, hnode]
  rfl

theorem TreeSystem.Synced.exited (hs : s.Synced) (hwf : trackLayout.Wf s.table.buckets)
    (pid : Handle) : TreeSystem.Synced
      ⟨(knFcMarkExited s.table pid).1, s.tree.deliver (knFcMarkExited s.table pid).2⟩ := by
  cases hf : knFcTrackFindLocked s.table pid with
  | none => simpa [knFcMarkExited, hf, ProcessTree.deliver] using hs
  | some e =>
    obtain ⟨node, hnode, -⟩ := hs.tracked pid e hf
    rw [deliver_exited hf hnode]
    constructor
    · intro pid' e' he'
      rw [findLocked_markExited hwf] at he'
      split at he'
      · cases he'
      · next hne =>
        obtain ⟨node', hnode', hd⟩ := hs.tracked pid' e' he'
        exact ⟨node', (Function.update_of_ne hne _ _).trans hnode', hd⟩
    · intro pid' node' hnode' hl
      rw [findLocked_markExited hwf]
      have hupdate : Function.update s.tree.nodesByPid pid
          (some { node with flags := node.flags ||| 0x0004 }) pid' = some node' := hnode'
      by_cases hpid : pid' = pid
      · rw [hpid, Function.update_self] at hupdate
        obtain rfl := Option.some.inj hupdate
        rw [exited_stamped] at hl
        cases hl
      · rw [Function.update_of_ne hpid] at hupdate
        rw [if_neg hpid]
        exact hs.live pid' node' hupdate hl

theorem creation_cases (up : Wchar → Wchar) (c : Creation) {g : KnfcTrackCtx}
    (hwf : trackLayout.Wf g.buckets) :
    (c.classify up g = (g, none) ∧
      ¬ Inserts c.alloc g (imageMatches up c.config c.imagePath) c.pid c.parentPid c.imagePath) ∨
    ∃ push, Pushes g (imageMatches up c.config c.imagePath) c.pid c.parentPid c.imagePath
        c.origin.extraFlags push ∧
      Inserts c.alloc g (imageMatches up c.config c.imagePath) c.pid c.parentPid c.imagePath ∧
      c.classify up g =
        ({ g with
            buckets := trackLayout.insertHead g.buckets push.entry
            entryCount := g.entryCount + 1 }, some push) := by
  have hcl := @classified c.alloc g (imageMatches up c.config c.imagePath) c.pid c.parentPid
    c.imagePath hwf c.origin
  unfold Creation.classify knFcClassifyAndInsert
  obtain hc | ⟨push, hp, hc⟩ := classify_cases c.alloc g (imageMatches up c.config c.imagePath)
    c.pid c.parentPid c.imagePath c.origin.extraFlags
  · refine .inl ⟨hc, fun hins => hins.1 ?_⟩
    rw [hc] at hcl
    exact (hcl.live c.pid).mpr (.inr ⟨rfl, hins⟩)
  · refine .inr ⟨push, hp, ?_, hc⟩
    rw [hc] at hcl
    have hlive := (live_insertHead (g := g) hp.live c.pid).mpr (.inr hp.pid_eq.symm)
    obtain hold | ⟨-, hins⟩ := (hcl.live c.pid).mp hlive
    · exact absurd hold (not_live_iff.mpr hp.free)
    · exact hins

theorem treeStep_wf {a : TreeAction} (hwf : trackLayout.Wf s.table.buckets)
    (h : treeStep up s a = some t) : trackLayout.Wf t.table.buckets := by
  cases a with
  | create c =>
    obtain rfl := Option.some.inj h
    exact (classified hwf c.origin).wf
  | exit pid =>
    obtain rfl := Option.some.inj h
    exact markExited_wf hwf pid

/-- A step from a tree in sync ends in one exactly if it is fresh. -/
theorem fresh_iff_synced {a : TreeAction} (hwf : trackLayout.Wf s.table.buckets) (hs : s.Synced)
    (h : treeStep up s a = some t) : s.Fresh up a ↔ t.Synced := by
  cases a with
  | exit pid =>
    obtain rfl := Option.some.inj h
    exact ⟨fun _ => hs.exited hwf pid, fun _ => trivial⟩
  | create c =>
    obtain rfl := Option.some.inj h
    obtain ⟨hc, hno⟩ | ⟨push, hp, hins, hc⟩ := creation_cases up c hwf
    · rw [hc]
      exact ⟨fun _ => hs, fun _ hins => absurd hins hno⟩
    · have hcreated : push.eventType = .created := classify_push (congrArg Prod.snd hc)
      have hpid : push.proc.pid = c.pid := hp.pid_eq
      rw [hc]
      simp only [ProcessTree.deliver, hcreated]
      cases hn : s.tree.nodesByPid c.pid with
      | none =>
        refine ⟨fun _ => ?_, fun _ _ => hn⟩
        exact hs.created hp.live (pushProc_live hp) (by rw [← hn]; exact congrArg _ hp.pid_eq)
      | some node =>
        refine ⟨fun hfresh => ?_, fun hafter => ?_⟩
        · have hnone : s.tree.nodesByPid c.pid = none := hfresh hins
          rw [hn] at hnone
          cases hnone
        -- the event is ignored, and the node that is there was not live before
        · rw [applyCreated_known (by rw [hpid]; exact hn)] at hafter
          have hfound := findLocked_insertHead hp.live s.table (s.table.entryCount + 1) c.pid
          rw [if_pos (show c.pid = push.entry.pid from hp.pid_eq.symm)] at hfound
          obtain ⟨node', hnode', hd⟩ := hafter.tracked c.pid _ hfound
          obtain ⟨e, he⟩ := hs.live c.pid node' hnode' hd.live
          rw [hp.free] at he
          cases he

theorem synced_init : TreeSystem.init.Synced :=
  ⟨fun _ _ h => (by cases h), fun _ _ h => (by cases h)⟩

/-- The runs in whose every state the tree shows exactly the tracked processes are those
in which no PID is tracked for which there is a node already. -/
theorem tree_follows_table_iff (as : List TreeAction) :
    Guarded (treeStep up) (TreeSystem.Fresh up) .init as ↔
      Always (treeStep up) TreeSystem.Synced .init as := by
  refine guarded_iff_always (I := fun s => trackLayout.Wf s.table.buckets)
    (fun _ _ _ hwf h => treeStep_wf hwf h) (fun _ _ _ hwf hs h => fresh_iff_synced hwf hs h) ?_ as
    Layout.wf_empty synced_init
  intro s a h
  cases a <;> cases h

def rootCreation (pid parentPid : Handle) : Creation where
  config := (knFcConfigAddRoot true knFcConfigInitialize (.inRoot 'a')).2
  alloc := .ok
  origin := .notification
  pid := pid
  parentPid := parentPid
  imagePath := some (.inRoot 'a')

def reusedPid : List TreeAction :=
  [.create (rootCreation 8 4), .exit 8, .create (rootCreation 8 4)]

/-- The second process with the PID is tracked, and the tree shows the first as exited. -/
theorem reused_pid_stays_exited :
    ∃ s, exec (treeStep id) .init reusedPid = some s ∧ Live s.table 8 ∧
      ∀ node, s.tree.nodesByPid 8 = some node → node.exited = true := by
  refine ⟨_, rfl, by decide, ?_⟩
  intro node hnode
  have hstamped : some ⟨8, 4, 8, 5, imageTail (.inRoot 'a'), []⟩ = some node := hnode
  obtain rfl := Option.some.inj hstamped
  decide

end Steps

end KnFileCatcher

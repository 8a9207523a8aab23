import KnFileCatcher.TreeSync

/-! Two ways to the same forest: one tree is built from a dump of the table, the other has
been given the events of its creations. They differ in where they put a process. -/

namespace KnFileCatcher

open FlagBits Runs ChainedTable

section Forests

/-- Node by node and parent by parent; the order among siblings is left open. -/
structure SameForest (t t' : ProcessTree) : Prop where
  nodes : ∀ pid, (t.nodesByPid pid).map ProcessNode.proc = (t'.nodesByPid pid).map ProcessNode.proc
  roots : t.rootProcesses.Perm t'.rootProcesses
  children : ∀ pid node node', t.nodesByPid pid = some node → t'.nodesByPid pid = some node' →
    node.children.Perm node'.children

def Above (par : KnfcProc → Option Handle) (place : Option Handle) (ps : List KnfcProc) :
    List Handle :=
  (ps.filter fun p => decide (par p = place)).map KnfcProc.pid

/-- The tree has the nodes of `all`, and `placed` are where `par` puts them. -/
structure Shows (t : ProcessTree) (all placed : List KnfcProc) (par : KnfcProc → Option Handle) :
    Prop where
  nodes : ∀ pid, (t.nodesByPid pid).map ProcessNode.proc = all.find? fun p => decide (p.pid = pid)
  roots : t.rootProcesses = Above par none placed
  children : ∀ pid node, t.nodesByPid pid = some node → node.children = Above par (some pid) placed

variable {t t' : ProcessTree} {all placed ps ps' : List KnfcProc} {p : KnfcProc}
  {par par' : KnfcProc → Option Handle}

theorem above_concat (par : KnfcProc → Option Handle) (place : Option Handle)
    (ps : List KnfcProc) (p : KnfcProc) :
    Above par place (ps ++ [p]) = Above par place ps ++ if par p = place then [p.pid] else [] := by
  rw [Above, List.filter_append, List.map_append]
  by_cases h : par p = place <;> simp [Above, h]

theorem mem_above {place : Option Handle} (hnodup : (ps.map KnfcProc.pid).Nodup) (hp : p ∈ ps) :
    p.pid ∈ Above par place ps ↔ par p = place := by
  rw [Above, List.mem_map]
  constructor
  · rintro ⟨q, hq, hpid⟩
    obtain ⟨hmem, hpar⟩ := List.mem_filter.mp hq
    obtain rfl := List.inj_on_of_nodup_map hnodup hmem hp hpid
    exact of_decide_eq_true hpar
  · intro h
    exact ⟨p, List.mem_filter.mpr ⟨hp, decide_eq_true h⟩, rfl⟩

theorem find_pid_iff (hnodup : (ps.map KnfcProc.pid).Nodup) {pid : Handle} :
    (ps.find? fun p => decide (p.pid = pid)) = some p ↔ p ∈ ps ∧ p.pid = pid := by
  constructor
  · intro h
    exact ⟨List.mem_of_find?_eq_some h, by simpa using List.find?_some h⟩
  · rintro ⟨hp, rfl⟩
    cases hf : ps.find? fun q => decide (q.pid = p.pid) with
    | none => exact absurd (decide_eq_true rfl) (List.find?_eq_none.mp hf p hp)
    | some q =>
      have hpid : q.pid = p.pid := by simpa using List.find?_some hf
      rw [List.inj_on_of_nodup_map hnodup (List.mem_of_find?_eq_some hf) hp hpid]

theorem Shows.known (h : Shows t all placed par) (pid : Handle) :
    (t.nodesByPid pid).isSome = true ↔ pid ∈ all.map KnfcProc.pid := by
  have hn := congrArg Option.isSome (h.nodes pid)
  rw [Option.isSome_map] at hn
  rw [hn, List.find?_isSome, List.mem_map]
  simp

/-- The next node is attached where `par` puts it if its parent, when it is known, is. -/
theorem Shows.attach (h : Shows t all placed par) {parent : Option Handle}
    (hp : par p = parent.filter fun q => (t.nodesByPid q).isSome) :
    Shows (t.attach p.pid parent) all (placed ++ [p]) par := by
  have hroot (hnone : par p = none) : Shows (t.addRoot p.pid) all (placed ++ [p]) par := by
    refine ⟨h.nodes, ?_, ?_⟩
    · rw [above_concat, if_pos hnone, ← h.roots]
      rfl
    · intro pid node hnode
      rw [above_concat, hnone, if_neg (by simp), List.append_nil]
      exact h.children pid node hnode
  cases parent with
  | none => exact hroot hp
  | some q =>
    cases hq : t.nodesByPid q with
    | none =>
      have heq : t.attach p.pid (some q) = t.addRoot p.pid := by simp only [ProcessTree.attach, hq]
      rw [heq]
      exact hroot (hp.trans (by simp [Option.filter, hq]))
    | some node =>
      have hpar : par p = some q := hp.trans (by simp [Option.filter, hq])
      have heq : t.attach p.pid (some q) = { t with
          nodesByPid := Function.update t.nodesByPid q
            (some { node with children := node.children ++ [p.pid] }) } := by
        simp only [ProcessTree.attach, hq]
      refine ⟨fun pid => (ProcessTree.attach_proc _ _ _).trans (h.nodes pid), ?_, ?_⟩
      · rw [heq, above_concat, hpar, if_neg (by simp), List.append_nil]
        exact h.roots
      · intro pid node' hnode'
        rw [heq] at hnode'
        rw [above_concat, hpar]
        by_cases hpid : pid = q
        · subst hpid
          obtain rfl : _ = node' := by simpa using hnode'
          rw [if_pos rfl, ← h.children pid node hq]
        · rw [if_neg (by simpa using Ne.symm hpid), List.append_nil]
          exact h.children pid node' (by simpa [hpid] using hnode')

/-- A node for a PID that is new, and that none of the others was put under. -/
theorem Shows.register (h : Shows t all placed par) (hnew : p.pid ∉ all.map KnfcProc.pid)
    (hbare : Above par (some p.pid) placed = []) :
    Shows (t.register p) (all ++ [p]) placed par := by
  refine ⟨?_, h.roots, ?_⟩
  · intro pid
    rw [ProcessTree.register_proc, List.find?_append]
    by_cases hpid : pid = p.pid
    · subst hpid
      have hnone : all.find? (fun q => decide (q.pid = p.pid)) = none := by
        rw [List.find?_eq_none]
        intro q hq hqp
        exact hnew (List.mem_map.mpr ⟨q, hq, of_decide_eq_true hqp⟩)
      simp [hnone]
    · rw [if_neg hpid, h.nodes pid]
      simp [Ne.symm hpid]
  · intro pid node hnode
    by_cases hpid : pid = p.pid
    · subst hpid
      obtain rfl : p.node = node := by simpa [ProcessTree.register] using hnode
      exact hbare.symm
    · exact h.children pid node (by simpa [ProcessTree.register, hpid] using hnode)

theorem shows_empty (par : KnfcProc → Option Handle) : Shows .empty [] [] par :=
  ⟨fun _ => rfl, rfl, fun _ _ h => (by cases h)⟩

/-- Two trees of the same processes are the same forest if they agree on each parent. -/
theorem sameForest_iff (h : Shows t ps ps par) (h' : Shows t' ps' ps' par') (hperm : ps.Perm ps')
    (hnodup : (ps.map KnfcProc.pid).Nodup)
    (hpar : ∀ p ∈ ps, ∀ q, par p = some q → q ∈ ps.map KnfcProc.pid) :
    SameForest t t' ↔ ∀ p ∈ ps, par p = par' p := by
  have hnodup' : (ps'.map KnfcProc.pid).Nodup := (hperm.map KnfcProc.pid).nodup_iff.mp hnodup
  constructor
  · intro hsame p hp
    have hp' : p ∈ ps' := hperm.mem_iff.mp hp
    cases hplace : par p with
    | none =>
      have hmem : p.pid ∈ t.rootProcesses := by
        rw [h.roots]
        exact (mem_above hnodup hp).mpr hplace
      rw [hsame.roots.mem_iff, h'.roots, mem_above hnodup' hp'] at hmem
      exact hmem.symm
    | some q =>
      have hq : q ∈ ps.map KnfcProc.pid := hpar p hp q hplace
      obtain ⟨node, hnode⟩ := Option.isSome_iff_exists.mp ((h.known q).mpr hq)
      obtain ⟨node', hnode'⟩ := Option.isSome_iff_exists.mp
        ((h'.known q).mpr ((hperm.map KnfcProc.pid).mem_iff.mp hq))
      have hmem : p.pid ∈ node.children := by
        rw [h.children q node hnode]
        exact (mem_above hnodup hp).mpr hplace
      rw [(hsame.children q node node' hnode hnode').mem_iff, h'.children q node' hnode',
        mem_above hnodup' hp'] at hmem
      exact hmem.symm
  · intro hagree
    have habove (place : Option Handle) : (Above par place ps).Perm (Above par' place ps') := by
      have hfilter : ps.filter (fun p => decide (par p = place)) =
          ps.filter fun p => decide (par' p = place) :=
        List.filter_congr fun p hp => by rw [hagree p hp]
      rw [Above, hfilter]
      exact (hperm.filter _).map KnfcProc.pid
    constructor
    case nodes =>
      intro pid
      rw [h.nodes, h'.nodes]
      ext p
      rw [find_pid_iff hnodup, find_pid_iff hnodup', hperm.mem_iff]
    case roots =>
      rw [h.roots, h'.roots]
      exact habove none
    case children =>
      intro pid node node' hnode hnode'
      rw [h.children pid node hnode, h'.children pid node' hnode']
      exact habove (some pid)

end Forests

section Dump

variable {t : ProcessTree} {all placed ps : List KnfcProc} {par : KnfcProc → Option Handle}

/-- Under the parent, if that is in the dump. -/
def buildParent (procs : List KnfcProc) (p : KnfcProc) : Option Handle :=
  (if p.parentPid ≠ 0 then some p.parentPid else none).filter fun q =>
    decide (q ∈ procs.map KnfcProc.pid)

theorem Shows.registerAll (h : Shows t all [] par)
    (hnodup : ((all ++ ps).map KnfcProc.pid).Nodup) :
    Shows (ps.foldl ProcessTree.register t) (all ++ ps) [] par := by
  induction ps generalizing t all with
  | nil => simpa using h
  | cons p ps ih =>
    have hsplit : all ++ p :: ps = all ++ [p] ++ ps := by simp
    rw [hsplit] at hnodup ⊢
    have hnew : p.pid ∉ all.map KnfcProc.pid := by
      intro hmem
      rw [List.append_assoc, List.map_append, List.nodup_append] at hnodup
      exact hnodup.2.2 _ hmem _ (by simp) rfl
    exact ih (h.register hnew rfl) hnodup

theorem Shows.attachAll {parent : KnfcProc → Option Handle} (h : Shows t all placed par)
    (hpar : ∀ p ∈ ps, par p = (parent p).filter fun q => decide (q ∈ all.map KnfcProc.pid)) :
    Shows (ps.foldl (fun t p => t.attach p.pid (parent p)) t) all (placed ++ ps) par := by
  induction ps generalizing t placed with
  | nil => simpa using h
  | cons p ps ih =>
    have hknown : (fun q => (t.nodesByPid q).isSome) = fun q => decide (q ∈ all.map KnfcProc.pid) := by
      funext q
      rw [Bool.eq_iff_iff, h.known, decide_eq_true_iff]
    have hp : par p = (parent p).filter fun q => (t.nodesByPid q).isSome := by
      rw [hknown]
      exact hpar p List.mem_cons_self
    have hsplit : placed ++ p :: ps = placed ++ [p] ++ ps := by simp
    rw [hsplit]
    exact ih (h.attach hp) fun q hq => hpar q (List.mem_cons_of_mem p hq)

theorem shows_buildTree (hnodup : (ps.map KnfcProc.pid).Nodup) :
    Shows (buildTree ps) ps ps (buildParent ps) := by
  have hempty := shows_empty (buildParent ps)
  have hnodes : Shows (ps.foldl ProcessTree.register .empty) ([] ++ ps) [] (buildParent ps) :=
    hempty.registerAll (by simpa using hnodup)
  rw [List.nil_append] at hnodes
  exact hnodes.attachAll fun p _ => rfl

theorem dumpEntries_all {es : List KnfcTrackEntry} {room : Nat}
    (hlive : ∀ e ∈ es, flagOn e.flags knFcTrackExited = false)
    (h : (dumpEntries room es).2 = false) :
    (dumpEntries room es).1 = es.map KnfcTrackEntry.proc := by
  induction es generalizing room with
  | nil => rfl
  | cons e es ih =>
    have he := hlive e List.mem_cons_self
    have hrest : ∀ e' ∈ es, flagOn e'.flags knFcTrackExited = false := by
      exact fun e' he' => hlive e' (List.mem_cons_of_mem e he')
    cases room with
    | zero => simp [dumpEntries, he] at h
    | succ room =>
      simp only [dumpEntries, he, Bool.false_eq_true, if_false] at h ⊢
      rw [ih hrest h, List.map_cons]

theorem dump_all {g : KnfcTrackCtx} (hwf : trackLayout.Wf g.buckets)
    (h : (knFcTrackDump g knfcMaxTreeEntries).2 = false) :
    (knFcTrackDump g knfcMaxTreeEntries).1 = (entries g.buckets).map KnfcTrackEntry.proc := by
  refine dumpEntries_all ?_ h
  intro e he
  obtain ⟨b, -, hb⟩ := List.mem_flatMap.mp he
  rw [flagOn_eq_false_iff]
  exact of_decide_eq_true (hwf.live b e hb)

end Dump

section Creations

variable {up : Wchar → Wchar} {s t : TreeSystem} {ps : List KnfcProc}

/-- A tree that grew by the creations of `ps`, with the table they made. -/
structure Grown (s : TreeSystem) (ps : List KnfcProc) : Prop where
  wf : trackLayout.Wf s.table.buckets
  shows : Shows s.tree ps ps eventParent
  table : ps.Perm ((entries s.table.buckets).map KnfcTrackEntry.proc)
  parents : ∀ p ∈ ps, ∀ q, eventParent p = some q → q ∈ ps.map KnfcProc.pid

theorem pids_table {g : KnfcTrackCtx} :
    ((entries g.buckets).map KnfcTrackEntry.proc).map KnfcProc.pid =
      (entries g.buckets).map KnfcTrackEntry.pid := by
  rw [List.map_map]
  rfl

theorem Grown.live_iff (h : Grown s ps) (pid : Handle) :
    Live s.table pid ↔ pid ∈ ps.map KnfcProc.pid := by
  rw [(h.table.map KnfcProc.pid).mem_iff, pids_table, List.mem_map, Live, Option.isSome_iff_exists]
  constructor
  · rintro ⟨e, he⟩
    obtain ⟨hpid, b, hb⟩ := h.wf.find_eq_some_iff.mp he
    exact ⟨e, Layout.mem_entries.mpr ⟨b, hb⟩, hpid⟩
  · rintro ⟨e, he, rfl⟩
    exact ⟨e, h.wf.find_eq_some_iff.mpr ⟨rfl, Layout.mem_entries.mp he⟩⟩

theorem Grown.nodup (h : Grown s ps) : (ps.map KnfcProc.pid).Nodup := by
  rw [(h.table.map KnfcProc.pid).nodup_iff, pids_table]
  exact h.wf.nodup_keys

theorem grown_init : Grown .init [] := by
  refine ⟨Layout.wf_empty, shows_empty _, ?_, fun p hp => (by cases hp)⟩
  have hnone : entries (TreeSystem.init.table.buckets) = [] := by
    simp [entries, TreeSystem.init, knFcTrackInitialize]
  rw [hnone]
  exact List.Perm.refl _

theorem root_flagOn (o : Origin) : flagOn (knFcTrackRoot ||| o.extraFlags) 0x0001 = true := by
  cases o <;> decide

/-- A child is put under its parent, which is tracked, and a root at the top. -/
theorem Grown.parent_known (h : Grown s ps) {isRoot : Bool} {pid parentPid : Handle}
    {image : Option UnicodeString} {o : Origin} {push : ProcessPush}
    (hp : Pushes s.table isRoot pid parentPid image o.extraFlags push) {q : Handle}
    (hq : eventParent push.proc = some q) : q ∈ ps.map KnfcProc.pid := by
  unfold eventParent at hq
  obtain ⟨-, -, hflags⟩ | ⟨p, hfind, -, -⟩ := hp.kind
  · have htop : flagOn push.proc.flags 0x0001 = true := by
      change flagOn push.flags 0x0001 = true
      rw [hflags]
      exact root_flagOn o
    rw [if_pos htop] at hq
    cases hq
  · split at hq
    · cases hq
    split at hq
    · obtain rfl : push.parentPid = q := Option.some.inj hq
      rw [hp.parentPid_eq, ← h.live_iff, Live, hfind]
      rfl
    · cases hq

theorem Grown.created (h : Grown s ps) {isRoot : Bool} {pid parentPid : Handle}
    {image : Option UnicodeString} {o : Origin} {push : ProcessPush}
    (hp : Pushes s.table isRoot pid parentPid image o.extraFlags push) {count : Int} :
    Grown
      ⟨{ s.table with
          buckets := trackLayout.insertHead s.table.buckets push.entry
          entryCount := count }, applyProcessEvent s.tree .created push.proc⟩
      (ps ++ [push.proc]) := by
  have hfree : trackLayout.find s.table.buckets (trackLayout.key push.entry) = none := by
    rw [show trackLayout.key push.entry = pid from hp.pid_eq]
    exact hp.free
  have hnew : push.proc.pid ∉ ps.map KnfcProc.pid := by
    rw [← h.live_iff]
    exact not_live_iff.mpr hfree
  have hnone : s.tree.nodesByPid push.proc.pid = none := by
    rw [← Option.not_isSome_iff_eq_none, h.shows.known]
    exact hnew
  have hparents : ∀ p ∈ ps ++ [push.proc], ∀ q, eventParent p = some q →
      q ∈ (ps ++ [push.proc]).map KnfcProc.pid := by
    intro p hmem q hq
    rw [List.map_append]
    refine List.mem_append_left _ ?_
    obtain hmem | hmem := List.mem_append.mp hmem
    · exact h.parents p hmem q hq
    · obtain rfl := List.mem_singleton.mp hmem
      exact h.parent_known hp hq
  refine ⟨h.wf.insertHead hp.live hfree, ?_, ?_, hparents⟩
  · have hbare : Above eventParent (some push.proc.pid) ps = [] := by
      rw [Above, List.map_eq_nil_iff, List.filter_eq_nil_iff]
      intro p hmem hq
      exact hnew (h.parents p hmem _ (of_decide_eq_true hq))
    have hregistered := h.shows.register hnew hbare
    simp only [applyProcessEvent, hnone]
    refine hregistered.attach ?_
    cases hq : eventParent push.proc with
    | none => rfl
    | some q =>
      have hknown : ((s.tree.register push.proc).nodesByPid q).isSome = true := by
        rw [hregistered.known, List.map_append]
        exact List.mem_append_left _ (h.parent_known hp hq)
      simp [Option.filter, hknown]
  · have hentries := (h.wf.entries_insertHead hp.live hfree).map KnfcTrackEntry.proc
    refine List.Perm.trans ?_ hentries.symm
    exact (List.perm_append_singleton _ _).trans (h.table.cons _)

theorem Grown.step (h : Grown s ps) {c : Creation} (hs : treeStep up s (.create c) = some t) :
    ∃ ps', Grown t ps' := by
  obtain rfl := Option.some.inj hs
  obtain ⟨hc, -⟩ | ⟨push, hp, -, hc⟩ := creation_cases up c h.wf
  · rw [hc]
    exact ⟨ps, h⟩
  · have hcreated : push.eventType = .created := classify_push (congrArg Prod.snd hc)
    rw [hc]
    simp only [ProcessTree.deliver, hcreated]
    exact ⟨_, h.created hp⟩

theorem grown_of_creations {cs : List Creation} (h : Grown s ps)
    (hs : exec (treeStep up) s (cs.map .create) = some t) : ∃ ps', Grown t ps' := by
  induction cs generalizing s ps with
  | nil =>
    obtain rfl : s = t := by simpa using hs
    exact ⟨ps, h⟩
  | cons c cs ih =>
    obtain ⟨u, hu, hrest⟩ := exec_cons_eq_some.mp hs
    obtain ⟨ps', h'⟩ := h.step hu
    exact ih h' hrest

theorem isRoot_iff {e : KnfcTrackEntry} : e.IsRoot ↔ flagOn e.proc.flags 0x0001 = true := by
  rw [flagOn, decide_eq_true_iff]
  rfl

/-- The two rules differ for a root whose parent is in the table. -/
theorem parents_agree_iff {g : KnfcTrackCtx} {procs : List KnfcProc}
    (hpids : ∀ pid, pid ∈ procs.map KnfcProc.pid ↔ Live g pid) (e : KnfcTrackEntry)
    (hchild : ∀ q, eventParent e.proc = some q → Live g q) :
    eventParent e.proc = buildParent procs e.proc ↔
      (e.IsRoot → e.parentPid ≠ 0 → ¬ Live g e.parentPid) := by
  by_cases hroot : e.IsRoot
  · have hevent : eventParent e.proc = none := if_pos (isRoot_iff.mp hroot)
    rw [hevent, buildParent]
    by_cases h0 : e.parentPid = 0
    · have h0' : e.proc.parentPid = 0 := h0
      simp [h0, h0']
    · have h0' : e.proc.parentPid ≠ 0 := h0
      rw [if_pos h0']
      have hmem : e.proc.parentPid ∈ procs.map KnfcProc.pid ↔ Live g e.parentPid := hpids _
      by_cases hl : Live g e.parentPid
      · have hsome : (some e.proc.parentPid).filter
            (fun q => decide (q ∈ procs.map KnfcProc.pid)) = some e.proc.parentPid := by
          simp [Option.filter, hmem, hl]
        rw [hsome]
        exact ⟨fun hn => (by cases hn), fun hno => absurd hl (hno hroot h0)⟩
      · simp [Option.filter, hmem, hl]
  · have hevent : eventParent e.proc =
        if e.proc.parentPid ≠ 0 then some e.proc.parentPid else none :=
      if_neg (mt isRoot_iff.mpr hroot)
    rw [hevent] at hchild
    refine ⟨fun _ hr => absurd hr hroot, fun _ => ?_⟩
    rw [hevent, buildParent]
    cases hp : (if e.proc.parentPid ≠ 0 then some e.proc.parentPid else none) with
    | none => rfl
    | some q =>
      have hq := (hpids q).mpr (hchild q hp)
      simp [Option.filter, hq]

/-- A tree from a complete dump, in any order, is the forest of the events exactly if no
root has a tracked parent. -/
theorem dump_and_events_agree_iff {cs : List Creation}
    (h : exec (treeStep up) .init (cs.map .create) = some s)
    (hsmall : (knFcTrackDump s.table knfcMaxTreeEntries).2 = false) {procs : List KnfcProc}
    (hprocs : procs.Perm (knFcTrackDump s.table knfcMaxTreeEntries).1) :
    SameForest s.tree (buildTree procs) ↔
      ∀ e ∈ entries s.table.buckets, e.IsRoot → e.parentPid ≠ 0 → ¬ Live s.table e.parentPid := by
  obtain ⟨ps, hg⟩ := grown_of_creations grown_init h
  rw [dump_all hg.wf hsmall] at hprocs
  have hperm : ps.Perm procs := hg.table.trans hprocs.symm
  have hnodup := hg.nodup
  have hnodup' : (procs.map KnfcProc.pid).Nodup := (hperm.map KnfcProc.pid).nodup_iff.mp hnodup
  have hpids (pid : Handle) : pid ∈ procs.map KnfcProc.pid ↔ Live s.table pid := by
    rw [hg.live_iff, (hperm.map KnfcProc.pid).mem_iff]
  rw [sameForest_iff hg.shows (shows_buildTree hnodup') hperm hnodup hg.parents]
  have hchild (e : KnfcTrackEntry) (he : e ∈ entries s.table.buckets) (q : Handle)
      (hq : eventParent e.proc = some q) : Live s.table q := by
    rw [hg.live_iff]
    exact hg.parents e.proc (hg.table.mem_iff.mpr (List.mem_map_of_mem he)) q hq
  constructor
  · intro hagree e he
    exact (parents_agree_iff hpids e (hchild e he)).mp
      (hagree e.proc (hg.table.mem_iff.mpr (List.mem_map_of_mem he)))
  · intro hroots p hp
    obtain ⟨e, he, rfl⟩ := List.mem_map.mp (hg.table.mem_iff.mp hp)
    exact (parents_agree_iff hpids e (hchild e he)).mpr (hroots e he)

def rootAndChild : List Creation :=
  [rootCreation 8 4, { rootCreation 12 8 with imagePath := some (.inRoot 'b') }]

theorem dump_and_events_agree_rootAndChild :
    ∃ s, exec (treeStep id) .init (rootAndChild.map .create) = some s ∧
      (SameForest s.tree (buildTree (knFcTrackDump s.table knfcMaxTreeEntries).1) ↔
        ∀ e ∈ entries s.table.buckets, e.IsRoot → e.parentPid ≠ 0 → ¬ Live s.table e.parentPid) :=
  have hrun : exec (treeStep id) .init (rootAndChild.map .create) = some _ := rfl
  ⟨_, hrun, dump_and_events_agree_iff hrun (by decide) (List.Perm.refl _)⟩

/-- A root image started by a tracked process. -/
def rootUnderRoot : List Creation := [rootCreation 8 4, rootCreation 12 8]

theorem root_under_root_differs :
    ∃ s, exec (treeStep id) .init (rootUnderRoot.map .create) = some s ∧
      (knFcTrackDump s.table knfcMaxTreeEntries).2 = false ∧
      ¬ SameForest s.tree (buildTree (knFcTrackDump s.table knfcMaxTreeEntries).1) :=
  ⟨_, rfl, by decide, fun h => absurd h.roots.length_eq (by decide)⟩

end Creations

end KnFileCatcher

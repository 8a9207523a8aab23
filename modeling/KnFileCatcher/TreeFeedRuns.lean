import KnFileCatcher.TreeFeed

/-! Once all events of a PID have come through, the tree of the window shows it as the
table has it, whatever was still on its way when the dump was made. -/

namespace KnFileCatcher

open Runs LittleEndian ChainedTable FlagBits

def ProcessPush.life (p : ProcessPush) : SeededView.Life KnfcProc :=
  match p.eventType with
  | .created => .born p.proc
  | .exited => .gone

section View

variable {t : ProcessTree}

theorem view_created (p : ProcessPush) (pid : Handle) :
    (applyProcessEvent t .created p.proc).view pid =
      if p.pid = pid then SeededView.apply KnfcProc.stamp (t.view pid) (.born p.proc)
      else t.view pid := by
  cases hn : t.nodesByPid p.proc.pid with
  | some node =>
    have hview : t.view p.pid = some node.proc := congrArg (Option.map ProcessNode.proc) hn
    rw [applyCreated_known hn]
    split
    · next hpid =>
      rw [← hpid, hview]
      rfl
    · rfl
  | none =>
    have hproc := applyCreated_proc hn pid
    have hview : t.view p.pid = none := congrArg (Option.map ProcessNode.proc) hn
    by_cases hpid : p.pid = pid
    · subst hpid
      rw [if_pos (show p.pid = p.proc.pid from rfl)] at hproc
      rw [if_pos rfl, hview]
      exact hproc
    · rw [if_neg (show ¬ pid = p.proc.pid from Ne.symm hpid)] at hproc
      rw [if_neg hpid]
      exact hproc

theorem view_exited (p : ProcessPush) (pid : Handle) :
    (applyProcessEvent t .exited p.proc).view pid =
      if p.pid = pid then SeededView.apply KnfcProc.stamp (t.view pid) .gone else t.view pid := by
  have hpid : p.proc.pid = p.pid := rfl
  cases hn : t.nodesByPid p.proc.pid with
  | none =>
    have hview : t.view p.pid = none := congrArg (Option.map ProcessNode.proc) hn
    have hsame : applyProcessEvent t .exited p.proc = t := by simp only [applyProcessEvent, hn]
    rw [hsame]
    split
    · next heq =>
      rw [← heq, hview]
      rfl
    · rfl
  | some node =>
    have hview : t.view p.pid = some node.proc := congrArg (Option.map ProcessNode.proc) hn
    simp only [applyProcessEvent, hn]
    by_cases heq : p.pid = pid
    · subst heq
      rw [if_pos rfl, hview]
      simp only [ProcessTree.view, hpid, Function.update_self]
      rfl
    · rw [if_neg heq]
      simp only [ProcessTree.view, hpid, Function.update_of_ne (Ne.symm heq)]

theorem view_apply (t : ProcessTree) (p : ProcessPush) (pid : Handle) :
    (applyNotify t p.notify).view pid =
      if p.pid = pid then SeededView.apply KnfcProc.stamp (t.view pid) p.life else t.view pid := by
  rw [applyNotify_notify]
  unfold ProcessPush.life
  cases p.eventType with
  | created => exact view_created p pid
  | exited => exact view_exited p pid

/-- What the table has for a PID. -/
def trackedProc (g : KnfcTrackCtx) (pid : Handle) : Option KnfcProc :=
  (knFcTrackFindLocked g pid).map KnfcTrackEntry.proc

/-- A tree that is built of the whole table has it all. -/
theorem view_buildTree {g : KnfcTrackCtx} (hwf : trackLayout.Wf g.buckets) (pid : Handle) :
    (buildTree ((entries g.buckets).map KnfcTrackEntry.proc)).view pid = trackedProc g pid := by
  have hnodup : (((entries g.buckets).map KnfcTrackEntry.proc).map KnfcProc.pid).Nodup := by
    rw [pids_table]
    exact hwf.nodup_keys
  rw [ProcessTree.view, (shows_buildTree hnodup).nodes pid]
  ext p
  rw [find_pid_iff hnodup, trackedProc, Option.map_eq_some_iff]
  constructor
  · rintro ⟨hp, rfl⟩
    obtain ⟨e, he, rfl⟩ := List.mem_map.mp hp
    exact ⟨e, hwf.find_eq_some_iff.mpr ⟨rfl, Layout.mem_entries.mp he⟩, rfl⟩
  · rintro ⟨e, he, rfl⟩
    obtain ⟨hpid, hmem⟩ := hwf.find_eq_some_iff.mp he
    exact ⟨List.mem_map_of_mem (Layout.mem_entries.mpr hmem), hpid⟩

theorem liveEntries_eq {g : KnfcTrackCtx} (hwf : trackLayout.Wf g.buckets) :
    g.liveEntries = entries g.buckets := by
  refine List.filter_eq_self.mpr fun e he => ?_
  obtain ⟨b, hb⟩ := Layout.mem_entries.mp he
  have hlive : e.flags &&& knFcTrackExited = 0 := of_decide_eq_true (hwf.live b e hb)
  rw [flagOn_eq_false_iff.mpr hlive]
  rfl

/-- The request for a dump that is whole. -/
theorem fetch_whole {g : KnfcTrackCtx} (hwf : trackLayout.Wf g.buckets)
    (hsmall : g.liveEntries.length ≤ knfcMaxTreeEntries) :
    ∃ reply truncated, processTreeReply g = .ok reply ∧
      getProcessTree true 0 reply =
        some (0, (entries g.buckets).map KnfcTrackEntry.row, truncated) := by
  obtain ⟨d, reply, hd, hreply, -, hclient⟩ := processTreeReply_decodes g
  have hzero : zeroedProcs.length = (BitVec.ofNat 32 knfcMaxTreeEntries).toNat :=
    List.length_replicate
  have hmax : (BitVec.ofNat 32 knfcMaxTreeEntries).toNat = knfcMaxTreeEntries := rfl
  obtain ⟨d', hd', hfilled⟩ := @trackDumpInto_filled zeroedProcs _ g (by decide) hzero
  obtain rfl : d = d' := Except.ok.inj (hd.symm.trans hd')
  have hrows : d.out.take d.written.toNat = (entries g.buckets).map KnfcTrackEntry.row := by
    have hall : min knfcMaxTreeEntries g.liveEntries.length = g.liveEntries.length :=
      Nat.min_eq_right hsmall
    have hlen : (g.liveEntries.map KnfcTrackEntry.row).length = g.liveEntries.length :=
      List.length_map _
    rw [hfilled.rows, hfilled.written, hmax, hall, List.take_of_length_le hsmall,
      List.take_left' hlen, liveEntries_eq hwf]
  exact ⟨reply, d.truncated, hreply, by rw [hclient, hrows]⟩

end View

namespace EventSystem

variable {C X : Type*} {s t : EventSystem C X}

/-- What an action of the driver does to the table and the two logs. -/
inductive Moves (up : Wchar → Wchar) (s : EventSystem C X) (a : EventAction C X)
    (t : EventSystem C X) : Prop where
  | quiet (table : t.table = s.table) (changes : t.changes = s.changes) (sent : t.sent = s.sent)
  | sends (push : ProcessPush) (table : t.table = s.table) (changes : t.changes = s.changes)
      (sent : t.sent = s.sent ++ [push])
  | tracks (push : ProcessPush) (created : push.eventType = .created)
      (inserts : ∃ c cfg alloc origin parentPid image,
        a = .classify c cfg alloc origin push.pid parentPid image ∧
          (knFcClassifyAndInsert up cfg alloc s.table push.pid parentPid image
            origin.extraFlags).2.isSome = true)
      (tracked : ∀ pid, trackedProc t.table pid =
        if push.pid = pid then some push.proc else trackedProc s.table pid)
      (changes : t.changes = s.changes ++ [push]) (sent : t.sent = s.sent)
  | ends (push : ProcessPush) (p : KnfcProc) (exited : push.eventType = .exited)
      (present : trackedProc s.table push.pid = some p)
      (tracked : ∀ pid, trackedProc t.table pid =
        if push.pid = pid then none else trackedProc s.table pid)
      (changes : t.changes = s.changes ++ [push]) (sent : t.sent = s.sent)

theorem trackedProc_insertHead {g : KnfcTrackCtx} {push : ProcessPush}
    (hlive : trackLayout.live push.entry = true) (count : Int) (pid : Handle) :
    trackedProc { g with
        buckets := trackLayout.insertHead g.buckets push.entry
        entryCount := count } pid =
      if push.pid = pid then some push.proc else trackedProc g pid := by
  rw [trackedProc, findLocked_insertHead hlive]
  by_cases hpid : push.pid = pid
  · rw [if_pos hpid, if_pos (show pid = push.entry.pid from hpid.symm)]
    rfl
  · rw [if_neg hpid, if_neg (show ¬ pid = push.entry.pid from Ne.symm hpid)]
    rfl

theorem trackedProc_markExited {g : KnfcTrackCtx} (hwf : trackLayout.Wf g.buckets)
    (pid pid' : Handle) : trackedProc (knFcMarkExited g pid).1 pid' =
      if pid = pid' then none else trackedProc g pid' := by
  rw [trackedProc, findLocked_markExited hwf]
  by_cases hpid : pid = pid'
  · rw [if_pos hpid, if_pos hpid.symm]
    rfl
  · rw [if_neg hpid, if_neg (Ne.symm hpid)]
    rfl

/-- A classification inserts what it pushes, and a push tells of its insertion. -/
theorem classify_moves {g : KnfcTrackCtx} {up : Wchar → Wchar} {cfg : KnfcConfig}
    {alloc : InsertAlloc} {origin : Origin} {pid parentPid : Handle}
    {image : Option UnicodeString} :
    knFcClassifyAndInsert up cfg alloc g pid parentPid image origin.extraFlags = (g, none) ∨
      ∃ push, push.eventType = .created ∧ push.pid = pid ∧
        (knFcClassifyAndInsert up cfg alloc g pid parentPid image origin.extraFlags).2 = some push ∧
        ∀ pid', trackedProc (knFcClassifyAndInsert up cfg alloc g pid parentPid image
            origin.extraFlags).1 pid' =
          if push.pid = pid' then some push.proc else trackedProc g pid' := by
  obtain hc | ⟨push, hp, hc⟩ := classify_cases alloc g (imageMatches up cfg image) pid parentPid
    image origin.extraFlags
  · exact .inl hc
  · right
    refine ⟨push, classify_push (congrArg Prod.snd hc), hp.pid_eq, congrArg Prod.snd hc, ?_⟩
    intro pid'
    rw [knFcClassifyAndInsert, hc]
    exact trackedProc_insertHead hp.live _ pid'

theorem markExited_present {g : KnfcTrackCtx} {pid : Handle} {push : ProcessPush}
    (h : (knFcMarkExited g pid).2 = some push) : ∃ p, trackedProc g push.pid = some p := by
  obtain ⟨-, rfl, -, hlive⟩ := markExited_push h
  obtain ⟨e, he⟩ := Option.isSome_iff_exists.mp hlive
  exact ⟨e.proc, congrArg (Option.map KnfcTrackEntry.proc) he⟩

theorem workerPush_cases (pc : ExitWorkerPc) :
    workerPush pc = [] ∨ ∃ push, workerPush pc = [push] := by
  cases pc with
  | push e => exact .inr ⟨_, rfl⟩
  | _ => exact .inl rfl

variable [DecidableEq C] [DecidableEq X] {up : Wchar → Wchar}

theorem moves_of_step {a : EventAction C X} (hwf : trackLayout.Wf s.table.buckets)
    (hs : eventStep up s a = some t) : Moves up s a t := by
  cases a with
  | classify c cfg alloc origin pid parentPid image =>
    simp only [eventStep] at hs
    split at hs
    · cases hs
    · obtain hquiet | ⟨push, hcreated, rfl, hpush, htracked⟩ := @classify_moves s.table up cfg alloc
        origin pid parentPid image
      · simp only [hquiet] at hs
        obtain rfl := Option.some.inj hs
        exact .quiet rfl rfl rfl
      · simp only [hpush] at hs
        obtain rfl := Option.some.inj hs
        exact .tracks push hcreated
          ⟨c, cfg, alloc, origin, parentPid, image, rfl, by rw [hpush]; rfl⟩ htracked rfl rfl
  | pushCreated c =>
    obtain ⟨⟨k, push⟩, -, rfl⟩ := Option.map_eq_some_iff.mp hs
    exact .sends push rfl rfl rfl
  | markExited x pid =>
    simp only [eventStep] at hs
    split at hs
    · next hquiet =>
      obtain rfl := Option.some.inj hs
      exact .quiet (markExited_quiet hquiet) rfl rfl
    · next push hpush =>
      obtain ⟨exits, -, rfl⟩ := Option.map_eq_some_iff.mp hs
      obtain ⟨hexited, hpid, -, -⟩ := markExited_push hpush
      obtain ⟨p, hp⟩ := markExited_present hpush
      refine .ends push p hexited hp (fun pid' => ?_) rfl rfl
      rw [hpid]
      exact trackedProc_markExited hwf pid pid'
  | deferred x alloc =>
    obtain ⟨exits, -, rfl⟩ := Option.map_eq_some_iff.mp hs
    exact .quiet rfl rfl rfl
  | worker =>
    obtain ⟨exits, -, rfl⟩ := Option.map_eq_some_iff.mp hs
    obtain hnone | ⟨push, hpush⟩ := workerPush_cases s.exits.worker
    · exact .quiet rfl rfl (by simp [hnone])
    · exact .sends push rfl rfl (by simp [hpush])

end EventSystem

namespace TreeFeed

variable {C X : Type*} {s t : TreeFeed C X} {inHand onWire : List ProcessPush}

/-- The events of a PID that the tree is still to be given, in order. -/
def pending (s : TreeFeed C X) (inHand onWire : List ProcessPush) (pid : Handle) :
    List ProcessPush :=
  eventsOf pid inHand ++ (eventsOf pid onWire ++
    (eventsOf pid s.driver.changes).drop (eventsOf pid s.driver.sent).length)

/-- What is on its way is recent, and makes up for what the tree lacks. -/
structure Kept (s : TreeFeed C X) (inHand onWire : List ProcessPush) : Prop where
  ordered : s.driver.Ordered
  dispatched : s.dispatched = inHand.map ProcessPush.notify
  wire : s.wire = onWire.map ProcessPush.message
  idle : s.reader = false → inHand = [] ∧ onWire = []
  once : s.seeded = true → s.fetched = none
  recent : ∀ pid, SeededView.Recent (trackedProc s.driver.table pid)
    ((s.pending inHand onWire pid).map ProcessPush.life)
  agrees : s.settled = true → ∀ pid, SeededView.Agrees KnfcProc.Live (trackedProc s.driver.table pid)
    (SeededView.replay KnfcProc.stamp (s.upcoming.view pid)
      ((s.pending inHand onWire pid).map ProcessPush.life))

theorem kept_init : (init C X).Kept [] [] where
  ordered := EventSystem.ordered_init
  dispatched := rfl
  wire := rfl
  idle := fun _ => ⟨rfl, rfl⟩
  once := fun h => nomatch h
  recent := fun _ => .settled _
  agrees := fun h => nomatch h

/-- The invariant is about the table, the events to come and the tree. -/
theorem Kept.congr {inHand' onWire' : List ProcessPush} (h : s.Kept inHand onWire)
    (hordered : t.driver.Ordered) (hdispatched : t.dispatched = inHand'.map ProcessPush.notify)
    (hwire : t.wire = onWire'.map ProcessPush.message)
    (hidle : t.reader = false → inHand' = [] ∧ onWire' = [])
    (htable : t.driver.table = s.driver.table)
    (hpending : ∀ pid, t.pending inHand' onWire' pid = s.pending inHand onWire pid)
    (hfetched : t.fetched = s.fetched) (htree : t.tree = s.tree) (hseeded : t.seeded = s.seeded) :
    t.Kept inHand' onWire' := by
  have hupcoming : t.upcoming = s.upcoming := by rw [upcoming, upcoming, hfetched, htree]
  have hsettled : t.settled = s.settled := by rw [settled, settled, hfetched, hseeded]
  refine ⟨hordered, hdispatched, hwire, hidle, ?_, ?_, ?_⟩
  · rw [hseeded, hfetched]
    exact h.once
  · intro pid
    rw [htable, hpending]
    exact h.recent pid
  · intro hs pid
    rw [hsettled] at hs
    rw [htable, hpending, hupcoming]
    exact h.agrees hs pid

theorem pending_cons (s : TreeFeed C X) (p : ProcessPush) (inHand onWire : List ProcessPush)
    (pid : Handle) : s.pending (p :: inHand) onWire pid =
      if p.pid = pid then p :: s.pending inHand onWire pid else s.pending inHand onWire pid := by
  by_cases hpid : p.pid = pid <;> simp [pending, eventsOf, hpid]

theorem pending_of_quiet (h : s.Kept inHand onWire) {pid : Handle} (hquiet : s.Quiet pid) :
    s.pending inHand onWire pid = [] := by
  have hhand : eventsOf pid inHand = [] := by
    refine List.filter_eq_nil_iff.mpr fun p hp heq => ?_
    have hmem : p.notify ∈ s.dispatched := by
      rw [h.dispatched]
      exact List.mem_map_of_mem hp
    exact hquiet.dispatched _ hmem (of_decide_eq_true heq)
  have hwire : eventsOf pid onWire = [] := by
    refine List.filter_eq_nil_iff.mpr fun p hp heq => ?_
    have hmem : p.message ∈ s.wire := by
      rw [h.wire]
      exact List.mem_map_of_mem hp
    exact hquiet.wire _ hmem ((readPid_message p).trans (of_decide_eq_true heq))
  have hrest : (eventsOf pid s.driver.changes).drop (eventsOf pid s.driver.sent).length = [] := by
    rw [hquiet.sent, List.drop_length]
  rw [pending, hhand, hwire, hrest]
  rfl

section Driver

variable {d : EventSystem C X} {push : ProcessPush}

theorem isPrefix_of_ordered (h : d.Ordered) (pid : Handle) :
    eventsOf pid d.sent <+: eventsOf pid d.changes := by
  obtain ⟨place, hloc⟩ := h.located
  exact hloc.isPrefix pid

/-- A push takes the next of the events that were to be sent. -/
theorem drop_sent {changes sent : List ProcessPush}
    (h : eventsOf push.pid (sent ++ [push]) <+: eventsOf push.pid changes) :
    (eventsOf push.pid changes).drop (eventsOf push.pid sent).length =
      push :: (eventsOf push.pid changes).drop (eventsOf push.pid (sent ++ [push])).length := by
  have hown : eventsOf push.pid [push] = [push] := by rw [eventsOf_singleton, if_pos rfl]
  rw [eventsOf_append, hown] at h ⊢
  obtain ⟨rest, hrest⟩ := h
  rw [← hrest, List.drop_left, List.append_assoc, List.drop_left]
  rfl

theorem pending_sends (hsent : d.sent = s.driver.sent ++ [push])
    (hchanges : d.changes = s.driver.changes) (hd : d.Ordered) (pid : Handle) :
    pending { s with driver := d } inHand (onWire ++ [push]) pid = s.pending inHand onWire pid := by
  have hstart := isPrefix_of_ordered hd
  simp only [pending, hsent, hchanges] at hstart ⊢
  rw [eventsOf_append pid onWire, eventsOf_singleton]
  by_cases hpid : push.pid = pid
  · subst hpid
    have hdrop := drop_sent (hstart push.pid)
    rw [if_pos rfl, hdrop]
    simp
  · rw [if_neg hpid, eventsOf_append, eventsOf_singleton, if_neg hpid]
    simp

/-- Without a reader an event is lost. -/
theorem pending_lost (hsent : d.sent = s.driver.sent ++ [push])
    (hchanges : d.changes = s.driver.changes) (hd : d.Ordered) (pid : Handle) :
    s.pending [] [] pid = pending { s with driver := d } [] [] pid ∨
      ∃ p, s.pending [] [] pid = p :: pending { s with driver := d } [] [] pid := by
  have hstart := isPrefix_of_ordered hd
  simp only [pending, hsent, hchanges] at hstart ⊢
  by_cases hpid : push.pid = pid
  · subst hpid
    exact .inr ⟨push, drop_sent (hstart push.pid)⟩
  · left
    rw [eventsOf_append, eventsOf_singleton, if_neg hpid, List.append_nil]

theorem pending_grows (hsent : d.sent = s.driver.sent)
    (hchanges : d.changes = s.driver.changes ++ [push]) (hs : s.driver.Ordered) (pid : Handle) :
    pending { s with driver := d } inHand onWire pid =
      s.pending inHand onWire pid ++ if push.pid = pid then [push] else [] := by
  have hle := (isPrefix_of_ordered hs pid).length_le
  simp only [pending, hsent, hchanges]
  rw [eventsOf_append pid s.driver.changes, List.drop_append_of_le_length hle, eventsOf_singleton]
  simp only [List.append_assoc]

end Driver

section Step

theorem messages_eq (ps : List ProcessPush) :
    (ps.mapM fun p => (knFcCommPushProcessEvent p).toOption).map (List.map KnfcProcessEvent.bytes) =
      some (ps.map ProcessPush.message) := by
  induction ps with
  | nil => rfl
  | cons p ps ih =>
    obtain ⟨evs, hevs, hbytes⟩ := Option.map_eq_some_iff.mp ih
    rw [List.mapM_cons, pushProcessEvent_eq, hevs]
    show some _ = some _
    rw [List.map_cons, List.map_cons, hbytes]
    rfl

/-- The wire after an action of the driver, with its new pushes if they are heard. -/
def wireWith (s : TreeFeed C X) (ps : List ProcessPush) : List (List Byte) :=
  if s.reader then s.wire ++ ps.map ProcessPush.message else s.wire

theorem wireWith_nil (s : TreeFeed C X) : s.wireWith [] = s.wire := by
  rw [wireWith, List.map_nil, List.append_nil, ite_self]

variable {d : EventSystem C X} {push : ProcessPush}

theorem Kept.quiet (h : s.Kept inHand onWire) (hd : d.Ordered) (htable : d.table = s.driver.table)
    (hchanges : d.changes = s.driver.changes) (hsent : d.sent = s.driver.sent) :
    Kept { s with driver := d, wire := s.wireWith (d.sent.drop s.driver.sent.length) }
      inHand onWire := by
  refine h.congr hd h.dispatched ?_ h.idle htable (fun pid => ?_) rfl rfl rfl
  · show s.wireWith (d.sent.drop s.driver.sent.length) = _
    rw [hsent, List.drop_length, wireWith_nil, h.wire]
  · simp only [pending, hchanges, hsent]

theorem Kept.sends (h : s.Kept inHand onWire) (hd : d.Ordered) (htable : d.table = s.driver.table)
    (hchanges : d.changes = s.driver.changes) (hsent : d.sent = s.driver.sent ++ [push])
    (hheard : s.settled = true → s.reader = true) :
    ∃ onWire, Kept { s with driver := d, wire := s.wireWith (d.sent.drop s.driver.sent.length) }
      inHand onWire := by
  have hnews : d.sent.drop s.driver.sent.length = [push] := by rw [hsent, List.drop_left]
  rw [hnews]
  cases hr : s.reader with
  | true =>
    have hwire : s.wireWith [push] = (onWire ++ [push]).map ProcessPush.message := by
      rw [wireWith, if_pos hr, h.wire, List.map_append]
    have hpending := fun pid => @pending_sends C X s inHand onWire d push hsent hchanges hd pid
    exact ⟨onWire ++ [push], h.congr hd h.dispatched hwire (fun hno => nomatch hno) htable
      hpending rfl rfl rfl⟩
  | false =>
    obtain ⟨rfl, rfl⟩ := h.idle hr
    have hwire : s.wireWith [push] = s.wire := by
      rw [wireWith, hr, if_neg Bool.false_ne_true]
    have hunsettled : s.settled ≠ true := fun hset => by
      rw [hheard hset] at hr
      cases hr
    refine ⟨[], hd, h.dispatched, hwire.trans h.wire, fun _ => ⟨rfl, rfl⟩, h.once, fun pid => ?_,
      fun hset => absurd hset hunsettled⟩
    have hrecent := h.recent pid
    show SeededView.Recent (trackedProc d.table pid) _
    rw [htable]
    obtain hsame | ⟨p, hsame⟩ := @pending_lost C X s d push hsent hchanges hd pid
    · rw [hsame] at hrecent
      exact hrecent
    · rw [hsame] at hrecent
      exact hrecent.tail

theorem life_created {p : ProcessPush} (h : p.eventType = .created) : p.life = .born p.proc := by
  rw [ProcessPush.life, h]

theorem life_exited {p : ProcessPush} (h : p.eventType = .exited) : p.life = .gone := by
  rw [ProcessPush.life, h]

/-- One more change of the table, for which no event was sent yet. -/
theorem Kept.grows (h : s.Kept inHand onWire) (hd : d.Ordered) {now : Option KnfcProc}
    (htracked : ∀ pid, trackedProc d.table pid =
      if push.pid = pid then now else trackedProc s.driver.table pid)
    (hchanges : d.changes = s.driver.changes ++ [push]) (hsent : d.sent = s.driver.sent)
    (hrecent : SeededView.Recent now
      ((s.pending inHand onWire push.pid ++ [push]).map ProcessPush.life))
    (hagrees : s.settled = true → SeededView.Agrees KnfcProc.Live now
      (SeededView.replay KnfcProc.stamp (s.upcoming.view push.pid)
        ((s.pending inHand onWire push.pid ++ [push]).map ProcessPush.life))) :
    Kept { s with driver := d, wire := s.wireWith (d.sent.drop s.driver.sent.length) }
      inHand onWire := by
  have hwire : s.wireWith (d.sent.drop s.driver.sent.length) = s.wire := by
    rw [hsent, List.drop_length, wireWith_nil]
  have hpending := fun pid =>
    @pending_grows C X s inHand onWire d push hsent hchanges h.ordered pid
  rw [hwire]
  refine ⟨hd, h.dispatched, h.wire, h.idle, h.once, fun pid => ?_, fun hset pid => ?_⟩
  · show SeededView.Recent (trackedProc d.table pid)
      ((pending { s with driver := d } inHand onWire pid).map ProcessPush.life)
    rw [htracked, hpending]
    by_cases hpid : push.pid = pid
    · subst hpid
      rw [if_pos rfl, if_pos rfl]
      exact hrecent
    · rw [if_neg hpid, if_neg hpid, List.append_nil]
      exact h.recent pid
  · show SeededView.Agrees _ (trackedProc d.table pid) (SeededView.replay _ (s.upcoming.view pid)
      ((pending { s with driver := d } inHand onWire pid).map ProcessPush.life))
    rw [htracked, hpending]
    by_cases hpid : push.pid = pid
    · subst hpid
      rw [if_pos rfl, if_pos rfl]
      exact hagrees hset
    · rw [if_neg hpid, if_neg hpid, List.append_nil]
      exact h.agrees hset pid

theorem Kept.tracks (h : s.Kept inHand onWire) (hd : d.Ordered) (hcreated : push.eventType = .created)
    (htracked : ∀ pid, trackedProc d.table pid =
      if push.pid = pid then some push.proc else trackedProc s.driver.table pid)
    (hchanges : d.changes = s.driver.changes ++ [push]) (hsent : d.sent = s.driver.sent)
    (hnew : s.upcoming.nodesByPid push.pid = none) (hquiet : s.Quiet push.pid) :
    Kept { s with driver := d, wire := s.wireWith (d.sent.drop s.driver.sent.length) }
      inHand onWire := by
  have hnone : s.upcoming.view push.pid = none := congrArg (Option.map ProcessNode.proc) hnew
  have hlast : (s.pending inHand onWire push.pid ++ [push]).map ProcessPush.life =
      [.born push.proc] := by
    rw [pending_of_quiet h hquiet, List.nil_append, List.map_singleton, life_created hcreated]
  refine h.grows hd htracked hchanges hsent ?_ fun _ => ?_
  · rw [hlast]
    exact .born _
  · rw [hlast, hnone]
    exact rfl

theorem Kept.ends (h : s.Kept inHand onWire) (hd : d.Ordered) (hexited : push.eventType = .exited)
    {p : KnfcProc} (hpresent : trackedProc s.driver.table push.pid = some p)
    (htracked : ∀ pid, trackedProc d.table pid =
      if push.pid = pid then none else trackedProc s.driver.table pid)
    (hchanges : d.changes = s.driver.changes ++ [push]) (hsent : d.sent = s.driver.sent) :
    Kept { s with driver := d, wire := s.wireWith (d.sent.drop s.driver.sent.length) }
      inHand onWire := by
  have hlast : (s.pending inHand onWire push.pid ++ [push]).map ProcessPush.life =
      (s.pending inHand onWire push.pid).map ProcessPush.life ++ [.gone] := by
    rw [List.map_append, List.map_singleton, life_exited hexited]
  refine h.grows hd htracked hchanges hsent ?_ fun hset => ?_
  · have hrecent := h.recent push.pid
    rw [hpresent] at hrecent
    rw [hlast]
    exact hrecent.ends
  · have hagrees := h.agrees hset push.pid
    rw [hpresent] at hagrees
    rw [hlast, SeededView.replay_snoc]
    exact hagrees.ends not_live_stamp

variable [DecidableEq C] [DecidableEq X] {up : Wchar → Wchar}

theorem feedStep_driver {a : EventAction C X} (hs : feedStep up s (.driver a) = some t) :
    ∃ d, eventStep up s.driver a = some d ∧
      t = { s with driver := d, wire := s.wireWith (d.sent.drop s.driver.sent.length) } := by
  obtain ⟨d, hd, hmap⟩ := Option.bind_eq_some_iff.mp hs
  obtain ⟨evs, hevs, rfl⟩ := Option.map_eq_some_iff.mp hmap
  have hbytes := messages_eq (d.sent.drop s.driver.sent.length)
  rw [hevs] at hbytes
  exact ⟨d, hd, by rw [wireWith, ← Option.some.inj hbytes]⟩

theorem Kept.driver {a : EventAction C X} (h : s.Kept inHand onWire)
    (hok : s.Orderly up (.driver a)) (hs : feedStep up s (.driver a) = some t) :
    ∃ inHand onWire, t.Kept inHand onWire := by
  obtain ⟨d, hd, rfl⟩ := feedStep_driver hs
  obtain ⟨hovertakes, hnew, hsends⟩ := hok
  have hordered := h.ordered.step hovertakes hd
  cases EventSystem.moves_of_step h.ordered.turn.wf hd with
  | quiet htable hchanges hsent => exact ⟨_, _, h.quiet hordered htable hchanges hsent⟩
  | sends push htable hchanges hsent =>
    have hheard : s.settled = true → s.reader = true := by
      intro hset
      by_contra hr
      refine hsends hset (Bool.eq_false_iff.mpr hr) ⟨d, hd, ?_⟩
      rw [hsent]
      simp
    obtain ⟨onWire', hk⟩ := h.sends hordered htable hchanges hsent hheard
    exact ⟨_, _, hk⟩
  | tracks push hcreated hinserts htracked hchanges hsent =>
    obtain ⟨c, cfg, alloc, origin, parentPid, image, rfl, hsome⟩ := hinserts
    obtain ⟨hnone, hquiet⟩ := hnew hsome
    exact ⟨_, _, h.tracks hordered hcreated htracked hchanges hsent hnone hquiet⟩
  | ends push p hexited hpresent htracked hchanges hsent =>
    exact ⟨_, _, h.ends hordered hexited hpresent htracked hchanges hsent⟩

theorem Kept.receive {header : FilterMessageHeader} {buf : WorkerBuffer}
    (h : s.Kept inHand onWire) (hs : feedStep up s (.receive header buf) = some t) :
    ∃ p rest, onWire = p :: rest ∧ t.Kept (inHand ++ [p]) rest := by
  simp only [feedStep, h.wire] at hs
  cases onWire with
  | nil => cases hs
  | cons p rest =>
    have hread : (filterGetMessage buf header p.message).bind readProcessEvent = some p.notify :=
      receive_message header p buf
    simp only [List.map_cons, hread, Option.map_some, Option.some.injEq] at hs
    refine ⟨p, rest, rfl, ?_⟩
    subst hs
    refine h.congr h.ordered ?_ rfl (fun hr => ?_) rfl (fun pid => ?_) rfl rfl rfl
    · show s.dispatched ++ [p.notify] = _
      rw [h.dispatched, List.map_append]
      rfl
    · exact absurd (h.idle hr).2 (List.cons_ne_nil _ _)
    · show eventsOf pid (inHand ++ [p]) ++ (eventsOf pid rest ++ _) = _
      have hcons : p :: rest = [p] ++ rest := rfl
      rw [pending, hcons, eventsOf_append, eventsOf_append]
      simp only [List.append_assoc]

theorem Kept.applyEvent (h : s.Kept inHand onWire) (hs : feedStep up s .applyEvent = some t) :
    ∃ p rest, inHand = p :: rest ∧ t.Kept rest onWire := by
  simp only [feedStep] at hs
  split at hs
  · next ev dispatched hfetched hd =>
    obtain rfl := Option.some.inj hs
    rw [h.dispatched] at hd
    cases inHand with
    | nil => cases hd
    | cons p rest =>
      obtain ⟨rfl, rfl⟩ := List.cons.inj hd
      have hupcoming : s.upcoming = s.tree := by rw [upcoming, hfetched]
      refine ⟨p, rest, rfl, h.ordered, rfl, h.wire,
        fun hr => absurd (h.idle hr).1 (List.cons_ne_nil _ _), h.once, fun pid => ?_,
        fun hset pid => ?_⟩
      · have hrecent := h.recent pid
        rw [pending_cons] at hrecent
        by_cases hpid : p.pid = pid
        · rw [if_pos hpid] at hrecent
          exact hrecent.tail
        · rw [if_neg hpid] at hrecent
          exact hrecent
      · have hagrees := h.agrees hset pid
        have hview := view_apply s.tree p pid
        have hnext : upcoming { s with
            tree := applyNotify s.tree p.notify
            dispatched := rest.map ProcessPush.notify } = applyNotify s.tree p.notify := by
          rw [upcoming, hfetched]
        rw [pending_cons, hupcoming] at hagrees
        rw [hnext, hview]
        by_cases hpid : p.pid = pid
        · rw [if_pos hpid] at hagrees ⊢
          exact hagrees
        · rw [if_neg hpid] at hagrees ⊢
          exact hagrees
  · cases hs

theorem Kept.getProcessTree {rc : Int} (h : s.Kept inHand onWire)
    (hsmall : s.driver.table.liveEntries.length ≤ knfcMaxTreeEntries)
    (hs : feedStep up s (.getProcessTree rc) = some t) : t.Kept inHand onWire := by
  have hwf := h.ordered.turn.wf
  obtain ⟨reply, truncated, hreply, hclient⟩ := fetch_whole hwf hsmall
  simp only [feedStep] at hs
  split at hs
  · cases hs
  · next hunsettled =>
    rw [hreply] at hs
    obtain ⟨r, hr, rfl⟩ := Option.map_eq_some_iff.mp hs
    by_cases hrc : rc = 0
    · subst hrc
      obtain rfl := Option.some.inj (hclient.symm.trans hr)
      have hrows : ((entries s.driver.table.buckets).map KnfcTrackEntry.row).map
          ProcRecord.clientProc = (entries s.driver.table.buckets).map KnfcTrackEntry.proc := by
        rw [List.map_map]
        exact List.map_congr_left fun e _ => clientProc_row e
      have hfresh : s.seeded = false := by
        rw [settled, Bool.not_eq_true, Bool.or_eq_false_iff] at hunsettled
        exact hunsettled.1
      refine ⟨h.ordered, h.dispatched, h.wire, h.idle, fun hset => ?_, h.recent,
        fun _ pid => ?_⟩
      · rw [show s.seeded = true from hset] at hfresh
        cases hfresh
      · show SeededView.Agrees _ _ (SeededView.replay _ ((buildTree (((entries
          s.driver.table.buckets).map KnfcTrackEntry.row).map ProcRecord.clientProc)).view pid) _)
        rw [hrows, view_buildTree hwf]
        exact (h.recent pid).agrees not_live_stamp
    · have hfailed : r.1 ≠ 0 := by
        simp only [KnFileCatcher.getProcessTree, Bool.true_eq_false, if_false, if_pos hrc,
          Option.some.injEq] at hr
        rwa [← hr]
      rw [if_neg hfailed]
      exact h

theorem Kept.buildTree (h : s.Kept inHand onWire) (hs : feedStep up s .buildTree = some t) :
    t.Kept inHand onWire := by
  obtain ⟨procs, hf, rfl⟩ := Option.map_eq_some_iff.mp hs
  have hset : s.settled = true := by
    rw [settled, hf]
    exact Bool.or_true _
  have hupcoming : s.upcoming = KnFileCatcher.buildTree (procs.map ProcRecord.clientProc) := by
    rw [upcoming, hf]
  refine ⟨h.ordered, h.dispatched, h.wire, h.idle, fun _ => rfl, h.recent, fun _ pid => ?_⟩
  have hagrees := h.agrees hset pid
  rw [hupcoming] at hagrees
  exact hagrees

theorem Kept.step {a : FeedAction C X} (h : ∃ inHand onWire, s.Kept inHand onWire)
    (hok : s.Orderly up a) (hs : feedStep up s a = some t) :
    ∃ inHand onWire, t.Kept inHand onWire := by
  obtain ⟨inHand, onWire, h⟩ := h
  cases a with
  | driver a => exact h.driver hok hs
  | startReader =>
    obtain rfl := Option.some.inj hs
    exact ⟨inHand, onWire, h.congr h.ordered h.dispatched h.wire (fun hno => nomatch hno) rfl
      (fun _ => rfl) rfl rfl rfl⟩
  | receive header buf =>
    obtain ⟨p, rest, -, ht⟩ := h.receive hs
    exact ⟨_, _, ht⟩
  | applyEvent =>
    obtain ⟨p, rest, -, ht⟩ := h.applyEvent hs
    exact ⟨_, _, ht⟩
  | getProcessTree rc => exact ⟨_, _, h.getProcessTree hok hs⟩
  | buildTree => exact ⟨_, _, h.buildTree hs⟩

end Step

section Runs

/-- The tree shows the process as running while it is tracked, and as its entry has it. -/
structure Shows (s : TreeFeed C X) (pid : Handle) : Prop where
  tracked : ∀ e, knFcTrackFindLocked s.driver.table pid = some e →
    ∃ node, s.tree.nodesByPid pid = some node ∧ Displays node e
  live : ∀ node, s.tree.nodesByPid pid = some node → node.exited = false →
    ∃ e, knFcTrackFindLocked s.driver.table pid = some e

theorem Kept.shows (h : s.Kept inHand onWire) (hseeded : s.seeded = true) {pid : Handle}
    (hquiet : s.Quiet pid) : s.Shows pid := by
  have hupcoming : s.upcoming = s.tree := by rw [upcoming, h.once hseeded]
  have hset : s.settled = true := by rw [settled, hseeded, Bool.true_or]
  have hagrees := h.agrees hset pid
  rw [pending_of_quiet h hquiet, hupcoming] at hagrees
  cases hf : knFcTrackFindLocked s.driver.table pid with
  | some e =>
    rw [trackedProc, hf] at hagrees
    obtain ⟨node, hnode, hproc⟩ := exists_node hagrees
    refine ⟨?_, fun _ _ _ => ⟨e, hf⟩⟩
    rintro e' he'
    obtain rfl := Option.some.inj (hf.symm.trans he')
    have hflags : node.flags = e.flags := congrArg KnfcProc.flags hproc
    have hfound : e.pid = pid ∧ e.flags &&& knFcTrackExited = 0 := by
      simpa using List.find?_some hf
    have hlive : flagOn e.flags 0x0004 = false := flagOn_eq_false_iff.mpr hfound.2
    exact ⟨node, hnode, by rw [ProcessNode.exited, hflags, hlive],
      congrArg KnfcProc.parentPid hproc, congrArg KnfcProc.rootPid hproc,
      congrArg KnfcProc.image hproc⟩
  | none =>
    rw [trackedProc, hf] at hagrees
    refine ⟨fun e he => ?_, fun node hnode hlive => ?_⟩
    · rw [hf] at he
      cases he
    · have hview : s.tree.view pid = some node.proc := congrArg (Option.map ProcessNode.proc) hnode
      exact absurd hlive (hagrees node.proc hview)

variable [DecidableEq C] [DecidableEq X] {up : Wchar → Wchar}

theorem receive_eq {header : FilterMessageHeader} {buf : WorkerBuffer}
    (hs : feedStep up s (.receive header buf) = some t) : ∃ m ev, s.wire = m :: t.wire ∧
      t = { s with wire := t.wire, dispatched := s.dispatched ++ [ev] } := by
  simp only [feedStep] at hs
  split at hs
  · cases hs
  · next m wire hwire =>
    obtain ⟨ev, -, rfl⟩ := Option.map_eq_some_iff.mp hs
    exact ⟨m, ev, hwire, rfl⟩

theorem applyEvent_eq (hs : feedStep up s .applyEvent = some t) : ∃ ev,
    s.dispatched = ev :: t.dispatched ∧
      t = { s with tree := applyNotify s.tree ev, dispatched := t.dispatched } := by
  simp only [feedStep] at hs
  split at hs
  · next ev dispatched hfetched hd =>
    obtain rfl := Option.some.inj hs
    exact ⟨ev, hd, rfl⟩
  · cases hs

/-- What the client alone reaches from `s`. -/
structure Catches (s t : TreeFeed C X) : Prop where
  kept : ∃ inHand onWire, t.Kept inHand onWire
  driver : t.driver = s.driver
  seeded : t.seeded = s.seeded
  fetched : t.fetched = none

variable {u v : TreeFeed C X} {header : FilterMessageHeader} {buf : WorkerBuffer}

theorem Catches.receive (h : Catches s u) (hs : feedStep up u (.receive header buf) = some v) :
    Catches s v ∧ v.wire.length < u.wire.length := by
  obtain ⟨inHand, onWire, hk⟩ := h.kept
  obtain ⟨p, rest, -, hv⟩ := hk.receive hs
  obtain ⟨m, ev, hwire, heq⟩ := receive_eq hs
  refine ⟨⟨⟨_, _, hv⟩, ?_, ?_, ?_⟩, ?_⟩
  · rw [heq]
    exact h.driver
  · rw [heq]
    exact h.seeded
  · rw [heq]
    exact h.fetched
  · rw [hwire]
    exact Nat.lt_succ_self _

theorem Catches.applyEvent (h : Catches s u) (hempty : u.wire = [])
    (hs : feedStep up u .applyEvent = some v) :
    (Catches s v ∧ v.wire = []) ∧ v.dispatched.length < u.dispatched.length := by
  obtain ⟨inHand, onWire, hk⟩ := h.kept
  obtain ⟨p, rest, -, hv⟩ := hk.applyEvent hs
  obtain ⟨ev, hdispatched, heq⟩ := applyEvent_eq hs
  refine ⟨⟨⟨⟨_, _, hv⟩, ?_, ?_, ?_⟩, ?_⟩, ?_⟩
  · rw [heq]
    exact h.driver
  · rw [heq]
    exact h.seeded
  · rw [heq]
    exact h.fetched
  · rw [heq]
    exact hempty
  · rw [hdispatched]
    exact Nat.lt_succ_self _

/-- A reader that has nothing to receive has received all: no message is one that it cannot
take. -/
theorem Catches.received (h : Catches s u) (hs : feedStep up u (.receive header buf) = none) :
    u.wire = [] := by
  obtain ⟨inHand, onWire, hk⟩ := h.kept
  rw [hk.wire]
  cases onWire with
  | nil => rfl
  | cons p rest =>
    have hread : (filterGetMessage buf header p.message).bind readProcessEvent = some p.notify :=
      receive_message header p buf
    simp [feedStep, hk.wire, hread] at hs

theorem Catches.applied (h : Catches s u) (hs : feedStep up u .applyEvent = none) :
    u.dispatched = [] := by
  cases hd : u.dispatched with
  | nil => rfl
  | cons ev dispatched => simp [feedStep, h.fetched, hd] at hs

/-- Whatever is on its way, the client can take it in. -/
theorem Kept.drains (h : s.Kept inHand onWire) (hfetched : s.fetched = none)
    (header : FilterMessageHeader) (buf : WorkerBuffer) :
    ∃ n k t, exec (feedStep up) s
        (List.replicate n (.receive header buf) ++ List.replicate k .applyEvent) = some t ∧
      t.driver = s.driver ∧ t.seeded = s.seeded ∧ t.wire = [] ∧ t.dispatched = [] := by
  have hstart : Catches s s := ⟨⟨_, _, h⟩, rfl, rfl, hfetched⟩
  obtain ⟨n, u, hn, hend, hu⟩ := @runs_out _ _ (feedStep up) (Catches s) (.receive header buf)
    (fun u => u.wire.length) (fun _ _ hc hs => hc.receive hs) s hstart
  have hwire := hu.received hend
  obtain ⟨k, t, hk, hlast, ht⟩ := @runs_out _ _ (feedStep up)
    (fun u => Catches s u ∧ u.wire = []) .applyEvent (fun u => u.dispatched.length)
    (fun _ _ hc hs => hc.1.applyEvent hc.2 hs) u ⟨hu, hwire⟩
  exact ⟨n, k, t, exec_trans hn hk, ht.1.driver, ht.1.seeded, ht.2, ht.1.applied hlast⟩

/-- The tree is right for every PID that has no event on its way, and the client can take
in all that is on its way. -/
structure FeedRun (up : Wchar → Wchar) (s : TreeFeed C X) : Prop where
  shows : s.seeded = true → ∀ pid, s.Quiet pid → s.Shows pid
  drains : s.fetched = none → ∀ header buf, ∃ n k t, exec (feedStep up) s
      (List.replicate n (.receive header buf) ++ List.replicate k .applyEvent) = some t ∧
    t.driver = s.driver ∧ t.seeded = s.seeded ∧ t.wire = [] ∧ t.dispatched = []

theorem kept_of_run {as : List (FeedAction C X)}
    (hok : Guarded (feedStep up) (fun s a => s.Orderly up a) (init C X) as)
    (h : exec (feedStep up) (init C X) as = some s) : ∃ inHand onWire, s.Kept inHand onWire :=
  hok.invariant (I := fun s => ∃ inHand onWire, s.Kept inHand onWire)
    (fun _ _ _ hk hok hs => Kept.step hk hok hs) h ⟨[], [], kept_init⟩

theorem tree_feed_runs (as : List (FeedAction C X))
    (hok : Guarded (feedStep up) (fun s a => s.Orderly up a) (init C X) as)
    (h : exec (feedStep up) (init C X) as = some s) : s.FeedRun up := by
  obtain ⟨inHand, onWire, hk⟩ := kept_of_run hok h
  exact ⟨fun hseeded _ hquiet => hk.shows hseeded hquiet, hk.drains⟩

def dumped (s : TreeFeed C X) : TreeFeed C X :=
  { s with fetched := some ((entries s.driver.table.buckets).map KnfcTrackEntry.row) }

theorem feedStep_getProcessTree (hwf : trackLayout.Wf s.driver.table.buckets)
    (hsmall : s.driver.table.liveEntries.length ≤ knfcMaxTreeEntries) (hnew : s.settled = false) :
    feedStep up s (.getProcessTree 0) = some s.dumped := by
  obtain ⟨reply, truncated, hreply, hclient⟩ := fetch_whole hwf hsmall
  simp only [feedStep, hnew, Bool.false_eq_true, if_false, hreply, Except.toOption,
    Option.bind_some, hclient, Option.map_some, if_true, dumped]

/-- Process 8 is tracked while nobody listens, and process 12, which it starts, is still to
be pushed. -/
def beforeDump : List (FeedAction Unit Unit) :=
  [.driver (EventSystem.create8 .notification), .driver (.pushCreated ()),
    .driver (.classify () EventSystem.eventConfig .ok .notification 12 8 (some (.inRoot 'b')))]

/-- The CREATED of 12 comes after the dump that has it, and then process 8 exits. -/
def afterDump : List (FeedAction Unit Unit) :=
  [.buildTree, .startReader, .driver (.pushCreated ()), .receive ⟨0, 0, 1⟩ zeroedBuffer,
    .applyEvent] ++ EventSystem.exit8.map .driver ++ [.receive ⟨0, 0, 2⟩ zeroedBuffer, .applyEvent]

def atDump : TreeFeed Unit Unit :=
  (exec (feedStep id) (init Unit Unit) beforeDump).getD (init Unit Unit)

theorem tree_feed_runs_late :
    ∃ s, exec (feedStep id) (init Unit Unit) (beforeDump ++ .getProcessTree 0 :: afterDump) =
        some s ∧
      (s.seeded = true ∧ s.Quiet 8 ∧ s.Quiet 12 ∧ Live s.driver.table 12) ∧ s.FeedRun id := by
  have hbefore : exec (feedStep id) (init Unit Unit) beforeDump = some atDump := rfl
  have hfirst : Guarded (feedStep id) (fun s a => s.Orderly id a) (init Unit Unit) beforeDump := by
    decide
  obtain ⟨_, _, hk⟩ := kept_of_run hfirst hbefore
  have hsmall : atDump.driver.table.liveEntries.length ≤ knfcMaxTreeEntries := by decide +kernel
  have hdump : feedStep id atDump (.getProcessTree 0) = some atDump.dumped :=
    feedStep_getProcessTree hk.ordered.turn.wf hsmall rfl
  have hafter : (exec (feedStep id) atDump.dumped afterDump).any (fun s => decide
      (s.seeded = true ∧ s.Quiet 8 ∧ s.Quiet 12 ∧ Live s.driver.table 12)) = true := by
    decide +kernel
  have hlast : Guarded (feedStep id) (fun s a => s.Orderly id a) atDump.dumped afterDump := by
    decide +kernel
  have hrest : Guarded (feedStep id) (fun s a => s.Orderly id a) atDump
      (.getProcessTree 0 :: afterDump) := by
    simp only [Guarded, hdump]
    exact ⟨hsmall, hlast⟩
  obtain ⟨s, hs, hquiet⟩ := (Option.any_eq_true _ _).mp hafter
  have hrun := exec_trans hbefore (exec_cons_eq_some.mpr ⟨_, hdump, hs⟩)
  exact ⟨s, hrun, of_decide_eq_true hquiet,
    tree_feed_runs _ (hfirst.append hbefore hrest) hrun⟩

end Runs

end TreeFeed

end KnFileCatcher

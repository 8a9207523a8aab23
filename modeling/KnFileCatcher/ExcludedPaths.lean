import KnFileCatcher.HandleHistory
import KnFileCatcher.Runs

/-! The ways of a backup request to the port, from cleanups of any number of handles
and through the queue and its workers, while the exclude patterns change. -/

namespace KnFileCatcher

open FoldedText Runs

/-- Where the cleanup of a handle is. A request for the post callback lies `between`
the two callbacks; the effects of a call to the queue happen one at a time. -/
inductive CleanupPc where
  | idle
  | entered
  | calling (effects : List SendEffect)
  | between (r : CleanupRequest)

/-- Where a worker is with an item, which it carries with the handle it came from. -/
inductive SenderPc (C : Type*) where
  | idle
  | holding (c : C) (item : KnfcQueueItem)
  | sending (c : C) (effects : List SendEffect)

/-- `handed` is what was handed to `FltSendMessage` so far. -/
structure SendPaths (C W : Type*) where
  exclude : KnfcExcludeCtx
  cleanups : C → CleanupPc
  workers : W → SenderPc C
  queue : List (C × KnfcQueueItem)
  handed : List (C × KnfcBackupRequest)

def SendPaths.init (C W : Type*) : SendPaths C W where
  exclude := knFcExcludeInitialize
  cleanups _ := .idle
  workers _ := .idle
  queue := []
  handed := []

inductive SendPathAction (C W : Type*) where
  | addExclude (alloc : Bool) (pattern : UnicodeString)
  | clearExcludes
  | preCleanup (c : C)
  | decide (c : C) (env : PreCleanupEnv) (senv : SyncEnv) (view : KnfcShc)
  | postCleanup (c : C) (draining : Bool)
  | cleanupEffect (c : C) (accepted : Option Nat)
  | take (w : W)
  | free (w : W)
  | sendOne (w : W) (env : SendEnv)
  | workerEffect (w : W)

def callEffects (env : SyncEnv) : CleanupCall → List SendEffect
  | .enqueue r => [.enqueue r]
  | .sendSync r => (knFcQueueSendSyncFromCleanup env r).1

/-- What PreCleanup leaves to be done. -/
def decided (up : Wchar → Wchar) (env : PreCleanupEnv) (senv : SyncEnv) (view : KnfcShc) :
    CleanupPc :=
  match (knFcPreCleanup up env view).completion with
  | some r => .between r
  | none => .calling ((knFcPreCleanup up env view).calls.flatMap (callEffects senv))

def postEffects (draining : Bool) (r : CleanupRequest) : List SendEffect :=
  (knFcPostCleanup draining (some r)).map fun call => .enqueue call.request

section Machine

variable {C W : Type*} [DecidableEq C] [DecidableEq W] (up : Wchar → Wchar)

namespace SendPaths

def setCleanup (s : SendPaths C W) (c : C) (pc : CleanupPc) : SendPaths C W :=
  { s with cleanups := Function.update s.cleanups c pc }

def setWorker (s : SendPaths C W) (w : W) (pc : SenderPc C) : SendPaths C W :=
  { s with workers := Function.update s.workers w pc }

/-- An effect of the handle `c`. Whether the queue takes an item, and under which
number, is left open. -/
def effect (s : SendPaths C W) (c : C) (accepted : Option Nat) : SendEffect → SendPaths C W
  | .message msg _ => { s with handed := s.handed ++ [(c, msg)] }
  | .enqueue r =>
    match accepted with
    | some requestId => { s with queue := s.queue ++ [(c, ⟨requestId, r⟩)] }
    | none => s
  | _ => s

end SendPaths

/-- The patterns are read under their lock, in one step with what follows from them.
The count of matches is left out. -/
def sendPathStep (s : SendPaths C W) : SendPathAction C W → Option (SendPaths C W)
  | .addExclude alloc pattern => some { s with exclude := (knFcExcludeAdd alloc s.exclude pattern).2 }
  | .clearExcludes => some { s with exclude := knFcExcludeClear s.exclude }
  | .preCleanup c =>
    match s.cleanups c with
    | .idle => some (s.setCleanup c .entered)
    | _ => none
  | .decide c env senv view =>
    match s.cleanups c with
    | .entered => some (s.setCleanup c (decided up { env with exclude := s.exclude } senv view))
    | _ => none
  | .postCleanup c draining =>
    match s.cleanups c with
    | .between r => some (s.setCleanup c (.calling (postEffects draining r)))
    | _ => none
  | .cleanupEffect c accepted =>
    match s.cleanups c with
    | .calling (x :: rest) => some ((s.setCleanup c (.calling rest)).effect c accepted x)
    | _ => none
  | .take w =>
    match s.workers w, s.queue with
    | .idle, (c, item) :: rest => some { s.setWorker w (.holding c item) with queue := rest }
    | _, _ => none
  | .free w =>
    match s.workers w with
    | .holding _ _ => some (s.setWorker w .idle)
    | _ => none
  | .sendOne w env =>
    match s.workers w with
    | .holding c item =>
      some (s.setWorker w (.sending c (knFcQueueSendOne up { env with exclude := s.exclude } item)))
    | _ => none
  | .workerEffect w =>
    match s.workers w with
    | .sending _ [] => some (s.setWorker w .idle)
    | .sending c (x :: rest) => some ((s.setWorker w (.sending c rest)).effect c none x)
    | _ => none

variable {up}

/-- What a step of the machine can be. -/
inductive SendPathMove (up : Wchar → Wchar) (s : SendPaths C W) :
    SendPathAction C W → SendPaths C W → Prop where
  | addExclude (alloc : Bool) (pattern : UnicodeString) : SendPathMove up s (.addExclude alloc pattern)
      { s with exclude := (knFcExcludeAdd alloc s.exclude pattern).2 }
  | clearExcludes : SendPathMove up s .clearExcludes { s with exclude := knFcExcludeClear s.exclude }
  | preCleanup (c : C) (idle : s.cleanups c = .idle) :
      SendPathMove up s (.preCleanup c) (s.setCleanup c .entered)
  | decide (c : C) (env : PreCleanupEnv) (senv : SyncEnv) (view : KnfcShc) :
      SendPathMove up s (.decide c env senv view)
        (s.setCleanup c (decided up { env with exclude := s.exclude } senv view))
  | postCleanup (c : C) (draining : Bool) (r : CleanupRequest) (between : s.cleanups c = .between r) :
      SendPathMove up s (.postCleanup c draining)
        (s.setCleanup c (.calling (postEffects draining r)))
  | cleanupEffect (c : C) (accepted : Option Nat) (x : SendEffect) (rest : List SendEffect)
      (calling : s.cleanups c = .calling (x :: rest)) :
      SendPathMove up s (.cleanupEffect c accepted)
        ((s.setCleanup c (.calling rest)).effect c accepted x)
  | take (w : W) (c : C) (item : KnfcQueueItem) (rest : List (C × KnfcQueueItem))
      (queue : s.queue = (c, item) :: rest) :
      SendPathMove up s (.take w) { s.setWorker w (.holding c item) with queue := rest }
  | free (w : W) : SendPathMove up s (.free w) (s.setWorker w .idle)
  | sendOne (w : W) (env : SendEnv) (c : C) (item : KnfcQueueItem)
      (holding : s.workers w = .holding c item) :
      SendPathMove up s (.sendOne w env)
        (s.setWorker w (.sending c (knFcQueueSendOne up { env with exclude := s.exclude } item)))
  | sent (w : W) : SendPathMove up s (.workerEffect w) (s.setWorker w .idle)
  | workerEffect (w : W) (c : C) (x : SendEffect) (rest : List SendEffect)
      (sending : s.workers w = .sending c (x :: rest)) :
      SendPathMove up s (.workerEffect w) ((s.setWorker w (.sending c rest)).effect c none x)

theorem sendPathMove {s t : SendPaths C W} {a : SendPathAction C W}
    (h : sendPathStep up s a = some t) : SendPathMove up s a t := by
  cases a with
  | addExclude alloc pattern =>
    obtain rfl := Option.some.inj h
    exact .addExclude alloc pattern
  | clearExcludes =>
    obtain rfl := Option.some.inj h
    exact .clearExcludes
  | preCleanup c =>
    simp only [sendPathStep] at h
    split at h
    · next hidle =>
      obtain rfl := Option.some.inj h
      exact .preCleanup c hidle
    · cases h
  | decide c env senv view =>
    simp only [sendPathStep] at h
    split at h
    · obtain rfl := Option.some.inj h
      exact .decide c env senv view
    · cases h
  | postCleanup c draining =>
    simp only [sendPathStep] at h
    split at h
    · next r hbetween =>
      obtain rfl := Option.some.inj h
      exact .postCleanup c draining r hbetween
    · cases h
  | cleanupEffect c accepted =>
    simp only [sendPathStep] at h
    split at h
    · next x rest hcalling =>
      obtain rfl := Option.some.inj h
      exact .cleanupEffect c accepted x rest hcalling
    · cases h
  | take w =>
    simp only [sendPathStep] at h
    split at h
    · next c item rest _ hqueue =>
      obtain rfl := Option.some.inj h
      exact .take w c item rest hqueue
    · cases h
  | free w =>
    simp only [sendPathStep] at h
    split at h
    · obtain rfl := Option.some.inj h
      exact .free w
    · cases h
  | sendOne w env =>
    simp only [sendPathStep] at h
    split at h
    · next c item hholding =>
      obtain rfl := Option.some.inj h
      exact .sendOne w env c item hholding
    · cases h
  | workerEffect w =>
    simp only [sendPathStep] at h
    split at h
    · obtain rfl := Option.some.inj h
      exact .sent w
    · next c x rest hsending =>
      obtain rfl := Option.some.inj h
      exact .workerEffect w c x rest hsending
    · cases h

end Machine

section Matching

variable (up : Wchar → Wchar)

/-- A pattern with a leading dot is a suffix of the path, any other one a part of it. -/
def PatternMatches (p : UnicodeString) (path : List Wchar) : Prop :=
  if p.buffer.head? = some dot then SuffixOf up p.buffer path else InfixOf up p.buffer path

variable {up}

theorem patternHits_iff {path p : UnicodeString} :
    patternHits up path p = true ↔ PatternMatches up p path.buffer := by
  unfold patternHits PatternMatches
  split
  · exact knFcSuffixCi_iff
  · exact knFcSubstringCi_iff

theorem PatternMatches.length_le {p : UnicodeString} {path : List Wchar}
    (h : PatternMatches up p path) : p.buffer.length ≤ path.length := by
  unfold PatternMatches at h
  split at h
  · exact SuffixOf.length_le h
  · exact InfixOf.length_le h

theorem not_patternMatches {g : KnfcExcludeCtx} {p path : UnicodeString} (hp : p ∈ g.patterns)
    (h : (knFcExcludeMatches up g path).1 = false) : ¬ PatternMatches up p path.buffer := by
  intro hmatch
  by_cases hne : path.length = 0
  · have hlen := hmatch.length_le
    rw [UnicodeString.length_eq_zero_iff.mp hne, List.length_nil, Nat.le_zero,
      List.length_eq_zero_iff] at hlen
    exact (g.sized p hp).1 hlen
  · rw [knFcExcludeMatches_fst hne, List.any_eq_false] at h
    exact h p hp (patternHits_iff.mpr hmatch)

end Matching

section Effects

variable {up : Wchar → Wchar} {msg : KnfcBackupRequest} {timeout : Int}

theorem mem_commSendMessage {env : SendEnv} {sent : KnfcBackupRequest} {t : Int}
    {reply : List Byte}
    (h : .message msg timeout ∈ (knFcCommSendMessage env sent t reply).1) : msg = sent := by
  unfold knFcCommSendMessage at h
  split at h
  · cases h
  · rw [List.mem_singleton] at h
    cases h
    rfl

theorem mem_sendOne {env : SendEnv} {item : KnfcQueueItem}
    (h : .message msg timeout ∈ knFcQueueSendOne up env item) :
    (knFcExcludeMatches up env.exclude item.request.path).1 = false ∧
      msg = backupMessage item.requestId item.request := by
  unfold knFcQueueSendOne at h
  split at h
  · simp at h
  next hx =>
    split at h
    · simp at h
    split at h
    · simp at h
    refine ⟨by simpa using hx, ?_⟩
    obtain h | h := List.mem_append.mp h
    · exact mem_commSendMessage h
    · split at h
      · split at h <;> simp at h
      · simp at h

theorem mem_sendSync {env : SyncEnv} {r : CleanupRequest}
    (h : .message msg timeout ∈ (knFcQueueSendSyncFromCleanup env r).1) :
    msg = backupMessage env.requestId r := by
  unfold knFcQueueSendSyncFromCleanup at h
  split at h
  · cases h
  split at h
  · cases h
  split at h
  · cases h
  split at h
  · simp at h
  unfold syncExchange at h
  simp only at h
  split at h
  · obtain h | h := List.mem_append.mp h
    · exact mem_commSendMessage h
    · simp at h
  · obtain h | h := List.mem_append.mp h
    · exact mem_commSendMessage h
    · simp at h

/-- PreCleanup sends only after it has looked at the patterns. -/
theorem mem_preCleanup {env : PreCleanupEnv} {view : KnfcShc} {r : CleanupRequest}
    (h : .sendSync r ∈ (knFcPreCleanup up env view).calls) :
    (knFcExcludeMatches up env.exclude r.path).1 = false := by
  unfold knFcPreCleanup at h
  simp only at h
  split at h
  · cases h
  split at h
  · cases h
  split at h
  · cases h
  split at h
  · cases h
  next hx =>
    split at h
    · cases h
    split at h
    · split at h
      · next hsafe =>
        obtain rfl : r = _ := by simpa using h
        simpa [hsafe] using hx
      · simp at h
    · cases h

theorem mem_callEffects {env : SyncEnv} {call : CleanupCall}
    (h : .message msg timeout ∈ callEffects env call) :
    ∃ r, call = .sendSync r ∧ msg = backupMessage env.requestId r := by
  cases call with
  | enqueue r => simp [callEffects] at h
  | sendSync r => exact ⟨r, rfl, mem_sendSync h⟩

end Effects

section Traces

variable {C W : Type*} {E E' : C → SendEffect → Prop} {s t : SendPaths C W}

def CleanupPc.Holds (E : C → SendEffect → Prop) (c : C) : CleanupPc → Prop
  | .calling effects => ∀ x ∈ effects, E c x
  | .between r => E c (.enqueue r)
  | _ => True

def SenderPc.Holds (E : C → SendEffect → Prop) : SenderPc C → Prop
  | .idle => True
  | .holding c item => E c (.enqueue item.request)
  | .sending c effects => ∀ x ∈ effects, E c x

theorem CleanupPc.holds_of_forall {c : C} (h : ∀ x, E c x) (pc : CleanupPc) : pc.Holds E c := by
  cases pc with
  | calling effects => exact fun x _ => h x
  | between r => exact h _
  | _ => trivial

/-- `E` holds of every effect that is still to come and of every message handed over;
a request in the queue counts as its enqueueing. -/
structure Each (E : C → SendEffect → Prop) (s : SendPaths C W) : Prop where
  cleanups : ∀ c, (s.cleanups c).Holds E c
  workers : ∀ w, (s.workers w).Holds E
  queue : ∀ c item, (c, item) ∈ s.queue → E c (.enqueue item.request)
  handed : ∀ c msg, (c, msg) ∈ s.handed → ∃ timeout, E c (.message msg timeout)

theorem each_init (E : C → SendEffect → Prop) : Each E (.init C W) :=
  ⟨fun _ => trivial, fun _ => trivial, by simp [SendPaths.init], by simp [SendPaths.init]⟩

theorem Each.mono (h : Each E s) (he : ∀ c x, E c x → E' c x) : Each E' s := by
  refine ⟨?_, ?_, fun c item hm => he c _ (h.queue c item hm), ?_⟩
  · intro c
    have hc := h.cleanups c
    cases hpc : s.cleanups c with
    | idle => trivial
    | entered => trivial
    | calling effects =>
      rw [hpc] at hc
      exact fun x hx => he c x (hc x hx)
    | between r =>
      rw [hpc] at hc
      exact he c _ hc
  · intro w
    have hw := h.workers w
    cases hpc : s.workers w with
    | idle => trivial
    | holding c item =>
      rw [hpc] at hw
      exact he c _ hw
    | sending c effects =>
      rw [hpc] at hw
      exact fun x hx => he c x (hw x hx)
  · intro c msg hm
    obtain ⟨timeout, hx⟩ := h.handed c msg hm
    exact ⟨timeout, he c _ hx⟩

theorem Each.effect {c : C} {accepted : Option Nat} {x : SendEffect} (h : Each E s)
    (hx : E c x) : Each E (s.effect c accepted x) := by
  cases x with
  | message msg timeout =>
    refine ⟨h.cleanups, h.workers, h.queue, ?_⟩
    intro c' msg' hm
    obtain hm | hm := List.mem_append.mp hm
    · exact h.handed c' msg' hm
    · obtain ⟨rfl, rfl⟩ : c' = c ∧ msg' = msg := by simpa using hm
      exact ⟨timeout, hx⟩
  | enqueue r =>
    cases accepted with
    | none => exact h
    | some requestId =>
      refine ⟨h.cleanups, h.workers, ?_, h.handed⟩
      intro c' item hm
      obtain hm | hm := List.mem_append.mp hm
      · exact h.queue c' item hm
      · obtain ⟨rfl, rfl⟩ : c' = c ∧ item = ⟨requestId, r⟩ := by simpa using hm
        exact hx
  | _ => exact h

theorem Each.setCleanup [DecidableEq C] {c : C} {pc : CleanupPc} (h : Each E s) (hpc : pc.Holds E c) :
    Each E (s.setCleanup c pc) := by
  refine ⟨?_, h.workers, h.queue, h.handed⟩
  exact (Function.forall_update_iff s.cleanups fun c pc => pc.Holds E c).mpr
    ⟨hpc, fun c' _ => h.cleanups c'⟩

theorem Each.setWorker [DecidableEq W] {w : W} {pc : SenderPc C} (h : Each E s) (hpc : pc.Holds E) :
    Each E (s.setWorker w pc) := by
  refine ⟨h.cleanups, ?_, h.queue, h.handed⟩
  exact (Function.forall_update_iff s.workers fun _ pc => pc.Holds E).mpr
    ⟨hpc, fun w' _ => h.workers w'⟩

theorem holds_postEffects {c : C} {r : CleanupRequest} (h : E c (.enqueue r)) (draining : Bool) :
    (CleanupPc.calling (postEffects draining r)).Holds E c := by
  intro x hx
  cases draining with
  | true => simp [postEffects, knFcPostCleanup] at hx
  | false =>
    obtain rfl : x = .enqueue r := by
      simpa [postEffects, knFcPostCleanup, CleanupCall.request] using hx
    exact h

variable [DecidableEq C] [DecidableEq W] {up : Wchar → Wchar}

/-- What a step keeps if it holds of what PreCleanup and the workers decide. -/
theorem Each.step {a : SendPathAction C W} (h : Each E s) (hstep : sendPathStep up s a = some t)
    (hdecide : ∀ (c : C) (env : PreCleanupEnv) senv view, a = .decide c env senv view →
      (decided up { env with exclude := s.exclude } senv view).Holds E c)
    (hsend : ∀ c (env : SendEnv) (item : KnfcQueueItem), E c (.enqueue item.request) →
      ∀ x ∈ knFcQueueSendOne up { env with exclude := s.exclude } item, E c x) :
    Each E t := by
  cases sendPathMove hstep with
  | addExclude | clearExcludes => exact ⟨h.cleanups, h.workers, h.queue, h.handed⟩
  | preCleanup => exact h.setCleanup trivial
  | decide c env senv view => exact h.setCleanup (hdecide c env senv view rfl)
  | postCleanup c draining r hbetween =>
    have hc := h.cleanups c
    rw [hbetween] at hc
    exact h.setCleanup (holds_postEffects hc draining)
  | cleanupEffect c accepted x rest hcalling =>
    have hc := h.cleanups c
    rw [hcalling] at hc
    have hrest : (CleanupPc.calling rest).Holds E c := fun y hy => hc y (List.mem_cons_of_mem x hy)
    exact (h.setCleanup hrest).effect (hc x List.mem_cons_self)
  | take w c item rest hqueue =>
    have hitem := h.queue c item (by rw [hqueue]; exact List.mem_cons_self)
    have hw := @Each.setWorker C W E s _ w (.holding c item) h hitem
    refine ⟨hw.cleanups, hw.workers, ?_, hw.handed⟩
    intro c' item' hm
    exact h.queue c' item' (by rw [hqueue]; exact List.mem_cons_of_mem _ hm)
  | free | sent => exact h.setWorker trivial
  | sendOne w env c item hholding =>
    have hw := h.workers w
    rw [hholding] at hw
    exact h.setWorker (hsend c env item hw)
  | workerEffect w c x rest hsending =>
    have hw := h.workers w
    rw [hsending] at hw
    have hrest : (SenderPc.sending c rest).Holds E := fun y hy => hw y (List.mem_cons_of_mem x hy)
    exact (h.setWorker hrest).effect (hw x List.mem_cons_self)

end Traces

section Excluded

variable {C W : Type*} {up : Wchar → Wchar} {s t : SendPaths C W}

/-- The cleanup has come to its decision. -/
def CleanupPc.started : CleanupPc → Bool
  | .idle | .entered => false
  | .calling _ | .between _ => true

theorem decided_started (env : PreCleanupEnv) (senv : SyncEnv) (view : KnfcShc) :
    (decided up env senv view).started = true := by
  unfold decided
  split <;> rfl

theorem setCleanup_started [DecidableEq C] {c : C} {pc : CleanupPc} (h : pc.started = true ∨
    (s.cleanups c).started = false) {c' : C} (hc : (s.cleanups c').started = true) :
    ((s.setCleanup c pc).cleanups c').started = true := by
  by_cases heq : c' = c
  · subst heq
    obtain h | h := h
    · simpa [SendPaths.setCleanup] using h
    · rw [hc] at h
      cases h
  · simpa [SendPaths.setCleanup, heq] using hc

theorem effect_cleanups (s : SendPaths C W) (c : C) (accepted : Option Nat) (x : SendEffect) :
    (s.effect c accepted x).cleanups = s.cleanups := by
  cases x with
  | enqueue r => cases accepted <;> rfl
  | _ => rfl

/-- A message of `c` for a path that the pattern does not match. -/
def Unmatched (up : Wchar → Wchar) (p : UnicodeString) (c c' : C) (x : SendEffect) : Prop :=
  c' = c → ∀ msg timeout, x = .message msg timeout → ¬ PatternMatches up p msg.path

theorem holds_decided {p : UnicodeString} {c c' : C} {env : PreCleanupEnv}
    (hp : p ∈ env.exclude.patterns) (senv : SyncEnv) (view : KnfcShc) :
    (decided up env senv view).Holds (Unmatched up p c) c' := by
  unfold decided
  split
  · rintro - msg timeout ⟨⟩
  · rintro x hx - msg timeout rfl
    obtain ⟨call, hcall, hmsg⟩ := List.mem_flatMap.mp hx
    obtain ⟨r, rfl, rfl⟩ := mem_callEffects hmsg
    exact not_patternMatches hp (mem_preCleanup hcall)

variable [DecidableEq C] [DecidableEq W]

theorem step_started {a : SendPathAction C W} (h : sendPathStep up s a = some t) {c : C}
    (hc : (s.cleanups c).started = true) : (t.cleanups c).started = true := by
  cases sendPathMove h with
  | preCleanup c' hidle => exact setCleanup_started (.inr (by rw [hidle]; rfl)) hc
  | decide => exact setCleanup_started (.inl (decided_started _ _ _)) hc
  | postCleanup => exact setCleanup_started (.inl rfl) hc
  | cleanupEffect =>
    rw [effect_cleanups]
    exact setCleanup_started (.inl rfl) hc
  | workerEffect =>
    rw [effect_cleanups]
    exact hc
  | _ => exact hc

/-- Only a handle whose cleanup came to its decision has left a trace. -/
theorem each_started (h : Reachable (sendPathStep up) (SendPaths.init C W) s) :
    Each (fun c _ => (s.cleanups c).started = true) s := by
  refine h.invariant (I := fun s => Each (fun c _ => (s.cleanups c).started = true) s) ?_
    (each_init _)
  intro s a t hs ha
  refine (hs.mono fun c _ hc => step_started ha hc).step ha ?_ ?_
  · rintro c env senv view rfl
    cases sendPathMove ha
    refine CleanupPc.holds_of_forall (fun _ => ?_) _
    simpa [SendPaths.setCleanup] using decided_started _ senv view
  · exact fun c env item hc x _ => hc

theorem step_unmatched {p : UnicodeString} {c : C} {a : SendPathAction C W}
    (hp : p ∈ s.exclude.patterns) (hs : Each (Unmatched up p c) s)
    (h : sendPathStep up s a = some t) : Each (Unmatched up p c) t := by
  refine hs.step h ?_ ?_
  · intro c' env senv view _
    exact @holds_decided C up p c c' { env with exclude := s.exclude } hp senv view
  · rintro c' env item - x hx - msg timeout rfl
    obtain ⟨hout, rfl⟩ := mem_sendOne hx
    exact not_patternMatches hp hout

/-- From a reachable state in which the cleanup of `c` has not begun, with a pattern in
the list all the while: nothing that the pattern matches is handed over for `c`. -/
theorem excluded_path_never_sent (hs : Reachable (sendPathStep up) (SendPaths.init C W) s)
    {c : C} (hidle : s.cleanups c = .idle) {as : List (SendPathAction C W)} {p : UnicodeString}
    (hp : Always (sendPathStep up) (fun s => p ∈ s.exclude.patterns) s (.preCleanup c :: as))
    (h : exec (sendPathStep up) s (.preCleanup c :: as) = some t) {path : UnicodeString}
    (hmatch : PatternMatches up p path.buffer) :
    ∀ msg, (c, msg) ∈ t.handed → msg.path ≠ path.buffer := by
  have hstart : Each (Unmatched up p c) s := by
    refine (each_started hs).mono ?_
    rintro c' x hc' rfl
    rw [hidle] at hc'
    cases hc'
  have hall := hp.invariant (fun _ _ _ hu hi ha => step_unmatched hu hi ha) h hstart
  intro msg hm heq
  obtain ⟨timeout, hx⟩ := hall.handed c msg hm
  exact hx rfl msg timeout rfl (by rw [heq]; exact hmatch)

def keptPattern : UnicodeString := ⟨[wchar 'f'], by decide⟩

/-- A handle cleaned up above `PASSIVE_LEVEL`: its request passes unchecked into the
queue, and the worker finds the pattern. -/
def elevatedCleanup : List (SendPathAction Unit Unit) :=
  [.decide () { quietCleanup none with passiveLevel := false }
      ⟨⟨knFcExcludeInitialize, true, true, ⟨statusSuccess, none⟩⟩, true, false, 1⟩
      { openedHandle with flags := knfcShcWriteIntent ||| knfcShcDeleteOnClose },
    .addExclude true writtenFile, .cleanupEffect () (some 1), .take (),
    .sendOne () ⟨knFcExcludeInitialize, true, true, ⟨statusSuccess, none⟩⟩, .workerEffect (),
    .workerEffect ()]

theorem excluded_path_never_sent_elevated :
    ∃ s t, exec (sendPathStep id) (SendPaths.init Unit Unit) [.addExclude true keptPattern] = some s ∧
      exec (sendPathStep id) s (.preCleanup () :: elevatedCleanup) = some t ∧
      ∀ msg, ((), msg) ∈ t.handed → msg.path ≠ writtenFile.buffer :=
  ⟨_, _, rfl, rfl, excluded_path_never_sent (p := keptPattern)
    ⟨[.addExclude true keptPattern], rfl⟩ rfl (by decide)
    (show exec (sendPathStep id) _ (.preCleanup () :: elevatedCleanup) = some _ from rfl)
    (patternHits_iff.mp (by decide))⟩

end Excluded

end KnFileCatcher

import KnFileCatcher.ContextCallbacks

/-! Every exit of the callbacks gives back what its operation still holds, or hands it to
the callback that comes next. -/

namespace KnFileCatcher.Contexts

open FlagBits Ownership Ownership.Program

variable {K α : Type}

/-- Only the buffers of names go into the slots of a context. -/
def Storable (kind : PoolKind) : Prop := kind = .shcName

abbrev ShcLedger := Ledger ShcName PoolKind PoolContent

/-- What an operation owns between two of its callbacks. -/
def hold : Outcome K → ShcLedger → Prop
  | .finished, L => L.refs = 0 ∧ L.blocks = 0
  | .withCallback .create _ .null, L => L.refs = 0 ∧ L.blocks = 0
  | .withCallback .write _ (.context shc), L => L.refs = {shc} ∧ L.blocks = 0
  | .withCallback .setInformation _ (.block b), L =>
    ∃ shc actions, L.refs = {shc} ∧ L.blocks = {(b, .setInformation shc actions)}
  | .withCallback .cleanup _ (.block b), L => L.refs = 0 ∧ ∃ r, L.blocks = {(b, .cleanup r)}
  | .withCallback _ _ _, _ => False
  | .deferred shc, L => L.refs = {shc} ∧ L.blocks = 0

section Kernel

variable {L : ShcLedger} {shc : Nat}

theorem wp_allocate {kind : PoolKind} {content : PoolContent}
    {Q : Option PoolBlock → ShcLedger → Prop} (hnone : Q none L)
    (hsome : ∀ b, b.kind = kind → Q (some b) { L with blocks := (b, content) ::ₘ L.blocks }) :
    (knFcAllocateNonPaged kind content : Callback K _).wp Storable L Q := by
  refine wp_bind ⟨hnone, fun b v hb => ?_⟩
  exact ⟨v, L.blocks, rfl, hsome b hb⟩

theorem wp_updateShc {f : ShcFields → ShcFields} {Q : Unit → ShcLedger → Prop}
    (ho : shc ∈ L.refs) (h : Q () L) : (updateShc shc f : Callback K Unit).wp Storable L Q :=
  wp_bind ⟨ho, fun _ => h⟩

theorem wp_freeIfPresent {x : Option (PoolBlock × PoolContent)}
    {B : Multiset (PoolBlock × PoolContent)} {Q : Unit → ShcLedger → Prop}
    (hx : L.blocks = atMostOne x + B) (h : Q () { L with blocks := B }) :
    (freeIfPresent (x.map Prod.fst) : Callback K Unit).wp Storable L Q := by
  cases x with
  | none =>
    rw [show atMostOne (none : Option (PoolBlock × PoolContent)) = 0 from rfl,
      Multiset.zero_add] at hx
    rw [← hx] at h
    exact h
  | some y => exact ⟨y.2, B, hx.trans (Multiset.singleton_add _ _), h⟩

end Kernel

section Names

variable {L : ShcLedger} {shc : Nat} {ni : PoolBlock} {c : PoolContent}
  {Q : Unit → ShcLedger → Prop}

theorem wp_setOriginalName (ho : shc ∈ L.refs) (hfresh : L.fresh shc .originalName)
    (hni : (ni, c) ∈ L.blocks) (h : ∀ fresh, Q () { L with fresh := fresh }) :
    (knFcShcSetOriginalName shc ni : Callback K Unit).wp Storable L Q := by
  refine wp_call ⟨c, hni, wp_ite (fun _ => h L.fresh) fun _ => ?_⟩
  refine wp_bind (wp_allocate (h L.fresh) fun b hb => ?_)
  exact wp_perform ⟨ho, hfresh, hb, _, L.blocks, rfl, h _⟩

theorem wp_setCurrentName (ho : shc ∈ L.refs) (hni : (ni, c) ∈ L.blocks)
    (h : ∀ fresh, Q () { L with fresh := fresh }) :
    (knFcShcSetCurrentName shc ni : Callback K Unit).wp Storable L Q := by
  refine wp_call ⟨c, hni, wp_ite (fun _ => ?_) fun _ => ?_⟩
  · refine wp_bind (wp_allocate (h L.fresh) fun b hb => ?_)
    exact wp_call ⟨ho, some (b, .name c.text), L.blocks, rfl, by rintro y ⟨⟩; exact hb,
      (Multiset.singleton_add _ _).symm, fun old => wp_freeIfPresent rfl (h _)⟩
  · exact wp_call ⟨ho, none, L.blocks, rfl, by simp, (Multiset.zero_add _).symm,
      fun old => wp_freeIfPresent rfl (h _)⟩

end Names

section Create

variable {L : ShcLedger}

theorem wp_traceCreate {name : UnicodeString} {Q : Unit → ShcLedger → Prop} (h : Q () L) :
    (traceCreate name : Callback K Unit).wp Storable L Q := by
  refine wp_bind (wp_allocate h fun b _ => ?_)
  exact wp_call ⟨_, Multiset.mem_cons_self _ _, wp_perform ⟨_, L.blocks, rfl, h⟩⟩

theorem wp_installContext (env : CreateInput) (rootPid : Handle) (k : K) {shc : Nat}
    (hrefs : L.refs = {shc}) (hblocks : L.blocks = 0) (hfresh : L.fresh shc .originalName) :
    (installContext env rootPid k shc).wp Storable L hold := by
  have ho : shc ∈ L.refs := by rw [hrefs]; exact Multiset.mem_singleton_self shc
  -- whatever is still known of the slots, the context is attached and released
  have hattach : ∀ fresh, Program.wp Storable
      (do
        let _ ← (fltSetStreamHandleContext k shc : Callback K Bool)
        fltReleaseContext shc
        return .finished) { L with fresh := fresh } (hold (K := K)) := fun fresh =>
    wp_call ⟨ho, fun _ => wp_call ⟨0, hrefs, rfl, hblocks⟩⟩
  refine wp_bind (wp_updateShc ho (wp_bind (wp_allocate ?_ fun b _ => ?_)))
  · exact hattach L.fresh
  · refine wp_bind (wp_setOriginalName ho hfresh (Multiset.mem_cons_self _ _) fun fresh => ?_)
    exact wp_call ⟨_, L.blocks, rfl, hattach fresh⟩

theorem hold_empty : hold (K := K) .finished .empty := ⟨rfl, rfl⟩

theorem wp_postCreate (env : CreateInput) (k : K) (hrefs : L.refs = 0) (hblocks : L.blocks = 0) :
    (knFcPostCreate env k).wp Storable L hold := by
  have hdone : hold (K := K) .finished L := ⟨hrefs, hblocks⟩
  refine wp_ite (fun _ => hdone) fun _ => wp_ite (fun _ => hdone) fun _ =>
    wp_ite (fun _ => hdone) fun _ => ?_
  cases knFcTrackIsTracked env.table env.caller with
  | none => exact hdone
  | some r =>
    refine wp_bind (wp_traceCreate (wp_ite (fun _ => hdone) fun _ => wp_call ⟨hdone, fun shc => ?_⟩))
    refine wp_installContext env r.1 k ?_ hblocks (Or.inl rfl)
    rw [hrefs]
    rfl

end Create

section Write

variable {L : ShcLedger} {shc : Nat}

/-- A callback that ends with its one reference. -/
theorem wp_finish (hrefs : L.refs = {shc}) (hblocks : L.blocks = 0) :
    (do
      fltReleaseContext shc
      return .finished : Callback K (Outcome K)).wp Storable L hold :=
  wp_call ⟨0, hrefs, rfl, hblocks⟩

theorem wp_postWrite (env : PostWriteEnv) (hrefs : L.refs = {shc}) (hblocks : L.blocks = 0) :
    (knFcPostWrite env (.context shc) : Callback K (Outcome K)).wp Storable L hold := by
  have ho : shc ∈ L.refs := by rw [hrefs]; exact Multiset.mem_singleton_self shc
  exact wp_ite (fun _ => wp_bind (wp_updateShc ho (wp_finish hrefs hblocks)))
    fun _ => wp_finish hrefs hblocks

end Write

section SetInformation

variable {L : ShcLedger} {shc : Nat}

theorem wp_preSetInformation (d : SetFileInformation) (k : K) :
    (knFcPreSetInformation d k).wp Storable .empty hold := by
  refine wp_ite (fun _ => hold_empty) fun _ => wp_call ⟨hold_empty, fun shc => ?_⟩
  refine wp_bind (wp_allocate (wp_finish rfl rfl) fun b _ => ?_)
  exact ⟨shc, _, rfl, rfl⟩

theorem wp_postSetInformationSafe (name : UnicodeString) (hrefs : L.refs = {shc})
    (hblocks : L.blocks = 0) :
    (knFcPostSetInformationSafe name shc : Callback K (Outcome K)).wp Storable L hold := by
  have ho : shc ∈ L.refs := by rw [hrefs]; exact Multiset.mem_singleton_self shc
  refine wp_bind (wp_allocate (wp_finish hrefs hblocks) fun ni _ => ?_)
  have hni := Multiset.mem_cons_self (ni, PoolContent.name name) L.blocks
  have hrelease : ∀ fresh, Program.wp Storable
      (do
        fltReleaseFileNameInformation ni
        fltReleaseContext shc
        return .finished)
      { L with blocks := (ni, .name name) ::ₘ L.blocks, fresh := fresh } (hold (K := K)) :=
    fun fresh => wp_call ⟨_, L.blocks, rfl, wp_finish hrefs hblocks⟩
  exact wp_call ⟨_, hni, wp_ite (fun _ => wp_bind (wp_setCurrentName ho hni hrelease))
    fun _ => hrelease L.fresh⟩

theorem wp_applyDisposition (actions : Ulong) {Q : Unit → ShcLedger → Prop} (ho : shc ∈ L.refs)
    (h : Q () L) : (applyDisposition actions shc : Callback K Unit).wp Storable L Q := by
  refine wp_ite (fun _ => wp_bind (wp_updateShc ho (wp_updateShc ho h))) fun _ =>
    wp_ite (fun _ => wp_call ⟨ho, fun d => ?_⟩) fun _ => h
  exact wp_ite (fun _ => wp_bind (wp_updateShc ho (wp_updateShc ho h)))
    fun _ => wp_updateShc ho h

theorem wp_finishSetInformation (env : SetInformationInput) (actions : Ulong)
    (hrefs : L.refs = {shc}) (hblocks : L.blocks = 0) :
    (finishSetInformation env shc actions : Callback K (Outcome K)).wp Storable L hold := by
  have ho : shc ∈ L.refs := by rw [hrefs]; exact Multiset.mem_singleton_self shc
  have hend := wp_finish (K := K) hrefs hblocks
  -- what follows the first, conditional access
  have hrest : Program.wp Storable
      (do
        applyDisposition actions shc
        if flagOn actions knfcSetinfoCaptureRename then
          interlockedOr shc knfcShcRenamed
          if env.atMostApcLevel then knFcPostSetInformationSafe env.name shc
          else if env.irpOperation && env.deferred then return .deferred shc
          else
            fltReleaseContext shc
            return .finished
        else
          fltReleaseContext shc
          return .finished) L (hold (K := K)) := by
    refine wp_bind (wp_applyDisposition actions ho (wp_ite (fun _ => ?_) fun _ => hend))
    refine wp_bind (wp_updateShc ho (wp_ite (fun _ => ?_) fun _ => wp_ite (fun _ => ?_) fun _ => hend))
    · exact wp_postSetInformationSafe env.name hrefs hblocks
    · exact ⟨hrefs, hblocks⟩
  exact wp_ite (fun _ => hend) fun _ =>
    wp_ite (fun _ => wp_bind (wp_updateShc ho hrest)) fun _ => hrest

theorem wp_postSetInformation (env : SetInformationInput) {b : PoolBlock} {actions : Ulong}
    (hrefs : L.refs = {shc}) (hblocks : L.blocks = {(b, .setInformation shc actions)}) :
    (knFcPostSetInformation env (.block b) : Callback K (Outcome K)).wp Storable L hold := by
  refine wp_call ⟨_, by rw [hblocks]; exact Multiset.mem_singleton_self _, ?_⟩
  exact wp_call ⟨_, 0, hblocks, wp_finishSetInformation env actions hrefs rfl⟩

end SetInformation

theorem wp_preAcquireForSection (protect : Ulong) (k : K) :
    (knFcPreAcquireForSection protect k).wp Storable .empty hold := by
  refine wp_call ⟨hold_empty, fun shc => ?_⟩
  exact wp_ite (fun _ => wp_bind (wp_updateShc (by simp) (wp_finish rfl rfl)))
    fun _ => wp_finish rfl rfl

section Cleanup

variable {L : ShcLedger} {shc : Nat}

/-- The name lies in what the operation owns. -/
def FinalName.Within (L : ShcLedger) : FinalName → Prop
  | .copy b | .live b => ∃ c, (b, c) ∈ L.blocks
  | .original shc => shc ∈ L.refs

theorem FinalName.Within.cons {f : FinalName} (hf : f.Within L) (x : PoolBlock × PoolContent) :
    f.Within { L with blocks := x ::ₘ L.blocks } := by
  cases f with
  | copy b =>
    obtain ⟨c, hc⟩ := hf
    exact ⟨c, Multiset.mem_cons_of_mem hc⟩
  | live b =>
    obtain ⟨c, hc⟩ := hf
    exact ⟨c, Multiset.mem_cons_of_mem hc⟩
  | original shc => exact hf

theorem wp_read {f : FinalName} {Q : UnicodeString → ShcLedger → Prop} (hf : f.Within L)
    (h : ∀ s, Q s L) : (f.read : Callback K UnicodeString).wp Storable L Q := by
  cases f with
  | copy b =>
    obtain ⟨c, hc⟩ := hf
    exact wp_call ⟨c, hc, h _⟩
  | live b =>
    obtain ⟨c, hc⟩ := hf
    exact wp_call ⟨c, hc, h _⟩
  | original shc => exact wp_call ⟨hf, fun _ => h _⟩

/-- The result of `knFcResolveFinalName`: its two blocks are new. -/
structure Resolved (L : ShcLedger) (copy info : Option (PoolBlock × PoolContent))
    (r : ResolvedName) : Prop where
  currentCopy : r.currentCopy = copy.map Prod.fst
  nameInfo : r.nameInfo = info.map Prod.fst
  within : ∀ f ∈ r.finalName,
    f.Within { L with blocks := atMostOne copy + (atMostOne info + L.blocks) }

theorem wp_resolveOriginal {info : Option (PoolBlock × PoolContent)}
    {Q : ResolvedName → ShcLedger → Prop} (ho : shc ∈ L.refs)
    (h : ∀ copy info r, Resolved L copy info r →
      Q r { L with blocks := atMostOne copy + (atMostOne info + L.blocks) }) :
    (resolveOriginal shc (info.map Prod.fst) : Callback K ResolvedName).wp Storable
      { L with blocks := atMostOne info + L.blocks } Q := by
  refine wp_call ⟨ho, fun content => ?_⟩
  have hr := h none info ⟨info.map Prod.fst, none,
    if content.isSome then some (.original shc) else none⟩ ⟨rfl, rfl, fun f hf => ?_⟩
  · rw [show atMostOne (none : Option (PoolBlock × PoolContent)) = 0 from rfl,
      Multiset.zero_add] at hr
    exact hr
  · cases content with
    | none => simp at hf
    | some c =>
      obtain rfl : FinalName.original shc = f := by simpa using hf
      exact ho

theorem wp_resolveFinalName (name : UnicodeString) {Q : ResolvedName → ShcLedger → Prop}
    (ho : shc ∈ L.refs)
    (h : ∀ copy info r, Resolved L copy info r →
      Q r { L with blocks := atMostOne copy + (atMostOne info + L.blocks) }) :
    (knFcResolveFinalName name shc : Callback K ResolvedName).wp Storable L Q := by
  have hzero : ∀ B : Multiset (PoolBlock × PoolContent), atMostOne none + B = B := Multiset.zero_add
  refine wp_call ⟨ho, fun copy => ?_⟩
  cases copy with
  | some y =>
    have hr := h (some y) none ⟨none, some y.1, some (.copy y.1)⟩ ⟨rfl, rfl, fun f hf => ?_⟩
    · rw [hzero] at hr
      exact hr
    · obtain rfl := Option.some.inj hf
      exact ⟨y.2, Multiset.mem_add.mpr (Or.inl (Multiset.mem_singleton_self y))⟩
  | none =>
    have hnone := @wp_resolveOriginal K L shc none Q ho h
    rw [hzero] at hnone ⊢
    refine wp_bind (wp_allocate hnone fun ni _ => ?_)
    refine wp_call ⟨_, Multiset.mem_cons_self _ _, wp_ite (fun _ => ?_) fun _ => ?_⟩
    · have hr := h none (some (ni, .name name)) ⟨some ni, none, some (.live ni)⟩
        ⟨rfl, rfl, fun f hf => ?_⟩
      · rw [hzero] at hr
        exact hr
      · obtain rfl := Option.some.inj hf
        refine ⟨.name name, ?_⟩
        rw [hzero]
        exact Multiset.mem_add.mpr (Or.inl (Multiset.mem_singleton_self _))
    · exact @wp_resolveOriginal K L shc (some (ni, .name name)) Q ho h

theorem wp_allocateCleanupCompletion (flags : Ulong) (fileSizeHint : Ulonglong) {path : FinalName}
    {Q : Option PoolBlock → ShcLedger → Prop} (ho : shc ∈ L.refs) (hpath : path.Within L)
    (hnone : Q none L)
    (hsome : ∀ b r, Q (some b) { L with blocks := (b, .cleanup r) ::ₘ L.blocks }) :
    (knFcAllocateCleanupCompletion shc flags fileSizeHint path : Callback K _).wp Storable L Q := by
  refine wp_bind (wp_read hpath fun name => wp_ite (fun _ => hnone) fun _ => ?_)
  refine wp_call ⟨hnone, fun b v _ => wp_call ⟨ho, fun d => ?_⟩⟩
  exact wp_bind (wp_read (hpath.cons (b, v)) fun copied => wp_call ⟨v, L.blocks, rfl, hsome b _⟩)

theorem wp_queryFile (env : CleanupInput) (snap : Ulong)
    {Q : Ulong × Ulonglong → ShcLedger → Prop} (ho : shc ∈ L.refs) (h : ∀ r, Q r L) :
    (queryFile env shc snap : Callback K _).wp Storable L Q := by
  refine wp_ite (fun _ => ?_) fun _ => h _
  cases env.query with
  | none => exact h _
  | some fsi =>
    exact wp_call ⟨ho, fun d => wp_ite (fun _ => wp_ite (fun _ => h _) fun _ => h _) fun _ => h _⟩

theorem wp_passToQueue (passiveSafe : Bool) {finalName : FinalName} {Q : Unit → ShcLedger → Prop}
    (ho : shc ∈ L.refs) (hf : finalName.Within L) (h : Q () L) :
    (passToQueue passiveSafe shc finalName : Callback K Unit).wp Storable L Q := by
  refine wp_call ⟨ho, fun _ => wp_bind (wp_read hf fun _ => wp_call ⟨ho, fun _ => ?_⟩)⟩
  exact wp_ite (fun _ => wp_bind (wp_read hf fun _ => wp_updateShc ho h)) fun _ => h

theorem wp_queryAndCapture (env : CleanupInput) (snap : Ulong) {finalName : FinalName}
    {Q : Option PoolBlock → ShcLedger → Prop} (ho : shc ∈ L.refs) (hf : finalName.Within L)
    (hnone : Q none L)
    (hsome : ∀ b r, Q (some b) { L with blocks := (b, .cleanup r) ::ₘ L.blocks }) :
    (queryAndCapture env shc snap finalName : Callback K _).wp Storable L Q := by
  refine wp_bind (wp_queryFile env snap ho fun r => ?_)
  refine wp_ite (fun _ => hnone) fun _ => wp_ite (fun _ => ?_) fun _ => ?_
  · exact wp_bind (wp_passToQueue env.passiveSafe ho hf hnone)
  · exact wp_allocateCleanupCompletion r.1 r.2 ho hf hnone hsome

theorem wp_captureCleanup (up : Wchar → Wchar) (env : CleanupInput) (snap : Ulong)
    {finalName : Option FinalName} {Q : Option PoolBlock → ShcLedger → Prop} (ho : shc ∈ L.refs)
    (hf : ∀ f ∈ finalName, f.Within L) (hnone : Q none L)
    (hsome : ∀ b r, Q (some b) { L with blocks := (b, .cleanup r) ::ₘ L.blocks }) :
    (captureCleanup up env shc snap finalName : Callback K _).wp Storable L Q := by
  cases finalName with
  | none => exact hnone
  | some f =>
    have hin := hf f rfl
    have hrest : ∀ excluded : Bool, Program.wp Storable
        (if excluded then (return none : Callback K (Option PoolBlock))
        else queryAndCapture env shc snap f) L Q := fun excluded =>
      wp_ite (fun _ => hnone) fun _ => wp_queryAndCapture env snap ho hin hnone hsome
    exact wp_ite (fun _ => wp_bind (wp_bind (wp_read hin fun name => hrest _)))
      fun _ => wp_bind (hrest false)

theorem wp_releaseCleanup (k : K) {r : ResolvedName} {copy info : Option (PoolBlock × PoolContent)}
    {c : Option (PoolBlock × CleanupRequest)} (hcopy : r.currentCopy = copy.map Prod.fst)
    (hinfo : r.nameInfo = info.map Prod.fst) (hrefs : L.refs = {shc})
    (hblocks : L.blocks = atMostOne (c.map fun x => (x.1, .cleanup x.2)) +
      (atMostOne copy + atMostOne info)) :
    (releaseCleanup k shc r (c.map Prod.fst)).wp Storable L hold := by
  unfold releaseCleanup
  rw [hcopy, hinfo]
  refine wp_bind (wp_freeIfPresent (hblocks.trans (add_left_comm _ _ _)) ?_)
  refine wp_bind (wp_freeIfPresent (add_comm _ _) ?_)
  refine wp_call ⟨0, hrefs, ?_⟩
  cases c with
  | none => exact ⟨rfl, rfl⟩
  | some x => exact ⟨rfl, x.2, rfl⟩

theorem wp_preCleanup (up : Wchar → Wchar) (env : CleanupInput) (k : K) :
    (knFcPreCleanup up env k).wp Storable .empty hold := by
  refine wp_call ⟨hold_empty, fun shc => ?_⟩
  generalize hL : ({ Ledger.empty with refs := shc ::ₘ Ledger.empty.refs } : ShcLedger) = L
  have hrefs : L.refs = {shc} := by rw [← hL]; rfl
  have hblocks : L.blocks = 0 := by rw [← hL]; rfl
  have ho : shc ∈ L.refs := by rw [hrefs]; exact Multiset.mem_singleton_self shc
  refine wp_call ⟨ho, fun d => wp_ite (fun _ => wp_finish hrefs hblocks) fun _ => ?_⟩
  -- what follows the second test
  have hrest : ∀ idle : Bool, Program.wp Storable
      (if idle then (do
        fltReleaseContext shc
        return .finished)
      else do
        let r ← knFcResolveFinalName env.name shc
        let completion ← captureCleanup up env shc d.flags r.finalName
        releaseCleanup k shc r completion) L (hold (K := K)) := by
    intro idle
    refine wp_ite (fun _ => wp_finish hrefs hblocks) fun _ => ?_
    refine wp_bind (wp_resolveFinalName env.name ho fun copy info r hr => ?_)
    rw [hblocks, add_zero]
    refine wp_bind (wp_captureCleanup up env d.flags ho ?_ ?_ fun b x => ?_)
    · simpa [hblocks] using hr.within
    · exact wp_releaseCleanup k (c := none) hr.currentCopy hr.nameInfo hrefs
        (zero_add _).symm
    · exact wp_releaseCleanup k (c := some (b, x)) hr.currentCopy hr.nameInfo hrefs
        (Multiset.singleton_add _ _).symm
  exact wp_ite (fun _ => wp_bind (hrest false)) fun _ =>
    wp_bind (wp_call ⟨ho, fun d' => hrest _⟩)

theorem wp_postCleanup (draining : Bool) {b : PoolBlock} {c : PoolContent} (hrefs : L.refs = 0)
    (hblocks : L.blocks = {(b, c)}) :
    (knFcPostCleanup draining (.block b) : Callback K (Outcome K)).wp Storable L hold := by
  have hfree : (do
      exFreePoolWithTag b
      return .finished : Callback K (Outcome K)).wp Storable L hold :=
    wp_call ⟨c, 0, hblocks, hrefs, rfl⟩
  exact wp_ite (fun _ => wp_call ⟨c, by rw [hblocks]; exact Multiset.mem_singleton_self _, hfree⟩)
    fun _ => hfree

end Cleanup

section Runs

theorem shcCleanup_empties : Empties knFcShcCleanup where
  mem_iff slots b := by
    simp only [knFcShcCleanup, List.mem_append, Option.mem_toList]
    constructor
    · rintro (h | h)
      · exact ⟨_, h⟩
      · exact ⟨_, h⟩
    · rintro ⟨s, h⟩
      cases s with
      | originalName => exact Or.inl h
      | currentName => exact Or.inr h
  nodup slots hone := by
    unfold knFcShcCleanup
    cases horiginal : slots .originalName with
    | none => cases slots .currentName <;> simp
    | some b =>
      cases hcurrent : slots .currentName with
      | none => simp
      | some b' =>
        have hne : b ≠ b' := by
          rintro rfl
          cases hone _ _ b horiginal hcurrent
        simpa using hne

theorem filterCode_sound (up : Wchar → Wchar) :
    (filterCode up : Code K ShcName PoolKind ShcFields PoolContent _ _ _).Sound Storable hold where
  start req := by
    cases req with
    | create mode k => exact wp_ite (fun _ => ⟨rfl, rfl⟩) fun _ => hold_empty
    | write k => exact wp_call ⟨hold_empty, fun shc => ⟨rfl, rfl⟩⟩
    | setInformation d k => exact wp_preSetInformation d k
    | acquireForSection protect k => exact wp_preAcquireForSection protect k
    | cleanup env k => exact wp_preCleanup up env k
  resume out input p L hp hL := by
    cases out with
    | finished => cases input <;> cases hp
    | deferred shc =>
      cases input <;> cases hp
      exact wp_postSetInformationSafe _ hL.1 hL.2
    | withCallback op k ctx =>
      cases op <;> cases input <;> cases hp <;> cases ctx <;> try exact hL.elim
      · exact wp_postCreate _ k hL.1 hL.2
      · exact wp_postWrite _ hL.1 hL.2
      · obtain ⟨shc, actions, hrefs, hblocks⟩ := hL
        exact wp_postSetInformation _ hrefs hblocks
      · obtain ⟨hrefs, r, hblocks⟩ := hL
        exact wp_postCleanup _ hrefs hblocks
  empties := shcCleanup_empties

abbrev ContextSystem (T K : Type) :=
  System T K ShcName PoolKind ShcFields PoolContent (Outcome K)

variable {T : Type} [DecidableEq T] [DecidableEq K]

/-- The post processing of the operation has ended. -/
def Finished (s : ContextSystem T K) (t : T) : Prop := s.tasks t = .resting .finished

def Underway (s : ContextSystem T K) (t : T) : Prop := s.tasks t ≠ .idle ∧ ¬ Finished s t

omit [DecidableEq T] [DecidableEq K] in
theorem owns_of_not_underway {s : ContextSystem T K} {t : T} {L : ShcLedger}
    (h : ¬ Underway s t) (hL : (s.tasks t).Owns Storable hold L) : L.refs = 0 ∧ L.blocks = 0 := by
  by_cases hidle : s.tasks t = .idle
  · rw [hidle] at hL
    obtain rfl : L = .empty := hL
    exact ⟨rfl, rfl⟩
  · have hdone : Finished s t := not_not.mp fun hno => h ⟨hidle, hno⟩
    rw [show s.tasks t = _ from hdone] at hL
    exact hL

/-- What is left of the operation frees the block, or puts it into a context. -/
def Owes (s : ContextSystem T K) (t : T) (b : PoolBlock) : Prop :=
  ∃ L, (s.tasks t).Owns Storable hold L ∧ ∃ c, (b, c) ∈ L.blocks

omit [DecidableEq T] [DecidableEq K] in
theorem Owes.underway {s : ContextSystem T K} {t : T} {b : PoolBlock} (h : Owes s t b) :
    Underway s t := by
  obtain ⟨L, hL, c, hc⟩ := h
  by_contra hno
  rw [(owns_of_not_underway hno hL).2] at hc
  exact Multiset.notMem_zero _ hc

/-- No context is touched after its reference was released, and no block after it was
freed. An operation that ended has given back what it obtained; the buffer of a name stays
in its context, which goes with its last reference. -/
theorem every_reference_released_once {up : Wchar → Wchar} {data : Nat → ShcFields}
    {content : PoolBlock → PoolContent} {s : ContextSystem T K}
    (h : Runs.Reachable (filterCode up).step (System.init data content) s) :
    Orderly s.heap.log ∧
    (∀ t, Finished s t → ∀ shc,
      s.heap.log.count (.obtained t shc) = s.heap.log.count (.released t shc)) ∧
    (∀ t b, Finished s t → .allocated t b ∈ s.heap.log → b.kind ≠ .shcName →
      s.heap.log.count (.freed b) = 1) ∧
    (∀ t b, .allocated t b ∈ s.heap.log → s.heap.log.count (.freed b) = 1 ∨
      .freed b ∉ s.heap.log ∧
        ((∃ shc name, s.heap.slots shc name = some b ∧ .tornDown shc ∉ s.heap.log) ∨
          ∃ t', Underway s t' ∧ Owes s t' b)) ∧
    ((∀ t, ¬ Underway s t) → (∀ k, s.heap.attached k = none) →
      (∀ shc < s.heap.objects, s.heap.log.count (.tornDown shc) = 1) ∧
        ∀ t b, .allocated t b ∈ s.heap.log → s.heap.log.count (.freed b) = 1) := by
  obtain ⟨G, hc, howns⟩ := (filterCode_sound up).balanced h
  have hended : ∀ t, Finished s t → (G.ledger t).refs = 0 ∧ (G.ledger t).blocks = 0 :=
    fun t ht => owns_of_not_underway (fun hu => hu.2 ht) (howns t)
  refine ⟨hc.orderly, fun t ht shc => hc.settled (hended t ht).1 shc, fun t b ht hb hkind =>
    hc.freed_of_task hkind hb (hended t ht).2, fun t b hb => ?_, fun hall hclosed =>
    hc.all_gone (fun t => owns_of_not_underway (hall t) (howns t)) hclosed⟩
  rcases hc.whereabouts hb with hfreed | ⟨hno, ⟨shc, name, hs, -, hlive⟩ | ⟨t', hin⟩⟩
  · exact Or.inl hfreed
  · exact Or.inr ⟨hno, Or.inl ⟨shc, name, hs, hlive⟩⟩
  · have howes : Owes s t' b := ⟨G.ledger t', howns t', hin⟩
    exact Or.inr ⟨hno, Or.inr ⟨t', howes.underway, howes⟩⟩

/-- A handle is renamed, and closed before the safe callback runs. -/
def renamedWhileClosed : List (Action Bool Unit (Request Unit) Completion) :=
  .start false (.create .userMode ()) :: .exec false true ::
  .resume false (.create ⟨false, writerPid, writerTable, writtenFile, writtenFile, openForWriting⟩) ::
    List.replicate 16 (.exec false true) ++
  .start true (.setInformation ⟨.rename, 0, none⟩ ()) :: List.replicate 4 (.exec true true) ++
  .resume true (.setInformation ⟨false, statusSuccess, false, true, true, .inRoot 'g'⟩) ::
    List.replicate 5 (.exec true true) ++
  .close () :: .resume true (.safe (.inRoot 'g')) :: List.replicate 10 (.exec true true)

theorem renamedWhileClosed_ends : ∃ s : ContextSystem Bool Unit,
    Runs.exec (filterCode id).step (System.init (fun _ => ⟨0, 0, 0, false, false⟩)
      fun _ => .name .empty) renamedWhileClosed = some s ∧
    (∀ t, Finished s t) ∧ s.heap.attached () = none ∧ s.heap.objects = 1 ∧ s.heap.blocks = 6 := by
  refine ⟨_, rfl, fun t => ?_, rfl, rfl, rfl⟩
  cases t with
  | false => rfl
  | true => rfl

theorem every_reference_released_once_renamed : ∃ s : ContextSystem Bool Unit,
    Runs.exec (filterCode id).step (System.init (fun _ => ⟨0, 0, 0, false, false⟩)
      fun _ => .name .empty) renamedWhileClosed = some s ∧ s.heap.blocks = 6 ∧
    s.heap.log.count (.tornDown 0) = 1 ∧
    (∀ t shc, s.heap.log.count (.obtained t shc) = s.heap.log.count (.released t shc)) ∧
    ∀ t b, .allocated t b ∈ s.heap.log → s.heap.log.count (.freed b) = 1 := by
  obtain ⟨s, hs, hended, hclosed, hobjects, hblocks⟩ := renamedWhileClosed_ends
  obtain ⟨-, hreleased, -, -, hgone⟩ := every_reference_released_once ⟨renamedWhileClosed, hs⟩
  obtain ⟨htorn, hfreed⟩ := hgone (fun t hu => hu.2 (hended t)) fun _ => hclosed
  exact ⟨s, hs, hblocks, htorn 0 (by rw [hobjects]; exact Nat.one_pos),
    fun t shc => hreleased t (hended t) shc, hfreed⟩

end Runs

end KnFileCatcher.Contexts

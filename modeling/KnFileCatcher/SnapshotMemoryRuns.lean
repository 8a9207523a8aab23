import KnFileCatcher.EventOrder
import KnFileCatcher.SnapshotMemoryRules

/-! Whatever the kernel answers, the snapshot stays within what it holds and gives all of it
back; in a quiet world it comes to the table of `knFcTrackSnapshot`. -/

namespace KnFileCatcher.SnapshotMemory

open Custody Program Terms

variable {up : Wchar → Wchar} {cfg : KnfcConfig} {world : Handle → Option UnicodeString}
  {g : Holding} {content : List Byte} {b : PoolBlock}

section Pass

/-- A part of the snapshot keeps what is held, and comes in a quiet world to the table and
the count of `r`. -/
structure Stepped (g : Holding) (r : KnfcTrackCtx × Nat) (n : Nat) (g' : Holding) : Prop where
  held : g'.held = g.held
  listing : g'.listing = g.listing
  quiet : g'.quiet → g.quiet ∧ (g'.table, n) = r

theorem Stepped.trans {g' g'' : Holding} {f : KnfcTrackCtx × Nat → KnfcTrackCtx × Nat}
    {r : KnfcTrackCtx × Nat} {n n' : Nat} (h : Stepped g r n g')
    (h' : Stepped g' (f (g'.table, n)) n' g'') : Stepped g (f r) n' g'' where
  held := h'.held.trans h.held
  listing := h'.listing.trans h.listing
  quiet := fun hq => by
    obtain ⟨hquiet, hr'⟩ := h'.quiet hq
    obtain ⟨hg, hr⟩ := h.quiet hquiet
    exact ⟨hg, hr'.trans (congrArg f hr)⟩

theorem Looked.heldImage {p : Prop} {r : NtStatus × ImagePath} {g' : Holding}
    (h : Looked g p r g') : r.2.Held g' := by
  intro b hb
  refine ⟨?_, h.fits b hb⟩
  rw [Holding.Owns, h.held, ImagePath.things, hb]
  exact Multiset.mem_add.mpr (.inl (Multiset.mem_singleton_self _))

theorem Looked.agree {p q : Prop} {r : NtStatus × ImagePath} {g' : Holding}
    (h : Looked g p r g') : Looked g (p ∧ q) r (g'.agree q) where
  held := h.held
  table := h.table
  listing := h.listing
  fits := h.fits
  quiet := fun hq => ⟨(h.quiet hq.1).1, (h.quiet hq.1).2, hq.2⟩

/-- What the calls before the lookup have answered is known with what the lookup found. -/
theorem Looked.before {p q : Prop} {r : NtStatus × ImagePath} {g' : Holding}
    (h : Looked (g.agree q) p r g') : Looked g (q ∧ p) r g' where
  held := h.held
  table := h.table
  listing := h.listing
  fits := h.fits
  quiet := fun hq => ⟨(h.quiet hq).1.1, (h.quiet hq).1.2, (h.quiet hq).2⟩

section Record

variable {p : Prop} {r : NtStatus × ImagePath} {g' : Holding} {sp : KnfcSystemProcessInformation}
  {childPass : Bool}

/-- A record whose process is classified, with the path that the lookup found. -/
theorem wp_added (h : Looked g p r g') {image : Option ImagePath} (himage : ∀ i ∈ image, i = r.2)
    (hfound : image.map ImagePath.path = found r)
    (hclass : p → found r = imageIn world sp.uniqueProcessId ∧
      Classifies up cfg (imageIn world) childPass g.table sp) (changes : Nat) :
    (terms up cfg world).wp (do
      knFcClassifyAndInsert sp.uniqueProcessId sp.inheritedFromUniqueProcessId image
      knFcUtilFreeImagePath r.2
      pure (changes + 1)) g'
      fun n g'' =>
        Stepped g (snapshotRecord up cfg (imageIn world) childPass (g.table, changes) sp) n g'' := by
  refine wp_call (fun i hi => himage i hi ▸ h.heldImage) fun answer _ => ?_
  have hheld : ((terms up cfg world).after g' (.classify sp.uniqueProcessId
      sp.inheritedFromUniqueProcessId image) answer).held = r.2.things + g.held := h.held
  refine wp_bind ((wp_freeImagePath hheld).mono fun _ g'' hfree => ?_)
  subst hfree
  refine ⟨rfl, h.listing, fun hq => ?_⟩
  obtain ⟨hquiet, hp⟩ := h.quiet hq
  obtain ⟨hname, hclassifies⟩ := hclass hp
  rw [snapshotRecord_added hclassifies]
  refine ⟨hquiet, Prod.ext ?_ rfl⟩
  show (KnFileCatcher.knFcClassifyAndInsert up cfg .ok g'.table _ _ (image.map ImagePath.path) _).1 = _
  rw [hfound, hname, h.table]
  rfl

theorem wp_skipped (h : Looked g p r g')
    (hclass : p → ¬ Classifies up cfg (imageIn world) childPass g.table sp) (changes : Nat) :
    (terms up cfg world).wp (do
      knFcUtilFreeImagePath r.2
      pure changes) g'
      fun n g'' =>
        Stepped g (snapshotRecord up cfg (imageIn world) childPass (g.table, changes) sp) n g'' := by
  refine wp_bind ((wp_freeImagePath (H := g.held) h.held).mono fun _ g'' hfree => ?_)
  subst hfree
  refine ⟨rfl, h.listing, fun hq => ?_⟩
  obtain ⟨hquiet, hp⟩ := h.quiet hq
  rw [snapshotRecord_skipped (hclass hp)]
  exact ⟨hquiet, Prod.ext h.table rfl⟩

end Record

theorem classifies_child_iff {sp : KnfcSystemProcessInformation} (hpid : sp.uniqueProcessId ≠ 0)
    {already parentTracked : Bool} (hnew : already = false)
    (halready : already =
      (KnFileCatcher.knFcTrackIsTracked g.table sp.uniqueProcessId).isSome)
    (hparent : parentTracked =
      (KnFileCatcher.knFcTrackIsTracked g.table sp.inheritedFromUniqueProcessId).isSome) :
    Classifies up cfg (imageIn world) true g.table sp ↔ parentTracked = true := by
  rw [Classifies, if_pos rfl, ← halready, ← hparent]
  exact ⟨fun h => h.2.2, fun h => ⟨hpid, hnew, h⟩⟩

theorem classifies_root_iff {sp : KnfcSystemProcessInformation} (hpid : sp.uniqueProcessId ≠ 0)
    {already : Bool} (hnew : already = false) (halready : already =
      (KnFileCatcher.knFcTrackIsTracked g.table sp.uniqueProcessId).isSome)
    {name : Option UnicodeString} (hname : name = imageIn world sp.uniqueProcessId) :
    Classifies up cfg (imageIn world) false g.table sp ↔ imageMatches up cfg name = true := by
  rw [Classifies, if_neg Bool.false_ne_true, ← halready, Matches, ← hname]
  exact ⟨fun h => h.2.2, fun h => ⟨hpid, hnew, h⟩⟩

theorem wp_passRecord (childPass : Bool) (sp : KnfcSystemProcessInformation) (changes : Nat) :
    (terms up cfg world).wp
      (passRecord childPass sp.uniqueProcessId sp.inheritedFromUniqueProcessId changes) g
      fun n g' =>
        Stepped g (snapshotRecord up cfg (imageIn world) childPass (g.table, changes) sp) n g' := by
  refine wp_ite (fun hpid => ?_) fun hpid => ?_
  · refine ⟨rfl, rfl, fun hq => ⟨hq, ?_⟩⟩
    rw [snapshotRecord, if_pos hpid]
  refine wp_call trivial fun already _ => wp_ite (fun halready => ?_) fun hnew => ?_
  · refine ⟨rfl, rfl, fun hq => ⟨hq.1, ?_⟩⟩
    have htracked := hq.2.symm.trans halready
    rw [snapshotRecord, if_neg hpid, if_pos htracked]
    rfl
  have hnew := Bool.eq_false_iff.mpr hnew
  cases childPass with
  | true =>
    refine wp_call trivial fun parentTracked _ => ?_
    refine wp_bind ((wp_getImagePathByPid hpid).mono fun r g' hlooked => ?_)
    have hlooked := hlooked.before.before
    refine wp_ite (fun _ => ?_) fun hno => absurd rfl hno
    refine wp_ite (fun hparent => ?_) fun hparent => ?_
    · refine wp_added hlooked (fun i hi => ?_) ?_ (fun hp => ⟨hp.2.2, ?_⟩) changes
      · cases hs : ntSuccess r.1 <;> simp_all
      · cases hs : ntSuccess r.1 <;> simp [found, hs]
      · exact (classifies_child_iff hpid hnew hp.1 hp.2.1).mpr hparent
    · exact wp_skipped hlooked
        (fun hp hclass => hparent ((classifies_child_iff hpid hnew hp.1 hp.2.1).mp hclass)) changes
  | false =>
    refine wp_pure (wp_bind ((wp_getImagePathByPid hpid).mono fun r g' hlooked => ?_))
    have hlooked := hlooked.before
    refine wp_ite (fun hno => absurd hno Bool.false_ne_true) fun _ => ?_
    refine wp_ite (fun hs => ?_) fun hs => ?_
    · have hfound : found r = some r.2.path := if_pos hs
      refine wp_call hlooked.heldImage fun isRoot _ => ?_
      have hlooked := hlooked.agree
        (q := isRoot = KnFileCatcher.knFcConfigPathStartsWithAnyRoot up cfg r.2.path)
      refine wp_ite (fun hroot => ?_) fun hroot => ?_
      · have himage : (some r.2).map ImagePath.path = found r := hfound.symm
        refine wp_added hlooked (fun i hi => (Option.some.inj hi).symm) himage
          (fun hp => ⟨hp.1.2, ?_⟩) changes
        rw [classifies_root_iff hpid hnew hp.1.1 hp.1.2, hfound]
        exact hp.2.symm.trans hroot
      · refine wp_skipped hlooked (fun hp => ?_) changes
        rw [classifies_root_iff hpid hnew hp.1.1 hp.1.2, hfound]
        exact fun hmatch => hroot (hp.2.trans hmatch)
    · have hfound : found r = none := if_neg hs
      refine wp_pure (wp_ite (fun hno => absurd hno Bool.false_ne_true) fun _ => ?_)
      refine wp_skipped hlooked (fun hp => ?_) changes
      rw [classifies_root_iff hpid hnew hp.1 hp.2, hfound]
      exact Bool.false_ne_true

theorem Listed.length_le {off : Nat} {records : List KnfcSystemProcessInformation}
    (h : Listed content off records) : records.length + off + 95 ≤ content.length := by
  induction h with
  | last hfits hend =>
    rw [List.length_singleton]
    omega
  | @next off records hfits hmore hrest ih =>
    have hpos : (nextEntryOffset content off).toNat ≠ 0 := fun hzero =>
      hmore (BitVec.eq_of_toNat_eq hzero)
    rw [List.length_cons]
    omega

theorem wp_passFrom (childPass : Bool) (hb : g.Owns b) (hsize : content.length = b.size)
    {off : Nat} {records : List KnfcSystemProcessInformation} (h : Listed content off records)
    {fuel : Nat} (hfuel : records.length ≤ fuel) (changes : Nat) :
    (terms up cfg world).wp (passFrom b content childPass fuel off changes) g fun r g' =>
      ∃ n, r = some n ∧ Stepped g
        (records.foldl (snapshotRecord up cfg (imageIn world) childPass) (g.table, changes)) n g' := by
  induction h generalizing g fuel changes with
  | @last off hfits hend =>
    cases fuel with
    | zero => exact absurd hfuel (by simp)
    | succ fuel =>
      refine wp_call ⟨hb, by omega⟩ fun _ _ => wp_call ⟨hb, by omega⟩ fun _ _ => ?_
      refine wp_bind ((wp_passRecord childPass (recordAt content off) changes).mono
        fun n g' (hstep : Stepped g _ n g') => ?_)
      have hb' : g'.Owns b := by
        rw [Holding.Owns, hstep.held]
        exact hb
      refine wp_call ⟨hb', by omega⟩ fun _ _ => ?_
      rw [if_pos hend]
      exact ⟨n, rfl, hstep⟩
  | @next off records hfits hmore hrest ih =>
    cases fuel with
    | zero => exact absurd hfuel (by simp)
    | succ fuel =>
      refine wp_call ⟨hb, by omega⟩ fun _ _ => wp_call ⟨hb, by omega⟩ fun _ _ => ?_
      refine wp_bind ((wp_passRecord childPass (recordAt content off) changes).mono
        fun n g' (hstep : Stepped g _ n g') => ?_)
      have hb' : g'.Owns b := by
        rw [Holding.Owns, hstep.held]
        exact hb
      refine wp_call ⟨hb', by omega⟩ fun _ _ => ?_
      rw [if_neg hmore]
      refine (ih hb' (Nat.le_of_succ_le_succ hfuel) n).mono fun r g'' hrun => ?_
      obtain ⟨n', hr, hrun⟩ := hrun
      exact ⟨n', hr, Stepped.trans (f := fun r =>
        records.foldl (snapshotRecord up cfg (imageIn world) childPass) r) hstep hrun⟩

theorem wp_snapshotPass (childPass : Bool) (hb : g.Owns b) (hsize : content.length = b.size)
    {records : List KnfcSystemProcessInformation} (h : Listed content 0 records) :
    (terms up cfg world).wp (knFcTrackSnapshotPass b content childPass) g fun r g' =>
      ∃ n, r = some n ∧ Stepped g (KnFileCatcher.knFcTrackSnapshotPass up cfg (imageIn world)
        records childPass g.table) n g' := by
  have hlength := h.length_le
  exact wp_passFrom childPass hb hsize h (by omega) 0

theorem wp_childPassLoop (hb : g.Owns b) (hsize : content.length = b.size)
    {records : List KnfcSystemProcessInformation} (h : Listed content 0 records) (iter n : Nat) :
    (terms up cfg world).wp (childPassLoop b content iter) g fun r g' =>
      r = some () ∧ g'.held = g.held ∧ g'.listing = g.listing ∧ (g'.quiet → g.quiet ∧
        g'.table = (childPasses up cfg (imageIn world) records iter (g.table, n)).1) := by
  induction iter generalizing g n with
  | zero => exact ⟨rfl, rfl, rfl, fun hq => ⟨hq, rfl⟩⟩
  | succ iter ih =>
    refine wp_bind ((wp_snapshotPass true hb hsize h).mono fun r g' hpass => ?_)
    obtain ⟨changes, rfl, hstep⟩ := hpass
    refine wp_ite (fun hzero => ?_) fun hsome => ?_
    · refine ⟨rfl, hstep.held, hstep.listing, fun hq => ?_⟩
      obtain ⟨hquiet, hr⟩ := hstep.quiet hq
      rw [childPasses, ← hr, if_pos hzero]
      exact ⟨hquiet, rfl⟩
    · have hb' : g'.Owns b := by
        rw [Holding.Owns, hstep.held]
        exact hb
      refine (ih hb' changes).mono fun r g'' hrest => ?_
      obtain ⟨hr, hheld, hlisting, hquiet'⟩ := hrest
      refine ⟨hr, hheld.trans hstep.held, hlisting.trans hstep.listing, fun hq => ?_⟩
      obtain ⟨hquiet, htable⟩ := hquiet' hq
      obtain ⟨hquiet, hpass⟩ := hstep.quiet hquiet
      rw [childPasses, ← hpass, if_neg hsome]
      exact ⟨hquiet, htable⟩

end Pass

section Query

def bufferThings : Option PoolBlock → Multiset KernelThing
  | none => 0
  | some b => {.block b}

theorem wp_freeBuffer {buffer : Option PoolBlock} {H : Multiset KernelThing}
    (hheld : g.held = bufferThings buffer + H) :
    (terms up cfg world).wp (freeBuffer buffer) g fun _ g' => g' = { g with held := H } := by
  cases buffer with
  | none =>
    rw [bufferThings, zero_add] at hheld
    subst hheld
    rfl
  | some b =>
    rw [bufferThings, Multiset.singleton_add] at hheld
    refine ⟨?_, fun _ _ => ?_⟩
    · show KernelThing.block b ∈ g.held
      rw [hheld]
      exact Multiset.mem_cons_self _ _
    · show g.give (.block b) = _
      rw [Holding.give, hheld, Multiset.erase_cons_head]

/-- After the attempts the buffer is held if it was filled, and nothing of them otherwise. -/
def Queried (g : Holding) (H : Multiset KernelThing) (r : Except NtStatus (PoolBlock × List Byte))
    (g' : Holding) : Prop :=
  g'.table = g.table ∧ (g'.quiet → g.quiet) ∧
    match r with
    | .error _ => g'.held = H ∧ g'.listing = g.listing
    | .ok (b, content) => g'.held = .block b ::ₘ H ∧ g'.listing = some content ∧
        content.length = b.size ∧ ∃ records, Listed content 0 records

theorem wp_queryAttempts {buffer : Option PoolBlock} {H : Multiset KernelThing}
    (hheld : g.held = bufferThings buffer + H) (attempts : Nat) (retSize : Ulong)
    (status : NtStatus) :
    (terms up cfg world).wp (queryAttempts attempts retSize buffer status) g (Queried g H) := by
  induction attempts generalizing g buffer retSize status with
  | zero =>
    refine wp_bind ((wp_freeBuffer hheld).mono fun _ g' hfree => ?_)
    subst hfree
    exact ⟨rfl, id, rfl, rfl⟩
  | succ attempts ih =>
    refine wp_bind ((wp_freeBuffer hheld).mono fun _ g' hfree => ?_)
    subst hfree
    refine wp_call trivial fun block hblock => ?_
    cases block with
    | none => exact ⟨rfl, And.left, rfl, rfl⟩
    | some b =>
      obtain ⟨hsize, hnew⟩ := hblock b rfl
      refine wp_call (fun b' hb' => ?_) fun answer hanswer => ?_
      · obtain rfl := Option.some.inj hb'
        exact ⟨Multiset.mem_cons_self _ _, hsize.ge⟩
      have hafter : (terms up cfg world).after (({ g with held := H } : Holding).take (.block b))
          (.querySystem (some b) (retSize + 64 * 1024)) answer =
          if ntSuccess answer.status then
            { g with held := .block b ::ₘ H, listing := some answer.content }
          else { g with held := .block b ::ₘ H } := rfl
      refine wp_ite (fun hok => ?_) fun hfail => ?_
      · obtain ⟨hlength, hlisted⟩ := hanswer hok
        rw [if_pos hok] at hafter
        refine (congrArg (Queried g H _) hafter).mpr ?_
        exact ⟨rfl, id, rfl, rfl, hlength, hlisted⟩
      rw [if_neg hfail] at hafter
      refine wp_ite (fun hstatus => ?_) fun hstatus => ?_
      · refine (congrArg (fun g => (terms up cfg world).wp _ g _) hafter).mpr ?_
        refine ⟨Multiset.mem_cons_self _ _, fun _ _ => ?_⟩
        exact ⟨rfl, id, Multiset.erase_cons_head _ _, rfl⟩
      · refine (congrArg (fun g => (terms up cfg world).wp _ g _) hafter).mpr ?_
        exact ih rfl answer.retSize answer.status

end Query

section Runs

variable (up cfg world)

/-- Nothing of the snapshot stays held, and the records end. Without a filled buffer the table
is left alone; in a quiet world it becomes what the passes over the records of the buffer make
of it. -/
structure SnapshotEnd (H : Multiset KernelThing) (table : KnfcTrackCtx) (a : Option NtStatus)
    (g : Holding) : Prop where
  given : g.held = H
  returns : ∃ status, a = some status
  outcome : match g.listing with
    | none => g.table = table
    | some content => a = some statusSuccess ∧ ∃ records, Listed content 0 records ∧ (g.quiet →
        g.table = (KnFileCatcher.knFcTrackSnapshot up cfg (imageIn world) records table).1)

theorem wp_trackSnapshot (H : Multiset KernelThing) (table : KnfcTrackCtx) :
    (terms up cfg world).wp knFcTrackSnapshot ⟨H, table, none, True⟩
      (SnapshotEnd up cfg world H table) := by
  refine wp_call (fun b hb => nomatch hb) fun size _ => ?_
  refine wp_ite (fun _ => ⟨rfl, ⟨_, rfl⟩, rfl⟩) fun _ => ?_
  refine wp_bind ((wp_queryAttempts (zero_add H).symm 5 size.retSize size.status).mono
    fun r g' hquery => ?_)
  obtain ⟨htable, -, hquery⟩ := hquery
  have htable : g'.table = table := htable
  cases r with
  | error status =>
    obtain ⟨hheld, hlisting⟩ := hquery
    refine ⟨hheld, ⟨status, rfl⟩, ?_⟩
    rw [hlisting]
    exact htable
  | ok filled =>
    obtain ⟨b, content⟩ := filled
    obtain ⟨hheld, hlisting, hsize, records, hrecords⟩ := hquery
    have hb : g'.Owns b := by
      rw [Holding.Owns, hheld]
      exact Multiset.mem_cons_self _ _
    refine wp_bind ((wp_snapshotPass false hb hsize hrecords).mono fun r g₁ hpass => ?_)
    obtain ⟨n, rfl, hroots⟩ := hpass
    have hb₁ : g₁.Owns b := by
      rw [Holding.Owns, hroots.held]
      exact hb
    refine wp_bind ((wp_childPassLoop hb₁ hsize hrecords knfcChildPasses n).mono
      fun r g₂ hloop => ?_)
    obtain ⟨rfl, hheld₂, hlisting₂, hquiet⟩ := hloop
    have hheld₂' : g₂.held = .block b ::ₘ H := hheld₂.trans (hroots.held.trans hheld)
    refine wp_call ?_ fun _ _ => ⟨?_, ⟨_, rfl⟩, ?_⟩
    · show KernelThing.block b ∈ g₂.held
      rw [hheld₂']
      exact Multiset.mem_cons_self _ _
    · show g₂.held.erase (.block b) = H
      rw [hheld₂', Multiset.erase_cons_head]
    · have hfilled : ((terms up cfg world).after g₂ (.free b) ()).listing = some content :=
        hlisting₂.trans (hroots.listing.trans hlisting)
      rw [hfilled]
      refine ⟨rfl, records, hrecords, fun hq => ?_⟩
      obtain ⟨hq₁, htable₂⟩ := hquiet hq
      obtain ⟨-, hpass⟩ := hroots.quiet hq₁
      refine Eq.trans htable₂ ?_
      rw [KnFileCatcher.knFcTrackSnapshot, hpass, htable]

theorem snapshot_memory_runs (H : Multiset KernelThing) (table : KnfcTrackCtx)
    (tr : List (Exchange SnapshotOp SnapshotOp.Answer)) (a : Option NtStatus)
    (hr : knFcTrackSnapshot.Runs tr a)
    (hp : (terms up cfg world).Honest ⟨H, table, none, True⟩ tr) :
    (terms up cfg world).Legal ⟨H, table, none, True⟩ tr ∧
      SnapshotEnd up cfg world H table a ((terms up cfg world).final ⟨H, table, none, True⟩ tr) :=
  wp_sound (wp_trackSnapshot up cfg world H table) hr hp

/-- One record: process 8 of process 4. -/
def oneRecord : List Byte :=
  List.replicate 80 0 ++ LittleEndian.toBytes 8 8 ++ LittleEndian.toBytes 8 4

def onlyProcess (pid : Handle) : Option UnicodeString :=
  if pid = 8 then some (.inRoot 'a') else none

/-- A kernel that lists one record. It numbers the blocks it gives out, and the table is its
own. -/
def kernel (s : Nat × KnfcTrackCtx) : (op : SnapshotOp) → op.Answer × (Nat × KnfcTrackCtx)
  | .querySystem none _ => (⟨statusInfoLengthMismatch, 96, []⟩, s)
  | .querySystem (some b) _ =>
    (if 96 ≤ b.size then ⟨statusSuccess, 96, oneRecord ++ List.replicate (b.size - 96) 0⟩
      else ⟨statusInfoLengthMismatch, 96, []⟩, s)
  | .allocate size => (some ⟨s.1, size⟩, (s.1 + 1, s.2))
  | .lookupProcess pid =>
    (if (onlyProcess pid).isSome then .ok ⟨0, pid⟩ else .error statusInvalidParameter, s)
  | .openObject p => (.ok ⟨0, p⟩, s)
  | .queryImage _ none _ => (⟨statusInfoLengthMismatch, 20, .empty, none⟩, s)
  | .queryImage _ (some b) _ =>
    (if 20 ≤ b.size then ⟨statusSuccess, 20, .inRoot 'a', some 16⟩
      else ⟨statusInfoLengthMismatch, 20, .empty, none⟩, s)
  | .isTracked pid => ((KnFileCatcher.knFcTrackIsTracked s.2 pid).isSome, s)
  | .startsWithAnyRoot _ => (true, s)
  | .classify pid ppid image => ((), (s.1, (KnFileCatcher.knFcClassifyAndInsert id
      EventSystem.eventConfig .ok s.2 pid ppid (image.map ImagePath.path) knFcTrackFromSnap).1))
  | .free _ | .touch _ _ _ | .close _ | .dereference _ => ((), s)

theorem listed_oneRecord (n : Nat) :
    ∃ records, Listed (oneRecord ++ List.replicate n 0) 0 records := by
  refine ⟨_, .last ?_ rfl⟩
  have hlength : oneRecord.length = 96 := rfl
  rw [List.length_append, hlength]
  omega

abbrev oneTerms : Terms SnapshotOp SnapshotOp.Answer Holding :=
  terms id EventSystem.eventConfig onlyProcess

theorem kernel_promises (s : Nat × KnfcTrackCtx) (g : Holding) (op : SnapshotOp)
    (h : ∀ b, g.Owns b → b.id < s.1) : oneTerms.promised g op (kernel s op).1 := by
  cases op with
  | querySystem buffer size =>
    cases buffer with
    | none => trivial
    | some b =>
      intro hok
      by_cases hsize : 96 ≤ b.size
      · have hanswer : (kernel s (.querySystem (some b) size)).1.content =
            oneRecord ++ List.replicate (b.size - 96) 0 := by
          simp only [kernel, if_pos hsize]
        have hlength : oneRecord.length = 96 := rfl
        refine ⟨?_, ?_⟩
        · rw [hanswer, List.length_append, hlength, List.length_replicate]
          omega
        · rw [hanswer]
          exact listed_oneRecord _
      · simp only [kernel, if_neg hsize] at hok
        cases hok
  | allocate size =>
    intro b hb
    obtain rfl : (⟨s.1, size⟩ : PoolBlock) = b := Option.some.inj hb
    exact ⟨rfl, fun howns => absurd (h _ howns) (Nat.lt_irrefl _)⟩
  | lookupProcess pid =>
    by_cases hpid : (onlyProcess pid).isSome = true
    · simp only [kernel, if_pos hpid]
      rfl
    · simp only [kernel, if_neg hpid]
      rfl
  | openObject p => rfl
  | queryImage ph buffer size =>
    cases buffer with
    | none => trivial
    | some b =>
      intro hok
      by_cases hsize : 20 ≤ b.size
      · simp only [kernel, if_pos hsize]
        refine ⟨by omega, fun off hoff => ?_⟩
        obtain rfl : 16 = off := Option.some.inj hoff
        exact hsize
      · simp only [kernel, if_neg hsize] at hok
        cases hok
  | free b | touch b off len | close ph | dereference p | isTracked pid | startsWithAnyRoot i
  | classify pid ppid i => trivial

theorem kernel_blocks (s : Nat × KnfcTrackCtx) (g : Holding) (op : SnapshotOp)
    (h : ∀ b, g.Owns b → b.id < s.1) :
    ∀ b, (oneTerms.after g op (kernel s op).1).Owns b → b.id < (kernel s op).2.1 := by
  intro b hb
  cases op with
  | querySystem buffer size =>
    cases buffer with
    | none => exact h b hb
    | some filled =>
      have hheld (answer : SystemAnswer) :
          (oneTerms.after g (.querySystem (some filled) size) answer).held = g.held := by
        show (if ntSuccess answer.status then { g with listing := some answer.content } else g).held
          = g.held
        split <;> rfl
      rw [Holding.Owns, hheld] at hb
      exact h b hb
  | allocate size =>
    rcases Multiset.mem_cons.mp hb with hnew | hold
    · rw [KernelThing.block.inj hnew]
      exact Nat.lt_succ_self s.1
    · exact Nat.lt_succ_of_lt (h b hold)
  | lookupProcess pid =>
    refine h b ?_
    by_cases hpid : (onlyProcess pid).isSome = true
    · simp only [kernel, if_pos hpid] at hb
      exact (Multiset.mem_cons.mp hb).resolve_left nofun
    · rw [kernel, if_neg hpid] at hb
      exact hb
  | openObject p => exact h b ((Multiset.mem_cons.mp hb).resolve_left nofun)
  | queryImage ph buffer size => cases buffer <;> exact h b hb
  | free b' => exact h b (Multiset.mem_of_mem_erase hb)
  | close ph => exact h b (Multiset.mem_of_mem_erase hb)
  | dereference p => exact h b (Multiset.mem_of_mem_erase hb)
  | touch b' off len => exact h b hb
  | isTracked pid => exact h b hb
  | startsWithAnyRoot i => exact h b hb
  | classify pid ppid i => exact h b hb

/-- The snapshot of that kernel's world. -/
def oneRun : List (Exchange SnapshotOp SnapshotOp.Answer) × Option NtStatus :=
  knFcTrackSnapshot.drive kernel (0, startedTable)

theorem oneRun_quiet : (oneTerms.final ⟨0, startedTable, none, True⟩ oneRun.1).quiet := by
  and_intros <;> trivial

theorem snapshot_memory_runs_one :
    (oneTerms.final ⟨0, startedTable, none, True⟩ oneRun.1).quiet ∧
      oneTerms.Legal ⟨0, startedTable, none, True⟩ oneRun.1 ∧
      SnapshotEnd id EventSystem.eventConfig onlyProcess 0 startedTable oneRun.2
        (oneTerms.final ⟨0, startedTable, none, True⟩ oneRun.1) := by
  have hnone : ∀ b, (⟨0, startedTable, none, True⟩ : Holding).Owns b → b.id < 0 :=
    fun b hb => absurd hb (Multiset.notMem_zero _)
  have hhonest : oneTerms.Honest ⟨0, startedTable, none, True⟩ oneRun.1 :=
    honest_drive (I := fun s g => ∀ b, g.Owns b → b.id < s.1)
      (fun s g op h => ⟨kernel_promises s g op h, kernel_blocks s g op h⟩) _ hnone
  exact ⟨oneRun_quiet, snapshot_memory_runs _ _ _ 0 startedTable _ _ (runs_drive _ _ _) hhonest⟩

end Runs

end KnFileCatcher.SnapshotMemory

import KnFileCatcher.SnapshotMemory

/-! What the calls of the snapshot ask for and give back, and what its parts leave held. -/

namespace KnFileCatcher.SnapshotMemory

open Custody Program Terms

section Custody

def recordAt (content : List Byte) (off : Nat) : KnfcSystemProcessInformation where
  createTime := (LittleEndian.readWord 8 (off + 32) content).toInt
  uniqueProcessId := uniqueProcessId content off
  inheritedFromUniqueProcessId := inheritedFromUniqueProcessId content off

/-- The records of a buffer from an offset on, each within it. -/
inductive Listed (content : List Byte) : Nat → List KnfcSystemProcessInformation → Prop where
  | last {off : Nat} (hfits : off + 96 ≤ content.length) (hend : nextEntryOffset content off = 0) :
      Listed content off [recordAt content off]
  | next {off : Nat} {records : List KnfcSystemProcessInformation}
      (hfits : off + 96 ≤ content.length) (hmore : nextEntryOffset content off ≠ 0)
      (hrest : Listed content (off + (nextEntryOffset content off).toNat) records) :
      Listed content off (recordAt content off :: records)

/-- What the snapshot holds, the table it works on, and the buffer that the system query has
filled. The answers were those of a world where nothing else happens as long as it is
`quiet`. -/
structure Holding where
  held : Multiset KernelThing
  table : KnfcTrackCtx
  listing : Option (List Byte)
  quiet : Prop

def Holding.take (g : Holding) (x : KernelThing) : Holding := { g with held := x ::ₘ g.held }
def Holding.give (g : Holding) (x : KernelThing) : Holding := { g with held := g.held.erase x }
def Holding.agree (g : Holding) (p : Prop) : Holding := { g with quiet := g.quiet ∧ p }

def Holding.Owns (g : Holding) (b : PoolBlock) : Prop := .block b ∈ g.held

def ImagePath.Held (image : ImagePath) (g : Holding) : Prop :=
  ∀ b ∈ image.buffer, g.Owns b ∧ image.path.length ≤ b.size

def legalCall (g : Holding) : SnapshotOp → Prop
  | .querySystem buffer size => ∀ b ∈ buffer, g.Owns b ∧ size.toNat ≤ b.size
  | .allocate _ | .lookupProcess _ | .isTracked _ => True
  | .free b => g.Owns b
  | .touch b off len => g.Owns b ∧ off + len ≤ b.size
  | .openObject p | .dereference p => .process p ∈ g.held
  | .queryImage h buffer size =>
    .handle h ∈ g.held ∧ ∀ b ∈ buffer, g.Owns b ∧ size.toNat ≤ b.size
  | .close h => .handle h ∈ g.held
  | .startsWithAnyRoot image => image.Held g
  | .classify _ _ image => ∀ i ∈ image, i.Held g

/-- The documented behaviour of the kernel: a successful query fills its buffer with a finite
chain of records inside it, a new block is new and as large as asked for, a status without an
object is an error, and what fits into a buffer lies within it. -/
def promisedAnswer (g : Holding) : (op : SnapshotOp) → op.Answer → Prop
  | .querySystem (some b) _, answer => ntSuccess answer.status = true →
      answer.content.length = b.size ∧ ∃ records, Listed answer.content 0 records
  | .allocate size, answer => ∀ b ∈ answer, b.size = size ∧ ¬ g.Owns b
  | .lookupProcess _, .error status => ntSuccess status = false
  | .lookupProcess pid, .ok p => p.pid = pid
  | .openObject _, .error status => ntSuccess status = false
  | .openObject p, .ok h => h.process = p
  | .queryImage _ (some b) _, answer => ntSuccess answer.status = true →
      16 ≤ b.size ∧ ∀ off ∈ answer.buffer, off + answer.name.length ≤ b.size
  | _, _ => True

variable (up : Wchar → Wchar) (cfg : KnfcConfig) (world : Handle → Option UnicodeString)

/-- `world` names the images of the processes that there are. -/
def afterCall (g : Holding) : (op : SnapshotOp) → op.Answer → Holding
  | .querySystem none _, _ => g
  | .querySystem (some _) _, answer =>
    if ntSuccess answer.status then { g with listing := some answer.content } else g
  | .allocate _, none => g.agree False
  | .allocate _, some b => g.take (.block b)
  | .free b, _ => g.give (.block b)
  | .touch _ _ _, _ => g
  | .lookupProcess pid, .error _ => g.agree (world pid = none)
  | .lookupProcess pid, .ok p => (g.take (.process p)).agree ((world pid).isSome = true)
  | .openObject _, .error _ => g.agree False
  | .openObject _, .ok h => g.take (.handle h)
  | .queryImage h none _, answer =>
    g.agree (answer.status = statusInfoLengthMismatch ∧
      ∀ name ∈ world h.process.pid, answer.needed.toNat = 16 + name.length)
  | .queryImage h (some _) _, answer =>
    g.agree (ntSuccess answer.status = true ∧ answer.buffer.isSome = true ∧
      ∀ name ∈ world h.process.pid, answer.name = name)
  | .close h, _ => g.give (.handle h)
  | .dereference p, _ => g.give (.process p)
  | .isTracked pid, answer => g.agree (answer = (KnFileCatcher.knFcTrackIsTracked g.table pid).isSome)
  | .startsWithAnyRoot image, answer =>
    g.agree (answer = KnFileCatcher.knFcConfigPathStartsWithAnyRoot up cfg image.path)
  | .classify pid ppid image, _ =>
    { g with table := (KnFileCatcher.knFcClassifyAndInsert up cfg .ok g.table pid ppid
        (image.map ImagePath.path) knFcTrackFromSnap).1 }

def terms : Terms SnapshotOp SnapshotOp.Answer Holding where
  legal := legalCall
  promised := promisedAnswer
  after := afterCall up cfg world

/-- What the image lookup finds in that world. -/
def shownName (name : UnicodeString) : Option UnicodeString :=
  if 64 * 1024 < 16 + name.length ∨ name.length = 0 then none else some name

def imageIn (pid : Handle) : Option UnicodeString := (world pid).bind shownName

end Custody

section Image

def ImagePath.things (image : ImagePath) : Multiset KernelThing :=
  match image.buffer with
  | none => 0
  | some b => {.block b}

def found (r : NtStatus × ImagePath) : Option UnicodeString :=
  if ntSuccess r.1 then some r.2.path else none

theorem found_success (image : ImagePath) : found (statusSuccess, image) = some image.path :=
  if_pos (show ntSuccess statusSuccess = true by decide)

/-- A lookup leaves the block of the path held, and nothing else; `p` is known of it in a
quiet world. -/
structure Looked (g : Holding) (p : Prop) (r : NtStatus × ImagePath) (g' : Holding) : Prop where
  held : g'.held = r.2.things + g.held
  table : g'.table = g.table
  listing : g'.listing = g.listing
  fits : ∀ b ∈ r.2.buffer, r.2.path.length ≤ b.size
  quiet : g'.quiet → g.quiet ∧ p

variable {up : Wchar → Wchar} {cfg : KnfcConfig} {world : Handle → Option UnicodeString}
  {g : Holding} {h : ProcessHandle}

theorem Looked.failed {p : Prop} {g' : Holding} {status : NtStatus} (hheld : g'.held = g.held)
    (htable : g'.table = g.table) (hlisting : g'.listing = g.listing)
    (hquiet : g'.quiet → g.quiet ∧ p) : Looked g p (status, .null) g' where
  held := hheld.trans (zero_add _).symm
  table := htable
  listing := hlisting
  fits := fun _ hb => nomatch hb
  quiet := hquiet

theorem wp_copyImagePath {buffer : PoolBlock} {needed : Ulong} (hh : .handle h ∈ g.held)
    (hb : g.Owns buffer) (hsize : needed.toNat ≤ buffer.size) :
    (terms up cfg world).wp (copyImagePath h buffer needed) g fun r g' =>
      Looked g (∀ name ∈ world h.process.pid,
        found r = if name.length = 0 then none else some name) r g' := by
  refine wp_call ⟨hh, fun b hbuffer => ?_⟩ fun answer hanswer => ?_
  · obtain rfl : buffer = b := by simpa using hbuffer
    exact ⟨hb, hsize⟩
  refine wp_ite (fun hfail => ?_) fun hok => ?_
  · refine Looked.failed rfl rfl rfl fun hq => ?_
    exact absurd (hfail.symm.trans hq.2.1) Bool.false_ne_true
  obtain ⟨hheader, hplace⟩ := hanswer (by simpa using hok)
  refine wp_call ⟨hb, by omega⟩ fun _ _ => ?_
  cases hoff : answer.buffer with
  | none =>
    refine Looked.failed rfl rfl rfl fun hq => ?_
    have hsome : answer.buffer.isSome = true := hq.2.2.1
    rw [hoff] at hsome
    cases hsome
  | some off =>
    refine wp_ite (fun hzero => ?_) fun hlen => ?_
    · refine Looked.failed rfl rfl rfl fun hq => ⟨hq.1, fun name hname => ?_⟩
      rw [← hq.2.2.2 name hname, if_pos hzero]
      rfl
    refine wp_call trivial fun copy hcopy => ?_
    cases copy with
    | none => exact Looked.failed rfl rfl rfl fun hq => hq.2.elim
    | some copy =>
      obtain ⟨hnew, -⟩ := hcopy copy rfl
      refine wp_call ⟨Multiset.mem_cons_of_mem hb, hplace off hoff⟩ fun _ _ => ?_
      refine wp_call ⟨Multiset.mem_cons_self _ _, by omega⟩ fun _ _ => ?_
      refine ⟨rfl, rfl, rfl, fun b hcopy => ?_, fun hq => ⟨hq.1, fun name hname => ?_⟩⟩
      · obtain rfl : copy = b := by simpa using hcopy
        exact hnew.ge
      · rw [found_success, ← hq.2.2.2 name hname, if_neg hlen]

theorem wp_queryImagePath (hh : .handle h ∈ g.held) :
    (terms up cfg world).wp (queryImagePath h) g fun r g' =>
      Looked g (∀ name ∈ world h.process.pid, found r = shownName name) r g' := by
  refine wp_call ⟨hh, fun b hb => nomatch hb⟩ fun probe _ => ?_
  refine wp_ite (fun hstatus => ?_) fun _ => ?_
  · exact Looked.failed rfl rfl rfl fun hq => absurd hq.2.1 hstatus.1
  refine wp_ite (fun hneeded => ?_) fun hneeded => ?_
  · refine Looked.failed rfl rfl rfl fun hq => ⟨hq.1, fun name hname => ?_⟩
    have hsize := hq.2.2 name hname
    have hlarge : 64 * 1024 < 16 + name.length := by
      rcases hneeded with hzero | hlarge
      · have hnat : probe.needed.toNat = 0 := congrArg BitVec.toNat hzero
        omega
      · omega
    rw [shownName, if_pos (.inl hlarge)]
    rfl
  refine wp_call trivial fun buffer hbuffer => ?_
  cases buffer with
  | none => exact Looked.failed rfl rfl rfl fun hq => hq.2.elim
  | some buffer =>
    obtain ⟨hsize, hnew⟩ := hbuffer buffer rfl
    refine wp_bind ((wp_copyImagePath (Multiset.mem_cons_of_mem hh) (Multiset.mem_cons_self _ _)
      hsize.ge).mono fun r g' hlooked => ?_)
    have hheld : g'.held = r.2.things + .block buffer ::ₘ g.held := hlooked.held
    refine wp_call ?_ fun _ _ => ?_
    · show KernelThing.block buffer ∈ g'.held
      rw [hheld]
      exact Multiset.mem_add.mpr (.inr (Multiset.mem_cons_self _ _))
    refine ⟨?_, hlooked.table, hlooked.listing, hlooked.fits, fun hq => ?_⟩
    · show g'.held.erase (.block buffer) = r.2.things + g.held
      rw [hheld, Multiset.add_cons, Multiset.erase_cons_head]
    · obtain ⟨hprobe, hfound⟩ := hlooked.quiet hq
      refine ⟨hprobe.1, fun name hname => ?_⟩
      have hfits : ¬ 64 * 1024 < 16 + name.length := by
        have hneed := hprobe.2.2 name hname
        have hsmall := (not_or.mp hneeded).2
        omega
      rw [hfound name hname, shownName]
      simp only [hfits, false_or]

theorem wp_getImagePathByPid {pid : Handle} (hpid : pid ≠ 0) :
    (terms up cfg world).wp (knFcUtilGetImagePathByPid pid) g fun r g' =>
      Looked g (found r = imageIn world pid) r g' := by
  rw [knFcUtilGetImagePathByPid, if_neg hpid]
  refine wp_call trivial fun process hprocess => ?_
  cases process with
  | error status =>
    refine Looked.failed rfl rfl rfl fun hq => ⟨hq.1, ?_⟩
    have hstatus : ntSuccess status = false := hprocess
    rw [imageIn, hq.2, found, hstatus]
    rfl
  | ok process =>
    refine wp_call (Multiset.mem_cons_self _ _) fun handle hhandle => ?_
    cases handle with
    | error status =>
      refine wp_call (Multiset.mem_cons_self _ _) fun _ _ => ?_
      refine Looked.failed ?_ rfl rfl fun hq => hq.2.elim
      exact Multiset.erase_cons_head _ _
    | ok h =>
      have hof : h.process.pid = pid := by
        rw [show h.process = process from hhandle]
        exact hprocess
      refine wp_bind ((wp_queryImagePath (Multiset.mem_cons_self _ _)).mono
        fun r g' hlooked => ?_)
      have hheld : g'.held = .handle h ::ₘ .process process ::ₘ (r.2.things + g.held) := by
        rw [hlooked.held, ← Multiset.add_cons, ← Multiset.add_cons]
        rfl
      refine wp_call ?_ fun _ _ => wp_call ?_ fun _ _ => ?_
      · show KernelThing.handle h ∈ g'.held
        rw [hheld]
        exact Multiset.mem_cons_self _ _
      · show KernelThing.process process ∈ g'.held.erase (.handle h)
        rw [hheld, Multiset.erase_cons_head]
        exact Multiset.mem_cons_self _ _
      · refine ⟨?_, hlooked.table, hlooked.listing, hlooked.fits, fun hq => ?_⟩
        · show (g'.held.erase (.handle h)).erase (.process process) = _
          rw [hheld, Multiset.erase_cons_head, Multiset.erase_cons_head]
        · obtain ⟨⟨hquiet, hsome⟩, hfound⟩ := hlooked.quiet hq
          obtain ⟨name, hname⟩ := Option.isSome_iff_exists.mp hsome
          rw [hof] at hfound
          rw [imageIn, hname, hfound name hname]
          exact ⟨hquiet, rfl⟩

theorem wp_freeImagePath {image : ImagePath} {H : Multiset KernelThing}
    (hheld : g.held = image.things + H) :
    (terms up cfg world).wp (knFcUtilFreeImagePath image) g fun _ g' =>
      g' = { g with held := H } := by
  cases hb : image.buffer with
  | none =>
    rw [ImagePath.things, hb, zero_add] at hheld
    rw [knFcUtilFreeImagePath, hb, ← hheld]
    rfl
  | some b =>
    rw [ImagePath.things, hb, Multiset.singleton_add] at hheld
    rw [knFcUtilFreeImagePath, hb]
    refine ⟨?_, fun _ _ => ?_⟩
    · show KernelThing.block b ∈ g.held
      rw [hheld]
      exact Multiset.mem_cons_self _ _
    · show g.give (.block b) = _
      rw [Holding.give, hheld, Multiset.erase_cons_head]

end Image

end KnFileCatcher.SnapshotMemory

import KnFileCatcher.MessageMemory
import KnFileCatcher.Recency
import KnFileCatcher.Runs

/-! The memory of message identifiers over a sequence of calls. Repeated calls do not
move an identifier, so the memory forgets in the order of arrival. -/

namespace KnFileCatcher

open Recency Runs

section Calls

/-- The memory beside the calls so far, newest first. -/
structure CallHistory where
  memory : MessageMemory
  past : List Ulonglong

def CallHistory.init : CallHistory := ⟨⟨∅, []⟩, []⟩

def rememberCall (s : CallHistory) (msgId : Ulonglong) : Option CallHistory :=
  (rememberMsgId s.memory msgId).map fun r => ⟨r.2, msgId :: s.past⟩

def CallHistory.nonZero (s : CallHistory) : List Ulonglong := s.past.filter (· ≠ 0)

theorem rememberCall_cases {s t : CallHistory} {msgId : Ulonglong}
    (h : rememberCall s msgId = some t) :
    ∃ fresh, RememberCase s.memory msgId fresh t.memory ∧ t.past = msgId :: s.past := by
  obtain ⟨⟨fresh, m⟩, hm, rfl⟩ := Option.map_eq_some_iff.mp h
  exact ⟨fresh, rememberMsgId_case hm, rfl⟩

theorem listed_rememberCall {s t : CallHistory} {msgId : Ulonglong} (hs : s.memory.Listed)
    (h : rememberCall s msgId = some t) : t.memory.Listed := by
  obtain ⟨fresh, hcase, -⟩ := rememberCall_cases h
  exact hcase.listed hs

theorem listed_callHistory_init : CallHistory.init.memory.Listed :=
  ⟨List.nodup_nil, fun _ => Iff.rfl⟩

end Calls

section LeastRecentlyUsed

/-- A call with an identifier that is recent among the non-zero ones answers false. -/
def CallHistory.DropsRecent (s : CallHistory) : Prop :=
  ∀ msgId, Recent seenMsgCap s.nonZero msgId → ∃ m, rememberMsgId s.memory msgId = some (false, m)

/-- If the call makes room for a new identifier, the oldest in the queue is not recent. -/
def EvictsNoRecent (s : CallHistory) (msgId : Ulonglong) : Prop :=
  msgId ≠ 0 → msgId ∉ s.memory.ids → seenMsgCap ≤ s.memory.ids.card →
    ∀ evict ∈ s.memory.order.head?, ¬ Recent seenMsgCap (msgId :: s.nonZero) evict

theorem ne_zero_of_recent {s : CallHistory} {msgId : Ulonglong}
    (h : Recent seenMsgCap s.nonZero msgId) : msgId ≠ 0 := by
  simpa using (List.mem_filter.mp h.1).2

theorem dropsRecent_iff {s : CallHistory} :
    s.DropsRecent ↔ ∀ msgId, Recent seenMsgCap s.nonZero msgId → msgId ∈ s.memory.ids :=
  forall_congr' fun _ => forall_congr' fun h => rememberMsgId_false_iff (ne_zero_of_recent h)

/-- A memory that drops what is recent holds all that a least recently used one would. -/
theorem dropsRecent_iff_remembered {s : CallHistory} :
    s.DropsRecent ↔ ∀ msgId ∈ remembered seenMsgCap s.nonZero, msgId ∈ s.memory.ids := by
  rw [dropsRecent_iff]
  exact forall_congr' fun _ => imp_congr_left mem_remembered_iff.symm

theorem dropsRecent_init : CallHistory.init.DropsRecent := by
  intro msgId h
  exact absurd h.1 (by simp [CallHistory.nonZero, CallHistory.init])

theorem nonZero_of_zero {s t : CallHistory} (hpast : t.past = 0 :: s.past) :
    t.nonZero = s.nonZero := by
  simp [CallHistory.nonZero, hpast]

theorem nonZero_of_ne {s t : CallHistory} {msgId : Ulonglong} (h0 : msgId ≠ 0)
    (hpast : t.past = msgId :: s.past) : t.nonZero = msgId :: s.nonZero := by
  rw [CallHistory.nonZero, hpast, List.filter_cons_of_pos (by simpa using h0)]
  rfl

/-- A call keeps what is recent known just if it evicts nothing recent. -/
theorem evictsNoRecent_iff {s t : CallHistory} {msgId : Ulonglong} (hs : s.memory.Listed)
    (hdrops : s.DropsRecent) (h : rememberCall s msgId = some t) :
    EvictsNoRecent s msgId ↔ t.DropsRecent := by
  rw [dropsRecent_iff] at hdrops ⊢
  obtain ⟨fresh, hcase, hpast⟩ := rememberCall_cases h
  have hpassed {x : Ulonglong} (hr : Recent seenMsgCap (msgId :: s.nonZero) x) :
      x = msgId ∨ x ∈ s.memory.ids := by
    by_cases hx : x = msgId
    · exact Or.inl hx
    · exact Or.inr (hdrops x (hr.of_cons hx))
  generalize hm : t.memory = m at hcase
  cases hcase with
  | zero h0 =>
    subst h0
    rw [nonZero_of_zero hpast]
    exact iff_of_true (fun h => absurd rfl h) hdrops
  | known h0 hmem =>
    refine iff_of_true (fun _ hnot => absurd hmem hnot) fun x hr => ?_
    rw [nonZero_of_ne h0 hpast] at hr
    rcases hpassed hr with rfl | hx
    · exact hmem
    · exact hx
  | added h0 hmem hroom =>
    refine iff_of_true (fun _ _ hfull => absurd hroom (Nat.not_lt.mpr hfull)) fun x hr => ?_
    rw [nonZero_of_ne h0 hpast] at hr
    exact Finset.mem_insert.mpr (hpassed hr)
  | evicted h0 hmem hfull evict order horder =>
    have hevict : evict ∈ s.memory.ids := (hs.mem evict).mp (horder ▸ List.mem_cons_self)
    have hne : evict ≠ msgId := fun he => hmem (he ▸ hevict)
    have hok : EvictsNoRecent s msgId ↔ ¬ Recent seenMsgCap (msgId :: s.nonZero) evict := by
      constructor
      · exact fun hall => hall h0 hmem hfull evict (by simp [horder])
      · intro hnot _ _ _ first hfirst
        obtain rfl : evict = first := by simpa [horder] using hfirst
        exact hnot
    rw [hok, nonZero_of_ne h0 hpast]
    constructor
    · intro hnot x hr
      have hxe : x ≠ evict := fun he => hnot (he ▸ hr)
      exact Finset.mem_insert.mpr ((hpassed hr).imp_right fun hx => Finset.mem_erase.mpr ⟨hxe, hx⟩)
    · intro hall hr
      have hgone := hall evict hr
      simp [hne] at hgone

/-- Recent identifiers are dropped all through a sequence of calls exactly if none of
its calls evicts a recent one. -/
theorem drops_recent_iff_evicts_no_recent (msgIds : List Ulonglong) :
    Guarded rememberCall EvictsNoRecent .init msgIds ↔
      Always rememberCall CallHistory.DropsRecent .init msgIds := by
  refine guarded_iff_always (I := fun s => s.memory.Listed)
    (fun _ _ _ hs h => listed_rememberCall hs h)
    (fun _ _ _ hs hd h => evictsNoRecent_iff hs hd h) ?_ msgIds listed_callHistory_init
    dropsRecent_init
  intro s msgId h h0 hmem hfull evict hevict
  have hnone : rememberMsgId s.memory msgId = none := Option.map_eq_none_iff.mp h
  rw [rememberMsgId, if_neg h0, if_neg hmem, if_pos hfull] at hnone
  cases horder : s.memory.order with
  | nil => simp [horder] at hevict
  | cons first order => simp [horder] at hnone

end LeastRecentlyUsed

section Oldest

theorem rememberCall_known {s : CallHistory} {msgId : Ulonglong} (h0 : msgId ≠ 0)
    (hmem : msgId ∈ s.memory.ids) :
    rememberCall s msgId = some ⟨s.memory, msgId :: s.past⟩ := by
  rw [rememberCall, rememberMsgId_known h0 hmem]
  rfl

/-- Different identifiers are all kept while there is room. -/
theorem exec_distinct {msgIds : List Ulonglong} (hnodup : msgIds.Nodup) (h0 : 0 ∉ msgIds)
    (hroom : msgIds.length ≤ seenMsgCap) :
    exec rememberCall .init msgIds = some ⟨⟨msgIds.toFinset, msgIds⟩, msgIds.reverse⟩ := by
  induction msgIds using List.reverseRecOn with
  | nil => rfl
  | append_singleton msgIds msgId ih =>
    obtain ⟨hbefore, -, hnew⟩ := List.nodup_append.mp hnodup
    have hmem : msgId ∉ msgIds := fun h => hnew msgId h msgId (List.mem_singleton_self msgId) rfl
    have hlen : msgIds.length < seenMsgCap := by simpa using hroom
    have hexec := ih hbefore (fun h => h0 (List.mem_append_left _ h)) hlen.le
    have hne : msgId ≠ 0 := by
      rintro rfl
      exact h0 (List.mem_append_right _ (List.mem_singleton_self 0))
    have hcard : msgIds.toFinset.card < seenMsgCap := by
      rwa [List.toFinset_card_of_nodup hbefore]
    have hids : insert msgId msgIds.toFinset = (msgIds ++ [msgId]).toFinset := by
      ext x
      simp
    refine exec_trans hexec ?_
    rw [exec, rememberCall, rememberMsgId_added hne (by simpa using hmem) hcard, hids,
      List.reverse_append]
    rfl

/-- In a full memory the oldest identifier is forgotten at the next new one, called
again just before or not. -/
theorem oldest_forgotten {s : CallHistory} (hs : s.memory.Listed) {oldest new : Ulonglong}
    {order : List Ulonglong} (hfull : s.memory.ids.card = seenMsgCap)
    (horder : s.memory.order = oldest :: order) (hoz : oldest ≠ 0) (h0 : new ≠ 0)
    (hnew : new ∉ s.memory.ids) :
    ∃ t, exec rememberCall s [oldest, new] = some t ∧ Recent seenMsgCap t.nonZero oldest ∧
      ∃ m, rememberMsgId t.memory oldest = some (true, m) := by
  have hmem : oldest ∈ s.memory.ids := (hs.mem oldest).mp (horder ▸ List.mem_cons_self)
  have hne : new ≠ oldest := by
    rintro rfl
    exact hnew hmem
  refine ⟨⟨⟨insert new (s.memory.ids.erase oldest), order ++ [new]⟩, new :: oldest :: s.past⟩,
    ?_, ?_, ?_⟩
  · rw [exec, rememberCall_known hoz hmem, Option.bind_some, exec, rememberCall,
      rememberMsgId_evicted h0 hnew hfull.ge horder]
    rfl
  · rw [nonZero_of_ne h0 (s := ⟨s.memory, oldest :: s.past⟩) rfl, nonZero_of_ne hoz (s := s) rfl]
    refine ⟨List.mem_cons_of_mem new List.mem_cons_self, ?_⟩
    rw [since_cons_of_ne hne, since_cons_self, List.toFinset_cons, List.toFinset_nil,
      insert_empty_eq, Finset.card_singleton]
    decide
  · have hgone : oldest ∉ insert new (s.memory.ids.erase oldest) := by simp [Ne.symm hne]
    have hcard : (insert new (s.memory.ids.erase oldest)).card = seenMsgCap := by
      rw [Finset.card_insert_of_notMem (fun h => hnew (Finset.mem_of_mem_erase h)),
        Finset.card_erase_of_mem hmem, hfull]
      rfl
    obtain ⟨evict, rest, hrest⟩ := List.exists_cons_of_ne_nil
      (List.append_ne_nil_of_right_ne_nil order (List.cons_ne_nil new []))
    exact ⟨_, rememberMsgId_evicted (m := ⟨_, _⟩) hoz hgone hcard.ge hrest⟩

/-- The memory is filled, its first identifier comes again, and then a new one. -/
theorem first_forgotten {first new : Ulonglong} {msgIds : List Ulonglong}
    (hnodup : (first :: msgIds).Nodup) (hzero : 0 ∉ first :: msgIds)
    (hlength : (first :: msgIds).length = seenMsgCap) (h0 : new ≠ 0)
    (hnew : new ∉ first :: msgIds) :
    ∃ t, exec rememberCall .init (first :: msgIds ++ [first, new]) = some t ∧
      Recent seenMsgCap t.nonZero first ∧ ∃ m, rememberMsgId t.memory first = some (true, m) := by
  have hfill := exec_distinct hnodup hzero hlength.le
  have hs := exec_invariant (I := fun s => s.memory.Listed)
    (fun _ _ _ hi h => listed_rememberCall hi h) hfill listed_callHistory_init
  have hfirst : first ≠ 0 := by
    rintro rfl
    exact hzero List.mem_cons_self
  have hcard : (first :: msgIds).toFinset.card = seenMsgCap := by
    rw [List.toFinset_card_of_nodup hnodup, hlength]
  obtain ⟨t, ht, hrecent, hforgotten⟩ :=
    oldest_forgotten hs hcard rfl hfirst h0 (mt List.mem_toFinset.mp hnew)
  exact ⟨t, exec_trans hfill ht, hrecent, hforgotten⟩

/-- The identifiers 2 to 4096. -/
def laterMsgIds : List Ulonglong := (List.range 4095).map fun i => BitVec.ofNat 64 (i + 2)

theorem laterMsgIds_nodup : laterMsgIds.Nodup := by
  refine List.Nodup.map_on ?_ List.nodup_range
  intro i hi j hj h
  have hi' := List.mem_range.mp hi
  have hj' := List.mem_range.mp hj
  have hval := congrArg BitVec.toNat h
  simp only [BitVec.toNat_ofNat] at hval
  omega

theorem toNat_of_mem_laterMsgIds {x : Ulonglong} (h : x ∈ laterMsgIds) :
    2 ≤ x.toNat ∧ x.toNat ≤ 4096 := by
  obtain ⟨i, hi, rfl⟩ := List.mem_map.mp h
  have hi' := List.mem_range.mp hi
  simp only [BitVec.toNat_ofNat]
  omega

theorem redelivered_after_4097 :
    ∃ t, exec rememberCall .init (1 :: laterMsgIds ++ [1, 4097]) = some t ∧
      Recent seenMsgCap t.nonZero 1 ∧ ∃ m, rememberMsgId t.memory 1 = some (true, m) := by
  have hone : (1 : Ulonglong) ∉ laterMsgIds := fun h =>
    absurd (toNat_of_mem_laterMsgIds h).1 (by decide)
  have hzero : (0 : Ulonglong) ∉ laterMsgIds := fun h =>
    absurd (toNat_of_mem_laterMsgIds h).1 (by decide)
  have hnew : (4097 : Ulonglong) ∉ laterMsgIds := fun h =>
    absurd (toNat_of_mem_laterMsgIds h).2 (by decide)
  have hlength : laterMsgIds.length = 4095 := by
    rw [laterMsgIds, List.length_map, List.length_range]
  refine first_forgotten (List.nodup_cons.mpr ⟨hone, laterMsgIds_nodup⟩) ?_ ?_ (by decide) ?_
  · exact List.not_mem_cons_of_ne_of_not_mem (by decide) hzero
  · rw [List.length_cons, hlength]
    rfl
  · exact List.not_mem_cons_of_ne_of_not_mem (by decide) hnew

end Oldest

section Window

/-- The memory beside the answers so far, newest first. -/
structure AnsweredCalls where
  memory : MessageMemory
  answers : List (Ulonglong × Bool)

def AnsweredCalls.init : AnsweredCalls := ⟨⟨∅, []⟩, []⟩

def answeredCall (s : AnsweredCalls) (msgId : Ulonglong) : Option AnsweredCalls :=
  (rememberMsgId s.memory msgId).map fun r => ⟨r.2, (msgId, r.1) :: s.answers⟩

/-- The non-zero identifiers that were answered true. -/
def AnsweredCalls.accepted (s : AnsweredCalls) : List Ulonglong :=
  (s.answers.filter fun a => a.2 && decide (a.1 ≠ 0)).map Prod.fst

/-- The queue is the window of what was accepted last, and the set is its members. -/
structure AnsweredCalls.InWindow (s : AnsweredCalls) : Prop where
  order : s.memory.order = arrivals seenMsgCap s.accepted
  listed : s.memory.Listed
  nonZero : 0 ∉ s.memory.order

theorem inWindow_init : AnsweredCalls.init.InWindow :=
  ⟨rfl, ⟨List.nodup_nil, fun _ => Iff.rfl⟩, List.not_mem_nil⟩

theorem AnsweredCalls.InWindow.card {s : AnsweredCalls} (h : s.InWindow) :
    s.memory.ids.card = min seenMsgCap s.accepted.length := by
  rw [h.listed.card, h.order, length_arrivals]

theorem AnsweredCalls.accepted_cons {s t : AnsweredCalls} {msgId : Ulonglong} (h0 : msgId ≠ 0)
    (h : t.answers = (msgId, true) :: s.answers) : t.accepted = msgId :: s.accepted := by
  rw [AnsweredCalls.accepted, h, List.filter_cons_of_pos (by simpa using h0)]
  rfl

theorem zero_not_mem_snoc {order : List Ulonglong} {msgId : Ulonglong} (h : 0 ∉ order)
    (h0 : msgId ≠ 0) : 0 ∉ order ++ [msgId] := by
  intro hmem
  rcases List.mem_append.mp hmem with hold | hnew
  · exact h hold
  · exact h0 (List.mem_singleton.mp hnew).symm

theorem inWindow_answeredCall {s t : AnsweredCalls} {msgId : Ulonglong} (hs : s.InWindow)
    (h : answeredCall s msgId = some t) : t.InWindow := by
  obtain ⟨⟨fresh, m⟩, hm, rfl⟩ := Option.map_eq_some_iff.mp h
  have hcase := rememberMsgId_case hm
  have hlisted := hcase.listed hs.listed
  cases hcase with
  | zero h0 => exact ⟨by simpa [AnsweredCalls.accepted, h0] using hs.order, hlisted, hs.nonZero⟩
  | known h0 hmem => exact ⟨by simpa [AnsweredCalls.accepted] using hs.order, hlisted, hs.nonZero⟩
  | evicted h0 hmem hfull evict order horder =>
    have hlen : seenMsgCap ≤ s.accepted.length := by
      rw [hs.card] at hfull
      omega
    have hrest : order = (arrivals seenMsgCap s.accepted).tail := by
      rw [← hs.order, horder, List.tail_cons]
    refine ⟨?_, hlisted, zero_not_mem_snoc (fun hmem => hs.nonZero ?_) h0⟩
    · rw [AnsweredCalls.accepted_cons h0 rfl, arrivals_cons_of_le (by decide) hlen, ← hrest]
    · rw [horder]
      exact List.mem_cons_of_mem evict hmem
  | added h0 hmem hroom =>
    have hlen : s.accepted.length < seenMsgCap := by
      rw [hs.card] at hroom
      omega
    refine ⟨?_, hlisted, zero_not_mem_snoc hs.nonZero h0⟩
    rw [AnsweredCalls.accepted_cons h0 rfl, arrivals_cons_of_lt hlen, ← hs.order]

theorem AnsweredCalls.InWindow.exec {s : AnsweredCalls} (hs : s.InWindow)
    (msgIds : List Ulonglong) : ∃ t, exec answeredCall s msgIds = some t ∧ t.InWindow := by
  induction msgIds generalizing s with
  | nil => exact ⟨s, rfl, hs⟩
  | cons msgId msgIds ih =>
    have hstep : ∃ u, answeredCall s msgId = some u := by
      rcases rememberMsgId_cases hs.listed msgId with ⟨-, -, hm⟩ | ⟨-, m, hm, -⟩
      · exact ⟨_, Option.map_eq_some_iff.mpr ⟨_, hm, rfl⟩⟩
      · exact ⟨_, Option.map_eq_some_iff.mpr ⟨_, hm, rfl⟩⟩
    obtain ⟨u, hu⟩ := hstep
    obtain ⟨t, ht, hwindow⟩ := ih (inWindow_answeredCall hs hu)
    exact ⟨t, exec_cons_eq_some.mpr ⟨u, hu, ht⟩, hwindow⟩

/-- After every sequence of calls the queue lists the set without repetition, the set
has at most 4096 members and not zero, and the next non-zero identifier is answered false
just if it is one of the 4096 accepted last. `Dequeue` never fails. -/
theorem memory_is_window_of_accepted (msgIds : List Ulonglong) :
    ∃ s, exec answeredCall .init msgIds = some s ∧ s.memory.order.Nodup ∧
      s.memory.ids = s.memory.order.toFinset ∧ s.memory.ids.card ≤ seenMsgCap ∧
      0 ∉ s.memory.ids ∧ rememberMsgId s.memory 0 = some (true, s.memory) ∧
      ∀ msgId ≠ 0, (∃ m, rememberMsgId s.memory msgId = some (false, m)) ↔
        msgId ∈ s.accepted.take seenMsgCap := by
  obtain ⟨s, hs, hwindow⟩ := inWindow_init.exec msgIds
  have hlisted := hwindow.listed
  refine ⟨s, hs, hlisted.nodup, hlisted.ids_eq, ?_, ?_, ?_, ?_⟩
  · rw [hwindow.card]
    exact Nat.min_le_left _ _
  · rw [← hlisted.mem]
    exact hwindow.nonZero
  · rw [rememberMsgId, if_pos rfl]
  · intro msgId h0
    rw [rememberMsgId_false_iff h0, ← hlisted.mem, hwindow.order, arrivals, List.mem_reverse]

end Window

end KnFileCatcher

import KnFileCatcher.WorkerLoop

/-! The memory of message identifiers: what one call does to it, and that its queue
lists its set. -/

namespace KnFileCatcher

section Calls

/-- The four ways a call can end, with its answer and the memory after it. -/
inductive RememberCase (m : MessageMemory) (msgId : Ulonglong) : Bool → MessageMemory → Prop where
  | zero (h0 : msgId = 0) : RememberCase m msgId true m
  | known (h0 : msgId ≠ 0) (hmem : msgId ∈ m.ids) : RememberCase m msgId false m
  | evicted (h0 : msgId ≠ 0) (hmem : msgId ∉ m.ids) (hfull : seenMsgCap ≤ m.ids.card)
      (evict : Ulonglong) (order : List Ulonglong) (horder : m.order = evict :: order) :
      RememberCase m msgId true ⟨insert msgId (m.ids.erase evict), order ++ [msgId]⟩
  | added (h0 : msgId ≠ 0) (hmem : msgId ∉ m.ids) (hroom : m.ids.card < seenMsgCap) :
      RememberCase m msgId true ⟨insert msgId m.ids, m.order ++ [msgId]⟩

theorem rememberMsgId_case {m m' : MessageMemory} {msgId : Ulonglong} {fresh : Bool}
    (h : rememberMsgId m msgId = some (fresh, m')) : RememberCase m msgId fresh m' := by
  unfold rememberMsgId at h
  by_cases h0 : msgId = 0
  · rw [if_pos h0] at h
    cases h
    exact .zero h0
  by_cases hmem : msgId ∈ m.ids
  · rw [if_neg h0, if_pos hmem] at h
    cases h
    exact .known h0 hmem
  rw [if_neg h0, if_neg hmem] at h
  by_cases hfull : seenMsgCap ≤ m.ids.card
  · rw [if_pos hfull] at h
    cases horder : m.order with
    | nil => simp [horder] at h
    | cons evict order =>
      simp only [horder] at h
      cases h
      exact .evicted h0 hmem hfull evict order horder
  · rw [if_neg hfull] at h
    cases h
    exact .added h0 hmem (Nat.lt_of_not_le hfull)

theorem rememberMsgId_known {m : MessageMemory} {msgId : Ulonglong} (h0 : msgId ≠ 0)
    (hmem : msgId ∈ m.ids) : rememberMsgId m msgId = some (false, m) := by
  rw [rememberMsgId, if_neg h0, if_pos hmem]

theorem rememberMsgId_evicted {m : MessageMemory} {msgId evict : Ulonglong}
    {order : List Ulonglong} (h0 : msgId ≠ 0) (hmem : msgId ∉ m.ids)
    (hfull : seenMsgCap ≤ m.ids.card) (horder : m.order = evict :: order) :
    rememberMsgId m msgId =
      some (true, ⟨insert msgId (m.ids.erase evict), order ++ [msgId]⟩) := by
  rw [rememberMsgId, if_neg h0, if_neg hmem, if_pos hfull, horder]

theorem rememberMsgId_added {m : MessageMemory} {msgId : Ulonglong} (h0 : msgId ≠ 0)
    (hmem : msgId ∉ m.ids) (hroom : m.ids.card < seenMsgCap) :
    rememberMsgId m msgId = some (true, ⟨insert msgId m.ids, m.order ++ [msgId]⟩) := by
  rw [rememberMsgId, if_neg h0, if_neg hmem, if_neg (Nat.not_le.mpr hroom)]

theorem rememberMsgId_false_iff {m : MessageMemory} {msgId : Ulonglong} (h0 : msgId ≠ 0) :
    (∃ m', rememberMsgId m msgId = some (false, m')) ↔ msgId ∈ m.ids := by
  constructor
  · rintro ⟨m', h⟩
    cases rememberMsgId_case h with
    | known _ hmem => exact hmem
  · exact fun hmem => ⟨m, rememberMsgId_known h0 hmem⟩

theorem rememberMsgId_fresh {m m' : MessageMemory} {msgId : Ulonglong}
    (h : rememberMsgId m msgId = some (true, m')) : ∀ x ∈ m'.ids, x = msgId ∨ x ∈ m.ids := by
  intro x hx
  cases rememberMsgId_case h with
  | zero => exact Or.inr hx
  | evicted => exact (Finset.mem_insert.mp hx).imp_right Finset.mem_of_mem_erase
  | added => exact Finset.mem_insert.mp hx

theorem rememberMsgId_dup {m m' : MessageMemory} {msgId : Ulonglong}
    (h : rememberMsgId m msgId = some (false, m')) : msgId ∈ m.ids := by
  cases rememberMsgId_case h with
  | known _ hmem => exact hmem

end Calls

section Listed

/-- The queue of identifiers lists the set of them. -/
structure MessageMemory.Listed (m : MessageMemory) : Prop where
  nodup : m.order.Nodup
  mem : ∀ x, x ∈ m.order ↔ x ∈ m.ids

theorem MessageMemory.Listed.ids_eq {m : MessageMemory} (h : m.Listed) :
    m.ids = m.order.toFinset := by
  ext x
  rw [List.mem_toFinset, h.mem]

theorem MessageMemory.Listed.card {m : MessageMemory} (h : m.Listed) :
    m.ids.card = m.order.length := by
  rw [h.ids_eq, List.toFinset_card_of_nodup h.nodup]

theorem MessageMemory.Listed.snoc {m : MessageMemory} (h : m.Listed) {msgId : Ulonglong}
    (hnew : msgId ∉ m.ids) : MessageMemory.Listed ⟨insert msgId m.ids, m.order ++ [msgId]⟩ := by
  refine ⟨?_, ?_⟩
  · refine List.nodup_append.mpr ⟨h.nodup, List.nodup_singleton msgId, ?_⟩
    rintro x hx y hy rfl
    rw [List.mem_singleton.mp hy, h.mem] at hx
    exact hnew hx
  · intro x
    simp [h.mem x, or_comm]

theorem MessageMemory.Listed.evict {m : MessageMemory} (h : m.Listed) {evict : Ulonglong}
    {order : List Ulonglong} (ho : m.order = evict :: order) :
    MessageMemory.Listed ⟨m.ids.erase evict, order⟩ := by
  have hnodup := h.nodup
  rw [ho, List.nodup_cons] at hnodup
  refine ⟨hnodup.2, ?_⟩
  intro x
  simp only [Finset.mem_erase, ← h.mem x, ho, List.mem_cons]
  constructor
  · intro hx
    refine ⟨?_, .inr hx⟩
    rintro rfl
    exact hnodup.1 hx
  · rintro ⟨hne, heq | hx⟩
    · exact absurd heq hne
    · exact hx

theorem RememberCase.listed {m m' : MessageMemory} {msgId : Ulonglong} {fresh : Bool}
    (h : RememberCase m msgId fresh m') (hm : m.Listed) : m'.Listed := by
  cases h with
  | zero => exact hm
  | known => exact hm
  | evicted _ hmem _ evict order horder =>
    exact (hm.evict horder).snoc fun hx => hmem (Finset.mem_of_mem_erase hx)
  | added _ hmem => exact hm.snoc hmem

theorem MessageMemory.Listed.exists_oldest {m : MessageMemory} (h : m.Listed)
    (hfull : seenMsgCap ≤ m.ids.card) : ∃ evict order, m.order = evict :: order := by
  have hcap : 0 < seenMsgCap := by decide
  obtain ⟨x, hx⟩ := Finset.card_pos.mp (Nat.lt_of_lt_of_le hcap hfull)
  exact List.exists_cons_of_ne_nil (List.ne_nil_of_mem ((h.mem x).mpr hx))

/-- A message is new unless its identifier is remembered; the queue never runs dry. -/
theorem rememberMsgId_cases {m : MessageMemory} (h : m.Listed) (msgId : Ulonglong) :
    (msgId ≠ 0 ∧ msgId ∈ m.ids ∧ rememberMsgId m msgId = some (false, m)) ∨
      (¬ (msgId ≠ 0 ∧ msgId ∈ m.ids) ∧
        ∃ m', rememberMsgId m msgId = some (true, m') ∧ m'.Listed) := by
  have hlisted {m' : MessageMemory} (hm : rememberMsgId m msgId = some (true, m')) :
      ∃ m', rememberMsgId m msgId = some (true, m') ∧ m'.Listed :=
    ⟨m', hm, (rememberMsgId_case hm).listed h⟩
  by_cases h0 : msgId = 0
  · exact .inr ⟨by simp [h0], hlisted (by rw [rememberMsgId, if_pos h0])⟩
  by_cases hmem : msgId ∈ m.ids
  · exact .inl ⟨h0, hmem, rememberMsgId_known h0 hmem⟩
  refine .inr ⟨by simp [hmem], ?_⟩
  by_cases hfull : seenMsgCap ≤ m.ids.card
  · obtain ⟨evict, order, horder⟩ := h.exists_oldest hfull
    exact hlisted (rememberMsgId_evicted h0 hmem hfull horder)
  · exact hlisted (rememberMsgId_added h0 hmem (Nat.lt_of_not_le hfull))

end Listed

end KnFileCatcher

import KnFileCatcher.AddRequests
import KnFileCatcher.Session

/-! The watch roots that the window lists and those that the driver holds. -/

namespace KnFileCatcher

open Runs

/-- What `QueryDosDevice` answers for a letter and a colon. No device is named by a
backslash. -/
structure DriveMap where
  queryDosDevice : Wchar → Option (List Wchar)
  backslash_none : queryDosDevice backslash = none

def dosToNt (map : DriveMap) (dos : List Wchar) : List Wchar :=
  match dos with
  | drive :: c :: rest =>
    if c ≠ colon then []
    else
      match map.queryDosDevice drive with
      | none => []
      | some device => device ++ rest
  | _ => []

def trimStart (c : Wchar) (s : List Wchar) : List Wchar := s.dropWhile (· = c)

def ntDosNs (dos : List Wchar) : List Wchar := text "\\??\\" ++ trimStart backslash dos

/-- The part of `knFcHandleAddRoot` after the request has been read. -/
def knFcHandleAddRoot (g : KnfcConfig) (path : List Wchar) : NtStatus × KnfcConfig :=
  if h : path = [] ∨ knfcMaxWatchPathChars * 2 < 2 * path.length then
    (statusInvalidParameter, g)
  else
    knFcConfigAddRoot true g ⟨path, by simp only [knfcMaxWatchPathChars] at h; omega⟩

/-- `DriverClient.AddWatchRoot`: whether the root was accepted. -/
def addWatchRoot (g : KnfcConfig) (ntPath : List Wchar) : Bool × KnfcConfig :=
  if ntPath = [] then (false, g)
  else
    let r := knFcHandleAddRoot g ntPath
    (ntSuccess r.1, r.2)

def KnfcConfig.buffers (g : KnfcConfig) : List (List Wchar) := g.roots.map UnicodeString.buffer

/-- A path that the driver takes. -/
def KnfcConfig.Admits (g : KnfcConfig) (path : List Wchar) : Prop :=
  path.length ≤ knfcMaxWatchPathChars ∧ g.buffers.length < knfcMaxWatchRoots

instance (g : KnfcConfig) (path : List Wchar) : Decidable (g.Admits path) :=
  inferInstanceAs (Decidable (_ ∧ _))

theorem KnfcConfig.length_buffers_le (g : KnfcConfig) : g.buffers.length ≤ knfcMaxWatchRoots := by
  rw [buffers, List.length_map]
  exact g.room

theorem KnfcConfig.length_le_of_mem_buffers {g : KnfcConfig} {path : List Wchar}
    (h : path ∈ g.buffers) : path.length ≤ knfcMaxWatchPathChars := by
  obtain ⟨r, hr, rfl⟩ := List.mem_map.mp h
  exact (g.sized r hr).2

/-- A path that is not empty reaches the table when its length is within the limit. -/
theorem addWatchRoot_eq {g : KnfcConfig} {path : List Wchar} (hne : path ≠ [])
    (hlen : path.length ≤ knfcMaxWatchPathChars) :
    ∃ root, root.buffer = path ∧
      addWatchRoot g path =
        (ntSuccess (knFcConfigAddRoot true g root).1, (knFcConfigAddRoot true g root).2) := by
  have hread : ¬ (path = [] ∨ knfcMaxWatchPathChars * 2 < 2 * path.length) := by
    simp only [hne, false_or]
    omega
  exact ⟨⟨path, _⟩, rfl, by rw [addWatchRoot, if_neg hne, knFcHandleAddRoot, dif_neg hread]⟩

theorem addWatchRoot_admitted {g : KnfcConfig} {path : List Wchar} (hne : path ≠ [])
    (h : g.Admits path) :
    (addWatchRoot g path).1 = true ∧ (addWatchRoot g path).2.buffers = g.buffers ++ [path] := by
  obtain ⟨hlen, hroom⟩ := h
  obtain ⟨root, rfl, heq⟩ := addWatchRoot_eq (g := g) hne hlen
  have hpos : root.length ≠ 0 := UnicodeString.length_eq_zero_iff.not.mpr hne
  have hfit : ¬ knfcMaxWatchPathChars * 2 < root.length := by
    rw [UnicodeString.length]
    omega
  have hfree : ¬ knfcMaxWatchRoots ≤ g.roots.length := by
    rwa [KnfcConfig.buffers, List.length_map, ← Nat.not_le] at hroom
  have hyes : ntSuccess statusSuccess = true := by decide
  rw [heq, knFcConfigAddRoot, dif_neg hpos, dif_neg hfit, if_neg (by decide), dif_neg hfree]
  dsimp only
  exact ⟨hyes, List.map_append⟩

theorem addWatchRoot_refused {g : KnfcConfig} {path : List Wchar} (h : ¬ g.Admits path) :
    addWatchRoot g path = (false, g) := by
  by_cases hne : path = []
  · rw [addWatchRoot, if_pos hne]
  by_cases hlen : path.length ≤ knfcMaxWatchPathChars
  · obtain ⟨root, rfl, heq⟩ := addWatchRoot_eq (g := g) hne hlen
    have hpos : root.length ≠ 0 := UnicodeString.length_eq_zero_iff.not.mpr hne
    have hfit : ¬ knfcMaxWatchPathChars * 2 < root.length := by
      rw [UnicodeString.length]
      omega
    have hfull : knfcMaxWatchRoots ≤ g.roots.length := by
      by_contra hfree
      refine h ⟨hlen, ?_⟩
      rw [KnfcConfig.buffers, List.length_map]
      omega
    have hno : ntSuccess statusQuotaExceeded = false := by decide
    rw [heq, knFcConfigAddRoot, dif_neg hpos, dif_neg hfit, if_neg (by decide), dif_pos hfull, hno]
  · have hno : ntSuccess statusInvalidParameter = false := by decide
    rw [addWatchRoot, if_neg hne, knFcHandleAddRoot, dif_pos (by omega)]
    simp only [hno]

theorem addWatchRoot_fst {g : KnfcConfig} {path : List Wchar} (hne : path ≠ []) :
    (addWatchRoot g path).1 = decide (g.Admits path) := by
  by_cases h : g.Admits path
  · simp [(addWatchRoot_admitted hne h).1, h]
  · simp [addWatchRoot_refused h, h]

theorem buffers_addWatchRoot {g : KnfcConfig} {path : List Wchar} (hne : path ≠ []) :
    (addWatchRoot g path).2.buffers = g.buffers ++ if g.Admits path then [path] else [] := by
  by_cases h : g.Admits path
  · simp [(addWatchRoot_admitted hne h).2, h]
  · simp [addWatchRoot_refused h, h]

/-- On its way through the port a watch root meets the same checks as in
`addWatchRoot`. -/
theorem Comm.send_addWatchRoot {env : CommEnv} {out : OutputBuffer} (g : FilterTables)
    (payload : ClrString) (halloc : env.localAlloc = true) (htable : env.tableAlloc = true) :
    send env g (sendVariablePayload knFcMsgAddWatchRoot payload) out =
      let r := KnFileCatcher.knFcHandleAddRoot g.config payload.chars
      { g with config := r.2 }.returned r.1 := by
  have htype (size : Nat) : handleType env g true size out knFcMsgAddWatchRoot =
      handleAdd knfcMaxWatchPathChars (addRoot env g) env g true size := rfl
  rw [send_sendVariablePayload payload halloc (by decide) htype]
  unfold KnFileCatcher.knFcHandleAddRoot addRoot
  rw [htable]
  split <;> rfl

/-- The text shown for the last command, with what it names. -/
inductive Reply where
  | blank
  | okAddWatchRoot (dos ntVolume ntDosNs : List Wchar)
  | failDosToNt (dos : List Wchar)
  | failAddWatchRoot
  | okClearWatchRoots
  | okRemoveWatchRoot (dos : List Wchar)
  | warnRemoveWatchRoot (dos : List Wchar) (reAddFails : Nat)
deriving DecidableEq

def Reply.isOk : Reply → Bool
  | .okAddWatchRoot .. | .okClearWatchRoots | .okRemoveWatchRoot _ => true
  | .blank | .failDosToNt _ | .failAddWatchRoot | .warnRemoveWatchRoot .. => false

/-- The fields of the view model that the watch roots depend on, and the driver. -/
structure RootsModel where
  watchRoots : List (List Wchar)
  driver : KnfcConfig
  lastReply : Reply

namespace RootsModel

def initial : RootsModel := ⟨[], knFcConfigInitialize, .blank⟩

def invokeAddWatchRoot (map : DriveMap) (newWatchRoot : List Wchar) (s : RootsModel) :
    RootsModel :=
  if isNullOrWhiteSpace newWatchRoot then s
  else
    let dos := trim newWatchRoot
    let ntVolume := dosToNt map dos
    let ntDosNs := ntDosNs dos
    if ntVolume = [] then { s with lastReply := .failDosToNt dos }
    else
      let vol := addWatchRoot s.driver ntVolume
      let ns := addWatchRoot vol.2 ntDosNs
      if vol.1 || ns.1 then
        { watchRoots := if s.watchRoots.contains dos then s.watchRoots else s.watchRoots ++ [dos]
          driver := ns.2
          lastReply := .okAddWatchRoot dos ntVolume ntDosNs }
      else { s with driver := ns.2, lastReply := .failAddWatchRoot }

/-- The request to clear is never refused. -/
def invokeClearRoots (s : RootsModel) : RootsModel where
  watchRoots := []
  driver := knFcConfigClearRoots s.driver
  lastReply := .okClearWatchRoots

/-- One turn of the loop that publishes the list again. -/
def reAdd (map : DriveMap) (r : Nat × KnfcConfig) (d : List Wchar) : Nat × KnfcConfig :=
  let ntVolume := dosToNt map d
  if ntVolume = [] then (r.1 + 1, r.2)
  else
    let vol := addWatchRoot r.2 ntVolume
    let ns := addWatchRoot vol.2 (ntDosNs d)
    (if !vol.1 && !ns.1 then r.1 + 1 else r.1, ns.2)

def invokeRemoveRoot (map : DriveMap) (dos : List Wchar) (s : RootsModel) : RootsModel :=
  if dos = [] ∨ !s.watchRoots.contains dos then s
  else
    let watchRoots := s.watchRoots.erase dos
    let r := watchRoots.foldl (reAdd map) (0, knFcConfigClearRoots s.driver)
    { watchRoots := watchRoots
      driver := r.2
      lastReply :=
        if r.1 = 0 then .okRemoveWatchRoot dos else .warnRemoveWatchRoot dos r.1 }

end RootsModel

inductive RootsCommand where
  | addWatchRoot (newWatchRoot : List Wchar)
  | removeRoot (dos : List Wchar)
  | clearRoots

def rootsStep (map : DriveMap) (s : RootsModel) : RootsCommand → Option RootsModel
  | .addWatchRoot newWatchRoot => some (s.invokeAddWatchRoot map newWatchRoot)
  | .removeRoot dos => some (s.invokeRemoveRoot map dos)
  | .clearRoots => some s.invokeClearRoots

section Forms

variable (map : DriveMap)

/-- The roots of the driver are both forms of the paths listed. -/
def RootsSynced (s : RootsModel) : Prop :=
  ∀ path, path ∈ s.driver.buffers ↔
    ∃ d ∈ s.watchRoots, path = dosToNt map d ∨ path = text "\\??\\" ++ d

/-- What is claimed after each command: if it reported `ok`, the two agree. -/
def OkSynced (s : RootsModel) : Prop := s.lastReply.isOk = true → RootsSynced map s

/-- The driver takes the volume form of the path. -/
def TakesVolume (g : KnfcConfig) (dos : List Wchar) : Prop := g.Admits (dosToNt map dos)

instance (g : KnfcConfig) (dos : List Wchar) : Decidable (TakesVolume map g dos) :=
  inferInstanceAs (Decidable (g.Admits _))

/-- The driver takes the other form, which is sent after the volume form. -/
def TakesDosNs (g : KnfcConfig) (dos : List Wchar) : Prop :=
  (ntDosNs dos).length ≤ knfcMaxWatchPathChars ∧
    g.buffers.length + (if TakesVolume map g dos then 1 else 0) < knfcMaxWatchRoots

instance (g : KnfcConfig) (dos : List Wchar) : Decidable (TakesDosNs map g dos) :=
  inferInstanceAs (Decidable (_ ∧ _))

/-- A path of which the driver takes one form: the other is taken too, or is a root
already. -/
def TakesBoth (g : KnfcConfig) (dos : List Wchar) : Prop :=
  TakesVolume map g dos ∨ TakesDosNs map g dos →
    (TakesVolume map g dos ∨ dosToNt map dos ∈ g.buffers) ∧
    (TakesDosNs map g dos ∨ ntDosNs dos ∈ g.buffers ∨ ntDosNs dos = dosToNt map dos)

/-- A path that is added is mapped to a volume and taken in both forms. -/
def KeepsForms (s : RootsModel) : RootsCommand → Prop
  | .addWatchRoot newWatchRoot =>
    isNullOrWhiteSpace newWatchRoot = false → dosToNt map (trim newWatchRoot) ≠ [] →
      TakesBoth map s.driver (trim newWatchRoot)
  | _ => True

variable {map}

theorem dosToNt_ne_nil {dos : List Wchar} (h : dosToNt map dos ≠ []) :
    ∃ drive rest, dos = drive :: rest ∧ drive ≠ backslash := by
  unfold dosToNt at h
  split at h
  · next drive c rest =>
    refine ⟨drive, c :: rest, rfl, ?_⟩
    rintro rfl
    simp [map.backslash_none] at h
  · exact absurd rfl h

theorem ntDosNs_of_mapped {dos : List Wchar} (h : dosToNt map dos ≠ []) :
    ntDosNs dos = text "\\??\\" ++ dos := by
  obtain ⟨drive, rest, rfl, hdrive⟩ := dosToNt_ne_nil h
  simp [ntDosNs, trimStart, hdrive]

theorem ntDosNs_ne_nil (dos : List Wchar) : ntDosNs dos ≠ [] := by simp [ntDosNs, text]

/-- What the two requests for a mapped path answer and leave. -/
theorem addWatchRoot_forms {g : KnfcConfig} {dos : List Wchar} (hne : dosToNt map dos ≠ []) :
    let vol := addWatchRoot g (dosToNt map dos)
    let ns := addWatchRoot vol.2 (ntDosNs dos)
    vol.1 = decide (TakesVolume map g dos) ∧ ns.1 = decide (TakesDosNs map g dos) ∧
      ns.2.buffers = g.buffers ++ (if TakesVolume map g dos then [dosToNt map dos] else []) ++
        if TakesDosNs map g dos then [ntDosNs dos] else [] := by
  intro vol ns
  have hvol : vol.2.buffers =
      g.buffers ++ if TakesVolume map g dos then [dosToNt map dos] else [] :=
    buffers_addWatchRoot hne
  have hadmits : vol.2.Admits (ntDosNs dos) ↔ TakesDosNs map g dos := by
    rw [KnfcConfig.Admits, TakesDosNs, hvol, List.length_append]
    split <;> exact Iff.rfl
  refine ⟨addWatchRoot_fst hne, ?_, ?_⟩
  · exact (addWatchRoot_fst (ntDosNs_ne_nil dos)).trans (decide_eq_decide.mpr hadmits)
  · rw [buffers_addWatchRoot (ntDosNs_ne_nil dos), hvol]
    simp only [hadmits]

end Forms

section Synced

variable {map : DriveMap} {s : RootsModel} {dos : List Wchar}

/-- What holds as long as both forms are kept. A mapped path takes two slots. -/
structure InStep (map : DriveMap) (s : RootsModel) : Prop where
  synced : RootsSynced map s
  mapped : ∀ d ∈ s.watchRoots, dosToNt map d ≠ []
  even : s.driver.buffers.length % 2 = 0
  room : 2 * s.watchRoots.length ≤ s.driver.buffers.length

theorem InStep.short (h : InStep map s) (hd : dos ∈ s.watchRoots) :
    (dosToNt map dos).length ≤ knfcMaxWatchPathChars ∧
      (ntDosNs dos).length ≤ knfcMaxWatchPathChars := by
  constructor
  · exact KnfcConfig.length_le_of_mem_buffers ((h.synced _).mpr ⟨dos, hd, Or.inl rfl⟩)
  · exact KnfcConfig.length_le_of_mem_buffers
      ((h.synced _).mpr ⟨dos, hd, Or.inr (ntDosNs_of_mapped (h.mapped dos hd))⟩)

theorem reAdd_short {g : KnfcConfig} (hne : dosToNt map dos ≠ [])
    (hvol : (dosToNt map dos).length ≤ knfcMaxWatchPathChars)
    (hns : (ntDosNs dos).length ≤ knfcMaxWatchPathChars)
    (hroom : g.buffers.length + 2 ≤ knfcMaxWatchRoots) :
    (RootsModel.reAdd map (0, g) dos).1 = 0 ∧
      (RootsModel.reAdd map (0, g) dos).2.buffers = g.buffers ++ [dosToNt map dos, ntDosNs dos] := by
  have htakes : TakesVolume map g dos := ⟨hvol, by omega⟩
  have htakes' : TakesDosNs map g dos := ⟨hns, by rw [if_pos htakes]; omega⟩
  obtain ⟨hfst, hsnd, hbuffers⟩ := addWatchRoot_forms (g := g) hne
  rw [if_pos htakes, if_pos htakes'] at hbuffers
  simp [RootsModel.reAdd, hne, hfst, htakes, hbuffers]

theorem foldl_reAdd {ds : List (List Wchar)} (hne : ∀ d ∈ ds, dosToNt map d ≠ [])
    (hshort : ∀ d ∈ ds, (dosToNt map d).length ≤ knfcMaxWatchPathChars ∧
      (ntDosNs d).length ≤ knfcMaxWatchPathChars)
    {g : KnfcConfig} (hroom : g.buffers.length + 2 * ds.length ≤ knfcMaxWatchRoots) :
    (ds.foldl (RootsModel.reAdd map) (0, g)).1 = 0 ∧
      (ds.foldl (RootsModel.reAdd map) (0, g)).2.buffers =
        g.buffers ++ ds.flatMap fun d => [dosToNt map d, ntDosNs d] := by
  induction ds generalizing g with
  | nil => simp
  | cons d ds ih =>
    have hd := hshort d List.mem_cons_self
    rw [List.length_cons] at hroom
    obtain ⟨hzero, hbuffers⟩ := reAdd_short (hne d List.mem_cons_self) hd.1 hd.2
      (show g.buffers.length + 2 ≤ knfcMaxWatchRoots by omega)
    have hlength := congrArg List.length hbuffers
    rw [List.length_append, List.length_cons, List.length_singleton] at hlength
    have hnext : RootsModel.reAdd map (0, g) d = (0, (RootsModel.reAdd map (0, g) d).2) :=
      Prod.ext hzero rfl
    obtain ⟨hfails, hrest⟩ := ih (fun e he => hne e (List.mem_cons_of_mem d he))
      (fun e he => hshort e (List.mem_cons_of_mem d he)) (g := (RootsModel.reAdd map (0, g) d).2)
      (by omega)
    rw [List.foldl_cons, hnext]
    refine ⟨hfails, ?_⟩
    rw [hrest, hbuffers, List.flatMap_cons, List.append_assoc]

theorem InStep.invokeRemoveRoot (h : InStep map s) (dos : List Wchar) :
    InStep map (s.invokeRemoveRoot map dos) := by
  unfold RootsModel.invokeRemoveRoot
  split
  · exact h
  have hsub : s.watchRoots.erase dos ⊆ s.watchRoots := List.erase_subset
  have hlength : (s.watchRoots.erase dos).length ≤ s.watchRoots.length := List.length_erase_le
  have hfit := s.driver.length_buffers_le
  have hroom := h.room
  have hempty : (knFcConfigClearRoots s.driver).buffers = [] := rfl
  obtain ⟨-, hbuffers⟩ := foldl_reAdd (fun d hd => h.mapped d (hsub hd))
    (fun d hd => h.short (hsub hd)) (g := knFcConfigClearRoots s.driver)
    (by rw [hempty, List.length_nil]; omega)
  rw [hempty, List.nil_append] at hbuffers
  have hcount : ((s.watchRoots.erase dos).flatMap
      fun d => [dosToNt map d, ntDosNs d]).length = 2 * (s.watchRoots.erase dos).length := by
    simp [List.length_flatMap, Nat.mul_comm]
  refine ⟨fun path => ?_, fun d hd => h.mapped d (hsub hd), ?_, ?_⟩
  · dsimp only
    rw [hbuffers, List.mem_flatMap]
    refine exists_congr fun d => and_congr_right fun hd => ?_
    rw [← ntDosNs_of_mapped (h.mapped d (hsub hd))]
    simp
  · dsimp only
    rw [hbuffers, hcount]
    omega
  · dsimp only
    rw [hbuffers, hcount]

theorem inStep_cleared (h : s.watchRoots = []) (hd : s.driver.buffers = []) : InStep map s where
  synced path := by simp [h, hd]
  mapped d hmem := by simp [h] at hmem
  even := by simp [hd]
  room := by simp [h]

/-- The driver gains what it takes, and the window lists the path. -/
theorem invokeAddWatchRoot_taken {newWatchRoot : List Wchar}
    (hblank : isNullOrWhiteSpace newWatchRoot = false) (hdos : trim newWatchRoot = dos)
    (hne : dosToNt map dos ≠ [])
    (htakes : TakesVolume map s.driver dos ∨ TakesDosNs map s.driver dos) :
    (s.invokeAddWatchRoot map newWatchRoot).lastReply.isOk = true ∧
      (s.invokeAddWatchRoot map newWatchRoot).watchRoots =
        (if s.watchRoots.contains dos then s.watchRoots else s.watchRoots ++ [dos]) ∧
      (s.invokeAddWatchRoot map newWatchRoot).driver.buffers =
        s.driver.buffers ++
          (if TakesVolume map s.driver dos then [dosToNt map dos] else []) ++
          if TakesDosNs map s.driver dos then [ntDosNs dos] else [] := by
  subst hdos
  obtain ⟨hvol, hns, hbuffers⟩ := addWatchRoot_forms (g := s.driver) hne
  have heither : (decide (TakesVolume map s.driver (trim newWatchRoot)) ||
      decide (TakesDosNs map s.driver (trim newWatchRoot))) = true := by simpa using htakes
  simp only [RootsModel.invokeAddWatchRoot, hblank, if_neg hne, hvol, hns, heither, if_true,
    Bool.false_eq_true, if_false]
  exact ⟨rfl, trivial, hbuffers⟩

/-- A command that adds nothing leaves both as they are. -/
theorem invokeAddWatchRoot_refused {newWatchRoot : List Wchar}
    (h : ¬ (isNullOrWhiteSpace newWatchRoot = false ∧ dosToNt map (trim newWatchRoot) ≠ [] ∧
      (TakesVolume map s.driver (trim newWatchRoot) ∨
        TakesDosNs map s.driver (trim newWatchRoot)))) :
    (s.invokeAddWatchRoot map newWatchRoot).watchRoots = s.watchRoots ∧
      (s.invokeAddWatchRoot map newWatchRoot).driver.buffers = s.driver.buffers := by
  unfold RootsModel.invokeAddWatchRoot
  split
  · exact ⟨rfl, rfl⟩
  next hblank =>
  dsimp only
  split
  · exact ⟨rfl, rfl⟩
  next hne =>
  obtain ⟨hvol, hns, hbuffers⟩ := addWatchRoot_forms (g := s.driver) hne
  have hno : ¬ (TakesVolume map s.driver (trim newWatchRoot) ∨
      TakesDosNs map s.driver (trim newWatchRoot)) :=
    fun htakes => h ⟨Bool.eq_false_iff.mpr hblank, hne, htakes⟩
  obtain ⟨hvolume, hdosNs⟩ := not_or.mp hno
  rw [if_neg hvolume, if_neg hdosNs, List.append_nil, List.append_nil] at hbuffers
  rw [hvol, hns, if_neg (by simp [hvolume, hdosNs])]
  exact ⟨rfl, hbuffers⟩

theorem mem_added {d : List Wchar} :
    d ∈ (if s.watchRoots.contains dos then s.watchRoots else s.watchRoots ++ [dos]) ↔
      d ∈ s.watchRoots ∨ d = dos := by
  split
  · next hin =>
    have hmem : dos ∈ s.watchRoots := by simpa using hin
    exact ⟨Or.inl, fun h => h.elim id fun heq => heq ▸ hmem⟩
  · simp

theorem mem_taken {path : List Wchar} :
    path ∈ s.driver.buffers ++
        (if TakesVolume map s.driver dos then [dosToNt map dos] else []) ++
        (if TakesDosNs map s.driver dos then [ntDosNs dos] else []) ↔
      path ∈ s.driver.buffers ∨ (TakesVolume map s.driver dos ∧ path = dosToNt map dos) ∨
        (TakesDosNs map s.driver dos ∧ path = ntDosNs dos) := by
  rw [List.append_assoc, List.mem_append, List.mem_append]
  split <;> split <;> simp [*]

theorem RootsSynced.mem_forms (h : RootsSynced map s) (hne : dosToNt map dos ≠ [])
    {path : List Wchar} :
    (∃ d, (d ∈ s.watchRoots ∨ d = dos) ∧ (path = dosToNt map d ∨ path = text "\\??\\" ++ d)) ↔
      path ∈ s.driver.buffers ∨ path = dosToNt map dos ∨ path = ntDosNs dos := by
  rw [h path, ntDosNs_of_mapped hne]
  constructor
  · rintro ⟨d, hd | rfl, hpath⟩
    · exact Or.inl ⟨d, hd, hpath⟩
    · exact Or.inr hpath
  · rintro (⟨d, hd, hpath⟩ | hpath)
    · exact ⟨d, Or.inl hd, hpath⟩
    · exact ⟨dos, Or.inr rfl, hpath⟩

/-- Of two equal forms the one that is sent first finds the room that the second finds. -/
theorem TakesDosNs.volume {g : KnfcConfig} (h : TakesDosNs map g dos)
    (heq : dosToNt map dos = ntDosNs dos) : TakesVolume map g dos := by
  obtain ⟨hlen, hroom⟩ := h
  exact ⟨heq ▸ hlen, by omega⟩

/-- A path of which the driver takes a form leaves the two agreed just when both forms
are roots then. -/
theorem rootsSynced_taken (h : RootsSynced map s) {t : RootsModel} (hne : dosToNt map dos ≠ [])
    (hlisted : t.watchRoots =
      if s.watchRoots.contains dos then s.watchRoots else s.watchRoots ++ [dos])
    (hbuffers : t.driver.buffers = s.driver.buffers ++
      (if TakesVolume map s.driver dos then [dosToNt map dos] else []) ++
      if TakesDosNs map s.driver dos then [ntDosNs dos] else []) :
    RootsSynced map t ↔
      (TakesVolume map s.driver dos ∨ dosToNt map dos ∈ s.driver.buffers) ∧
        (TakesDosNs map s.driver dos ∨ ntDosNs dos ∈ s.driver.buffers ∨
          ntDosNs dos = dosToNt map dos) := by
  simp only [RootsSynced, hlisted, hbuffers, mem_taken, mem_added, h.mem_forms hne]
  constructor
  · intro hall
    have hvol := (hall (dosToNt map dos)).mpr (Or.inr (Or.inl rfl))
    have hns := (hall (ntDosNs dos)).mpr (Or.inr (Or.inr rfl))
    constructor
    · rcases hvol with hmem | ⟨htakes, -⟩ | ⟨htakes, heq⟩
      · exact Or.inr hmem
      · exact Or.inl htakes
      · exact Or.inl (htakes.volume heq)
    · rcases hns with hmem | ⟨-, heq⟩ | ⟨htakes, -⟩
      · exact Or.inr (Or.inl hmem)
      · exact Or.inr (Or.inr heq)
      · exact Or.inl htakes
  · rintro ⟨hvol, hns⟩ path
    have hvolume : path = dosToNt map dos →
        path ∈ s.driver.buffers ∨ TakesVolume map s.driver dos ∧ path = dosToNt map dos := by
      rintro rfl
      exact hvol.symm.imp_right fun htakes => ⟨htakes, rfl⟩
    constructor
    · rintro (hmem | ⟨-, rfl⟩ | ⟨-, rfl⟩)
      · exact Or.inl hmem
      · exact Or.inr (Or.inl rfl)
      · exact Or.inr (Or.inr rfl)
    · rintro (hmem | hpath | rfl)
      · exact Or.inl hmem
      · exact (hvolume hpath).imp_right Or.inl
      · rcases hns with htakes | hmem | heq
        · exact Or.inr (Or.inr ⟨htakes, rfl⟩)
        · exact Or.inl hmem
        · exact (hvolume heq).imp_right Or.inl

/-- In step, a path that is kept at all takes its two slots. -/
theorem InStep.takes_both (h : InStep map s)
    (htakes : TakesVolume map s.driver dos ∨ TakesDosNs map s.driver dos)
    (hboth : (TakesVolume map s.driver dos ∨ dosToNt map dos ∈ s.driver.buffers) ∧
      (TakesDosNs map s.driver dos ∨ ntDosNs dos ∈ s.driver.buffers ∨
        ntDosNs dos = dosToNt map dos)) :
    TakesVolume map s.driver dos ∧ TakesDosNs map s.driver dos := by
  have hvolume : TakesVolume map s.driver dos := by
    rcases hboth.1 with hvol | hmem
    · exact hvol
    · rcases htakes with hvol | ⟨-, hroom⟩
      · exact hvol
      · exact ⟨KnfcConfig.length_le_of_mem_buffers hmem, by omega⟩
  refine ⟨hvolume, ?_⟩
  have hlength : (ntDosNs dos).length ≤ knfcMaxWatchPathChars := by
    rcases hboth.2 with htakes | hmem | heq
    · exact htakes.1
    · exact KnfcConfig.length_le_of_mem_buffers hmem
    · exact heq ▸ hvolume.1
  have heven := h.even
  have hroom := hvolume.2
  refine ⟨hlength, ?_⟩
  -- an even number of slots is taken, so a free one is not the last
  rw [if_pos hvolume]
  unfold knfcMaxWatchRoots at hroom ⊢
  omega

theorem InStep.invokeAddWatchRoot (h : InStep map s) {newWatchRoot : List Wchar}
    (hkeeps : KeepsForms map s (.addWatchRoot newWatchRoot)) :
    InStep map (s.invokeAddWatchRoot map newWatchRoot) := by
  by_cases hadds : isNullOrWhiteSpace newWatchRoot = false ∧
      dosToNt map (trim newWatchRoot) ≠ [] ∧
      (TakesVolume map s.driver (trim newWatchRoot) ∨ TakesDosNs map s.driver (trim newWatchRoot))
  · obtain ⟨hblank, hne, htakes⟩ := hadds
    have hboth := hkeeps hblank hne htakes
    obtain ⟨-, hlisted, hbuffers⟩ := invokeAddWatchRoot_taken (s := s) hblank rfl hne htakes
    have hsynced := (rootsSynced_taken h.synced hne hlisted hbuffers).mpr hboth
    obtain ⟨hvolume, hdosNs⟩ := h.takes_both htakes hboth
    have heven := h.even
    have hroom := h.room
    have hcount := congrArg List.length hbuffers
    simp only [if_pos hvolume, if_pos hdosNs, List.length_append, List.length_singleton] at hcount
    refine ⟨hsynced, fun d hd => ?_, by omega, ?_⟩
    · rw [hlisted, mem_added] at hd
      rcases hd with hd | rfl
      · exact h.mapped d hd
      · exact hne
    · have hlist : (s.invokeAddWatchRoot map newWatchRoot).watchRoots.length ≤
          s.watchRoots.length + 1 := by
        rw [hlisted]
        split <;> simp
      omega
  · obtain ⟨hlisted, hbuffers⟩ := invokeAddWatchRoot_refused hadds
    obtain ⟨hsynced, hmapped, heven, hroom⟩ := h
    refine ⟨fun path => ?_, ?_, ?_, ?_⟩
    · rw [hbuffers, hlisted]
      exact hsynced path
    · rwa [hlisted]
    · rwa [hbuffers]
    · rwa [hbuffers, hlisted]

theorem InStep.step (h : InStep map s) {c : RootsCommand} {t : RootsModel}
    (hkeeps : KeepsForms map s c) (ht : rootsStep map s c = some t) : InStep map t := by
  cases c with
  | addWatchRoot newWatchRoot =>
    obtain rfl := Option.some.inj ht
    exact h.invokeAddWatchRoot hkeeps
  | removeRoot dos =>
    obtain rfl := Option.some.inj ht
    exact h.invokeRemoveRoot dos
  | clearRoots =>
    obtain rfl := Option.some.inj ht
    exact inStep_cleared rfl rfl

theorem InStep.keepsForms_iff (h : InStep map s) {c : RootsCommand} {t : RootsModel}
    (ht : rootsStep map s c = some t) : KeepsForms map s c ↔ OkSynced map t := by
  constructor
  · exact fun hkeeps _ => (h.step hkeeps ht).synced
  intro hok
  cases c with
  | addWatchRoot newWatchRoot =>
    obtain rfl := Option.some.inj ht
    intro hblank hne htakes
    obtain ⟨hreply, hlisted, hbuffers⟩ := invokeAddWatchRoot_taken (s := s) hblank rfl hne htakes
    exact (rootsSynced_taken h.synced hne hlisted hbuffers).mp (hok hreply)
  | removeRoot dos => trivial
  | clearRoots => trivial

end Synced

/-- The window and the driver agree after every command that reports `ok`, in just the
runs that add only paths whose two forms are both kept. -/
theorem ok_synced_iff (map : DriveMap) (cs : List RootsCommand) :
    Guarded (rootsStep map) (KeepsForms map) RootsModel.initial cs ↔
      Always (rootsStep map) (OkSynced map) RootsModel.initial cs :=
  guarded_iff_always_while (I := InStep map) (p := fun _ => True)
    (fun _ _ _ _ hs hkeeps ht => hs.step hkeeps ht)
    (fun _ _ _ _ hs ht => hs.keepsForms_iff ht)
    (fun s c hnone => by cases c <;> cases hnone) cs (fun _ _ => trivial)
    (inStep_cleared rfl rfl) (fun hreply => by cases hreply)

def systemDrive : DriveMap where
  queryDosDevice c :=
    if c = wchar 'C' then some (text "\\Device\\HarddiskVolume3") else none
  backslash_none := by decide

/-- A directory whose volume form alone is over the limit. -/
def longWatchRoot : List Wchar := text "C:\\" ++ List.replicate 507 (wchar 'a')

theorem ok_not_synced_long_root :
    ¬ ∀ (map : DriveMap) (cs : List RootsCommand),
      Always (rootsStep map) (OkSynced map) RootsModel.initial cs := by
  intro hall
  have hafter := hall systemDrive [.addWatchRoot longWatchRoot] _ _ List.prefix_rfl rfl
  have hblank : isNullOrWhiteSpace longWatchRoot = false := by decide +kernel
  have htrim : trim longWatchRoot = longWatchRoot := by decide +kernel
  have hne : dosToNt systemDrive longWatchRoot ≠ [] := by decide +kernel
  have hvolume : ¬ TakesVolume systemDrive RootsModel.initial.driver longWatchRoot := by decide +kernel
  have hdosNs : TakesDosNs systemDrive RootsModel.initial.driver longWatchRoot := by decide +kernel
  obtain ⟨hok, hlisted, hbuffers⟩ :=
    invokeAddWatchRoot_taken (s := RootsModel.initial) hblank htrim hne (Or.inr hdosNs)
  have hsynced : RootsSynced systemDrive RootsModel.initial :=
    (inStep_cleared rfl rfl).synced
  rcases ((rootsSynced_taken hsynced hne hlisted hbuffers).mp (hafter hok)).1 with htakes | hmem
  · exact hvolume htakes
  · cases hmem

end KnFileCatcher

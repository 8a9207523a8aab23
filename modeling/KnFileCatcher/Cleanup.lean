import KnFileCatcher.Send
import KnFileCatcher.StreamHandle

/-! The two cleanup callbacks: which request a handle makes of the queue, and
which of them makes it. -/

namespace KnFileCatcher

open FlagBits

structure FileStandardInformation where
  endOfFile : Ulonglong
  deletePending : Bool

structure PreCleanupEnv where
  passiveLevel : Bool
  allApcsDisabled : Bool
  topLevelIrp : Bool
  nameCopyAlloc : Bool
  liveName : Option UnicodeString
  exclude : KnfcExcludeCtx
  query : Option FileStandardInformation
  completionAlloc : Bool

def PreCleanupEnv.passiveSafe (env : PreCleanupEnv) : Bool :=
  env.passiveLevel && !env.allApcsDisabled

def knFcResolveFinalName (env : PreCleanupEnv) (shc : KnfcShc) : Option UnicodeString :=
  let original := if shc.originalName.length > 0 then some shc.originalName else none
  if shc.currentName.length > 0 ∧ env.nameCopyAlloc = true then some shc.currentName
  else match env.liveName with
    | some name => if name.length > 0 then some name else original
    | none => original

inductive CleanupCall where
  | enqueue (r : CleanupRequest)
  | sendSync (r : CleanupRequest)
deriving DecidableEq

def CleanupCall.request : CleanupCall → CleanupRequest
  | .enqueue r => r
  | .sendSync r => r

def knFcAllocateCleanupCompletion (alloc : Bool) (shc : KnfcShc) (flags : Ulong)
    (fileSizeHint : Ulonglong) (path : UnicodeString) : Option CleanupRequest :=
  if path.length = 0 then none
  else if !alloc then none
  else some ⟨shc.ownerPid, shc.rootPid, flags, fileSizeHint, path⟩

/-- The query of the file: the flags with its delete state, and its size. -/
def reconcile (env : PreCleanupEnv) (shc : KnfcShc) (snap : Ulong) : Ulong × Ulonglong :=
  if env.passiveSafe && !env.topLevelIrp then
    match env.query with
    | some fsi =>
      (if shc.deleteDispositionObserved then
        if fsi.deletePending then snap ||| knfcShcDeleteOnClose
        else snap &&& ~~~knfcShcDeleteOnClose
      else snap, fsi.endOfFile)
    | none => (snap, 0)
  else (snap, 0)

structure PreCleanupResult where
  calls : List CleanupCall
  shc : KnfcShc
  completion : Option CleanupRequest

def knFcPreCleanup (up : Wchar → Wchar) (env : PreCleanupEnv) (shc : KnfcShc) :
    PreCleanupResult :=
  let snap := shc.flags
  if flagOn snap knfcShcBackedUp then ⟨[], shc, none⟩
  else if !flagOn snap (knfcShcModified ||| knfcShcDeleteOnClose) &&
      !shc.deleteDispositionObserved then ⟨[], shc, none⟩
  else match knFcResolveFinalName env shc with
    | none => ⟨[], shc, none⟩
    | some finalName =>
      if env.passiveSafe && (knFcExcludeMatches up env.exclude finalName).1 then ⟨[], shc, none⟩
      else
        let (snap, sizeHint) := reconcile env shc snap
        if !flagOn snap (knfcShcModified ||| knfcShcDeleteOnClose) then ⟨[], shc, none⟩
        else if flagOn snap knfcShcDeleteOnClose then
          let r : CleanupRequest := ⟨shc.ownerPid, shc.rootPid, snap, sizeHint, finalName⟩
          if env.passiveSafe then
            ⟨[.sendSync r], { shc with flags := shc.flags ||| knfcShcBackedUp }, none⟩
          else ⟨[.enqueue r], shc, none⟩
        else
          ⟨[], shc, knFcAllocateCleanupCompletion env.completionAlloc shc snap sizeHint finalName⟩

def knFcPostCleanup (draining : Bool) (completion : Option CleanupRequest) : List CleanupCall :=
  match completion with
  | some r => if !draining then [.enqueue r] else []
  | none => []

def cleanupCalls (up : Wchar → Wchar) (env : PreCleanupEnv) (draining : Bool) (shc : KnfcShc) :
    List CleanupCall :=
  (knFcPreCleanup up env shc).calls ++
    knFcPostCleanup draining (knFcPreCleanup up env shc).completion

theorem length_of_resolveFinalName {env : PreCleanupEnv} {shc : KnfcShc} {name : UnicodeString}
    (h : knFcResolveFinalName env shc = some name) : name.length ≠ 0 := by
  have horig (hf : (if shc.originalName.length > 0 then some shc.originalName else none) =
      some name) : name.length ≠ 0 := by
    split at hf
    · next hl =>
      obtain rfl := Option.some.inj hf
      omega
    · cases hf
  unfold knFcResolveFinalName at h
  simp only at h
  split at h
  · next hc =>
    obtain rfl := Option.some.inj h
    omega
  · split at h
    · split at h
      · next hl =>
        obtain rfl := Option.some.inj h
        omega
      · exact horig h
    · exact horig h

theorem reconcile_of_unobserved {env : PreCleanupEnv} {shc : KnfcShc}
    (h : shc.deleteDispositionObserved = false) (snap : Ulong) :
    (reconcile env shc snap).1 = snap := by
  unfold reconcile
  split
  · split
    · simp [h]
    · rfl
  · rfl

def finalRequest (env : PreCleanupEnv) (shc : KnfcShc) (name : UnicodeString) : CleanupRequest :=
  ⟨shc.ownerPid, shc.rootPid, (reconcile env shc shc.flags).1, (reconcile env shc shc.flags).2, name⟩

section Calls

variable {up : Wchar → Wchar} {env : PreCleanupEnv} {shc : KnfcShc} {name : UnicodeString}

/-- The two callbacks of a handle with a name that no pattern matches. -/
theorem preCleanup_eq (hback : flagOn shc.flags knfcShcBackedUp = false)
    (hname : knFcResolveFinalName env shc = some name)
    (hx : (knFcExcludeMatches up env.exclude name).1 = false) :
    ((knFcPreCleanup up env shc).calls, (knFcPreCleanup up env shc).completion) =
      if !flagOn (reconcile env shc shc.flags).1 (knfcShcModified ||| knfcShcDeleteOnClose) then
        ([], none)
      else if flagOn (reconcile env shc shc.flags).1 knfcShcDeleteOnClose then
        ([if env.passiveSafe then .sendSync (finalRequest env shc name)
          else .enqueue (finalRequest env shc name)], none)
      else ([], if env.completionAlloc then some (finalRequest env shc name) else none) := by
  have hlen := length_of_resolveFinalName hname
  unfold knFcPreCleanup
  simp only [hback, Bool.false_eq_true, if_false, hname, hx, Bool.and_false]
  split
  · next hc =>
    simp only [Bool.and_eq_true, Bool.not_eq_true'] at hc
    rw [reconcile_of_unobserved hc.2, hc.1]
    rfl
  · split
    · rfl
    · split
      · split <;> rfl
      · cases env.completionAlloc <;> simp [knFcAllocateCleanupCompletion, hlen, finalRequest]

theorem cleanupCalls_eq (hback : flagOn shc.flags knfcShcBackedUp = false)
    (hname : knFcResolveFinalName env shc = some name)
    (hx : (knFcExcludeMatches up env.exclude name).1 = false) (halloc : env.completionAlloc = true) :
    cleanupCalls up env false shc =
      if flagOn (reconcile env shc shc.flags).1 (knfcShcModified ||| knfcShcDeleteOnClose) then
        [if flagOn (reconcile env shc shc.flags).1 knfcShcDeleteOnClose && env.passiveSafe then
          .sendSync (finalRequest env shc name) else .enqueue (finalRequest env shc name)]
      else [] := by
  have h := preCleanup_eq hback hname hx
  have hcalls : (knFcPreCleanup up env shc).calls = _ := congrArg Prod.fst h
  have hcompletion : (knFcPreCleanup up env shc).completion = _ := congrArg Prod.snd h
  rw [cleanupCalls, hcalls, hcompletion]
  cases flagOn (reconcile env shc shc.flags).1 (knfcShcModified ||| knfcShcDeleteOnClose) with
  | false => rfl
  | true =>
    cases flagOn (reconcile env shc shc.flags).1 knfcShcDeleteOnClose with
    | false => simp [halloc, knFcPostCleanup]
    | true => cases env.passiveSafe <;> rfl

end Calls

end KnFileCatcher

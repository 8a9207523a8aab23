import KnFileCatcher.PushLockSections
import KnFileCatcher.Windows

/-! The client port of the driver under `g_ClientLock`. A port is a block of its own: the
filter manager opens it for the connect callback, a message uses it, and
`FltCloseClientPort` frees it. -/

namespace KnFileCatcher

open PushLock
open PushLock.Program (perform wp_bind wp_call wp_look)
open Ownership (Block)
open Runs (Reachable)

/-- What `FltSendMessage` leaves; the message, its timeout and the reply bytes play no part
in what the lock is for. -/
structure FltSent where
  status : NtStatus
  replyLength : Ulong
deriving DecidableEq

/-- `closeClient` is the lock section of `knFcCommUninitialize`. -/
inductive PortOp where
  | connect
  | disconnect
  | send (reply : Bool) (replyLength : Option Ulong) (outcome : FltSent)
  | closeClient
deriving DecidableEq

inductive PortAnswer where
  | connected (st : NtStatus)
  | disconnected
  | sent (st : NtStatus) (replyLength : Option Ulong)
  | closed
deriving DecidableEq

abbrev PortProgram := PushLock.Program Unit (Option (Block Unit)) Unit

/-- The filter manager opens the port before it calls. -/
def knFcCommConnect : PortProgram PortAnswer := do
  let clientPort : Block Unit ← perform (.alloc ())
  perform (.acquire .exclusive)
  perform (.set fun _ => some clientPort)
  perform .release
  return .connected statusSuccess

/-- `FltCloseClientPort` sets the pointer to null, and so does its caller. -/
def closeClientPort : Option (Block Unit) → PortProgram Unit
  | some port => do
    perform (.free port)
    perform (.set fun _ => none)
    perform (.set fun _ => none)
  | none => return ()

def closeSection : PortProgram Unit := do
  perform (.acquire .exclusive)
  let port : Option (Block Unit) ← perform .look
  closeClientPort port
  perform .release

def knFcCommDisconnect : PortProgram PortAnswer := do
  closeSection
  return .disconnected

def knFcCommUninitialize : PortProgram PortAnswer := do
  closeSection
  return .closed

/-- The message goes out, and its reply or its timeout comes in, through the same port. -/
def sendThrough (reply : Bool) (replyLength : Option Ulong) (outcome : FltSent) :
    Option (Block Unit) → PortProgram PortAnswer
  | none => return .sent statusPortDisconnected (replyLength.map fun _ => 0)
  | some port => do
    let _ ← perform (.read port)
    let _ ← perform (.read port)
    return .sent outcome.status
      (if reply then replyLength.map fun _ => outcome.replyLength else replyLength)

def sendMessage (reply : Bool) (replyLength : Option Ulong) (outcome : FltSent) :
    PortProgram PortAnswer := do
  perform (.acquire .exclusive)
  let port : Option (Block Unit) ← perform .look
  let answer ← sendThrough reply replyLength outcome port
  perform .release
  return answer

def portProgram : PortOp → PortProgram PortAnswer
  | .connect => knFcCommConnect
  | .disconnect => knFcCommDisconnect
  | .send reply replyLength outcome => sendMessage reply replyLength outcome
  | .closeClient => knFcCommUninitialize

/-- Whether there is a client port, and how many ports a later one took the place of. -/
structure PortState where
  connected : Bool
  lost : Nat
deriving DecidableEq

def PortState.connect (n : PortState) : PortState :=
  ⟨true, n.lost + if n.connected then 1 else 0⟩

def sentAnswer (reply : Bool) (replyLength : Option Ulong) (outcome : FltSent) (connected : Bool) :
    PortAnswer :=
  if connected then
    .sent outcome.status (if reply then replyLength.map fun _ => outcome.replyLength else replyLength)
  else .sent statusPortDisconnected (replyLength.map fun _ => 0)

def portSpec : PortOp → PortState → PortAnswer × PortState
  | .connect, n => (.connected statusSuccess, n.connect)
  | .disconnect, n => (.disconnected, { n with connected := false })
  | .send reply replyLength outcome, n => (sentAnswer reply replyLength outcome n.connected, n)
  | .closeClient, n => (.closed, { n with connected := false })

/-- The open ports are the one of the pointer and those it lost. -/
structure PortHolds (g : Option (Block Unit)) (G : Own Unit Unit) (n : PortState) : Prop where
  connected : g.isSome = n.connected
  ports : ∃ lost : List (Block Unit), lost.length = n.lost ∧ (g.toList ++ lost).Nodup ∧
    ∀ b, G b ≠ none ↔ b ∈ g.toList ++ lost

def portContract : Contract Unit (Option (Block Unit)) Unit PortOp PortAnswer PortState where
  inv := PortHolds
  spec := portSpec
  seen g n := g.isSome = n.connected
  cost _ := 0
  inv_seen _ _ _ h := h.connected

section Sections

variable {g : Option (Block Unit)} {G L : Own Unit Unit} {n : PortState} {port : Block Unit}
  {op : PortOp}

theorem portHolds_init : PortHolds none .empty ⟨false, 0⟩ :=
  ⟨rfl, [], rfl, by simp, fun b => by simp [Own.empty]⟩

theorem PortHolds.connect (h : PortHolds g G n) (hG : G port = none) :
    PortHolds (some port) (Function.update G port (some ())) n.connect := by
  obtain ⟨hconnected, lost, hlen, hnodup, hports⟩ := h
  have hnew : port ∉ g.toList ++ lost := fun hmem => (hports port).mpr hmem hG
  refine ⟨rfl, g.toList ++ lost, ?_, List.nodup_cons.mpr ⟨hnew, hnodup⟩, fun b => ?_⟩
  · rw [List.length_append, hlen, PortState.connect, ← hconnected]
    cases g with
    | none => simp
    | some _ => simp [Nat.add_comm]
  · by_cases hb : b = port
    · subst hb
      simp
    · rw [Function.update_of_ne hb, hports b]
      simp [hb]

theorem PortHolds.close (h : PortHolds (some port) G n) :
    G port ≠ none ∧ PortHolds none (Function.update G port none) { n with connected := false } := by
  obtain ⟨-, lost, hlen, hnodup, hports⟩ := h
  have hnew : port ∉ lost := (List.nodup_cons.mp hnodup).1
  refine ⟨(hports port).mpr (by simp), rfl, lost, hlen, (List.nodup_cons.mp hnodup).2, fun b => ?_⟩
  by_cases hb : b = port
  · subst hb
    simp [hnew]
  · rw [Function.update_of_ne hb, hports b]
    simp [hb]

theorem PortHolds.same (h : PortHolds none G n) : { n with connected := false } = n := by
  rw [show false = n.connected from h.connected]

/-- The section that closes the port, for an operation that is to do just that. -/
theorem wp_closeSection (hspec : ∀ n, (portSpec op n).2 = { n with connected := false }) :
    closeSection.wp portContract op .empty .before
      fun _ L ph => L = .empty ∧ ∃ n, ph = .after (portSpec op n).1 0 := by
  refine wp_call ⟨rfl, fun g G n hinv _ => wp_look rfl ?_⟩
  rw [Own.empty_join]
  cases g with
  | none =>
    refine wp_bind (wp_call ⟨G, fun _ _ => id, ?_, Own.without_self G, n, rfl⟩)
    change PortHolds none G (portSpec op n).2
    rw [hspec, hinv.same]
    exact hinv
  | some port =>
    obtain ⟨hport, hclosed⟩ := hinv.close
    have hseen : portContract.seen none (portContract.spec op n).2 := by
      change false = (portSpec op n).2.connected
      rw [hspec]
    refine wp_bind (wp_call ⟨hport, wp_call ⟨_, n, rfl, Or.inr hseen, _, n, rfl, Or.inr hseen,
      wp_call ⟨_, fun _ _ => id, ?_, Own.without_self _, n, rfl⟩⟩⟩)
    change PortHolds none _ (portSpec op n).2
    rwa [hspec]

theorem wp_sendThrough {reply : Bool} {replyLength : Option Ulong} {outcome : FltSent}
    (h : PortHolds g G n) :
    (sendThrough reply replyLength outcome g).Finds portContract op G (.writing g n)
      (sentAnswer reply replyLength outcome n.connected) := by
  have hconnected := h.connected
  cases g with
  | none =>
    rw [← hconnected]
    exact ⟨rfl, rfl, rfl⟩
  | some port =>
    rw [← hconnected]
    have hport := h.close.1
    obtain ⟨v, hv⟩ := Option.ne_none_iff_exists'.mp hport
    exact wp_call ⟨v, Or.inl hv, wp_call ⟨v, Or.inl hv, rfl, rfl, rfl⟩⟩

theorem portProgram_sound : Sound portContract portProgram := by
  intro op
  cases op with
  | connect =>
    refine wp_call fun port v _ _ _ => wp_call ⟨rfl, fun g G n hinv hdisj => ?_⟩
    have hG : G port = none := by
      by_contra hne
      have hnone := hdisj port hne
      rw [Function.update_self] at hnone
      cases hnone
    rw [Own.join_single hG]
    have hconnected := hinv.connect hG
    refine wp_call ⟨g, n, rfl, Or.inr hconnected.connected, wp_call ⟨_, fun _ _ => id, hconnected,
      fun b => ?_, rfl, rfl⟩⟩
    rw [Own.without_self]
    rfl
  | disconnect =>
    refine wp_bind ((wp_closeSection fun n => rfl).mono ?_)
    rintro _ _ _ ⟨rfl, n, rfl⟩
    exact ⟨fun _ => rfl, rfl, rfl⟩
  | send reply replyLength outcome =>
    refine wp_call ⟨rfl, fun g G n hinv _ => wp_look rfl ?_⟩
    rw [Own.empty_join]
    refine (wp_sendThrough hinv).bind (wp_call ⟨G, fun _ _ => id, hinv, ?_⟩)
    rw [Own.without_self]
    exact ⟨fun _ => rfl, rfl, rfl⟩
  | closeClient =>
    refine wp_bind ((wp_closeSection fun n => rfl).mono ?_)
    rintro _ _ _ ⟨rfl, n, rfl⟩
    exact ⟨fun _ => rfl, rfl, rfl⟩

end Sections

section Histories

variable {T : Type} {history : List (Moment T PortOp PortAnswer)}

def PortOp.closes : PortOp → Bool
  | .disconnect | .closeClient => true
  | .connect | .send _ _ _ => false

def closesPort : Moment T PortOp PortAnswer → Bool
  | .sectioned _ op => op.closes
  | .called _ _ | .returned _ _ _ => false

abbrev portAfter (history : List (Moment T PortOp PortAnswer)) : PortState :=
  after portContract ⟨false, 0⟩ history

/-- Something about every connect section of a history, from what came later and before. -/
def EachConnect (φ : List (Moment T PortOp PortAnswer) → List (Moment T PortOp PortAnswer) → Prop)
    (history : List (Moment T PortOp PortAnswer)) : Prop :=
  ∀ later t past, history = later ++ .sectioned t .connect :: past → φ later past

theorem eachConnect_nil
    {φ : List (Moment T PortOp PortAnswer) → List (Moment T PortOp PortAnswer) → Prop} :
    EachConnect φ [] := by
  intro later t past heq
  cases later <;> cases heq

theorem eachConnect_cons
    {φ : List (Moment T PortOp PortAnswer) → List (Moment T PortOp PortAnswer) → Prop}
    {m : Moment T PortOp PortAnswer} : EachConnect φ (m :: history) ↔
      (∀ t, m = .sectioned t .connect → φ [] history) ∧
        EachConnect (fun later past => φ (m :: later) past) history := by
  constructor
  · intro h
    refine ⟨fun t hm => h [] t history (by rw [hm, List.nil_append]), fun later t past heq => ?_⟩
    exact h (m :: later) t past (by rw [heq, List.cons_append])
  · rintro ⟨hhead, hrest⟩ later t past heq
    cases later with
    | nil =>
      obtain ⟨hm, rfl⟩ := List.cons.inj heq
      exact hhead t hm
    | cons m' later =>
      obtain ⟨rfl, htail⟩ := List.cons.inj heq
      exact hrest later t past htail

theorem connected_iff : (portAfter history).connected = false ↔
    EachConnect (fun later _ => ∃ m ∈ later, closesPort m = true) history := by
  induction history with
  | nil => exact ⟨fun _ => eachConnect_nil, fun _ => rfl⟩
  | cons m history ih =>
    rw [eachConnect_cons]
    cases hm : closesPort m with
    | true =>
      -- a section that closes the port settles all connections before it
      obtain ⟨t, op, rfl, hop⟩ : ∃ t op, m = .sectioned t op ∧ op.closes = true := by
        cases m with
        | sectioned t op => exact ⟨t, op, rfl, hm⟩
        | called _ _ | returned _ _ _ => cases hm
      have hclosed : (portAfter (.sectioned t op :: history)).connected = false := by
        cases op with
        | disconnect | closeClient => rfl
        | connect | send _ _ _ => cases hop
      refine iff_of_true hclosed ⟨fun t' heq => ?_, fun later _ _ _ => ⟨_, List.mem_cons_self, hm⟩⟩
      obtain ⟨-, rfl⟩ := Moment.sectioned.inj heq
      cases hop
    | false =>
      have hlater : EachConnect (fun later _ => ∃ m' ∈ m :: later, closesPort m' = true) history ↔
          EachConnect (fun later _ => ∃ m' ∈ later, closesPort m' = true) history := by
        simp [EachConnect, hm]
      rw [hlater, ← ih]
      cases m with
      | sectioned t op =>
        cases op with
        | connect =>
          refine iff_of_false (by simp [portAfter, after, portContract, portSpec,
            PortState.connect]) fun h => ?_
          obtain ⟨_, hmem, -⟩ := h.1 t rfl
          cases hmem
        | send reply replyLength outcome => exact ⟨fun h => ⟨nofun, h⟩, fun h => h.2⟩
        | disconnect | closeClient => cases hm
      | called _ _ | returned _ _ _ => exact ⟨fun h => ⟨nofun, h⟩, fun h => h.2⟩

theorem lost_iff : (portAfter history).lost = 0 ↔
    EachConnect (fun _ past => (portAfter past).connected = false) history := by
  induction history with
  | nil => exact ⟨fun _ => eachConnect_nil, fun _ => rfl⟩
  | cons m history ih =>
    rw [eachConnect_cons, ← ih]
    cases m with
    | sectioned t op =>
      cases op with
      | connect =>
        change (portAfter history).lost + _ = 0 ↔ _
        cases (portAfter history).connected <;> simp
      | send _ _ _ | disconnect | closeClient => exact ⟨fun h => ⟨nofun, h⟩, fun h => h.2⟩
    | called _ _ | returned _ _ _ => exact ⟨fun h => ⟨nofun, h⟩, fun h => h.2⟩

end Histories

section Runs

variable {T : Type} [DecidableEq T]

abbrev PortSystem (T : Type) := PushLock.System T Unit (Option (Block Unit)) Unit PortOp PortAnswer

/-- Every message goes through an open port, a port is closed once and not during a message,
and each callback, send and closing takes effect at one moment. At rest no port is open just
when every connect section found none and a closing section came after it. -/
structure PortRun (s : PortSystem T) : Prop where
  noMisuse : s.misused = false
  orderly : Ownership.Orderly s.log
  atomic : Linearizable portContract ⟨false, 0⟩ s.history
  progress : ∀ t, s.running t ≠ none → ∃ t' s', PushLock.step portProgram s (.step t') = some s'
  closed : s.AtRest → ((∀ b, ¬ s.Live b) ↔
    EachConnect (fun later past => (portAfter past).connected = false ∧
      ∃ m ∈ later, closesPort m = true) s.history)

theorem PortHolds.none_open_iff {g : Option (Block Unit)} {G : Own Unit Unit} {n : PortState}
    (h : PortHolds g G n) : (∀ b, G b = none) ↔ n.lost = 0 ∧ n.connected = false := by
  obtain ⟨hconnected, lost, hlen, -, hports⟩ := h
  have hnil : (∀ b, G b = none) ↔ g.toList ++ lost = [] := by
    rw [List.eq_nil_iff_forall_not_mem]
    exact forall_congr' fun b => by rw [← hports b, not_not]
  rw [hnil, List.append_eq_nil_iff, ← hlen, ← hconnected, List.length_eq_zero_iff]
  cases g <;> simp

theorem comm_port_runs (s : PortSystem T)
    (h : Reachable (PushLock.step portProgram) (.init none fun _ => ()) s) : PortRun s := by
  obtain ⟨g, hk⟩ := kept_of_reachable portProgram_sound portHolds_init h
  refine ⟨hk.lock.noMisuse, hk.memory.orderly, hk.explained, fun _ => hk.progress, fun hrest => ?_⟩
  obtain ⟨G, hinv, hlive, -⟩ := (hk.rest hrest).1
  have hopen : (∀ b, ¬ s.Live b) ↔ ∀ b, G b = none :=
    forall_congr' fun b => by rw [← hlive b, not_not]
  rw [hopen, hinv.none_open_iff, lost_iff, connected_iff]
  exact ⟨fun h later t past heq => ⟨h.1 later t past heq, h.2 later t past heq⟩, fun h =>
    ⟨fun later t past heq => (h later t past heq).1, fun later t past heq => (h later t past heq).2⟩⟩

/-- A client that connects between the two closings of the unload, with a send before. -/
def lateConnect : List (Action Bool PortOp) :=
  .call true .connect :: List.replicate 5 (.step true) ++
    [.call false (.send true (some 24) ⟨statusSuccess, 24⟩)] ++ List.replicate 3 (.step false) ++
    [.call true .closeClient] ++ List.replicate 3 (.step false) ++ List.replicate 7 (.step true) ++
    .call true .connect :: List.replicate 5 (.step true)

theorem comm_port_runs_late :
    ∃ s : PortSystem Bool, Runs.exec (PushLock.step portProgram) (.init none fun _ => ())
        lateConnect = some s ∧ s.Live ⟨(), 1⟩ ∧ ¬ s.Live ⟨(), 0⟩ ∧ PortRun s :=
  have hrun : Runs.exec (PushLock.step portProgram) (.init none fun _ => ()) lateConnect =
      some (_ : PortSystem Bool) := rfl
  ⟨_, hrun, ⟨⟨true, by decide⟩, by decide⟩, fun h => h.2 (by decide), comm_port_runs _ ⟨_, hrun⟩⟩

end Runs

end KnFileCatcher

import KvStore.Lib.Runs
import KvStore.Lib.Slots
import KvStore.Raft.Types
import Mathlib.Data.List.Nodup
import Mathlib.Logic.Function.Basic

set_option autoImplicit false

/-! The simulated network: what becomes of an RPC while ends are switched on and off and
servers are added and deleted. A server is known by its address, so that a restarted one is
another server under the same name. -/

namespace KvStore.Network

structure ReplyMsg where
  ok : Bool
  reply : Bytes
  deriving DecidableEq, Repr

/-- What `processReq` has read of the network when it goes on with a request. -/
structure Route (S : Type) where
  servername : S
  server : Nat
  reliable : Bool
  deriving DecidableEq, Repr

/-- Where a call is: its sender waits for the network, `processReq` has it, the end is not
connected to a running server, it has its route, it waits for the handler, it has the
handler's reply, the server has died in the meantime, a reply is on its way, or the call
has returned. -/
inductive Phase (S : Type)
  | sending
  | accepted
  | refused
  | routed (route : Route S)
  | waiting (route : Route S)
  | answered (route : Route S) (reply : ReplyMsg)
  | abandoned (route : Route S)
  | replying (reply : ReplyMsg)
  | returned (reply : ReplyMsg)
  deriving DecidableEq, Repr

/-- The goroutine that runs the handler goes on when `processReq` has given up on it. -/
inductive Handler (S : Type)
  | idle
  | started (route : Route S)
  | ran (reply : ReplyMsg)
  deriving DecidableEq, Repr

structure Call (E S : Type) where
  endname : E
  svcMeth : String
  args : Bytes
  phase : Phase S
  handler : Handler S
  deriving DecidableEq, Repr

/-- One `server.dispatch`, with the number of the call it was for. -/
structure Execution (S : Type) where
  call : Nat
  servername : S
  server : Nat
  svcMeth : String
  args : Bytes
  reply : ReplyMsg
  deriving DecidableEq, Repr

/-- `Network`, with all the calls that were ever made. -/
structure Net (E S : Type) where
  reliable : Bool
  enabled : E → Bool
  connections : E → Option S
  servers : S → Option Nat
  done : Bool
  calls : List (Call E S)
  executed : List (Execution S)

inductive Action (E S : Type)
  | call (endname : E) (svcMeth : String) (args : Bytes)
  | accept (call : Nat)
  | giveUp (call : Nat)
  | readEndnameInfo (call : Nat)
  | timeout (call : Nat)
  | drop (call : Nat)
  | start (call : Nat)
  | dispatch (call : Nat) (reply : ReplyMsg)
  | take (call : Nat)
  | poll (call : Nat)
  | judge (call : Nat) (drop : Bool)
  | deliver (call : Nat)
  | setReliable (yes : Bool)
  | enable (endname : E) (enabled : Bool)
  | connect (endname : E) (servername : S)
  | resetEnd (endname : E)
  | addServer (servername : S) (server : Nat)
  | deleteServer (servername : S)
  | cleanup
  deriving Repr

variable {E S : Type}

namespace Net

def make (E S : Type) : Net E S where
  reliable := true
  enabled _ := false
  connections _ := none
  servers _ := none
  done := false
  calls := []
  executed := []

variable [DecidableEq E] [DecidableEq S] (rn : Net E S)

def setCall (k : Nat) (call : Call E S) : Net E S := { rn with calls := rn.calls.set k call }

/-- `readEndnameInfo`, where the request is to go on: the end is enabled and connected to a
name under which a server runs. -/
def readEndnameInfo (endname : E) : Option (Route S) :=
  if rn.enabled endname then do
    let servername ← rn.connections endname
    let server ← rn.servers servername
    some ⟨servername, server, rn.reliable⟩
  else none

def isServerDead (endname : E) (servername : S) (server : Nat) : Bool :=
  rn.enabled endname == false || rn.servers servername != some server

def failed : ReplyMsg := ⟨false, []⟩

/-- The next step of `processReq`, or of the caller, for a call. -/
def advance (call : Call E S) : Action E S → Option (Phase S × Handler S)
  | .accept _ => if call.phase = .sending then some (.accepted, call.handler) else none
  | .giveUp _ =>
    -- The select on `done`: the network has been destroyed.
    if call.phase = .sending ∧ rn.done = true then some (.returned failed, call.handler) else none
  | .readEndnameInfo _ =>
    if call.phase = .accepted then
      match rn.readEndnameInfo call.endname with
      | some route => some (.routed route, call.handler)
      | none => some (.refused, call.handler)
    else none
  | .timeout _ => if call.phase = .refused then some (.replying failed, call.handler) else none
  | .drop _ =>
    match call.phase with
    | .routed route => if route.reliable then none else some (.replying failed, call.handler)
    | _ => none
  | .start _ =>
    match call.phase with
    | .routed route => some (.waiting route, .started route)
    | _ => none
  | .take _ =>
    match call.phase, call.handler with
    | .waiting route, .ran reply => some (.answered route reply, call.handler)
    | _, _ => none
  | .poll _ =>
    match call.phase with
    | .waiting route =>
      if rn.isServerDead call.endname route.servername route.server then
        some (.abandoned route, call.handler)
      else none
    | _ => none
  | .judge _ drop =>
    match call.phase with
    | .abandoned _ => some (.replying failed, call.handler)
    | .answered route reply =>
      if rn.isServerDead call.endname route.servername route.server then
        some (.replying failed, call.handler)
      else if drop then
        if route.reliable then none else some (.replying failed, call.handler)
      else some (.replying reply, call.handler)
    | _ => none
  | .deliver _ =>
    match call.phase with
    | .replying reply => some (.returned reply, call.handler)
    | _ => none
  | _ => none

/-- A step of call `k`. -/
def process (k : Nat) (action : Action E S) : Option (Net E S) := do
  let call ← rn.calls[k]?
  let (phase, handler) ← rn.advance call action
  some (rn.setCall k { call with phase := phase, handler := handler })

/-- The handler runs, whatever has become of the call. -/
def dispatch (k : Nat) (reply : ReplyMsg) : Option (Net E S) := do
  let call ← rn.calls[k]?
  match call.handler with
  | .started route =>
    some { rn.setCall k { call with handler := .ran reply } with
      executed := rn.executed ++
        [⟨k, route.servername, route.server, call.svcMeth, call.args, reply⟩] }
  | _ => none

def step : Action E S → Option (Net E S)
  | .call endname svcMeth args =>
    some { rn with calls := rn.calls ++ [⟨endname, svcMeth, args, .sending, .idle⟩] }
  | .dispatch k reply => rn.dispatch k reply
  | .setReliable yes => some { rn with reliable := yes }
  | .enable endname enabled =>
    some { rn with enabled := Function.update rn.enabled endname enabled }
  | .connect endname servername =>
    some { rn with connections := Function.update rn.connections endname (some servername) }
  | .resetEnd endname =>
    -- `MakeEnd` and `DeleteEnd` leave the two maps with the same values for the end.
    some { rn with
      enabled := Function.update rn.enabled endname false
      connections := Function.update rn.connections endname none }
  | .addServer servername server =>
    some { rn with servers := Function.update rn.servers servername (some server) }
  | .deleteServer servername =>
    some { rn with servers := Function.update rn.servers servername none }
  | .cleanup => some { rn with done := true }
  | .accept k => rn.process k (.accept k)
  | .giveUp k => rn.process k (.giveUp k)
  | .readEndnameInfo k => rn.process k (.readEndnameInfo k)
  | .timeout k => rn.process k (.timeout k)
  | .drop k => rn.process k (.drop k)
  | .start k => rn.process k (.start k)
  | .take k => rn.process k (.take k)
  | .poll k => rn.process k (.poll k)
  | .judge k drop => rn.process k (.judge k drop)
  | .deliver k => rn.process k (.deliver k)

abbrev Run (trace : List (Net E S)) : Prop :=
  Runs.Run step (fun _ _ => True) (make E S) trace

end Net

/-- The call that an action is a step of. A handler takes its own time, and what is done to
the network is no call's. -/
def Action.own : Action E S → Option Nat
  | .accept k => some k
  | .giveUp k => some k
  | .readEndnameInfo k => some k
  | .timeout k => some k
  | .drop k => some k
  | .start k => some k
  | .take k => some k
  | .poll k => some k
  | .judge k _ => some k
  | .deliver k => some k
  | _ => none

/-- What an action does: a step of a call, a handler's run, a new call, or something that
leaves the calls alone. -/
inductive Does [DecidableEq S] (rn rn' : Net E S) : Option Nat → Prop
  | own (k : Nat) (action : Action E S) (moved : rn.process k action = some rn') :
      Does rn rn' (some k)
  | handler (k : Nat) (reply : ReplyMsg) (moved : rn.dispatch k reply = some rn') :
      Does rn rn' none
  | made (endname : E) (svcMeth : String) (args : Bytes)
      (calls : rn'.calls = rn.calls ++ [⟨endname, svcMeth, args, .sending, .idle⟩])
      (executed : rn'.executed = rn.executed) : Does rn rn' none
  | network (calls : rn'.calls = rn.calls) (executed : rn'.executed = rn.executed) :
      Does rn rn' none

theorem step_does [DecidableEq E] [DecidableEq S] {rn rn' : Net E S} {action : Action E S}
    (moved : rn.step action = some rn') : Does rn rn' action.own := by
  cases action with
  | call endname svcMeth args =>
    obtain rfl := Option.some.inj moved
    exact .made endname svcMeth args rfl rfl
  | dispatch k reply => exact .handler k reply moved
  | setReliable yes => obtain rfl := Option.some.inj moved; exact .network rfl rfl
  | enable endname enabled => obtain rfl := Option.some.inj moved; exact .network rfl rfl
  | connect endname servername => obtain rfl := Option.some.inj moved; exact .network rfl rfl
  | resetEnd endname => obtain rfl := Option.some.inj moved; exact .network rfl rfl
  | addServer servername server => obtain rfl := Option.some.inj moved; exact .network rfl rfl
  | deleteServer servername => obtain rfl := Option.some.inj moved; exact .network rfl rfl
  | cleanup => obtain rfl := Option.some.inj moved; exact .network rfl rfl
  | accept k => exact .own k _ moved
  | giveUp k => exact .own k _ moved
  | readEndnameInfo k => exact .own k _ moved
  | timeout k => exact .own k _ moved
  | drop k => exact .own k _ moved
  | start k => exact .own k _ moved
  | take k => exact .own k _ moved
  | poll k => exact .own k _ moved
  | judge k drop => exact .own k _ moved
  | deliver k => exact .own k _ moved

/-- At some time before the handler of call `k` ran, the end led to this server. -/
def Led (trace : List (Net E S)) (k : Nat) (endname : E) (route : Route S) : Prop :=
  ∃ rn ∈ trace, (∀ execution ∈ rn.executed, execution.call ≠ k) ∧ rn.enabled endname = true ∧
    rn.connections endname = some route.servername ∧
    rn.servers route.servername = some route.server

/-- At some time after the execution the end was enabled and the server was there. -/
def Confirmed (trace : List (Net E S)) (endname : E) (execution : Execution S) : Prop :=
  ∃ rn ∈ trace, execution ∈ rn.executed ∧
    rn.isServerDead endname execution.servername execution.server = false

/-- The execution of call `k` on its route. -/
def Call.execution (call : Call E S) (k : Nat) (route : Route S) (reply : ReplyMsg) : Execution S :=
  ⟨k, route.servername, route.server, call.svcMeth, call.args, reply⟩

/-- What is behind the phase that call `k` is in. -/
def Backed (trace : List (Net E S)) (executed : List (Execution S)) (k : Nat) (call : Call E S) :
    Prop :=
  match call.phase with
  | .sending => call.handler = .idle
  | .accepted => call.handler = .idle
  | .refused => True
  | .routed route => Led trace k call.endname route ∧ call.handler = .idle
  | .waiting route => Led trace k call.endname route ∧ (call.handler = .started route ∨
      ∃ reply, call.handler = .ran reply ∧ call.execution k route reply ∈ executed)
  | .answered route reply => Led trace k call.endname route ∧
      call.execution k route reply ∈ executed
  | .abandoned _ => True
  | .replying reply => reply.ok = true → ∃ route, Led trace k call.endname route ∧
      call.execution k route reply ∈ executed ∧
      Confirmed trace call.endname (call.execution k route reply)
  | .returned reply => reply.ok = true → ∃ route, Led trace k call.endname route ∧
      call.execution k route reply ∈ executed ∧
      Confirmed trace call.endname (call.execution k route reply)

/-- The books of the newest state of a run. -/
structure Kept (trace : List (Net E S)) (rn : Net E S) : Prop where
  once : (rn.executed.map Execution.call).Nodup
  ran : ∀ execution ∈ rn.executed, ∃ call, rn.calls[execution.call]? = some call ∧
    call.handler = .ran execution.reply
  calls : ∀ (k : Nat) call, rn.calls[k]? = some call → Backed trace rn.executed k call

variable {trace longer : List (Net E S)} {executed more : List (Execution S)} {rn rn' : Net E S}
  {k : Nat} {call : Call E S} {endname : E}

theorem Led.mono {route : Route S} (led : Led trace k endname route) (within : trace ⊆ longer) :
    Led longer k endname route := by
  obtain ⟨rn, member, rest⟩ := led
  exact ⟨rn, within member, rest⟩

theorem Confirmed.mono {execution : Execution S} (confirmed : Confirmed trace endname execution)
    (within : trace ⊆ longer) : Confirmed longer endname execution := by
  obtain ⟨rn, member, rest⟩ := confirmed
  exact ⟨rn, within member, rest⟩

theorem Backed.mono (backed : Backed trace executed k call) (within : trace ⊆ longer)
    (grows : executed ⊆ more) : Backed longer more k call := by
  unfold Backed at backed ⊢
  cases phase : call.phase with
  | sending => simpa only [phase] using backed
  | accepted => simpa only [phase] using backed
  | refused => trivial
  | abandoned route => trivial
  | routed route =>
    simp only [phase] at backed ⊢
    exact ⟨backed.1.mono within, backed.2⟩
  | waiting route =>
    simp only [phase] at backed ⊢
    refine ⟨backed.1.mono within, backed.2.imp_right ?_⟩
    rintro ⟨reply, ran, there⟩
    exact ⟨reply, ran, grows there⟩
  | answered route reply =>
    simp only [phase] at backed ⊢
    exact ⟨backed.1.mono within, grows backed.2⟩
  | replying reply =>
    simp only [phase] at backed ⊢
    intro ok
    obtain ⟨route, led, there, confirmed⟩ := backed ok
    exact ⟨route, led.mono within, grows there, confirmed.mono within⟩
  | returned reply =>
    simp only [phase] at backed ⊢
    intro ok
    obtain ⟨route, led, there, confirmed⟩ := backed ok
    exact ⟨route, led.mono within, grows there, confirmed.mono within⟩

/-- The handler of a call that is under way runs. -/
theorem Backed.dispatch {route : Route S} (backed : Backed trace executed k call)
    (started : call.handler = .started route) (reply : ReplyMsg) :
    Backed trace (executed ++ [call.execution k route reply]) k
      { call with handler := .ran reply } := by
  replace backed := backed.mono (List.Subset.refl _)
    (List.subset_append_left executed [call.execution k route reply])
  unfold Backed at backed ⊢
  cases phase : call.phase with
  | sending => simp only [phase] at backed; cases backed.symm.trans started
  | accepted => simp only [phase] at backed; cases backed.symm.trans started
  | routed other => simp only [phase] at backed; cases backed.2.symm.trans started
  | waiting other =>
    simp only [phase] at backed ⊢
    refine ⟨backed.1, Or.inr ⟨reply, rfl, ?_⟩⟩
    rcases backed.2 with same | ⟨_, ran, _⟩
    · obtain rfl := Handler.started.inj (same.symm.trans started)
      exact List.mem_append_right _ (List.mem_singleton_self _)
    · cases ran.symm.trans started
  | refused => trivial
  | abandoned other => trivial
  | answered other reply' => simp only [phase] at backed; exact backed
  | replying reply' => simp only [phase] at backed; exact backed
  | returned reply' => simp only [phase] at backed; exact backed

theorem readEndnameInfo_led {route : Route S} (here : rn ∈ trace)
    (fresh : ∀ execution ∈ rn.executed, execution.call ≠ k)
    (found : rn.readEndnameInfo endname = some route) : Led trace k endname route := by
  unfold Net.readEndnameInfo at found
  split at found
  · rename_i enabled
    simp only [Option.bind_eq_bind] at found
    obtain ⟨servername, connected, found⟩ := Option.bind_eq_some_iff.mp found
    obtain ⟨server, running, found⟩ := Option.bind_eq_some_iff.mp found
    obtain rfl := Option.some.inj found
    exact ⟨rn, here, fresh, enabled, connected, running⟩
  · cases found

theorem isServerDead_false {servername : S} {server : Nat} :
    rn.isServerDead endname servername server = false ↔
      rn.enabled endname = true ∧ rn.servers servername = some server := by
  simp only [Net.isServerDead, Bool.or_eq_false_iff, beq_eq_false_iff_ne, ne_eq,
    Bool.not_eq_false, bne_eq_false_iff_eq]

/-- A reply that the network makes up is not a success. -/
theorem not_ok {P : Prop} : Net.failed.ok = true → P := by simp [Net.failed]

namespace Kept

theorem mono (kept : Kept trace rn) (within : trace ⊆ longer) : Kept longer rn where
  once := kept.once
  ran := kept.ran
  calls k call found := (kept.calls k call found).mono within (List.Subset.refl _)

/-- The network changes, the calls do not. -/
theorem keep (kept : Kept trace rn) (calls : rn'.calls = rn.calls)
    (executed : rn'.executed = rn.executed) : Kept trace rn' where
  once := executed ▸ kept.once
  ran := by
    rw [calls, executed]
    exact kept.ran
  calls := by
    rw [calls, executed]
    exact kept.calls

/-- A new call has nothing behind it yet. -/
theorem made {endname : E} {svcMeth : String} {args : Bytes} (kept : Kept trace rn)
    (calls : rn'.calls = rn.calls ++ [⟨endname, svcMeth, args, .sending, .idle⟩])
    (executed : rn'.executed = rn.executed) : Kept trace rn' := by
  refine ⟨executed ▸ kept.once, fun execution member => ?_, fun j other there => ?_⟩
  · rw [executed] at member
    obtain ⟨old, there, done⟩ := kept.ran execution member
    exact ⟨old, calls ▸ Slots.append_kept there _, done⟩
  · rw [calls] at there
    rw [executed]
    rcases Slots.append_cases there with old | ⟨_, rfl⟩
    · exact kept.calls j other old
    · exact rfl

/-- A handler that has not run has left no execution. -/
theorem fresh (kept : Kept trace rn) (found : rn.calls[k]? = some call)
    (still : ∀ reply, call.handler ≠ .ran reply) :
    ∀ execution ∈ rn.executed, execution.call ≠ k := by
  rintro execution member rfl
  obtain ⟨old, there, done⟩ := kept.ran execution member
  obtain rfl := Option.some.inj (there.symm.trans found)
  exact still _ done

theorem dispatch (kept : Kept trace rn) {reply : ReplyMsg}
    (moved : rn.dispatch k reply = some rn') : Kept trace rn' := by
  simp only [Net.dispatch, Option.bind_eq_bind] at moved
  obtain ⟨call, found, moved⟩ := Option.bind_eq_some_iff.mp moved
  split at moved
  · rename_i route started
    obtain rfl := Option.some.inj moved
    have fresh := kept.fresh found fun _ ran => by cases started.symm.trans ran
    refine ⟨?_, fun execution member => ?_, fun j other there => ?_⟩
    · rw [List.map_append, List.map_singleton]
      refine List.nodup_append.mpr ⟨kept.once, List.nodup_singleton _, fun a old b new same => ?_⟩
      obtain ⟨execution, member, rfl⟩ := List.mem_map.mp old
      exact fresh execution member (same.trans (List.mem_singleton.mp new))
    · rcases List.mem_append.mp member with old | new
      · obtain ⟨other, there, done⟩ := kept.ran execution old
        have apart := Ne.symm (fresh execution old)
        exact ⟨other, (List.getElem?_set_ne apart).trans there, done⟩
      · obtain rfl := List.mem_singleton.mp new
        exact ⟨_, Slots.set_self found, rfl⟩
    · rcases Slots.set_cases there with ⟨rfl, rfl⟩ | ⟨_, there⟩
      · exact (kept.calls j call found).dispatch started reply
      · exact (kept.calls j other there).mono (List.Subset.refl _) (List.subset_append_left ..)
  · cases moved

end Kept

variable [DecidableEq S]

/-- A step of a call has something behind it again, and does not make its handler forget
that it has run. -/
theorem Backed.advance {action : Action E S} {phase : Phase S} {handler : Handler S}
    (backed : Backed trace rn.executed k call) (here : rn ∈ trace)
    (fresh : call.handler = .idle → ∀ execution ∈ rn.executed, execution.call ≠ k)
    (moved : rn.advance call action = some (phase, handler)) :
    Backed trace rn.executed k { call with phase := phase, handler := handler } ∧
      ∀ reply, call.handler = .ran reply → handler = .ran reply := by
  unfold Backed at backed
  cases action with
  | accept j =>
    simp only [Net.advance] at moved
    split at moved
    · rename_i sending
      obtain ⟨rfl, rfl⟩ := Prod.mk.inj (Option.some.inj moved)
      simp only [sending] at backed
      exact ⟨backed, fun _ => id⟩
    · cases moved
  | giveUp j =>
    simp only [Net.advance] at moved
    split at moved
    · obtain ⟨rfl, rfl⟩ := Prod.mk.inj (Option.some.inj moved)
      exact ⟨not_ok, fun _ => id⟩
    · cases moved
  | readEndnameInfo j =>
    simp only [Net.advance] at moved
    split at moved
    · rename_i accepted
      simp only [accepted] at backed
      split at moved
      · rename_i route found
        obtain ⟨rfl, rfl⟩ := Prod.mk.inj (Option.some.inj moved)
        exact ⟨⟨readEndnameInfo_led here (fresh backed) found, backed⟩, fun _ => id⟩
      · obtain ⟨rfl, rfl⟩ := Prod.mk.inj (Option.some.inj moved)
        exact ⟨trivial, fun _ => id⟩
    · cases moved
  | timeout j =>
    simp only [Net.advance] at moved
    split at moved
    · obtain ⟨rfl, rfl⟩ := Prod.mk.inj (Option.some.inj moved)
      exact ⟨not_ok, fun _ => id⟩
    · cases moved
  | drop j =>
    simp only [Net.advance] at moved
    split at moved
    · split at moved
      · cases moved
      · obtain ⟨rfl, rfl⟩ := Prod.mk.inj (Option.some.inj moved)
        exact ⟨not_ok, fun _ => id⟩
    · cases moved
  | start j =>
    simp only [Net.advance] at moved
    split at moved
    · rename_i route routed
      obtain ⟨rfl, rfl⟩ := Prod.mk.inj (Option.some.inj moved)
      simp only [routed] at backed
      refine ⟨⟨backed.1, Or.inl rfl⟩, fun reply ran => ?_⟩
      cases backed.2.symm.trans ran
    · cases moved
  | take j =>
    simp only [Net.advance] at moved
    split at moved
    · rename_i route reply waiting ran
      obtain ⟨rfl, rfl⟩ := Prod.mk.inj (Option.some.inj moved)
      simp only [waiting] at backed
      refine ⟨⟨backed.1, ?_⟩, fun _ => id⟩
      rcases backed.2 with started | ⟨other, ran', there⟩
      · cases started.symm.trans ran
      · obtain rfl := Handler.ran.inj (ran'.symm.trans ran)
        exact there
    · cases moved
  | poll j =>
    simp only [Net.advance] at moved
    split at moved
    · split at moved
      · obtain ⟨rfl, rfl⟩ := Prod.mk.inj (Option.some.inj moved)
        exact ⟨trivial, fun _ => id⟩
      · cases moved
    · cases moved
  | judge j drop =>
    simp only [Net.advance] at moved
    split at moved
    · obtain ⟨rfl, rfl⟩ := Prod.mk.inj (Option.some.inj moved)
      exact ⟨not_ok, fun _ => id⟩
    · rename_i route reply answered
      simp only [answered] at backed
      split at moved
      · obtain ⟨rfl, rfl⟩ := Prod.mk.inj (Option.some.inj moved)
        exact ⟨not_ok, fun _ => id⟩
      · rename_i alive
        split at moved
        · split at moved
          · cases moved
          · obtain ⟨rfl, rfl⟩ := Prod.mk.inj (Option.some.inj moved)
            exact ⟨not_ok, fun _ => id⟩
        · obtain ⟨rfl, rfl⟩ := Prod.mk.inj (Option.some.inj moved)
          -- The check has just been made, with the handler's reply at hand.
          exact ⟨fun _ => ⟨route, backed.1, backed.2, rn, here, backed.2,
            Bool.eq_false_iff.mpr alive⟩, fun _ => id⟩
    · cases moved
  | deliver j =>
    simp only [Net.advance] at moved
    split at moved
    · rename_i reply replying
      obtain ⟨rfl, rfl⟩ := Prod.mk.inj (Option.some.inj moved)
      simp only [replying] at backed
      exact ⟨backed, fun _ => id⟩
    · cases moved
  | _ => cases moved

namespace Kept

theorem process (kept : Kept trace rn) (here : rn ∈ trace) {action : Action E S}
    (moved : rn.process k action = some rn') : Kept trace rn' := by
  simp only [Net.process, Option.bind_eq_bind] at moved
  obtain ⟨call, found, moved⟩ := Option.bind_eq_some_iff.mp moved
  obtain ⟨⟨phase, handler⟩, advanced, moved⟩ := Option.bind_eq_some_iff.mp moved
  obtain rfl := Option.some.inj moved
  have fresh (idle : call.handler = .idle) : ∀ execution ∈ rn.executed, execution.call ≠ k :=
    kept.fresh found fun _ ran => by cases idle.symm.trans ran
  obtain ⟨backed, ran⟩ := (kept.calls k call found).advance here fresh advanced
  refine ⟨kept.once, fun execution member => ?_, fun j other there => ?_⟩
  · obtain ⟨old, there, done⟩ := kept.ran execution member
    rcases Slots.set_kept found { call with phase := phase, handler := handler } there with
      ⟨_, rfl, now⟩ | ⟨_, now⟩
    · exact ⟨_, now, ran _ done⟩
    · exact ⟨old, now, done⟩
  · rcases Slots.set_cases there with ⟨rfl, rfl⟩ | ⟨_, there⟩
    · exact backed
    · exact kept.calls j other there

theorem does {own : Option Nat} (kept : Kept trace rn) (here : rn ∈ trace)
    (does : Does rn rn' own) : Kept trace rn' := by
  cases does with
  | own k action moved => exact kept.process here moved
  | handler k reply moved => exact kept.dispatch moved
  | made endname svcMeth args calls executed => exact kept.made calls executed
  | network calls executed => exact kept.keep calls executed

end Kept

variable [DecidableEq E]

theorem run_kept (run : Net.Run trace) : ∀ rn ∈ trace, Kept trace rn := by
  induction run with
  | start =>
    intro rn member
    rw [List.mem_singleton.mp member]
    refine ⟨List.nodup_nil, ?_, ?_⟩ <;> simp [Net.make]
  | @step before after past action _ _ moved ih =>
    have within : before :: past ⊆ after :: before :: past := List.subset_cons_self ..
    intro rn member
    rcases List.mem_cons.mp member with rfl | old
    · have here : before ∈ before :: past := List.mem_cons_self ..
      exact ((ih before here).does here (step_does moved)).mono within
    · exact (ih rn old).mono within

/-- Whatever is done to the ends and the servers while calls are under way, the handler of a
call runs at most once; a call that succeeds returns the reply of its handler, which ran
for its method and arguments on a server that its end had led to before, and that was still
there, with the end enabled, at some time after the handler had run. -/
theorem call_succeeds_from_live_server (run : Net.Run trace) :
    ∀ rn ∈ trace, (rn.executed.map Execution.call).Nodup ∧
      ∀ (k : Nat) call reply, rn.calls[k]? = some call → call.phase = .returned reply →
        reply.ok = true → ∃ execution ∈ rn.executed, execution.call = k ∧
          execution.svcMeth = call.svcMeth ∧ execution.args = call.args ∧
          execution.reply = reply ∧
          (∃ before ∈ trace, execution ∉ before.executed ∧ before.enabled call.endname = true ∧
            before.connections call.endname = some execution.servername ∧
            before.servers execution.servername = some execution.server) ∧
          ∃ after ∈ trace, execution ∈ after.executed ∧ after.enabled call.endname = true ∧
            after.servers execution.servername = some execution.server := by
  intro rn member
  have kept := run_kept run rn member
  refine ⟨kept.once, fun k call reply found returned ok => ?_⟩
  have backed := kept.calls k call found
  simp only [Backed, returned] at backed
  obtain ⟨route, ⟨before, earlier, fresh, led⟩, executed, after, there, known, alive⟩ := backed ok
  exact ⟨call.execution k route reply, executed, rfl, rfl, rfl, rfl,
    ⟨before, earlier, fun ran => fresh _ ran rfl, led⟩, after, there, known,
    isServerDead_false.mp alive⟩

/-- Two calls are handled by the server. The first is answered; the server is deleted and
another added under its name before the reply to the second is looked at. -/
def restarted : List (Action Bool Bool) :=
  [.addServer true 7, .connect false true, .enable false true, .call false "KV.Put" [1],
    .call false "KV.Put" [2], .accept 0, .accept 1, .readEndnameInfo 0, .readEndnameInfo 1,
    .start 0, .start 1, .dispatch 1 ⟨true, [8]⟩, .dispatch 0 ⟨true, [9]⟩, .take 0, .take 1,
    .judge 0 false, .deliver 0, .deleteServer true, .addServer true 8, .judge 1 false, .deliver 1]

theorem call_succeeds_from_live_server_restarted :
    ∃ trace : List (Net Bool Bool), Net.Run trace ∧ ∃ rn ∈ trace,
      rn.calls.map Call.phase = [.returned ⟨true, [9]⟩, .returned ⟨false, []⟩] ∧
      rn.executed.length = 2 ∧ rn.servers true = some 8 ∧
      ∃ execution ∈ rn.executed, execution.args = [1] ∧ execution.reply = ⟨true, [9]⟩ := by
  obtain ⟨rn, past, run, checked⟩ := Runs.Run.ends Net.step (fun _ _ => true)
    (Net.make Bool Bool) restarted
    (fun rn => decide (rn.calls =
      [⟨false, "KV.Put", [1], .returned ⟨true, [9]⟩, .ran ⟨true, [9]⟩⟩,
        ⟨false, "KV.Put", [2], .returned ⟨false, []⟩, .ran ⟨true, [8]⟩⟩] ∧
      rn.executed.length = 2 ∧ rn.servers true = some 8))
    (by decide +kernel)
  obtain ⟨calls, executed, servers⟩ := of_decide_eq_true checked
  have member : rn ∈ rn :: past := List.mem_cons_self ..
  have allowed : Net.Run (rn :: past) := run.mono fun _ _ _ => trivial
  have answered := (call_succeeds_from_live_server allowed rn member).2
  have first : rn.calls[0]? =
      some ⟨false, "KV.Put", [1], .returned ⟨true, [9]⟩, .ran ⟨true, [9]⟩⟩ := by
    rw [calls]
    rfl
  obtain ⟨execution, there, _, _, args, reply, _⟩ := answered 0 _ _ first rfl rfl
  exact ⟨_, allowed, rn, member, by rw [calls]; rfl, executed, servers, execution, there, args,
    reply⟩

end KvStore.Network

import KvStore.Kv.Versioned
import KvStore.Lib.Runs

set_option autoImplicit false

/-! The single server kvsrv, its clerks, and the network between them: an RPC is
executed at most once, possibly long after the clerk has given it up, and its reply may
be lost. -/

namespace KvStore.KvSrv

inductive Args
  | get (key : String)
  | put (key value : String) (version : Nat)
  deriving DecidableEq

inductive Reply
  | get (value : String) (version : Nat) (err : Err)
  | put (err : Err)
  deriving DecidableEq

/-- `KVServer.Get` -/
def get (kvm : KvMap String String) (key : String) : Reply :=
  match kvm key with
  | none => .get "" 0 .noKey
  | some held => .get held.value held.version .ok

/-- What the server does with a request. -/
def handle (kvm : KvMap String String) : Args → KvMap String String × Reply
  | .get key => (kvm, get kvm key)
  | .put key value version =>
    ((kvm.put key value version).1, .put (kvm.put key value version).2)

/-- One RPC of a clerk's call; the reply is there once the server has executed it. -/
structure Attempt where
  call : Nat
  args : Args
  reply : Option Reply
  deriving DecidableEq

/-- A call of `Clerk.Get` or `Clerk.Put`, with the attempt it waits for and, once it
has returned, what it returned. -/
structure Call where
  args : Args
  attempt : Nat
  resent : Bool
  result : Option Reply
  deriving DecidableEq

/-- What the clerk makes of a reply; `none` if it tries again. Whatever a resent Put is
answered with, the clerk reports `ErrMaybe`. -/
def Call.returns (call : Call) : Reply → Option Reply
  | .get value version err =>
    if err = .noKey then some (.get value version err)
    else if err = .ok then some (.get value version err)
    else none
  | .put err => some (.put (if call.resent then .maybe else err))

/-- A Put that changed the map. -/
structure Write where
  call : Nat
  attempt : Nat
  key : String
  value : String
  version : Nat
  deriving DecidableEq

/-- The server's map, the calls and the attempts made so far, and the history of the
Puts that took effect, oldest first. -/
structure System where
  kvm : KvMap String String
  calls : List Call
  attempts : List Attempt
  writes : List Write

inductive Action
  | invoke (args : Args)
  | execute (attempt : Nat)
  | answered (call : Nat)
  | failed (call : Nat)
  deriving DecidableEq

/-- The write an executed request amounts to. -/
def written (call attempt : Nat) : Args → Reply → List Write
  | .put key value version, .put .ok => [{ call, attempt, key, value, version }]
  | _, _ => []

namespace System

def init : System where
  kvm := KvMap.empty
  calls := []
  attempts := []
  writes := []

variable (σ : System)

def invoke (args : Args) : System :=
  { σ with
    calls := σ.calls ++ [{ args, attempt := σ.attempts.length, resent := false, result := none }]
    attempts := σ.attempts ++ [{ call := σ.calls.length, args, reply := none }] }

def executed (a : Nat) (attempt : Attempt) : System :=
  { σ with
    kvm := (handle σ.kvm attempt.args).1
    attempts := σ.attempts.set a { attempt with reply := some (handle σ.kvm attempt.args).2 }
    writes := σ.writes ++ written attempt.call a attempt.args (handle σ.kvm attempt.args).2 }

def resend (c : Nat) (call : Call) : System :=
  { σ with
    calls := σ.calls.set c { call with attempt := σ.attempts.length, resent := true }
    attempts := σ.attempts ++ [{ call := c, args := call.args, reply := none }] }

def returned (c : Nat) (call : Call) (result : Reply) : System :=
  { σ with calls := σ.calls.set c { call with result := some result } }

/-- An attempt is executed at most once; `Call` returns true only with the reply of the
attempt, and false at any time. -/
def step : Action → Option System
  | .invoke args => some (σ.invoke args)
  | .execute a =>
    match σ.attempts[a]? with
    | some attempt => if attempt.reply = none then some (σ.executed a attempt) else none
    | none => none
  | .answered c =>
    match σ.calls[c]? with
    | some call =>
      match call.result, σ.attempts[call.attempt]?.bind (·.reply) with
      | none, some reply =>
        match call.returns reply with
        | some result => some (σ.returned c call result)
        | none => some (σ.resend c call)
      | _, _ => none
    | none => none
  | .failed c =>
    match σ.calls[c]? with
    | some call => if call.result = none then some (σ.resend c call) else none
    | none => none

variable {σ} {σ' : System} {action : Action}

/-- What a step can be. -/
inductive Stepped (σ : System) : Action → System → Prop
  | invoke (args : Args) : Stepped σ (.invoke args) (σ.invoke args)
  | execute {a : Nat} {attempt : Attempt} (found : σ.attempts[a]? = some attempt)
      (fresh : attempt.reply = none) : Stepped σ (.execute a) (σ.executed a attempt)
  | returned {c : Nat} {call : Call} {attempt : Attempt} {reply result : Reply}
      (found : σ.calls[c]? = some call) (waiting : call.result = none)
      (current : σ.attempts[call.attempt]? = some attempt) (replied : attempt.reply = some reply)
      (returns : call.returns reply = some result) :
      Stepped σ (.answered c) (σ.returned c call result)
  | resend {c : Nat} {call : Call} (action : Action) (found : σ.calls[c]? = some call)
      (waiting : call.result = none) (noExecution : ∀ a, action ≠ .execute a) :
      Stepped σ action (σ.resend c call)

theorem step_cases (moved : σ.step action = some σ') : Stepped σ action σ' := by
  cases action with
  | invoke args =>
    obtain rfl := Option.some.inj moved
    exact .invoke args
  | execute a =>
    dsimp only [step] at moved
    split at moved
    · rename_i attempt found
      split at moved
      · rename_i fresh
        obtain rfl := Option.some.inj moved
        exact .execute found fresh
      · cases moved
    · cases moved
  | answered c =>
    dsimp only [step] at moved
    split at moved
    · rename_i call found
      split at moved
      · rename_i reply waiting answered
        obtain ⟨attempt, current, replied⟩ := Option.bind_eq_some_iff.mp answered
        split at moved
        · rename_i result returns
          obtain rfl := Option.some.inj moved
          exact .returned found waiting current replied returns
        · obtain rfl := Option.some.inj moved
          exact .resend _ found waiting (by simp)
      · cases moved
    · cases moved
  | failed c =>
    dsimp only [step] at moved
    split at moved
    · rename_i call found
      split at moved
      · rename_i waiting
        obtain rfl := Option.some.inj moved
        exact .resend _ found waiting (by simp)
      · cases moved
    · cases moved

/-- How often Puts of the call took effect. -/
def applied (σ : System) (c : Nat) : Nat := (σ.writes.filter (·.call = c)).length

/-- The Puts on the key that took effect, oldest first. -/
def chain (σ : System) (key : String) : List Write := σ.writes.filter (·.key = key)

end System

end KvStore.KvSrv

import KvStore.Lib.Slots
import KvStore.Kv.RaftClerk

set_option autoImplicit false

/-! How the calls of the kvraft clerks, their RPCs and the submitted commands belong
together. -/

namespace KvStore.KvRaft

variable {n : Nat} {gob : Gob} {σ σ' : System n} {i a : Nat}

namespace System

theorem serviceStep_inversion {action : ServiceAction n Request}
    (moved : σ.serviceStep gob action = some σ') :
    ∃ service, σ.service.step (machine gob) action = some service ∧
      service.created = σ.service.created ∧ σ' = { σ with service } := by
  have silent : ∀ server req, action ≠ .submit server req := by
    rintro server req rfl
    cases moved
  have rest : (σ.service.step (machine gob) action).map (fun service => { σ with service }) =
      some σ' := by
    unfold serviceStep at moved
    split at moved
    · cases moved
    · exact moved
  obtain ⟨service, below, rfl⟩ := Option.map_eq_some_iff.mp rest
  refine ⟨service, below, ?_, rfl⟩
  rcases Service.step_created below with ⟨same, _⟩ | ⟨op, seen, _⟩
  · exact same
  · exact absurd (Service.event_invoke seen).1 (silent _ _)

theorem lock_inversion (moved : σ.lock i = some σ') :
    ∃ call, σ.calls[i]? = some call ∧ call.phase = .locking ∧
      (σ.clerks call.clientId).putMutex = false ∧
      σ' = (σ.setClerk call.clientId { σ.clerks call.clientId with
          putMutex := true, requestId := (σ.clerks call.clientId).requestId + 1 }).setCall i
        { call with requestId := (σ.clerks call.clientId).requestId + 1,
                    phase := .trying (σ.clerks call.clientId).leader 0 } := by
  obtain ⟨call, found, rest⟩ := Option.bind_eq_some_iff.mp moved
  dsimp only at rest
  split at rest
  · rename_i locking
    split at rest
    · cases rest
    · rename_i free
      exact ⟨call, found, locking, eq_false_of_ne_true free, (Option.some.inj rest).symm⟩
  · cases rest

theorem send_inversion (moved : σ.send i = some σ') :
    ∃ call leader attempts, σ.calls[i]? = some call ∧ call.phase = .trying leader attempts ∧
      σ' = { σ.setCall i { call with phase := .calling leader attempts σ.attempts.length } with
        attempts := σ.attempts ++
          [{ call := i, server := leader, request := call.request, status := .sent }] } := by
  obtain ⟨call, found, rest⟩ := Option.bind_eq_some_iff.mp moved
  split at rest
  · rename_i leader attempts trying
    exact ⟨call, leader, attempts, found, trying, (Option.some.inj rest).symm⟩
  · cases rest

/-- The command that a handler submits now. -/
def nextOp (σ : System n) (attempt : Attempt n) : Op n Request :=
  { me := attempt.server, id := (σ.service.rsm attempt.server).nextOpId, req := attempt.request,
    incarnation := σ.service.raft.incarnation attempt.server }

theorem serve_inversion (moved : σ.serve a = some σ') :
    ∃ attempt, σ.attempts[a]? = some attempt ∧ attempt.status = .sent ∧
      σ' = { σ with
        service := σ.service.submit attempt.server attempt.request
        attempts := σ.attempts.set a { attempt with status := .serving (σ.nextOp attempt) } } := by
  obtain ⟨attempt, found, rest⟩ := Option.bind_eq_some_iff.mp moved
  split at rest
  · rename_i sent
    exact ⟨attempt, found, sent, (Option.some.inj rest).symm⟩
  · cases rest

theorem handlerAt_inversion {attempt : Attempt n} {op : Op n Request} {err : SubmitErr}
    {value : Option Reply} (returned : σ.handlerAt a = some (attempt, op, err, value)) :
    ∃ submission, σ.attempts[a]? = some attempt ∧ attempt.status = .serving op ∧
      op.incarnation = σ.service.raft.incarnation op.me ∧
      (σ.service.rsm op.me).submits[op.id - 1]? = some submission ∧
      submission.phase = .returned err value := by
  obtain ⟨attempt', found, rest⟩ := Option.bind_eq_some_iff.mp returned
  split at rest
  · rename_i op' serving
    split at rest
    · rename_i alive
      obtain ⟨submission, there, rest⟩ := Option.bind_eq_some_iff.mp rest
      split at rest
      · rename_i err' value' back
        cases rest
        exact ⟨submission, found, serving, alive, there, back⟩
      · cases rest
    · cases rest
  · cases rest

theorem reply_inversion (moved : σ.reply gob a = some σ') :
    ∃ attempt op err value, σ.handlerAt a = some (attempt, op, err, value) ∧
      ((∃ answer, handlerReply attempt.request err value = some answer ∧
        σ' = { σ with
          attempts := σ.attempts.set a { attempt with status := .replied op answer } }) ∨
      (handlerReply attempt.request err value = none ∧ ∃ service,
        σ.service.step (machine gob) (.raft (.crash op.me)) = some service ∧
        σ' = { σ with service })) := by
  obtain ⟨⟨attempt, op, err, value⟩, returned, rest⟩ := Option.bind_eq_some_iff.mp moved
  refine ⟨attempt, op, err, value, returned, ?_⟩
  dsimp only at rest
  split at rest
  · rename_i answer answered
    exact Or.inl ⟨answer, answered, (Option.some.inj rest).symm⟩
  · rename_i failed
    obtain ⟨service, died, rest⟩ := Option.bind_eq_some_iff.mp rest
    exact Or.inr ⟨failed, service, died, (Option.some.inj rest).symm⟩

/-- The clerk after its call has returned. -/
def returnedClerk (clerk : Clerk n) (op : ClientOp) (leader : Fin n) : Clerk n :=
  { clerk with
    leader
    putMutex := match op with
      | .get _ => clerk.putMutex
      | .put _ _ _ => false }

theorem receive_inversion (moved : σ.receive i = some σ') :
    ∃ call leader attempts a attempt op answer, σ.calls[i]? = some call ∧
      call.phase = .calling leader attempts a ∧ σ.attempts[a]? = some attempt ∧
      attempt.status = .replied op answer ∧
      ((verdict call.op answer.err = .returns ∧
        σ' = { (σ.setClerk call.clientId
              (returnedClerk (σ.clerks call.clientId) call.op leader)).setCall i
            { call with phase := .returned answer } with
          history := .respond i answer :: σ.history }) ∨
      (verdict call.op answer.err = .next ∧
        σ' = σ.setCall i { call with phase := .trying (nextServer leader) (attempts + 1) }) ∨
      (verdict call.op answer.err = .panics ∧
        σ' = σ.setCall i { call with phase := .panicked })) := by
  obtain ⟨call, found, rest⟩ := Option.bind_eq_some_iff.mp moved
  split at rest
  · rename_i leader attempts a calling
    obtain ⟨attempt, there, rest⟩ := Option.bind_eq_some_iff.mp rest
    split at rest
    · rename_i op answer replied
      refine ⟨call, leader, attempts, a, attempt, op, answer, found, calling, there, replied, ?_⟩
      split at rest
      · rename_i verdict
        exact Or.inl ⟨verdict, (Option.some.inj rest).symm⟩
      · rename_i verdict
        exact Or.inr (Or.inl ⟨verdict, (Option.some.inj rest).symm⟩)
      · rename_i verdict
        exact Or.inr (Or.inr ⟨verdict, (Option.some.inj rest).symm⟩)
    · cases rest
  · cases rest

theorem fail_inversion (moved : σ.fail i = some σ') :
    ∃ call leader attempts a, σ.calls[i]? = some call ∧
      call.phase = .calling leader attempts a ∧
      σ' = σ.setCall i { call with phase := .trying (nextServer leader) (attempts + 1) } := by
  obtain ⟨call, found, rest⟩ := Option.bind_eq_some_iff.mp moved
  split at rest
  · rename_i leader attempts a calling
    exact ⟨call, leader, attempts, a, found, calling, (Option.some.inj rest).symm⟩
  · cases rest

end System

def ClientOp.isPut : ClientOp → Bool
  | .get _ => false
  | .put _ _ _ => true

/-- The call has its arguments and has not returned. -/
def CallPhase.active : CallPhase n → Bool
  | .trying _ _ => true
  | .calling _ _ _ => true
  | _ => false

/-- A Put that has drawn its request id. -/
def ClerkCall.Putting (call : ClerkCall n) : Prop := call.op.isPut = true ∧ call.phase ≠ .locking

/-- A call that goes on with its arguments. -/
structure ClerkCall.Onward (before after : ClerkCall n) : Prop where
  clientId : after.clientId = before.clientId
  op : after.op = before.op
  requestId : after.requestId = before.requestId
  started : before.phase ≠ .locking
  still : after.phase ≠ .locking

theorem ClerkCall.Onward.request {before after : ClerkCall n} (onward : before.Onward after) :
    after.request = before.request := by
  simp only [ClerkCall.request, onward.op, onward.clientId, onward.requestId]

theorem ClerkCall.Onward.putting {before after : ClerkCall n} (onward : before.Onward after)
    (puts : after.Putting) : before.Putting :=
  ⟨onward.op ▸ puts.1, onward.started⟩

/-- The Puts of every clerk: their ids, and that the one under way holds the mutex. -/
structure Puts (calls : List (ClerkCall n)) (clerks : Nat → Clerk n) : Prop where
  numbered : ∀ (i : Nat) call, calls[i]? = some call → call.Putting →
    call.requestId ≤ (clerks call.clientId).requestId
  unique : ∀ (i j : Nat) call call', calls[i]? = some call → calls[j]? = some call' →
    call.Putting → call'.Putting → call.clientId = call'.clientId →
    call.requestId = call'.requestId → i = j
  active : ∀ (i : Nat) call, calls[i]? = some call → call.Putting → call.phase.active = true →
    (clerks call.clientId).putMutex = true ∧
      call.requestId = (clerks call.clientId).requestId

namespace Puts

variable {calls : List (ClerkCall n)} {clerks : Nat → Clerk n} {before after : ClerkCall n}

/-- One call goes on. -/
theorem set (puts : Puts calls clerks) (found : calls[i]? = some before)
    (onward : before.Onward after)
    (active : after.phase.active = true → before.phase.active = true) :
    Puts (calls.set i after) clerks := by
  have earlier : ∀ (j : Nat) call, (calls.set i after)[j]? = some call → call.Putting →
      ∃ old, calls[j]? = some old ∧ old.Putting ∧ call.clientId = old.clientId ∧
        call.requestId = old.requestId ∧
        (call.phase.active = true → old.phase.active = true) := by
    intro j call there putting
    rcases Slots.set_cases there with ⟨rfl, rfl⟩ | ⟨_, old⟩
    · exact ⟨before, found, onward.putting putting, onward.clientId, onward.requestId, active⟩
    · exact ⟨call, old, putting, rfl, rfl, id⟩
  refine ⟨?_, ?_, ?_⟩
  · intro j call there putting
    obtain ⟨old, here, mine, client, id, _⟩ := earlier j call there putting
    rw [client, id]
    exact puts.numbered j old here mine
  · intro j k call call' there there' putting putting' client id
    obtain ⟨old, here, mine, clientOld, idOld, _⟩ := earlier j call there putting
    obtain ⟨old', here', mine', clientOld', idOld', _⟩ := earlier k call' there' putting'
    refine puts.unique j k old old' here here' mine mine' ?_ ?_
    · rw [← clientOld, ← clientOld', client]
    · rw [← idOld, ← idOld', id]
  · intro j call there putting under
    obtain ⟨old, here, mine, client, id, still⟩ := earlier j call there putting
    rw [client, id]
    exact puts.active j old here mine (still under)

/-- A new call is not a Put with an id. -/
theorem append (puts : Puts calls clerks) {new : ClerkCall n} (fresh : ¬new.Putting) :
    Puts (calls ++ [new]) clerks := by
  have earlier : ∀ (j : Nat) call, (calls ++ [new])[j]? = some call → call.Putting →
      calls[j]? = some call := by
    intro j call there putting
    rcases Slots.append_cases there with old | ⟨_, rfl⟩
    · exact old
    · exact absurd putting fresh
  refine ⟨?_, ?_, ?_⟩
  · exact fun j call there putting => puts.numbered j call (earlier j call there putting) putting
  · intro j k call call' there there' putting putting'
    exact puts.unique j k call call' (earlier j call there putting)
      (earlier k call' there' putting') putting putting'
  · exact fun j call there putting => puts.active j call (earlier j call there putting) putting

/-- The mutex is free, so no other Put of the clerk is under way. -/
theorem lock (puts : Puts calls clerks) (found : calls[i]? = some before)
    (free : (clerks before.clientId).putMutex = false) (phase : CallPhase n) :
    Puts
      (calls.set i
        { before with requestId := (clerks before.clientId).requestId + 1, phase })
      (Function.update clerks before.clientId { clerks before.clientId with
        putMutex := true, requestId := (clerks before.clientId).requestId + 1 }) := by
  have other : ∀ (j : Nat) call, calls[j]? = some call → call.Putting →
      call.clientId = before.clientId →
      call.phase.active = false ∧ call.requestId ≤ (clerks before.clientId).requestId := by
    intro j call there putting client
    refine ⟨?_, client ▸ puts.numbered j call there putting⟩
    by_contra under
    have held := (puts.active j call there putting (eq_true_of_ne_false under)).1
    rw [client, free] at held
    cases held
  refine ⟨?_, ?_, ?_⟩
  · intro j call there putting
    rcases Slots.set_cases there with ⟨rfl, rfl⟩ | ⟨_, old⟩
    · simp only [Function.update_self, le_refl]
    · have bound := puts.numbered j call old putting
      by_cases client : call.clientId = before.clientId
      · rw [client] at bound ⊢
        rw [Function.update_self]
        exact bound.trans (Nat.le_succ _)
      · rwa [Function.update_of_ne client]
  · intro j k call call' there there' putting putting' client id
    rcases Slots.set_cases there with ⟨rfl, rfl⟩ | ⟨_, old⟩
    · rcases Slots.set_cases there' with ⟨rfl, rfl⟩ | ⟨_, old'⟩
      · rfl
      · have below := (other k call' old' putting' client.symm).2
        dsimp only at id
        omega
    · rcases Slots.set_cases there' with ⟨rfl, rfl⟩ | ⟨_, old'⟩
      · have below := (other j call old putting client).2
        dsimp only at id
        omega
      · exact puts.unique j k call call' old old' putting putting' client id
  · intro j call there putting under
    rcases Slots.set_cases there with ⟨rfl, rfl⟩ | ⟨_, old⟩
    · simp only [Function.update_self, and_self]
    · by_cases client : call.clientId = before.clientId
      · rw [(other j call old putting client).1] at under
        cases under
      · rw [Function.update_of_ne client]
        exact puts.active j call old putting under

/-- The clerk takes note of the leader, and a Put gives up the mutex. -/
theorem returns (puts : Puts calls clerks) (found : calls[i]? = some before)
    (under : before.phase.active = true) (leader : Fin n) (answer : Answer) :
    Puts (calls.set i { before with phase := .returned answer })
      (Function.update clerks before.clientId
        (System.returnedClerk (clerks before.clientId) before.op leader)) := by
  have started : before.phase ≠ .locking := by
    intro locking
    rw [locking] at under
    cases under
  have moved : Puts (calls.set i { before with phase := .returned answer }) clerks :=
    puts.set found ⟨rfl, rfl, rfl, started, by simp⟩ (by simp [CallPhase.active])
  have ids (client : Nat) : (Function.update clerks before.clientId
      (System.returnedClerk (clerks before.clientId) before.op leader) client).requestId =
        (clerks client).requestId := by
    by_cases same : client = before.clientId
    · rw [same, Function.update_self]
      rfl
    · rw [Function.update_of_ne same]
  refine ⟨?_, moved.unique, ?_⟩
  · intro j call there putting
    rw [ids]
    exact moved.numbered j call there putting
  · intro j call there putting still
    obtain ⟨held, last⟩ := moved.active j call there putting still
    rw [ids]
    refine ⟨?_, last⟩
    by_cases same : call.clientId = before.clientId
    · rw [same, Function.update_self]
      rw [same] at held
      cases op : before.op with
      | get key => exact held
      | put key value version =>
        -- the Put under way with the newest id is the one that returns
        have mine : before.Putting := ⟨by rw [op]; rfl, started⟩
        have newest := (puts.active i before found mine under).2
        rcases Slots.set_cases there with ⟨_, rfl⟩ | ⟨apart, old⟩
        · cases still
        · refine absurd (puts.unique j i call before old found putting mine same ?_) apart
          rw [last, same, newest]
    · rw [Function.update_of_ne same]
      exact held

end Puts

/-- The command was submitted for an RPC of the call. -/
def Owned (attempts : List (Attempt n)) (op : Op n Request) (i : Nat) : Prop :=
  ∃ attempt ∈ attempts, attempt.status.op = some op ∧ attempt.call = i

/-- RPCs are sent by calls that have their arguments, and handlers submit them as they are. -/
structure Rpcs (calls : List (ClerkCall n)) (attempts : List (Attempt n))
    (created : List (Op n Request)) : Prop where
  asked : ∀ attempt ∈ attempts, ∃ call, calls[attempt.call]? = some call ∧
    attempt.request = call.request ∧ call.phase ≠ .locking
  submitted : ∀ attempt ∈ attempts, ∀ op, attempt.status.op = some op →
    op ∈ created ∧ op.req = attempt.request
  covered : ∀ op ∈ created, ∃ i, Owned attempts op i
  owner : ∀ op i j, Owned attempts op i → Owned attempts op j → i = j
  waiting : ∀ (i : Nat) call leader tries (a : Nat), calls[i]? = some call →
    call.phase = .calling leader tries a →
    ∃ attempt, attempts[a]? = some attempt ∧ attempt.call = i

namespace Rpcs

variable {calls : List (ClerkCall n)} {attempts : List (Attempt n)}
  {created : List (Op n Request)} {before after : ClerkCall n} {attempt : Attempt n}

/-- The request of a command is that of its call. -/
theorem request (rpcs : Rpcs calls attempts created) {op : Op n Request}
    (owned : Owned attempts op i) :
    ∃ call, calls[i]? = some call ∧ op.req = call.request ∧ call.phase ≠ .locking := by
  obtain ⟨attempt, member, submits, rfl⟩ := owned
  obtain ⟨call, found, request, started⟩ := rpcs.asked attempt member
  exact ⟨call, found, ((rpcs.submitted attempt member op submits).2).trans request, started⟩

/-- One call goes on; if it starts to wait, then for one of its RPCs. -/
theorem set (rpcs : Rpcs calls attempts created) (found : calls[i]? = some before)
    (onward : before.Onward after ∨ before.phase = .locking)
    (still : after.phase ≠ .locking)
    (waits : ∀ leader tries (a : Nat), after.phase = .calling leader tries a →
      ∃ attempt, attempts[a]? = some attempt ∧ attempt.call = i) :
    Rpcs (calls.set i after) attempts created := by
  refine ⟨?_, rpcs.submitted, rpcs.covered, rpcs.owner, ?_⟩
  · intro attempt member
    obtain ⟨call, there, request, started⟩ := rpcs.asked attempt member
    rcases Slots.set_kept found after there with ⟨_, rfl, now⟩ | ⟨_, now⟩
    · rcases onward with onward | locking
      · exact ⟨after, now, request.trans onward.request.symm, still⟩
      · exact absurd locking started
    · exact ⟨call, now, request, started⟩
  · intro j call leader tries a there calling
    rcases Slots.set_cases there with ⟨rfl, rfl⟩ | ⟨_, old⟩
    · exact waits leader tries a calling
    · exact rpcs.waiting j call leader tries a old calling

/-- A new call has sent nothing. -/
theorem invoke (rpcs : Rpcs calls attempts created) {new : ClerkCall n}
    (quiet : ∀ leader tries (a : Nat), new.phase ≠ .calling leader tries a) :
    Rpcs (calls ++ [new]) attempts created := by
  refine ⟨?_, rpcs.submitted, rpcs.covered, rpcs.owner, ?_⟩
  · intro attempt member
    obtain ⟨call, there, rest⟩ := rpcs.asked attempt member
    exact ⟨call, Slots.append_kept there _, rest⟩
  · intro j call leader tries a there calling
    rcases Slots.append_cases there with old | ⟨_, rfl⟩
    · exact rpcs.waiting j call leader tries a old calling
    · exact absurd calling (quiet leader tries a)

theorem owned_append {op : Op n Request} {j : Nat} {new : Attempt n}
    (unsent : new.status.op = none) :
    Owned (attempts ++ [new]) op j ↔ Owned attempts op j := by
  constructor
  · rintro ⟨attempt, member, submits, mine⟩
    rcases List.mem_append.mp member with old | last
    · exact ⟨attempt, old, submits, mine⟩
    · rw [List.mem_singleton.mp last, unsent] at submits
      cases submits
  · rintro ⟨attempt, member, rest⟩
    exact ⟨attempt, List.mem_append_left _ member, rest⟩

/-- An RPC is sent by a call that waits for it from now on. -/
theorem send (rpcs : Rpcs calls attempts created) (found : calls[i]? = some before)
    (onward : before.Onward after) {server leader : Fin n} {tries : Nat}
    (calling : after.phase = .calling leader tries attempts.length) :
    Rpcs (calls.set i after)
      (attempts ++ [{ call := i, server, request := before.request, status := .sent }])
      created := by
  have more : Rpcs calls
      (attempts ++ [{ call := i, server, request := before.request, status := .sent }])
      created := by
    refine ⟨?_, ?_, ?_, ?_, ?_⟩
    · intro attempt member
      rcases List.mem_append.mp member with old | last
      · exact rpcs.asked attempt old
      · rw [List.mem_singleton.mp last]
        exact ⟨before, found, rfl, onward.started⟩
    · intro attempt member op submits
      rcases List.mem_append.mp member with old | last
      · exact rpcs.submitted attempt old op submits
      · rw [List.mem_singleton.mp last] at submits
        cases submits
    · intro op member
      obtain ⟨j, owned⟩ := rpcs.covered op member
      exact ⟨j, (owned_append rfl).mpr owned⟩
    · intro op j k one other
      exact rpcs.owner op j k ((owned_append rfl).mp one) ((owned_append rfl).mp other)
    · intro j call leader tries a there calling
      obtain ⟨attempt, here, mine⟩ := rpcs.waiting j call leader tries a there calling
      exact ⟨attempt, Slots.append_kept here _, mine⟩
  refine more.set found (Or.inl onward) onward.still ?_
  intro leader' tries' a same
  rw [calling] at same
  cases same
  exact ⟨_, List.getElem?_concat_length, rfl⟩

/-- A handler that returns has submitted the same command. -/
theorem status (rpcs : Rpcs calls attempts created) (found : attempts[a]? = some attempt)
    {status : AttemptStatus n} (same : status.op = attempt.status.op) :
    Rpcs calls (attempts.set a { attempt with status }) created ∧
      ∀ op j, Owned (attempts.set a { attempt with status }) op j ↔ Owned attempts op j := by
  have old : ∀ other ∈ attempts.set a { attempt with status }, ∃ earlier ∈ attempts,
      other.call = earlier.call ∧ other.request = earlier.request ∧
        other.status.op = earlier.status.op := by
    intro other member
    rcases List.mem_or_eq_of_mem_set member with before | rfl
    · exact ⟨other, before, rfl, rfl, rfl⟩
    · exact ⟨attempt, List.mem_of_getElem? found, rfl, rfl, same⟩
  have new : ∀ earlier ∈ attempts, ∃ other ∈ attempts.set a { attempt with status },
      other.call = earlier.call ∧ other.status.op = earlier.status.op := by
    intro earlier member
    obtain ⟨k, here⟩ := List.getElem?_of_mem member
    rcases Slots.set_kept found { attempt with status } here with ⟨_, rfl, now⟩ | ⟨_, now⟩
    · exact ⟨_, List.mem_of_getElem? now, rfl, same⟩
    · exact ⟨_, List.mem_of_getElem? now, rfl, rfl⟩
  have owned : ∀ op j, Owned (attempts.set a { attempt with status }) op j ↔
      Owned attempts op j := by
    intro op j
    constructor
    · rintro ⟨other, member, submits, mine⟩
      obtain ⟨earlier, there, call, _, submitted⟩ := old other member
      exact ⟨earlier, there, submitted ▸ submits, call ▸ mine⟩
    · rintro ⟨earlier, member, submits, mine⟩
      obtain ⟨other, there, call, submitted⟩ := new earlier member
      exact ⟨other, there, submitted.trans submits, call.trans mine⟩
  refine ⟨⟨?_, ?_, ?_, ?_, ?_⟩, owned⟩
  · intro other member
    obtain ⟨earlier, there, call, request, _⟩ := old other member
    rw [call, request]
    exact rpcs.asked earlier there
  · intro other member op submits
    obtain ⟨earlier, there, _, request, submitted⟩ := old other member
    rw [request]
    exact rpcs.submitted earlier there op (submitted ▸ submits)
  · intro op member
    obtain ⟨j, mine⟩ := rpcs.covered op member
    exact ⟨j, (owned op j).mpr mine⟩
  · intro op j k one other
    exact rpcs.owner op j k ((owned op j).mp one) ((owned op k).mp other)
  · intro j call leader tries b there calling
    obtain ⟨earlier, here, mine⟩ := rpcs.waiting j call leader tries b there calling
    rcases Slots.set_kept found { attempt with status } here with ⟨_, rfl, now⟩ | ⟨_, now⟩
    · exact ⟨_, now, mine⟩
    · exact ⟨_, now, mine⟩

theorem owned_serve (found : attempts[a]? = some attempt) (sent : attempt.status = .sent)
    {new op : Op n Request} {j : Nat} :
    Owned (attempts.set a { attempt with status := .serving new }) op j ↔
      Owned attempts op j ∨ op = new ∧ j = attempt.call := by
  constructor
  · rintro ⟨other, member, submits, mine⟩
    rcases List.mem_or_eq_of_mem_set member with old | rfl
    · exact Or.inl ⟨other, old, submits, mine⟩
    · exact Or.inr ⟨(Option.some.inj submits).symm, mine.symm⟩
  · rintro (⟨earlier, member, submits, mine⟩ | ⟨rfl, rfl⟩)
    · obtain ⟨k, here⟩ := List.getElem?_of_mem member
      rcases Slots.set_kept found { attempt with status := .serving new } here with
        ⟨_, rfl, _⟩ | ⟨_, now⟩
      · rw [sent] at submits
        cases submits
      · exact ⟨earlier, List.mem_of_getElem? now, submits, mine⟩
    · exact ⟨_, List.mem_of_getElem? (Slots.set_self found), rfl, rfl⟩

/-- A handler submits a command that has not been there before. -/
theorem serve (rpcs : Rpcs calls attempts created) (found : attempts[a]? = some attempt)
    (sent : attempt.status = .sent) {new : Op n Request} (request : new.req = attempt.request)
    (fresh : new ∉ created) :
    Rpcs calls (attempts.set a { attempt with status := .serving new }) (new :: created) := by
  have unowned : ∀ j, ¬Owned attempts new j := by
    rintro j ⟨other, member, submits, _⟩
    exact fresh (rpcs.submitted other member new submits).1
  refine ⟨?_, ?_, ?_, ?_, ?_⟩
  · intro other member
    rcases List.mem_or_eq_of_mem_set member with old | rfl
    · exact rpcs.asked other old
    · exact rpcs.asked attempt (List.mem_of_getElem? found)
  · intro other member op submits
    rcases List.mem_or_eq_of_mem_set member with old | rfl
    · obtain ⟨made, same⟩ := rpcs.submitted other old op submits
      exact ⟨List.mem_cons_of_mem _ made, same⟩
    · obtain rfl := Option.some.inj submits
      exact ⟨List.mem_cons_self .., request⟩
  · intro op member
    rcases List.mem_cons.mp member with rfl | old
    · exact ⟨_, (owned_serve found sent).mpr (Or.inr ⟨rfl, rfl⟩)⟩
    · obtain ⟨j, mine⟩ := rpcs.covered op old
      exact ⟨j, (owned_serve found sent).mpr (Or.inl mine)⟩
  · intro op j k one other
    rcases (owned_serve found sent).mp one with mine | ⟨rfl, rfl⟩
    · rcases (owned_serve found sent).mp other with mine' | ⟨rfl, _⟩
      · exact rpcs.owner op j k mine mine'
      · exact absurd mine (unowned j)
    · rcases (owned_serve found sent).mp other with mine' | ⟨_, rfl⟩
      · exact absurd mine' (unowned k)
      · rfl
  · intro j call leader tries b there calling
    obtain ⟨earlier, here, mine⟩ := rpcs.waiting j call leader tries b there calling
    rcases Slots.set_kept found { attempt with status := .serving new } here with
      ⟨_, rfl, now⟩ | ⟨_, now⟩
    · exact ⟨_, now, mine⟩
    · exact ⟨_, now, mine⟩

end Rpcs

end KvStore.KvRaft

import KvStore.Lib.Histories
import KvStore.Shard.Events

set_option autoImplicit false

/-! What clerks keep: one outstanding Put each, with the newest request id, and every
request that is ever executed is one a clerk has issued. -/

namespace KvStore.Shard

variable {σ σ' : System} {i j k : Nat} {client other : ClientCall}

namespace System

variable {fresh : ClientCall}

theorem setClient_cases (found : σ.clients[i]? = some client)
    (there : (σ.setClient i fresh).clients[j]? = some other) :
    (j = i ∧ other = fresh) ∨ (j ≠ i ∧ σ.clients[j]? = some other) := by
  dsimp only [setClient] at there
  by_cases here : j = i
  · subst here
    rw [List.getElem?_set_self (List.getElem?_eq_some_iff.mp found).1] at there
    exact Or.inl ⟨rfl, (Option.some.inj there).symm⟩
  · rw [List.getElem?_set_ne (Ne.symm here)] at there
    exact Or.inr ⟨here, there⟩

theorem setClient_self (found : σ.clients[i]? = some client) :
    (σ.setClient i fresh).clients[i]? = some fresh :=
  List.getElem?_set_self (List.getElem?_eq_some_iff.mp found).1

theorem setClient_other (differs : j ≠ i) : (σ.setClient i fresh).clients[j]? = σ.clients[j]? :=
  List.getElem?_set_ne (Ne.symm differs)

/-- A new call waits for the mutex if it is a Put, and has sent nothing. -/
theorem invoke_cases {clerk : ClientId} {op : ClientOp}
    (found : (σ.invoke clerk op).clients[i]? = some client) :
    σ.clients[i]? = some client ∨ i = σ.clients.length ∧ client.op = op ∧
      (client.op.isPut = true → client.phase = .queued) ∧
      (∀ k, client.phase ≠ .active (some k)) ∧ ∀ reply, client.phase ≠ .returned reply := by
  dsimp only [invoke] at found
  rcases Nat.lt_trichotomy i σ.clients.length with before | here | after
  · rw [List.getElem?_append_left before] at found
    exact Or.inl found
  · subst here
    rw [List.getElem?_concat_length] at found
    obtain rfl := Option.some.inj found
    refine Or.inr ⟨rfl, rfl, ?_, ?_, ?_⟩
    · intro isPut
      cases op with
      | get => cases isPut
      | put => rfl
    · cases op <;> nofun
    · cases op <;> nofun
  · rw [List.getElem?_eq_none (by simp; omega)] at found
    cases found

/-- The request of a client that has begun: it does not change any more. -/
def Issued (σ : System) (i : Nat) (request : Request) : Prop :=
  ∃ client, σ.clients[i]? = some client ∧ client.phase ≠ .queued ∧ client.request = request

/-- Requests stay issued while one client moves on. -/
theorem Issued.setClient {request : Request} (found : σ.clients[i]? = some client)
    (clients : σ'.clients = (σ.setClient i fresh).clients)
    (kept : client.phase ≠ .queued → fresh.phase ≠ .queued ∧ fresh.request = client.request)
    (issued : σ.Issued j request) : σ'.Issued j request := by
  obtain ⟨other, there, begun, same⟩ := issued
  by_cases here : j = i
  · subst here
    obtain rfl := Option.some.inj (found.symm.trans there)
    obtain ⟨still, request'⟩ := kept begun
    refine ⟨fresh, ?_, still, request'.trans same⟩
    rw [clients]
    exact setClient_self found
  · refine ⟨other, ?_, begun, same⟩
    rw [clients, setClient_other here]
    exact there

/-- A Put that has drawn its request id. -/
structure Begun (σ : System) (i : Nat) (client : ClientCall) : Prop where
  found : σ.clients[i]? = some client
  isPut : client.op.isPut = true
  begun : client.phase ≠ .queued

end System

structure ClientInv (σ : System) : Prop where
  bounded : ∀ i client, σ.Begun i client → client.requestId ≤ σ.requestIds client.clerk
  latest : ∀ i client, σ.Begun i client → client.phase.isActive = true →
    client.requestId = σ.requestIds client.clerk
  distinct : ∀ i j client other, σ.Begun i client → σ.Begun j other →
    client.clerk = other.clerk → client.requestId = other.requestId → i = j
  calls : ∀ call ∈ σ.groupCalls, ∀ i, call.caller = .client i → σ.Issued i call.request
  executed : ∀ g i request reply, .executed g i request reply ∈ σ.log → σ.Issued i request
  outstanding : ∀ (i : Nat) (client : ClientCall) (k : Nat), σ.clients[i]? = some client →
    client.phase = .active (some k) →
    ∃ gid, σ.groupCalls[k]? = some ⟨gid, client.request, .client i⟩
  invoked : ∀ (i : Nat) (client : ClientCall), σ.clients[i]? = some client →
    .invoked i client.op ∈ σ.log
  numbered : ∀ i op, .invoked i op ∈ σ.log → i < σ.clients.length
  finished : ∀ i reply, .returned i reply ∈ σ.log →
    ∃ client, σ.clients[i]? = some client ∧ client.phase = .returned reply

namespace ClientInv

theorem init (servers : List String) : ClientInv (System.init servers) where
  bounded _ _ begun := by cases begun.found
  latest _ _ begun := by cases begun.found
  distinct _ _ _ _ begun := by cases begun.found
  calls _ called := by cases called
  executed _ _ _ _ logged := by cases logged
  outstanding _ _ _ found := by cases found
  invoked _ _ found := by cases found
  numbered _ _ logged := by cases logged
  finished _ _ logged := by cases logged

section

variable (inv : ClientInv σ)

include inv

/-- Two Puts of a clerk with one request id are one Put. -/
theorem same_request {clientId requestId version version' : Nat} {key value key' value' : String}
    (one : σ.Issued i (.put clientId requestId key value version))
    (two : σ.Issued j (.put clientId requestId key' value' version')) :
    i = j ∧ key' = key ∧ value' = value ∧ version' = version := by
  obtain ⟨client, found, begun, request⟩ := one
  obtain ⟨other, found', begun', request'⟩ := two
  have shape : ∀ {client : ClientCall} {key value : String} {version : Nat},
      client.request = .put clientId requestId key value version →
      client.op = .put key value version ∧ client.clerk = clientId ∧
        client.requestId = requestId := by
    intro client key value version request
    unfold ClientCall.request at request
    split at request
    · cases request
    · rename_i same
      cases request
      exact ⟨same, rfl, rfl⟩
  obtain ⟨op, clerk, id⟩ := shape request
  obtain ⟨op', clerk', id'⟩ := shape request'
  obtain rfl := inv.distinct i j client other ⟨found, by rw [op]; rfl, begun⟩
    ⟨found', by rw [op']; rfl, begun'⟩ (clerk.trans clerk'.symm) (id.trans id'.symm)
  obtain rfl := Option.some.inj (found.symm.trans found')
  cases op.symm.trans op'
  exact ⟨rfl, rfl, rfl, rfl⟩

/-- No Put is ever ahead of the counter of its clerk. -/
theorem issued_bounded {clientId requestId version : Nat} {key value : String}
    (issued : σ.Issued i (.put clientId requestId key value version)) :
    requestId ≤ σ.requestIds clientId := by
  obtain ⟨client, found, begun, request⟩ := issued
  unfold ClientCall.request at request
  split at request
  · cases request
  · rename_i op
    cases request
    exact inv.bounded i client ⟨found, by rw [op]; rfl, begun⟩

/-- The counters stand, and every Put that has begun had begun before. -/
theorem counters_kept (requestIds : σ'.requestIds = σ.requestIds)
    (before : ∀ j other, σ'.Begun j other → ∃ old, σ.Begun j old ∧ old.clerk = other.clerk ∧
      old.requestId = other.requestId ∧
      (other.phase.isActive = true → old.phase.isActive = true)) :
    (∀ j other, σ'.Begun j other → other.requestId ≤ σ'.requestIds other.clerk) ∧
    (∀ j other, σ'.Begun j other → other.phase.isActive = true →
      other.requestId = σ'.requestIds other.clerk) ∧
    ∀ j k other other', σ'.Begun j other → σ'.Begun k other' → other.clerk = other'.clerk →
      other.requestId = other'.requestId → j = k := by
  refine ⟨?_, ?_, ?_⟩
  · intro j other now
    obtain ⟨old, was, clerk, id, _⟩ := before j other now
    rw [requestIds, ← clerk, ← id]
    exact inv.bounded j old was
  · intro j other now still
    obtain ⟨old, was, clerk, id, also⟩ := before j other now
    rw [requestIds, ← clerk, ← id]
    exact inv.latest j old was (also still)
  · intro j k other other' one two clerk id
    obtain ⟨old, was, clerk₁, id₁, _⟩ := before j other one
    obtain ⟨old', was', clerk₂, id₂, _⟩ := before k other' two
    exact inv.distinct j k old old' was was' (clerk₁.trans (clerk.trans clerk₂.symm))
      (id₁.trans (id.trans id₂.symm))

/-- A call that has returned is not the one that moves on. -/
theorem finished_kept {fresh : ClientCall} {reply : Reply} (found : σ.clients[i]? = some client)
    (clients : σ'.clients = (σ.setClient i fresh).clients)
    (going : ∀ reply, client.phase ≠ .returned reply) (member : .returned j reply ∈ σ.log) :
    ∃ other, σ'.clients[j]? = some other ∧ other.phase = .returned reply := by
  obtain ⟨other, there, done⟩ := inv.finished j reply member
  have differs : j ≠ i := by
    rintro rfl
    obtain rfl := Option.some.inj (found.symm.trans there)
    exact going reply done
  refine ⟨other, ?_, done⟩
  rw [clients, System.setClient_other differs]
  exact there

/-- Nothing changes for the clients but what groups perform. -/
theorem elsewhere (clients : σ'.clients = σ.clients) (requestIds : σ'.requestIds = σ.requestIds)
    (keeps : Keeps σ.groupCalls σ'.groupCalls)
    (sent : ∀ call ∈ σ'.groupCalls, call ∈ σ.groupCalls ∨ ∃ i s, call.caller = .worker i s)
    (extends_ : σ.Extends σ'.log) : ClientInv σ' := by
  have issued : ∀ i request, σ.Issued i request → σ'.Issued i request := by
    rintro i request ⟨client, found, rest⟩
    exact ⟨client, clients ▸ found, rest⟩
  obtain ⟨bounded, latest, distinct⟩ := inv.counters_kept requestIds fun i client now =>
    ⟨client, ⟨clients ▸ now.found, now.isPut, now.begun⟩, rfl, rfl, id⟩
  have logged : ∀ event, event ∈ σ'.log → event ∈ σ.log ∨ System.Performs σ event := by
    intro event member
    rcases extends_ with same | ⟨new, more, performs⟩
    · exact Or.inl (same ▸ member)
    · rw [more] at member
      rcases List.mem_cons.mp member with rfl | old
      · exact Or.inr performs
      · exact Or.inl old
  refine ⟨bounded, latest, distinct, ?_, ?_, ?_, ?_, ?_, ?_⟩
  · intro call member i mine
    rcases sent call member with old | ⟨_, _, theirs⟩
    · exact issued i _ (inv.calls call old i mine)
    · rw [theirs] at mine
      cases mine
  · intro g i request reply member
    refine issued i request ?_
    rcases logged _ member with old | performs
    · exact inv.executed g i request reply old
    · cases performs with
      | get found _ => exact inv.calls _ (List.mem_of_getElem? found) i rfl
      | put found _ _ _ => exact inv.calls _ (List.mem_of_getElem? found) i rfl
  · rw [clients]
    intro i client k found active
    obtain ⟨gid, call⟩ := inv.outstanding i client k found active
    exact ⟨gid, keeps _ _ call⟩
  · rw [clients]
    intro i client found
    rcases extends_ with same | ⟨_, more, _⟩
    · exact same ▸ inv.invoked i client found
    · rw [more]
      exact List.mem_cons_of_mem _ (inv.invoked i client found)
  · rw [clients]
    intro i op member
    rcases logged _ member with old | performs
    · exact inv.numbered i op old
    · cases performs
  · rw [clients]
    intro i reply member
    rcases logged _ member with old | performs
    · exact inv.finished i reply old
    · cases performs

theorem controls (controls : System.Controls σ σ') : ClientInv σ' :=
  inv.elsewhere controls.clients controls.requestIds controls.calls
    (fun call member => (controls.sent call member).imp_right And.left) (Or.inl controls.log)

theorem execute (moved : σ.execute k = some σ') : ClientInv σ' := by
  have extends_ := System.execute_extends moved
  obtain ⟨call, _, outcome⟩ := System.execute_cases moved
  rcases outcome with ⟨_, _, _, rfl⟩ | ⟨_, rfl⟩ <;>
    exact inv.elsewhere rfl rfl (.refl _) (fun _ => Or.inl) extends_

theorem invoke (clerk : ClientId) (op : ClientOp) : ClientInv (σ.invoke clerk op) := by
  have keeps : Keeps σ.clients (σ.invoke clerk op).clients := .append _ _
  have begun : ∀ i client, (σ.invoke clerk op).Begun i client → σ.Begun i client := by
    rintro i client ⟨found, isPut, begun⟩
    rcases System.invoke_cases found with old | ⟨_, _, queued, _⟩
    · exact ⟨old, isPut, begun⟩
    · exact absurd (queued isPut) begun
  have requestIds : (σ.invoke clerk op).requestIds = σ.requestIds := rfl
  obtain ⟨bounded, latest, distinct⟩ := inv.counters_kept requestIds fun i client now =>
    ⟨client, begun i client now, rfl, rfl, id⟩
  have issued : ∀ i request, σ.Issued i request → (σ.invoke clerk op).Issued i request := by
    rintro i request ⟨client, found, rest⟩
    exact ⟨client, keeps _ _ found, rest⟩
  refine ⟨bounded, latest, distinct, ?_, ?_, ?_, ?_, ?_, ?_⟩
  · exact fun call member i mine => issued i _ (inv.calls call member i mine)
  · intro g i request reply member
    rcases List.mem_cons.mp member with same | old
    · cases same
    · exact issued i _ (inv.executed g i request reply old)
  · intro i client k found active
    rcases System.invoke_cases found with old | ⟨_, _, _, waiting⟩
    · exact inv.outstanding i client k old active
    · exact absurd active (waiting.1 k)
  · intro i client found
    rcases System.invoke_cases found with old | ⟨rfl, rfl, _⟩
    · exact List.mem_cons_of_mem _ (inv.invoked i client old)
    · exact List.mem_cons_self ..
  · intro i op' member
    dsimp only [System.invoke]
    rw [List.length_append]
    rcases List.mem_cons.mp member with same | old
    · cases same
      exact Nat.lt_succ_self _
    · exact Nat.lt_succ_of_lt (inv.numbered i op' old)
  · intro i reply member
    rcases List.mem_cons.mp member with same | old
    · cases same
    · obtain ⟨client, found, done⟩ := inv.finished i reply old
      exact ⟨client, keeps _ _ found, done⟩

theorem acquire (moved : σ.acquire i = some σ') : ClientInv σ' := by
  obtain ⟨client, found, queued, free, rfl⟩ := System.acquire_inversion moved
  have issued : ∀ j request, σ.Issued j request →
      (σ.setClient i { client with
        requestId := σ.requestIds client.clerk + 1, phase := .active none }).Issued j request :=
    fun j request mine => mine.setClient found rfl fun begun => absurd queued begun
  -- a Put that had begun before, or the one that begins now
  have begun : ∀ (j : Nat) (other : ClientCall),
      (σ.setClient i { client with
        requestId := σ.requestIds client.clerk + 1, phase := .active none }).Begun j other →
      (j = i ∧ other.clerk = client.clerk ∧ other.requestId = σ.requestIds client.clerk + 1) ∨
        σ.Begun j other := by
    rintro j other ⟨there, isPut, begun⟩
    rcases System.setClient_cases found there with ⟨rfl, rfl⟩ | ⟨_, old⟩
    · exact Or.inl ⟨rfl, rfl, rfl⟩
    · exact Or.inr ⟨old, isPut, begun⟩
  have counter : ∀ clerk, σ.requestIds clerk ≤ Function.update σ.requestIds client.clerk
      (σ.requestIds client.clerk + 1) clerk := by
    intro clerk
    by_cases same : clerk = client.clerk
    · rw [same, Function.update_self]
      exact Nat.le_succ _
    · rw [Function.update_of_ne same]
  refine ⟨?_, ?_, ?_, ?_, ?_, ?_, ?_, ?_, ?_⟩ <;> dsimp only
  · intro j other now
    rcases begun j other ⟨now.found, now.isPut, now.begun⟩ with ⟨_, clerk, id⟩ | old
    · rw [clerk, id, Function.update_self]
    · exact (inv.bounded j other old).trans (counter _)
  · intro j other now active
    rcases begun j other ⟨now.found, now.isPut, now.begun⟩ with ⟨_, clerk, id⟩ | old
    · rw [clerk, id, Function.update_self]
    · have differs : other.clerk ≠ client.clerk := fun same => by
        rw [free other (List.mem_of_getElem? old.found) same old.isPut] at active
        cases active
      rw [Function.update_of_ne differs]
      exact inv.latest j other old active
  · intro j j' other other' one two clerk id
    rcases begun j other ⟨one.found, one.isPut, one.begun⟩ with ⟨here, mine, fresh⟩ | old <;>
      rcases begun j' other' ⟨two.found, two.isPut, two.begun⟩ with ⟨here', mine', fresh'⟩ | old'
    · exact here.trans here'.symm
    · have bound := inv.bounded j' other' old'
      rw [← clerk, mine] at bound
      omega
    · have bound := inv.bounded j other old
      rw [clerk, mine'] at bound
      omega
    · exact inv.distinct j j' other other' old old' clerk id
  · exact fun call member j mine => issued j _ (inv.calls call member j mine)
  · exact fun g j request reply member => issued j _ (inv.executed g j request reply member)
  · intro j other k there active
    rcases System.setClient_cases found there with ⟨rfl, rfl⟩ | ⟨_, old⟩
    · cases active
    · exact inv.outstanding j other k old active
  · intro j other there
    rcases System.setClient_cases found there with ⟨rfl, rfl⟩ | ⟨_, old⟩
    · exact inv.invoked j client found
    · exact inv.invoked j other old
  · intro j op member
    rw [System.setClient, List.length_set]
    exact inv.numbered j op member
  · intro j reply member
    exact inv.finished_kept found rfl (by rw [queued]; nofun) member

/-- A client that has begun goes on or returns. -/
theorem rephase {call : Option Nat} (phase : ClientPhase) (found : σ.clients[i]? = some client)
    (active : client.phase = .active call) (begun : phase ≠ .queued)
    (clients : σ'.clients = (σ.setClient i { client with phase }).clients)
    (requestIds : σ'.requestIds = σ.requestIds) (keeps : Keeps σ.groupCalls σ'.groupCalls)
    (sent : ∀ call ∈ σ'.groupCalls, call ∈ σ.groupCalls ∨
      call.caller = .client i ∧ call.request = client.request)
    (mine : ∀ k, phase = .active (some k) →
      ∃ gid, σ'.groupCalls[k]? = some ⟨gid, client.request, .client i⟩)
    (log : σ'.log = σ.log ∨ ∃ reply, phase = .returned reply ∧
      σ'.log = .returned i reply :: σ.log) :
    ClientInv σ' := by
  have busy : client.phase ≠ .queued := by
    rw [active]
    nofun
  have cases : ∀ (j : Nat) (other : ClientCall), σ'.clients[j]? = some other →
      (j = i ∧ other = { client with phase }) ∨ (j ≠ i ∧ σ.clients[j]? = some other) := by
    intro j other there
    rw [clients] at there
    exact System.setClient_cases found there
  have issued : ∀ j request, σ.Issued j request → σ'.Issued j request :=
    fun j request asked => asked.setClient found clients fun _ => ⟨begun, rfl⟩
  have before : ∀ j other, σ'.Begun j other → ∃ old, σ.Begun j old ∧
      old.clerk = other.clerk ∧ old.requestId = other.requestId ∧
      (other.phase.isActive = true → old.phase.isActive = true) := by
    rintro j other ⟨there, isPut, begun'⟩
    rcases cases j other there with ⟨rfl, rfl⟩ | ⟨_, old⟩
    · exact ⟨client, ⟨found, isPut, busy⟩, rfl, rfl, fun _ => by rw [active]; rfl⟩
    · exact ⟨other, ⟨old, isPut, begun'⟩, rfl, rfl, id⟩
  have logged : ∀ event, event ∈ σ'.log → event ∈ σ.log ∨
      ∃ reply, phase = .returned reply ∧ event = .returned i reply := by
    intro event member
    rcases log with same | ⟨reply, done, more⟩
    · exact Or.inl (same ▸ member)
    · rw [more] at member
      exact (List.mem_cons.mp member).symm.imp_right fun same => ⟨reply, done, same⟩
  obtain ⟨bounded, latest, distinct⟩ := inv.counters_kept requestIds before
  refine ⟨bounded, latest, distinct, ?_, ?_, ?_, ?_, ?_, ?_⟩
  · intro request member j caller
    rcases sent request member with old | ⟨here, same⟩
    · exact issued j _ (inv.calls request old j caller)
    · obtain rfl : i = j := by
        rw [here] at caller
        exact Caller.client.inj caller
      rw [same]
      exact issued i _ ⟨client, found, busy, rfl⟩
  · intro g j request reply member
    rcases logged _ member with old | ⟨_, _, same⟩
    · exact issued j _ (inv.executed g j request reply old)
    · cases same
  · intro j other k there waits
    rcases cases j other there with ⟨rfl, rfl⟩ | ⟨_, old⟩
    · exact mine k waits
    · obtain ⟨gid, call⟩ := inv.outstanding j other k old waits
      exact ⟨gid, keeps _ _ call⟩
  · have kept : ∀ event, event ∈ σ.log → event ∈ σ'.log := by
      intro event member
      rcases log with same | ⟨_, _, more⟩
      · exact same ▸ member
      · rw [more]
        exact List.mem_cons_of_mem _ member
    intro j other there
    rcases cases j other there with ⟨rfl, rfl⟩ | ⟨_, old⟩
    · exact kept _ (inv.invoked j client found)
    · exact kept _ (inv.invoked j other old)
  · intro j op member
    rw [clients, System.setClient, List.length_set]
    rcases logged _ member with old | ⟨_, _, same⟩
    · exact inv.numbered j op old
    · cases same
  · intro j reply member
    rcases logged _ member with old | ⟨_, done, same⟩
    · exact inv.finished_kept found clients (by rw [active]; nofun) old
    · cases same
      refine ⟨{ client with phase }, ?_, done⟩
      rw [clients]
      exact System.setClient_self found

theorem step {action : Action} (moved : σ.step action = some σ') : ClientInv σ' := by
  rcases System.step_cases moved with controls | ⟨k, executes⟩ | ⟨clerk, op, rfl⟩ |
    ⟨i, acquires⟩ | ⟨i, q, attempts⟩ | ⟨i, j, answers⟩
  · exact inv.controls controls
  · exact inv.execute executes
  · exact inv.invoke clerk op
  · exact inv.acquire acquires
  · obtain ⟨client, call, gid, found, active, rfl⟩ := System.attempt_inversion attempts
    refine inv.rephase (.active (some σ.groupCalls.length)) found active nofun rfl rfl
      (.append _ _) ?_ ?_ (Or.inl rfl)
    · intro other member
      refine (List.mem_append.mp member).imp_right fun new => ?_
      rw [List.mem_singleton.mp new]
      exact ⟨rfl, rfl⟩
    · intro k same
      cases same
      exact ⟨gid, List.getElem?_concat_length⟩
  · obtain ⟨client, k, reply, found, active, _, _, rfl⟩ := System.answer_inversion answers
    exact inv.rephase (.returned reply) found active nofun rfl rfl (.refl _) (fun _ => Or.inl)
      nofun (Or.inr ⟨reply, rfl, rfl⟩)

end

end ClientInv

end KvStore.Shard

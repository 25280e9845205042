import KvStore.Lib.Linearizability
import KvStore.Shard.AtMostOnce

set_option autoImplicit false

/-! Whatever clerks see of the sharded store they could have seen of one versioned map. -/

namespace KvStore.Shard

open Histories Linearizability

variable {a : Shid → Protocol} {σ σ' : System} {i : Nat} {log : List Shard.Event}
  {servers : List String} {trace : List System}

/-- The sequential versioned map. A Put succeeds if its version is that of the key, or if
it is 0 and there is no key. -/
def versionedMap : Object (KvMap String String) ClientOp Reply where
  init _ := none
  apply kvm
    | .get key =>
      (kvm, match kvm key with
        | some held => .get held.value held.version .ok
        | none => .get "" 0 .noKey)
    | .put key value version =>
      if (kvm key).map (·.version) = some version ∨ (kvm key = none ∧ version = 0) then
        (Function.update kvm key (some { value, version := version + 1 }), .put .ok)
      else (kvm, .put (if kvm key = none then .noKey else .version))

@[simp] theorem versionedMap_get (kvm : KvMap String String) (key : String) :
    versionedMap.apply kvm (.get key) = (kvm, getReply (kvm key)) := by
  dsimp only [versionedMap]
  cases kvm key <;> rfl

/-- The write of the groups is that of the versioned map. -/
@[simp] theorem versionedMap_put (kvm : KvMap String String) (key value : String) (version : Nat) :
    versionedMap.apply kvm (.put key value version) =
      ((kvm.put key value version).1, .put (kvm.put key value version).2) := by
  dsimp only [versionedMap, KvMap.put]
  cases held : kvm key with
  | none =>
    by_cases new : version = 0
    · simp [new]
    · simp [new]
  | some stored =>
    by_cases same : stored.version = version
    · simp [same]
    · simp [same]

theorem versionedMap_observes (key : String) : versionedMap.Observes (.get key) := fun kvm => by
  rw [versionedMap_get]

namespace Event

/-- What clerks see: calls and what they return. -/
def observed : Shard.Event → Option (Linearizability.Event Nat ClientOp Reply)
  | .invoked call op => some (.invoke call op)
  | .returned call reply => some (.respond call reply)
  | _ => none

/-- A call may take effect when a group executes its request. -/
def mark : Shard.Event → Option (Mark Nat ClientOp Reply)
  | .invoked call op => some (.seen (.invoke call op))
  | .returned call reply => some (.seen (.respond call reply))
  | .executed _ call (.get key) reply => some (.point ⟨call, .get key, reply⟩)
  | .executed _ call (.put _ _ key value version) reply =>
    some (.point ⟨call, .put key value version, reply⟩)
  | _ => none

end Event

/-- The history of the calls of all clerks, the newest event first. -/
def history (log : List Shard.Event) : List (Linearizability.Event Nat ClientOp Reply) :=
  log.filterMap Event.observed

def marks (log : List Shard.Event) : List (Mark Nat ClientOp Reply) :=
  log.filterMap Event.mark

@[simp] theorem marks_history (log : List Shard.Event) :
    (marks log).filterMap Mark.event = history log := by
  unfold marks history
  rw [List.filterMap_filterMap]
  congr 1
  funext event
  cases event with
  | executed gid call request reply => cases request <;> rfl
  | _ => rfl

@[simp] theorem marks_map (log : List Shard.Event) :
    versionedMap.after ((marks log).filterMap Mark.effect) = mapOf log := by
  induction log with
  | nil => rfl
  | cons event log ih =>
    cases event with
    | executed gid call request reply =>
      cases request with
      | get key =>
        have step : versionedMap.after
            ((marks (.executed gid call (.get key) reply :: log)).filterMap Mark.effect) =
            (versionedMap.apply (versionedMap.after ((marks log).filterMap Mark.effect))
              (.get key)).1 := rfl
        rw [step, versionedMap_get]
        exact ih
      | put clientId requestId key value version =>
        have step : versionedMap.after
            ((marks (.executed gid call (.put clientId requestId key value version) reply ::
              log)).filterMap Mark.effect) =
            (versionedMap.apply (versionedMap.after ((marks log).filterMap Mark.effect))
              (.put key value version)).1 := rfl
        rw [step, versionedMap_put, ih]
        rfl
      | _ => exact ih
    | _ => exact ih

/-- The event that a client's call or return is seen by. -/
def ofSeen : Linearizability.Event Nat ClientOp Reply → Event
  | .invoke i op => .invoked i op
  | .respond i reply => .returned i reply

theorem mem_marks_seen {seen : Linearizability.Event Nat ClientOp Reply} :
    .seen seen ∈ marks log ↔ ofSeen seen ∈ log := by
  unfold marks
  rw [List.mem_filterMap]
  constructor
  · rintro ⟨event, member, same⟩
    unfold Event.mark at same
    split at same <;> cases same <;> exact member
  · cases seen <;> exact fun member => ⟨_, member, rfl⟩

theorem mem_marks_point {effect : Effect Nat ClientOp Reply} (member : .point effect ∈ marks log) :
    ∃ g request, .executed g effect.call request effect.result ∈ log := by
  obtain ⟨event, there, same⟩ := List.mem_filterMap.mp member
  unfold Event.mark at same
  split at same <;> cases same
  · exact ⟨_, _, there⟩
  · exact ⟨_, _, there⟩

/-- The execution of the request of a call is a point of the call. -/
theorem executed_point {client : ClientCall} {g : Gid} {reply : Reply}
    (member : .executed g i client.request reply ∈ log) :
    .point ⟨i, client.op, reply⟩ ∈ marks log := by
  refine List.mem_filterMap.mpr ⟨_, member, ?_⟩
  unfold ClientCall.request
  cases op : client.op <;> rfl

namespace Sound

/-- A call that has been sent was made before. -/
theorem issued_invoked (clients : ClientInv σ) {request : Request} {op : ClientOp}
    (issued : σ.Issued i request)
    (shape : ∀ client : ClientCall, client.request = request → client.op = op) :
    .seen (.invoke i op) ∈ marks σ.log := by
  obtain ⟨client, found, _, same⟩ := issued
  rw [← shape client same]
  exact mem_marks_seen.mpr (clients.invoked i client found)

theorem get_allowed (rel : Rel a σ) (clients : ClientInv σ) {k : Nat} {gid : Gid} {key : String}
    (found : σ.groupCalls[k]? = some ⟨gid, .get key, .client i⟩)
    (serving : (σ.groups gid).shardStatuses (key2Shard key) = .serving) :
    versionedMap.Allows (marks σ.log) (.point ⟨i, .get key,
      getReply (((σ.groups gid).kvm (key2Shard key)).bind (· key))⟩) := by
  refine ⟨?_, ?_, Or.inl (versionedMap_observes key)⟩
  · refine issued_invoked clients (clients.calls _ (List.mem_of_getElem? found) i rfl) ?_
    intro client same
    unfold ClientCall.request at same
    split at same
    · rename_i op
      cases same
      exact op
    · cases same
  · have data : (σ.groups gid).kvm (key2Shard key) = some (a (key2Shard key)).truth.kv :=
      (rel.serving_faithful serving).1
    dsimp only
    rw [marks_map, versionedMap_get, data, rel.truth]
    simp [truthOf, onShard]

theorem put_allowed (rel : Rel a σ) (clients : ClientInv σ) {k clientId requestId version : Nat}
    {gid : Gid} {key value : String} {kvshard : Option (KvMap String String)} {err : Err}
    (found : σ.groupCalls[k]? = some ⟨gid, .put clientId requestId key value version, .client i⟩)
    (serving : (σ.groups gid).shardStatuses (key2Shard key) = .serving)
    (fresh : (σ.groups gid).duplicate clientId requestId = none)
    (written : (σ.groups gid).writeShard (key2Shard key) key value version =
      some (kvshard, err)) :
    versionedMap.Allows (marks σ.log) (.point ⟨i, .put key value version, .put err⟩) := by
  have issued := clients.calls _ (List.mem_of_getElem? found) i rfl
  refine ⟨?_, ?_, Or.inr ?_⟩
  · refine issued_invoked clients issued ?_
    intro client same
    unfold ClientCall.request at same
    split at same
    · cases same
    · rename_i op
      cases same
      exact op
  · have data : (σ.groups gid).kvm (key2Shard key) = some (a (key2Shard key)).truth.kv :=
      (rel.serving_faithful serving).1
    rw [KVServer.writeShard, data] at written
    obtain ⟨_, rfl⟩ := Prod.mk.inj (Option.some.inj written)
    have here : (a (key2Shard key)).truth.kv key = mapOf σ.log key := by
      rw [rel.truth]
      simp [truthOf, onShard]
    dsimp only
    rw [marks_map, versionedMap_put, (KvMap.put_congr here value version).2]
  · -- a second execution of the call would be one of the same Put
    intro other member same
    obtain ⟨g, request, executed⟩ := mem_marks_point member
    rw [same] at executed
    obtain ⟨client, at_, _, mine⟩ := issued
    obtain ⟨client', at', _, theirs⟩ := clients.executed _ _ _ _ executed
    obtain rfl := Option.some.inj (at_.symm.trans at')
    obtain rfl := mine.symm.trans theirs
    have new := rel.put_new clients found serving fresh _ executed
    simp [Event.isPutOf] at new

theorem returned_allowed (sound : Sound σ) {k : Nat} {client : ClientCall} {reply : Reply}
    (found : σ.clients[i]? = some client) (active : client.phase = .active (some k))
    (answered : (k, reply) ∈ σ.groupReplies) (last : System.final reply = true) :
    versionedMap.Allows (marks σ.log) (.seen (.respond i reply)) := by
  refine ⟨?_, ?_⟩
  · obtain ⟨gid, sent⟩ := sound.clients.outstanding i client k found active
    obtain ⟨g, executed⟩ := sound.once.answered_now sound.clients found (by rw [active]; rfl) sent
      rfl rfl answered last
    exact ⟨client.op, executed_point executed⟩
  · intro other again
    obtain ⟨client', at', done⟩ := sound.clients.finished i other (mem_marks_seen.mp again)
    obtain rfl := Option.some.inj (found.symm.trans at')
    rw [active] at done
    cases done

theorem allowed (sound : Sound σ) {event : Shard.Event} (emits : System.Emits σ event)
    {mark : Mark Nat ClientOp Reply} (marked : event.mark = some mark) :
    versionedMap.Allows (marks σ.log) mark := by
  obtain ⟨a, rel⟩ := sound.rel
  cases emits with
  | invoked op =>
    cases marked
    intro op' again
    exact Nat.lt_irrefl _ (sound.clients.numbered _ op' (mem_marks_seen.mp again))
  | returned found active answered last =>
    cases marked
    exact sound.returned_allowed found active answered last
  | performed performs =>
    cases performs with
    | get found serving =>
      cases marked
      exact get_allowed rel sound.clients found serving
    | put found serving fresh written =>
      cases marked
      exact put_allowed rel sound.clients found serving fresh written
    | _ => cases marked

/-- One step adds at most one mark, and an allowed one. -/
theorem marks_step (sound : Sound σ) (each : Each versionedMap.Allows (marks σ.log))
    {action : Action} (moved : σ.step action = some σ') :
    Each versionedMap.Allows (marks σ'.log) := by
  rcases System.step_emits moved with same | ⟨event, more, emits⟩
  · rw [same]
    exact each
  · rw [more]
    cases marked : event.mark with
    | none =>
      rw [marks, List.filterMap_cons_none marked]
      exact each
    | some mark =>
      rw [marks, List.filterMap_cons_some marked]
      exact each.cons (sound.allowed emits marked)

end Sound

namespace System

theorem Run.marked (run : Run servers trace) :
    ∀ σ ∈ trace, Sound σ ∧ Each versionedMap.Allows (marks σ.log) := by
  refine run.invariant ⟨?_, .nil⟩ ?_
  · exact ⟨⟨_, init_rel servers⟩, .init servers, .init servers, .init servers⟩
  · rintro before action after _ moved ⟨sound, each⟩
    exact ⟨sound.step moved, sound.marks_step each moved⟩

/-- Every history of Gets and Puts of any number of clerks is linearizable. -/
theorem linearizable (run : Run servers trace) :
    ∀ σ ∈ trace, Linearizable versionedMap (history σ.log) := by
  intro σ member
  rw [← marks_history]
  exact linearizable_of_points (run.marked σ member).2

/-- The retried Put returns, and another clerk reads what it wrote at the new group. -/
def readElsewhere : List Action :=
  retriedElsewhere ++
    [.answer 0 0, .invoke 8 (.get "a"), .attempt 1 1, .execute 20, .answer 1 0]

theorem readElsewhere_done : (afterwards readElsewhere).isSome := by decide +kernel

theorem linearizable_retried :
    ∃ trace σ, Run ["a"] trace ∧ σ ∈ trace ∧
      history σ.log = [.respond 1 (.get "v" 1 .ok), .invoke 1 (.get "a"),
        .respond 0 (.put .ok), .invoke 0 (.put "a" "v" 0)] ∧
      Linearizable versionedMap (history σ.log) := by
  obtain ⟨past, run⟩ := reached readElsewhere readElsewhere_done
  exact ⟨_, _, run, List.mem_cons_self .., rfl, linearizable run _ (List.mem_cons_self ..)⟩

end System

end KvStore.Shard

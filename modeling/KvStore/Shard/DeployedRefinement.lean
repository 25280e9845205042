import KvStore.Shard.Around
import KvStore.Shard.Deployed
import KvStore.Shard.Linearizable
import KvStore.Shard.Recovery

set_option autoImplicit false

/-! The deployed store does what the store with one state per group does: a command takes
effect, in the latter, when the first replica of its group delivers it. -/

namespace KvStore.Shard

/-- What the replicas of all groups stand for: the commands each group has delivered, and
what one server in the place of each would have sent and done. -/
structure Shadow (n : Nat) where
  committed : Gid → List (Op n Command)
  replies : List (Nat × Reply)
  log : List Event

section Shadow

variable {n : Nat} (gob : ReplicaGob)

/-- The state of a group after the commands it has delivered. -/
def stateAfter (gid : Gid) (committed : List (Op n Command)) : KVServer :=
  ((group gob gid).after committed committed.length).val

/-- The store with one state per group. -/
def Deployed.abstract (δ : Deployed n) (shadow : Shadow n) : System :=
  δ.front.graft (fun gid => stateAfter gob gid (shadow.committed gid)) shadow.replies shadow.log

variable {gob} {gid : Gid} {committed : List (Op n Command)} {op : Op n Command}

theorem stateAfter_concat {kv' : KVServer} {reply : Reply}
    (done : (stateAfter gob gid committed).doOp op.req.val = some (kv', reply)) :
    stateAfter gob gid (committed ++ [op]) = kv' ∧
      ((group gob gid).doOp ((group gob gid).after committed committed.length) op.req).2 =
        some reply := by
  have last : (group gob gid).after (committed ++ [op]) (committed.length + 1) = _ :=
    StateMachine.after_succ List.getElem?_concat_length
  have before : (group gob gid).after (committed ++ [op]) committed.length =
      (group gob gid).after committed committed.length :=
    StateMachine.after_longer (List.prefix_append _ _) (Nat.le_refl _)
  refine ⟨?_, ?_⟩
  · unfold stateAfter at done ⊢
    rw [List.length_append, List.length_singleton, last, before, group_state, done]
    rfl
  · rw [group_reply]
    exact congrArg (Option.map Prod.snd) done

theorem stateAfter_update (gob : ReplicaGob) (committed : Gid → List (Op n Command)) (gid : Gid)
    (longer : List (Op n Command)) :
    (fun g => stateAfter gob g (Function.update committed gid longer g)) =
      Function.update (fun g => stateAfter gob g (committed g)) gid
        (stateAfter gob gid longer) := by
  funext g
  by_cases same : g = gid
  · rw [same, Function.update_self, Function.update_self]
  · rw [Function.update_of_ne same, Function.update_of_ne same]

/-- Clerks do not see what a group executes. -/
theorem history_executed (kv : KVServer) (gid : Gid) (reply : Reply) (call : GroupCall)
    (log : List Event) :
    history (kv.accepted gid call.request ++ kv.answered gid reply call ++ log) = history log := by
  have accepted : (kv.accepted gid call.request).filterMap Event.observed = [] := by
    unfold KVServer.accepted
    split
    · split <;> rfl
    · split <;> rfl
    · split <;> rfl
    · rfl
  have answered : (kv.answered gid reply call).filterMap Event.observed = [] := by
    unfold KVServer.answered
    split
    · split <;> rfl
    · split <;> rfl
    · rfl
  unfold history
  rw [List.filterMap_append, List.filterMap_append, accepted, answered]
  rfl

end Shadow

namespace Deployed

variable {n : Nat} {gob : ReplicaGob} {servers : List String} {δ δ' : Deployed n}
  {shadow : Shadow n} {gid : Gid}

/-- Once the command of the attempt is delivered, the shadow has replied to its call. -/
def Answered (gob : ReplicaGob) (shadow : Shadow n) (attempt : Attempt n) : Prop :=
  ∀ i, (shadow.committed attempt.gid)[i]? = some attempt.op →
    ∃ reply, ((group gob attempt.gid).doOp
      ((group gob attempt.gid).after (shadow.committed attempt.gid) i) attempt.op.req).2 =
        some reply ∧ (attempt.call, reply) ∈ shadow.replies

/-- One more command is delivered and its call replied to. -/
theorem Answered.commit {attempt : Attempt n} (answered : Answered gob shadow attempt)
    {op : Op n Command} {k : Nat} {reply : Reply} {log : List Event}
    (mine : attempt.gid = gid → attempt.op = op → attempt.call = k)
    (value : ((group gob gid).doOp ((group gob gid).after (shadow.committed gid)
      (shadow.committed gid).length) op.req).2 = some reply) :
    Answered gob
      { committed := Function.update shadow.committed gid (shadow.committed gid ++ [op])
        replies := (k, reply) :: shadow.replies
        log } attempt := by
  obtain ⟨gid', k', op'⟩ := attempt
  intro i placed
  dsimp only at placed mine ⊢
  by_cases here : gid' = gid
  · subst here
    rw [Function.update_self] at placed ⊢
    have inside := (List.getElem?_eq_some_iff.mp placed).1
    rw [List.length_append, List.length_singleton] at inside
    rw [StateMachine.after_longer (List.prefix_append _ _) (by omega)]
    by_cases old : i < (shadow.committed gid').length
    · rw [List.getElem?_append_left old] at placed
      obtain ⟨before, same, known⟩ := answered i placed
      exact ⟨before, same, List.mem_cons_of_mem _ known⟩
    · obtain rfl : i = (shadow.committed gid').length := by omega
      rw [List.getElem?_concat_length] at placed
      obtain rfl := Option.some.inj placed
      obtain rfl := mine rfl rfl
      exact ⟨reply, value, List.mem_cons_self ..⟩
  · rw [Function.update_of_ne here] at placed ⊢
    obtain ⟨before, same, known⟩ := answered i placed
    exact ⟨before, same, List.mem_cons_of_mem _ known⟩

/-- The shadow keeps up with the handlers: what has been delivered it has executed. -/
structure Shadows (gob : ReplicaGob) (shadow : Shadow n) (δ : Deployed n) : Prop where
  healthy : (δ.abstract gob shadow).Healthy
  replies : ∀ entry ∈ δ.front.groupReplies, entry ∈ shadow.replies
  seen : history shadow.log = history δ.front.log
  sent : ∀ attempt ∈ δ.attempts, attempt.op ∈ (δ.services attempt.gid).created ∧
    ∃ call, δ.front.groupCalls[attempt.call]? = some call ∧ call.gid = attempt.gid ∧
      call.request = attempt.op.req.val
  covered : ∀ gid, ∀ op ∈ (δ.services gid).created,
    ∃ attempt ∈ δ.attempts, attempt.gid = gid ∧ attempt.op = op
  single : ∀ attempt ∈ δ.attempts, ∀ other ∈ δ.attempts, attempt.gid = other.gid →
    attempt.op = other.op → attempt.call = other.call
  answered : ∀ attempt ∈ δ.attempts, Answered gob shadow attempt

/-- Each service delivers the commands of the shadow. -/
structure Follows (gob : ReplicaGob) (shadow : Shadow n) (δ : Deployed n) : Prop
    extends δ.Shadows gob shadow where
  ordered : ∀ gid, (δ.services gid).InOrder (group gob gid) (shadow.committed gid)

/-- One step of the store with one state per group. -/
def Moves (σ σ' : System) : Prop := ∃ action, True ∧ σ.step action = some σ'

/-- One server in the place of the group executes a command that has been delivered. -/
theorem Shadows.commit (shadows : δ.Shadows gob shadow) {op : Op n Command}
    (made : op ∈ (δ.services gid).created) :
    ∃ shadow', shadow'.committed =
        Function.update shadow.committed gid (shadow.committed gid ++ [op]) ∧
      δ.Shadows gob shadow' ∧ Moves (δ.abstract gob shadow) (δ.abstract gob shadow') := by
  obtain ⟨⟨gid', k, op'⟩, member, here, mine⟩ := shadows.covered gid op made
  obtain ⟨-, call, found, at_, carries⟩ := shadows.sent _ member
  dsimp only at here mine found at_ carries
  subst here mine at_
  obtain ⟨a, rel⟩ := shadows.healthy.simulated
  obtain ⟨⟨kv', reply⟩, done⟩ := rel.doOp_total (shadows.healthy.intact call.gid) found
  have executes := shadows.healthy.executes found done
  obtain ⟨state, answer⟩ := stateAfter_concat (carries ▸ done)
  let shadow' : Shadow n :=
    { committed := Function.update shadow.committed call.gid (shadow.committed call.gid ++ [op'])
      replies := (k, reply) :: shadow.replies
      log := ((δ.abstract gob shadow).replied k call kv' reply).log }
  have same : (δ.abstract gob shadow).replied k call kv' reply = δ.abstract gob shadow' := by
    have states := stateAfter_update gob shadow.committed call.gid
      (shadow.committed call.gid ++ [op'])
    rw [state] at states
    exact congrArg (fun groups => δ.front.graft groups shadow'.replies shadow'.log) states.symm
  have moves : (δ.abstract gob shadow).step (.execute k) = some (δ.abstract gob shadow') :=
    same ▸ executes
  refine ⟨shadow', rfl, ⟨shadows.healthy.step moves, ?_, ?_, shadows.sent, shadows.covered,
    shadows.single, ?_⟩, _, trivial, moves⟩
  · exact fun entry old => List.mem_cons_of_mem _ (shadows.replies entry old)
  · exact (history_executed _ _ _ _ _).trans shadows.seen
  · intro other there
    exact (shadows.answered other there).commit (shadows.single other there _ member) answer

/-- And one after the other all that have been. -/
theorem Shadows.commits (shadows : δ.Shadows gob shadow) (more : List (Op n Command))
    (made : ∀ op ∈ more, op ∈ (δ.services gid).created) :
    ∃ shadow', shadow'.committed =
        Function.update shadow.committed gid (shadow.committed gid ++ more) ∧
      δ.Shadows gob shadow' ∧
      Relation.ReflTransGen Moves (δ.abstract gob shadow) (δ.abstract gob shadow') := by
  induction more generalizing shadow with
  | nil =>
    refine ⟨shadow, ?_, shadows, .refl⟩
    rw [List.append_nil, Function.update_eq_self]
  | cons op rest ih =>
    obtain ⟨next, same, kept, moves⟩ := shadows.commit (made op (List.mem_cons_self ..))
    obtain ⟨last, all, done, reaches⟩ := ih kept fun op member =>
      made op (List.mem_cons_of_mem _ member)
    refine ⟨last, ?_, done, .head moves reaches⟩
    rw [all, same, Function.update_self, Function.update_idem, List.append_assoc]
    rfl

/-- A service has moved; what it has newly delivered is executed. -/
theorem Shadows.catchUp (shadows : δ.Shadows gob shadow) {longer : List (Op n Command)}
    (others : ∀ g, g ≠ gid → (δ.services g).InOrder (group gob g) (shadow.committed g))
    (here : (δ.services gid).InOrder (group gob gid) longer)
    (more : shadow.committed gid <+: longer) :
    ∃ shadow', δ.Follows gob shadow' ∧
      Relation.ReflTransGen Moves (δ.abstract gob shadow) (δ.abstract gob shadow') := by
  obtain ⟨rest, rfl⟩ := more
  obtain ⟨shadow', same, kept, reaches⟩ := shadows.commits rest fun op member =>
    here.made (List.mem_append_right _ member)
  refine ⟨shadow', ⟨kept, fun g => ?_⟩, reaches⟩
  rw [same]
  by_cases mine : g = gid
  · rw [mine, Function.update_self]
    exact here
  · rw [Function.update_of_ne mine]
    exact others g mine

theorem setService_created {service : Service n Replica Command (Option Reply)}
    (same : service.created = (δ.services gid).created) (g : Gid) :
    ((δ.setService gid service).services g).created = (δ.services g).created := by
  by_cases here : g = gid
  · rw [here, setService_self, same]
  · rw [setService_of_ne here]

/-- What a step of the deployed store is in the other. -/
def Simulates (gob : ReplicaGob) (shadow : Shadow n) (δ δ' : Deployed n) : Prop :=
  ∃ shadow', δ'.Follows gob shadow' ∧
    Relation.ReflTransGen Moves (δ.abstract gob shadow) (δ'.abstract gob shadow')

section

variable (follows : δ.Follows gob shadow)

include follows

theorem Follows.frontStep {action : Shard.Action} (moved : δ.frontStep action = some δ') :
    Simulates gob shadow δ δ' := by
  obtain ⟨other, front, below, rfl⟩ := frontStep_inversion moved
  obtain ⟨action', new, around, moves⟩ := System.step_graft below other follows.replies
    (fun gid => stateAfter gob gid (shadow.committed gid)) shadow.log
  refine ⟨{ shadow with log := new ++ shadow.log }, ⟨⟨follows.healthy.step moves, ?_, ?_, ?_,
    follows.covered, follows.single, follows.answered⟩, follows.ordered⟩,
    .single ⟨action', trivial, moves⟩⟩
  · rw [around.replies]
    exact follows.replies
  · dsimp only
    rw [around.log, history, history, List.filterMap_append, List.filterMap_append]
    exact congrArg _ follows.seen
  · intro attempt member
    obtain ⟨made, call, found, sent⟩ := follows.sent attempt member
    exact ⟨made, call, around.calls _ _ found, sent⟩

theorem Follows.serviceStep {gid : Gid} {action : ServiceAction n Command}
    (fresh : (δ.services gid).freshAck action = true)
    (own : (δ.services gid).ownResult action = true)
    (moved : δ.serviceStep gob gid action = some δ') : Simulates gob shadow δ δ' := by
  obtain ⟨other, service, below, rfl⟩ := serviceStep_inversion moved
  obtain ⟨longer, more, here⟩ :=
    (follows.ordered gid).step (group_recoverable gob gid) fresh own below
  have created : service.created = (δ.services gid).created := by
    rcases Service.step_created below with ⟨same, _⟩ | ⟨op, seen, _⟩
    · exact same
    · exact absurd (Service.event_invoke seen).1 (other _ _)
  have shadows : (δ.setService gid service).Shadows gob shadow := by
    refine ⟨follows.healthy, follows.replies, follows.seen, ?_, ?_, follows.single,
      follows.answered⟩
    · intro attempt member
      rw [setService_created created]
      exact follows.sent attempt member
    · intro g op made
      rw [setService_created created] at made
      exact follows.covered g op made
  refine shadows.catchUp (fun g other => ?_) ((setService_self gid service).symm ▸ here) more
  rw [setService_of_ne other]
  exact follows.ordered g

theorem Follows.reply {a : Nat} (moved : δ.reply a = some δ') : Simulates gob shadow δ δ' := by
  obtain ⟨attempt, submission, reply, found, alive, there, back, rfl⟩ := reply_inversion moved
  have member := List.mem_of_getElem? found
  obtain ⟨i, placed, value⟩ := (follows.ordered attempt.gid).returned_value
    (follows.sent attempt member).1 alive there back
  obtain ⟨reply', computed, known⟩ := follows.answered attempt member i placed
  rw [computed] at value
  obtain rfl := Option.some.inj (Option.some.inj value)
  refine ⟨shadow, ⟨⟨follows.healthy, ?_, follows.seen, follows.sent, follows.covered,
    follows.single, follows.answered⟩, follows.ordered⟩, .refl⟩
  intro entry mine
  rcases List.mem_cons.mp mine with rfl | old
  · exact known
  · exact follows.replies entry old

/-- A handler has submitted one more command. -/
theorem Follows.submitted {k : Nat} {call : GroupCall} (server : Fin n) {command : Command}
    (found : δ.front.groupCalls[k]? = some call) (carries : command.val = call.request) :
    Shadows gob shadow
      { δ.setService call.gid ((δ.services call.gid).submit server command) with
        attempts := δ.attempts ++
          [{ gid := call.gid, call := k, op := δ.nextOp call.gid server command }] } := by
  have unmade : δ.nextOp call.gid server command ∉ (δ.services call.gid).created :=
    (follows.ordered call.gid).sound.unmade rfl rfl
  have created (g : Gid) (op : Op n Command) :
      op ∈ ((δ.setService call.gid
        ((δ.services call.gid).submit server command)).services g).created ↔
      (g = call.gid ∧ op = δ.nextOp call.gid server command) ∨ op ∈ (δ.services g).created := by
    by_cases here : g = call.gid
    · rw [here, setService_self]
      exact List.mem_cons.trans (or_congr_left (and_iff_right rfl).symm)
    · rw [setService_of_ne here, or_iff_right (fun both => here both.1)]
  -- no earlier attempt at the group has the command
  have apart : ∀ attempt ∈ δ.attempts, attempt.gid = call.gid →
      attempt.op ≠ δ.nextOp call.gid server command := by
    intro attempt member here same
    refine unmade ?_
    rw [← same, ← here]
    exact (follows.sent attempt member).1
  refine ⟨follows.healthy, follows.replies, follows.seen, ?_, ?_, ?_, ?_⟩
  · intro attempt member
    rw [created]
    rcases List.mem_append.mp member with old | new
    · obtain ⟨made, sent⟩ := follows.sent attempt old
      exact ⟨Or.inr made, sent⟩
    · rw [List.mem_singleton.mp new]
      exact ⟨Or.inl ⟨rfl, rfl⟩, call, found, rfl, carries.symm⟩
  · intro g op made
    rcases (created g op).mp made with ⟨rfl, rfl⟩ | old
    · exact ⟨_, List.mem_append_right _ (List.mem_singleton_self _), rfl, rfl⟩
    · obtain ⟨attempt, member, mine⟩ := follows.covered g op old
      exact ⟨attempt, List.mem_append_left _ member, mine⟩
  · intro attempt member other member' here same
    rcases List.mem_append.mp member with old | new
    · rcases List.mem_append.mp member' with old' | new'
      · exact follows.single attempt old other old' here same
      · rw [List.mem_singleton.mp new'] at here same
        exact absurd same (apart attempt old here)
    · rw [List.mem_singleton.mp new] at here same ⊢
      rcases List.mem_append.mp member' with old' | new'
      · exact absurd same.symm (apart other old' here.symm)
      · rw [List.mem_singleton.mp new']
  · intro attempt member
    rcases List.mem_append.mp member with old | new
    · exact follows.answered attempt old
    · rw [List.mem_singleton.mp new]
      intro i placed
      exact absurd ((follows.ordered call.gid).made (List.mem_of_getElem? placed)) unmade

theorem Follows.serve {k : Nat} {server : Fin n} (moved : δ.serve k server = some δ') :
    Simulates gob shadow δ δ' := by
  obtain ⟨call, command, found, sent, rfl⟩ := serve_inversion moved
  have submits : (δ.services call.gid).step (group gob call.gid) (.submit server command) =
    some ((δ.services call.gid).submit server command) := rfl
  obtain ⟨longer, more, here⟩ := (follows.ordered call.gid).step (group_recoverable gob call.gid)
    rfl rfl submits
  have shadows := follows.submitted server found (Request.command_val sent)
  refine shadows.catchUp (fun g other => ?_) ((setService_self call.gid _).symm ▸ here) more
  exact (setService_of_ne other _).symm ▸ follows.ordered g

theorem Follows.step {action : Action n} (admits : δ.admitted action = true)
    (moved : δ.step gob action = some δ') : Simulates gob shadow δ δ' := by
  cases action with
  | front action => exact follows.frontStep moved
  | service gid action =>
    obtain ⟨fresh, own⟩ := Bool.and_eq_true_iff.mp admits
    exact follows.serviceStep fresh own moved
  | serve k server => exact follows.serve moved
  | reply a => exact follows.reply moved

end

theorem init_follows (gob : ReplicaGob) (n : Nat) (servers : List String) :
    (init gob n servers).Follows gob ⟨fun _ => [], [], []⟩ where
  healthy := System.init_healthy servers
  replies := nofun
  seen := rfl
  sent := nofun
  covered := nofun
  single := nofun
  answered := nofun
  ordered gid := .init (group gob gid) n

/-- The deployed store as a state of the other: everything but the groups is the same, a
group has executed the commands that its replicas have delivered, and it has sent at least
the replies that they have. -/
structure Shows (gob : ReplicaGob) (δ : Deployed n) (σ : System) : Prop where
  around : σ = δ.front.graft σ.groups σ.groupReplies σ.log
  replies : ∀ entry ∈ δ.front.groupReplies, entry ∈ σ.groupReplies
  seen : history σ.log = history δ.front.log
  groups : ∀ gid, ∃ committed, (δ.services gid).Mirrors (group gob gid) committed ∧
    σ.groups gid = stateAfter gob gid committed

theorem Follows.shows (follows : δ.Follows gob shadow) : δ.Shows gob (δ.abstract gob shadow) where
  around := rfl
  replies := follows.replies
  seen := follows.seen
  groups gid := ⟨shadow.committed gid, (follows.ordered gid).mirrors, rfl⟩

variable {trace : List (Deployed n)}

theorem Run.followed (run : Run gob servers trace) :
    ∀ δ ∈ trace, ∃ shadow, δ.Follows gob shadow := by
  refine run.invariant ⟨_, init_follows gob n servers⟩ ?_
  rintro before action after admits moved ⟨shadow, follows⟩
  obtain ⟨shadow', follows', _⟩ := follows.step admits moved
  exact ⟨shadow', follows'⟩

/-- One run of the store with one state per group shows every state of the run. -/
theorem Run.shown (run : Run gob servers trace) :
    ∃ δ past shown shadow, trace = δ :: past ∧ δ.Follows gob shadow ∧
      System.Run servers (δ.abstract gob shadow :: shown) ∧
      ∀ old ∈ trace, ∃ σ ∈ δ.abstract gob shadow :: shown, old.Shows gob σ := by
  induction run with
  | start =>
    have follows := init_follows gob n servers
    refine ⟨_, [], [], _, rfl, follows, .start, fun old member => ?_⟩
    rw [List.mem_singleton.mp member]
    exact ⟨_, List.mem_cons_self .., follows.shows⟩
  | step run admits moved ih =>
    obtain ⟨δ, past, shown, shadow, same, follows, above, seen⟩ := ih
    obtain ⟨rfl, rfl⟩ := List.cons.inj same
    obtain ⟨shadow', follows', reaches⟩ := follows.step admits moved
    obtain ⟨later, longer, kept⟩ := above.further reaches
    refine ⟨_, _, later, shadow', rfl, follows', longer, fun old member => ?_⟩
    rcases List.mem_cons.mp member with rfl | member
    · exact ⟨_, List.mem_cons_self .., follows'.shows⟩
    · obtain ⟨σ, there, shows⟩ := seen old member
      exact ⟨σ, kept σ there, shows⟩

end Deployed

namespace System

variable {σ σ' : System} {servers : List String} {trace : List System}

/-- Whatever is held or on its way has finitely many keys. -/
structure Small (σ : System) : Prop where
  groups : ∀ g, (σ.groups g).Finite
  replies : ∀ k state num err, (k, .freezeShard (some state) num err) ∈ σ.groupReplies →
    Finitary state.kv
  held : ∀ state, σ.Holds (some state) → Finitary state.kv
  calls : ∀ call ∈ σ.groupCalls, call.request.Finite

theorem Small.controls (small : σ.Small) (controls : Controls σ σ') : σ'.Small := by
  refine ⟨controls.groups ▸ small.groups, controls.replies ▸ small.replies, ?_, ?_⟩
  · intro state held
    rcases controls.holds _ held with before | ⟨k, num, err, member⟩
    · exact small.held state before
    · exact small.replies k state num err member
  · intro call member
    rcases controls.sent call member with old | ⟨_, packed⟩
    · exact small.calls call old
    · cases request : call.request with
      | installShard s state num =>
        cases state with
        | none => trivial
        | some state => exact small.held state (packed s _ num request)
      | _ => trivial

/-- The state in a reply is one that the group held. -/
theorem freeze_finitary {kv kv' : KVServer} (finite : kv.Finite) {request : Request}
    {state : ShardState} {num : Nat} {err : Err}
    (done : kv.doOp request = some (kv', .freezeShard (some state) num err)) :
    Finitary state.kv := by
  obtain ⟨s, marshalled⟩ := KVServer.doOp_marshalled done
  rw [(KVServer.marshallShardState_cases marshalled).1]
  exact finite.held s

theorem Small.execute (small : σ.Small) {k : Nat} (moved : σ.execute k = some σ') : σ'.Small := by
  obtain ⟨call, found, ⟨kv', reply, done, rfl⟩ | ⟨_, rfl⟩⟩ := execute_cases moved
  · refine ⟨fun g => ?_, ?_, small.held, small.calls⟩
    · dsimp only [replied]
      by_cases here : g = call.gid
      · rw [here, Function.update_self]
        exact (small.groups call.gid).doOp (small.calls call (List.mem_of_getElem? found)) done
      · rw [Function.update_of_ne here]
        exact small.groups g
    · intro j state num err member
      rcases List.mem_cons.mp member with same | old
      · obtain ⟨rfl, rfl⟩ := Prod.mk.inj same
        exact freeze_finitary (small.groups call.gid) done
      · exact small.replies j state num err old
  · exact ⟨small.groups, small.replies, small.held, small.calls⟩

theorem Small.step (small : σ.Small) {action : Action} (moved : σ.step action = some σ') :
    σ'.Small := by
  rcases step_cases moved with controls | ⟨k, executes⟩ | ⟨clerk, op, rfl⟩ | ⟨i, moved⟩ |
    ⟨i, q, moved⟩ | ⟨i, j, moved⟩
  · exact small.controls controls
  · exact small.execute executes
  · exact ⟨small.groups, small.replies, small.held, small.calls⟩
  · obtain ⟨_, _, _, _, rfl⟩ := acquire_inversion moved
    exact ⟨small.groups, small.replies, small.held, small.calls⟩
  · obtain ⟨client, _, _, _, _, rfl⟩ := attempt_inversion moved
    refine ⟨small.groups, small.replies, small.held, fun call member => ?_⟩
    rcases List.mem_append.mp member with old | new
    · exact small.calls call old
    · rw [List.mem_singleton.mp new]
      unfold ClientCall.request
      cases client.op <;> trivial
  · obtain ⟨_, _, _, _, _, _, _, rfl⟩ := answer_inversion moved
    exact ⟨small.groups, small.replies, small.held, small.calls⟩

theorem Run.small (run : Run servers trace) : ∀ σ ∈ trace, σ.Small := by
  refine run.invariant ⟨KVServer.start_finite, nofun, ?_, nofun⟩ ?_
  · rintro state ⟨operation, member, _⟩
    cases member
  · intro before action after _ moved small
    exact small.step moved

end System

namespace Deployed

variable {n : Nat} {gob : ReplicaGob} {servers : List String} {trace : List (Deployed n)}

/-- Every request on its way can be submitted at every server of its group: what it
carries is finite. -/
theorem requests_served (run : Run gob servers trace) : ∀ δ ∈ trace, ∀ k call (server : Fin n),
    δ.front.groupCalls[k]? = some call → ∃ small,
      δ.serve k server = some
        { δ.setService call.gid ((δ.services call.gid).submit server ⟨call.request, small⟩) with
          attempts := δ.attempts ++
            [⟨call.gid, k, δ.nextOp call.gid server ⟨call.request, small⟩⟩] } := by
  intro δ member k call server found
  obtain ⟨_, _, shown, shadow, rfl, _, above, seen⟩ := run.shown
  obtain ⟨σ, there, shows⟩ := seen δ member
  have sent : call ∈ σ.groupCalls := by
    rw [shows.around]
    exact List.mem_of_getElem? found
  have small := (above.small σ there).calls call sent
  exact ⟨small, by simp only [serve, found, small.command, Option.bind_eq_bind, Option.bind_some]⟩

/-- A server is elected by the vote that it asks for with call `vote`. -/
def electing (gid : Gid) (server : Fin 3) (vote : Nat) : List (Action 3) :=
  [.service gid (.raft (.startElection server)), .service gid (.raft (.handleRequestVote vote)),
    .service gid (.raft (.receiveRequestVote vote))]

/-- The leader has its log at `follower` as well and executes the next entry. -/
def replicating (gid : Gid) (leader follower : Fin 3) (append : Nat) : List (Action 3) :=
  [.service gid (.raft (.replicateToFollower leader follower)),
    .service gid (.raft (.handleAppendEntries append)),
    .service gid (.raft (.receiveAppendEntries append)),
    .service gid (.raft (.applierRead leader)), .service gid (.receive leader)]

/-- The result reaches the handler, which replies. -/
def answering (gid : Gid) (server : Fin 3) (channel attempt : Nat) : List (Action 3) :=
  [.service gid (.lookup server), .service gid (.send server), .service gid (.take server channel),
    .service gid (.finish server channel), .reply attempt]

/-- Server 0 of the first group executes a Put, takes a snapshot and is restarted from it.
Server 1 is elected and executes a Get. Then group 2 joins: server 1 executes the freeze of
shard 4, and the install is on its way to group 2, where server 0 is elected. -/
def frozenShard : List (Action 3) :=
  List.flatten [electing gid1 0 0,
    [.front .query, .front (.invoke 7 (.put "a" "v" 0)), .front (.acquire 0),
      .front (.attempt 0 0), .serve 0 0, .service gid1 (.start 0 0)],
    replicating gid1 0 1 0, [.service gid1 (.snapshot 0)], answering gid1 0 0 0,
    [.front (.answer 0 0), .service gid1 (.raft (.crash 0))], electing gid1 1 2,
    [.front (.invoke 8 (.get "a")), .front (.attempt 1 0), .serve 1 1,
      .service gid1 (.start 1 0)],
    replicating gid1 1 0 1,
    [.service gid1 (.lookup 1), .service gid1 (.raft (.applierAck 1)),
      .service gid1 (.raft (.applierRead 1)), .service gid1 (.receive 1)],
    answering gid1 1 0 1,
    [.front (.answer 1 0), .front (.changeConfigTo 0 System.joined), .front (.read 0),
      .front (.read 0), .front (.put 0), .front (.storeExecute 0), .front (.putReply 0 0),
      .front (.send 0 4), .serve 2 1, .service gid1 (.start 1 1),
      .service gid1 (.raft (.applierAck 1))],
    replicating gid1 1 0 2, answering gid1 1 1 2,
    [.front (.receive 0 4 0), .front (.send 0 4)], electing 2 0 0]

theorem frozenShard_done : (Runs.execute (Runs.guarded (step .unary) admitted)
    (init .unary 3 ["a"]) frozenShard).isSome := by decide +kernel

/-- The request to install shard 4 has not reached group 2. -/
noncomputable def pending : Deployed 3 := Option.get _ frozenShard_done

theorem pending_run : ∃ past, Run .unary ["a"] (pending :: past) :=
  Runs.Run.reached (step .unary) admitted (init .unary 3 ["a"]) frozenShard frozenShard_done

theorem pending_sent : (pending.front.groupCalls[3]?).isSome := by decide +kernel

noncomputable def pendingInstall : GroupCall := Option.get _ pending_sent

theorem pendingInstall_served : ∃ small, pending.serve 3 0 = some
    { pending.setService pendingInstall.gid ((pending.services pendingInstall.gid).submit 0
        ⟨pendingInstall.request, small⟩) with
      attempts := pending.attempts ++ [⟨pendingInstall.gid, 3,
        pending.nextOp pendingInstall.gid 0 ⟨pendingInstall.request, small⟩⟩] } := by
  obtain ⟨past, run⟩ := pending_run
  exact requests_served run _ (List.mem_cons_self ..) 3 _ 0 (Option.some_get pending_sent).symm

/-- Now it has, and a handler there has submitted it. -/
noncomputable def served : Deployed 3 :=
  let command : Command := ⟨pendingInstall.request, pendingInstall_served.1⟩
  { pending.setService pendingInstall.gid
      ((pending.services pendingInstall.gid).submit 0 command) with
    attempts := pending.attempts ++
      [⟨pendingInstall.gid, 3, pending.nextOp pendingInstall.gid 0 command⟩] }

/-- Server 0 of group 2 executes the install and answers. -/
def installedShard : List (Action 3) :=
  List.flatten [[.service 2 (.start 0 0)], replicating 2 0 1 0, answering 2 0 0 3,
    [.front (.receive 0 4 0)]]

/-- The Put and the Get of the run, and the four replies of the groups. -/
def showsMove (δ : Deployed 3) : Bool :=
  match history δ.front.log, δ.front.groupReplies.map Prod.fst with
  | [.respond 1 (.get "v" 1 .ok), .invoke 1 (.get "a"), .respond 0 (.put .ok),
      .invoke 0 (.put "a" "v" 0)], [3, 2, 1, 0] => ((δ.services 2).rsm 0).done.length = 1
  | _, _ => false

theorem moved_run : ∃ (δ : Deployed 3) (past : List (Deployed 3)), Run .unary ["a"] (δ :: past) ∧
    history δ.front.log = [.respond 1 (.get "v" 1 .ok), .invoke 1 (.get "a"),
      .respond 0 (.put .ok), .invoke 0 (.put "a" "v" 0)] ∧
    δ.front.groupReplies.map Prod.fst = [3, 2, 1, 0] ∧
    ((δ.services 2).rsm 0).done.length = 1 := by
  have done : (Runs.execute (Runs.guarded (step .unary) admitted) served installedShard).any
      showsMove = true := by decide +kernel
  obtain ⟨δ, ended, shows⟩ := (Option.any_eq_true _ _).mp done
  obtain ⟨past, run⟩ := pending_run
  obtain ⟨small, moved⟩ := pendingInstall_served
  have admits : pending.admitted (.serve 3 0) = true := rfl
  obtain ⟨past', run', -⟩ := (run.step admits moved).extend ended
  refine ⟨δ, past', run', ?_⟩
  unfold showsMove at shows
  split at shows
  · rename_i said replied
    exact ⟨said, replied, of_decide_eq_true shows⟩
  · cases shows

/-- The replicated store refines the one with a single state per group: every run of
clerks, controllers and replicated groups, through elections, crashes, snapshots and
restarts, is one of the latter. -/
theorem deployed_refines (run : Run gob servers trace) :
    ∃ shown, System.Run servers shown ∧ ∀ δ ∈ trace, ∃ σ ∈ shown, δ.Shows gob σ := by
  obtain ⟨δ, past, shown, shadow, rfl, _, above, seen⟩ := run.shown
  exact ⟨_, above, seen⟩

theorem deployed_refines_move :
    ∃ (trace : List (Deployed 3)) (shown : List System), Run .unary ["a"] trace ∧
      (∃ δ ∈ trace, δ.front.groupReplies.map Prod.fst = [3, 2, 1, 0]) ∧
      System.Run ["a"] shown ∧ ∀ δ ∈ trace, ∃ σ ∈ shown, δ.Shows .unary σ := by
  obtain ⟨δ, past, run, -, replied, -⟩ := moved_run
  obtain ⟨shown, above, seen⟩ := deployed_refines run
  exact ⟨_, shown, run, ⟨δ, List.mem_cons_self .., replied⟩, above, seen⟩

/-- So the history of all clerks is that of one versioned map. -/
theorem deployed_linearizable (run : Run gob servers trace) :
    ∀ δ ∈ trace, Linearizability.Linearizable versionedMap (history δ.front.log) := by
  intro δ member
  obtain ⟨_, _, shown, shadow, rfl, _, above, seen⟩ := run.shown
  obtain ⟨σ, there, shows⟩ := seen δ member
  rw [← shows.seen, ← marks_history]
  exact Linearizability.linearizable_of_points (above.marked σ there).2

theorem deployed_linearizable_move :
    ∃ (trace : List (Deployed 3)) (δ : Deployed 3), Run .unary ["a"] trace ∧ δ ∈ trace ∧
      history δ.front.log = [.respond 1 (.get "v" 1 .ok), .invoke 1 (.get "a"),
        .respond 0 (.put .ok), .invoke 0 (.put "a" "v" 0)] ∧
      Linearizability.Linearizable versionedMap (history δ.front.log) := by
  obtain ⟨δ, past, run, said, -⟩ := moved_run
  exact ⟨_, δ, run, List.mem_cons_self .., said,
    deployed_linearizable run δ (List.mem_cons_self ..)⟩

/-- No replica of any group dies: whatever it executes, in whatever order the log and the
snapshots bring it, it writes to maps that are there and decodes states that are. -/
theorem replicas_never_die (run : Run gob servers trace) : ∀ δ ∈ trace, ∀ gid s commandId op value,
    (commandId, op, value) ∈ ((δ.services gid).rsm s).done → ∃ reply, value = some reply := by
  intro δ member gid s commandId op value recorded
  obtain ⟨shadow, follows⟩ := run.followed δ member
  obtain ⟨-, -, placed, computed⟩ := ((follows.ordered gid).mirrors.replicas s).executed _ recorded
  have made := (follows.ordered gid).made (List.mem_of_getElem? placed)
  obtain ⟨attempt, there, rfl, rfl⟩ := follows.covered gid _ made
  obtain ⟨reply, answer, _⟩ := follows.answered attempt there _ placed
  exact ⟨reply, computed.trans answer⟩

/-- Group 2 has executed the install. -/
theorem replicas_never_die_move :
    ∃ (trace : List (Deployed 3)) (δ : Deployed 3), Run .unary ["a"] trace ∧ δ ∈ trace ∧
      ∃ commandId op value, (commandId, op, value) ∈ ((δ.services 2).rsm 0).done ∧
        ∃ reply, value = some reply := by
  obtain ⟨δ, past, run, -, -, executed⟩ := moved_run
  obtain ⟨⟨commandId, op, value⟩, recorded⟩ :=
    List.exists_mem_of_length_pos (executed ▸ Nat.one_pos)
  exact ⟨_, δ, run, List.mem_cons_self .., commandId, op, value, recorded,
    replicas_never_die run δ (List.mem_cons_self ..) 2 0 commandId op value recorded⟩

end Deployed

end KvStore.Shard

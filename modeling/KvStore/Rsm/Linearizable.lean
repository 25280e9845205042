import KvStore.Lib.Linearizability
import KvStore.Raft.StateMachineSafety
import KvStore.Rsm.Progress
import KvStore.Rsm.ReplicaState

set_option autoImplicit false

/-! The calls of `Submit` that return OK could have been made one after the other on a
single copy of the state machine. -/

namespace KvStore

open Histories Linearizability

variable {n : Nat} {M Req Val : Type}

/-- The state machine, one request at a time. -/
def StateMachine.object (machine : StateMachine M Req Val) : Object M Req Val where
  init := machine.init
  apply := machine.doOp

namespace Service

variable {machine : StateMachine M Req Val} {σ σ' : Service n M Req Val} {s : Fin n}
  {action : ServiceAction n Req}

/-- What callers see of an action: that `Submit` is called, or that it returns OK. A call
that returns an error may still take effect, so it stays open. -/
def event (σ : Service n M Req Val) :
    ServiceAction n Req → Option (Linearizability.Event (Op n Req) Req Val)
  | .submit server req =>
    some (.invoke { me := server, id := (σ.rsm server).nextOpId, req,
                    incarnation := σ.raft.incarnation server } req)
  | .finish server channel =>
    match (σ.rsm server).submits[channel]? with
    | some submission =>
      match submission.phase with
      | .taken result =>
        if result.opId = submission.op.id then result.value.map (.respond submission.op)
        else none
      | _ => none
    | none => none
  | _ => none

theorem event_invoke {op : Op n Req} {req : Req} (seen : σ.event action = some (.invoke op req)) :
    action = .submit op.me req ∧ op.req = req ∧ op.id = (σ.rsm op.me).nextOpId ∧
      op.incarnation = σ.raft.incarnation op.me := by
  cases action with
  | submit server request =>
    cases seen
    exact ⟨rfl, rfl, rfl, rfl⟩
  | finish server channel =>
    simp only [event] at seen
    split at seen
    · split at seen
      · split at seen
        · obtain ⟨_, _, same⟩ := Option.map_eq_some_iff.mp seen
          cases same
        · cases seen
      · cases seen
    · cases seen
  | _ => cases seen

/-- OK is returned by a call that has taken a result with its own id. -/
theorem event_respond {op : Op n Req} {value : Val}
    (seen : σ.event action = some (.respond op value)) :
    ∃ server channel submission result, action = .finish server channel ∧
      (σ.rsm server).submits[channel]? = some submission ∧ submission.op = op ∧
      submission.phase = .taken result ∧ result.opId = op.id ∧ result.value = some value := by
  cases action with
  | finish server channel =>
    simp only [event] at seen
    split at seen
    · rename_i submission found
      split at seen
      · rename_i result taken
        split at seen
        · rename_i own
          obtain ⟨answer, held, same⟩ := Option.map_eq_some_iff.mp seen
          cases same
          exact ⟨server, channel, submission, result, rfl, found, rfl, taken, own, held⟩
        · cases seen
      · cases seen
    · cases seen
  | submit server req => cases seen
  | _ => cases seen

/-- Only a call of `Submit` makes a command. -/
theorem step_created (moved : σ.step machine action = some σ') :
    (σ'.created = σ.created ∧ ∀ op req, σ.event action ≠ some (.invoke op req)) ∨
      ∃ op, σ.event action = some (.invoke op op.req) ∧ σ'.created = op :: σ.created := by
  have silent : ∀ {op req}, σ.event action = some (.invoke op req) → action = .submit op.me req :=
    fun seen => (event_invoke seen).1
  cases step_outcome moved with
  | submit s req => exact Or.inr ⟨_, rfl, rfl⟩
  | _ => exact Or.inl ⟨rfl, fun op req seen => by cases silent seen⟩

/-- A command about to be made has not been made before. -/
theorem Sound.unmade (sound : σ.Sound machine) {op : Op n Req}
    (id : op.id = (σ.rsm op.me).nextOpId)
    (incarnation : op.incarnation = σ.raft.incarnation op.me) : op ∉ σ.created := by
  intro made
  obtain ⟨submission, found, _⟩ := (sound.created op made).2 incarnation
  have inside := (List.getElem?_eq_some_iff.mp found).1
  have counted := (sound.servers op.me).counted
  rw [id, RSM.nextOpId] at inside
  omega

/-- A result taken by its own call was computed where the command stands. -/
theorem Sound.taken_value (sound : σ.Sound machine) {committed : List (Op n Req)}
    (mirrors : σ.Mirrors machine committed) {channel : Nat} {submission : Submission n Req Val}
    {result : ApplyResult Val} {value : Val}
    (found : (σ.rsm s).submits[channel]? = some submission)
    (taken : submission.phase = .taken result) (own : result.opId = submission.op.id)
    (held : result.value = some value) :
    ∃ i, committed[i]? = some submission.op ∧
      value = (machine.doOp (machine.after committed i) submission.op.req).2 := by
  have answers := ((sound.servers s).submits channel submission found).taken result taken
  obtain ⟨_, value', same, recorded⟩ := answers own
  obtain rfl := Option.some.inj (held.symm.trans same)
  obtain ⟨_, _, place, computed⟩ := (mirrors.replicas s).executed _ recorded
  exact ⟨_, place, computed⟩

/-- The condition of `Cluster.freshAck` on the Raft peers of a service. -/
def freshAck (σ : Service n M Req Val) : ServiceAction n Req → Bool
  | .raft action => σ.raft.freshAck action
  | _ => true

/-- The books of Raft are right. -/
def Booked (σ : Service n M Req Val) : Prop :=
  ∃ core, Rel σ.raft core ∧ ReplicatedLog.Observed core ∧ Ledger σ.raft core

theorem Booked.init (machine : StateMachine M Req Val) (n : Nat) :
    (Service.init machine n : Service n M Req Val).Booked :=
  ⟨_, (Rel.init n _).observe.1, ReplicatedLog.observe_observed _, Ledger.init n _⟩

theorem Booked.step (booked : σ.Booked) (fresh : σ.freshAck action = true)
    (moved : σ.step machine action = some σ') : σ'.Booked := by
  refine step_raft_kept
    (fun raft => ∃ core, Rel raft core ∧ ReplicatedLog.Observed core ∧ Ledger raft core)
    (fun raft below => raft.freshAck below = true) ?_ moved ?_ ?_ ?_ booked
  · exact fun _ _ _ fresh below books => ledger_kept fresh below books
  · rintro below rfl _
    exact fresh
  · intro s channel command _
    rfl
  · intro raft s index data
    exact ⟨rfl, rfl, rfl⟩

/-- So all deliveries at one index are of one command. -/
theorem Booked.raftCorrect (booked : σ.Booked) : σ.RaftCorrect := by
  obtain ⟨core, rel, _, ledger⟩ := booked
  intro a b index command command' first second
  obtain ⟨_, log, entry, committed, length, found, rfl⟩ := ledger.applied _ first
  obtain ⟨_, log', entry', committed', length', found', rfl⟩ := ledger.applied _ second
  have same := committed.eq_of_length rel.safe committed' (length.trans length'.symm)
  rw [same, found'] at found
  rw [Option.some.inj found]

/-- No command is on the list twice. -/
theorem Mirrors.nodup {committed : List (Op n Req)} (mirrors : σ.Mirrors machine committed)
    (single : σ.Single) : committed.Nodup := by
  rw [List.nodup_iff_getElem?_ne_getElem?]
  intro i j before inside same
  have found := List.getElem?_eq_getElem inside
  obtain ⟨a, one⟩ := mirrors.origin i _ (same.trans found)
  obtain ⟨b, other⟩ := mirrors.origin j _ found
  have filed := single.filed
  have equal := single.once _ _ _ (filed.delivered one) (filed.delivered other)
  omega

/-- The service against the list of the commands delivered so far. -/
structure InOrder (machine : StateMachine M Req Val) (committed : List (Op n Req))
    (σ : Service n M Req Val) : Prop where
  booked : σ.Booked
  single : σ.Single
  sound : σ.Sound machine
  mirrors : σ.Mirrors machine committed

namespace InOrder

variable {committed : List (Op n Req)}

theorem init (machine : StateMachine M Req Val) (n : Nat) :
    (Service.init machine n : Service n M Req Val).InOrder machine [] :=
  ⟨.init machine n, .init machine n, .init machine n, .init machine n⟩

/-- The list only grows. -/
theorem step (ordered : σ.InOrder machine committed) (recoverable : machine.Recoverable)
    {action : ServiceAction n Req} (fresh : σ.freshAck action = true)
    (own : σ.ownResult action = true) (moved : σ.step machine action = some σ') :
    ∃ longer, committed <+: longer ∧ σ'.InOrder machine longer := by
  have booked := ordered.booked.step fresh moved
  obtain ⟨longer, mirrors, more⟩ := ordered.mirrors.step recoverable moved booked.raftCorrect
  exact ⟨longer, more, booked, ordered.single.step moved, ordered.sound.step own moved, mirrors⟩

/-- Whatever is delivered some `Submit` has made. -/
theorem made (ordered : σ.InOrder machine committed) {op : Op n Req} (member : op ∈ committed) :
    op ∈ σ.created := by
  obtain ⟨i, found⟩ := List.getElem?_of_mem member
  obtain ⟨t, delivered⟩ := ordered.mirrors.origin i op found
  exact ordered.sound.origin.applied _ delivered op rfl

/-- What `Submit` has returned with OK was computed where the command stands. -/
theorem returned_value (ordered : σ.InOrder machine committed) {op : Op n Req}
    (mine : op ∈ σ.created) (alive : op.incarnation = σ.raft.incarnation op.me)
    {submission : Submission n Req Val} {value : Option Val}
    (found : (σ.rsm op.me).submits[op.id - 1]? = some submission)
    (returned : submission.phase = .returned .ok value) :
    ∃ i, committed[i]? = some op ∧
      value = some (machine.doOp (machine.after committed i) op.req).2 := by
  have here := (ordered.sound.servers op.me).submits _ submission found
  obtain ⟨result, rfl, recorded⟩ := here.returned value returned
  obtain ⟨_, _, place, computed⟩ := (ordered.mirrors.replicas op.me).executed _ recorded
  obtain ⟨submission', found', same⟩ := (ordered.sound.created op mine).2 alive
  obtain rfl := Option.some.inj (found.symm.trans found')
  rw [same] at place computed
  exact ⟨_, place, congrArg some computed⟩

end InOrder

end Service

/-- The points of a history against the commands delivered so far: every command has its
point, with the value it has where it stands. -/
structure StateMachine.Pointed (machine : StateMachine M Req Val) (committed : List (Op n Req))
    (marks : List (Mark (Op n Req) Req Val)) : Prop where
  state : machine.object.after (marks.filterMap Mark.effect) =
    machine.after committed committed.length
  points : ∀ effect, .point effect ∈ marks → effect.call ∈ committed
  taken : ∀ i op, committed[i]? = some op →
    .point ⟨op, op.req, (machine.doOp (machine.after committed i) op.req).2⟩ ∈ marks

namespace StateMachine.Pointed

variable {machine : StateMachine M Req Val} {committed : List (Op n Req)}
  {marks : List (Mark (Op n Req) Req Val)}

theorem seen (pointed : machine.Pointed committed marks)
    (event : Linearizability.Event (Op n Req) Req Val) :
    machine.Pointed committed (.seen event :: marks) where
  state := pointed.state
  points effect member := by
    rcases List.mem_cons.mp member with same | old
    · cases same
    · exact pointed.points effect old
  taken i op found := List.mem_cons_of_mem _ (pointed.taken i op found)

/-- The next command takes effect. -/
theorem point (pointed : machine.Pointed committed marks)
    (each : Each machine.object.Allows marks) {op : Op n Req} (new : op ∉ committed)
    (invoked : .seen (.invoke op op.req) ∈ marks) :
    ∃ mark, mark.event = none ∧ machine.Pointed (committed ++ [op]) (mark :: marks) ∧
      Each machine.object.Allows (mark :: marks) := by
  refine ⟨.point ⟨op, op.req, (machine.doOp (machine.after committed committed.length) op.req).2⟩,
    rfl, ⟨?_, ?_, ?_⟩, each.cons ⟨invoked, ?_, Or.inr ?_⟩⟩
  · have last : machine.after (committed ++ [op]) (committed.length + 1) = _ :=
      after_succ List.getElem?_concat_length
    rw [List.length_append, List.length_singleton, last,
      after_longer (List.prefix_append _ _) (Nat.le_refl _), ← pointed.state]
    rfl
  · intro effect member
    rcases List.mem_cons.mp member with same | old
    · cases same
      exact List.mem_append_right _ (List.mem_singleton_self _)
    · exact List.mem_append_left _ (pointed.points effect old)
  · intro i other found
    have bound := (List.getElem?_eq_some_iff.mp found).1
    rw [List.length_append, List.length_singleton] at bound
    rw [after_longer (List.prefix_append _ _) (by omega)]
    by_cases old : i < committed.length
    · rw [List.getElem?_append_left old] at found
      exact List.mem_cons_of_mem _ (pointed.taken i other found)
    · obtain rfl : i = committed.length := by omega
      rw [List.getElem?_concat_length] at found
      obtain rfl := Option.some.inj found
      exact List.mem_cons_self ..
  · change (machine.doOp (machine.object.after _) op.req).2 = _
    rw [pointed.state]
  · intro other member same
    have old := pointed.points other member
    rw [same] at old
    exact new old

/-- All commands that are new take effect one after the other. -/
theorem extend (pointed : machine.Pointed committed marks)
    (each : Each machine.object.Allows marks) {longer : List (Op n Req)}
    (more : committed <+: longer) (once : longer.Nodup)
    (invoked : ∀ op ∈ longer, .seen (.invoke op op.req) ∈ marks) :
    ∃ marks', marks'.filterMap Mark.event = marks.filterMap Mark.event ∧
      machine.Pointed longer marks' ∧ Each machine.object.Allows marks' := by
  obtain ⟨rest, rfl⟩ := more
  induction rest generalizing committed marks with
  | nil =>
    rw [List.append_nil]
    exact ⟨marks, rfl, pointed, each⟩
  | cons op rest ih =>
    have split : committed ++ op :: rest = committed ++ [op] ++ rest := by simp
    rw [split] at once invoked ⊢
    have new : op ∉ committed := by
      intro old
      have apart := (List.nodup_append.mp (List.nodup_append.mp once).1).2.2
      exact apart op old op (List.mem_singleton_self op) rfl
    obtain ⟨mark, silent, pointed', each'⟩ := pointed.point each new (invoked op (by simp))
    obtain ⟨marks', same, rest⟩ := ih pointed' each' once
      fun other member => List.mem_cons_of_mem _ (invoked other member)
    refine ⟨marks', ?_, rest⟩
    rw [same, List.filterMap_cons_none silent]

end StateMachine.Pointed

/-- The service and what its callers have seen, newest first. -/
structure Transcript (n : Nat) (M Req Val : Type) where
  service : Service n M Req Val
  history : List (Linearizability.Event (Op n Req) Req Val)

namespace Transcript

variable {machine : StateMachine M Req Val} {τ τ' : Transcript n M Req Val}
  {committed : List (Op n Req)} {marks : List (Mark (Op n Req) Req Val)}

def init (machine : StateMachine M Req Val) (n : Nat) : Transcript n M Req Val where
  service := .init machine n
  history := []

def step (machine : StateMachine M Req Val) (τ : Transcript n M Req Val)
    (action : ServiceAction n Req) : Option (Transcript n M Req Val) :=
  (τ.service.step machine action).map fun service =>
    { service, history := (τ.service.event action).toList ++ τ.history }

/-- An `AppendEntries` or `InstallSnapshot` reply that raises a match index is handled in the
term of its request, and a command with the id of the `Submit` that waits at its index was
created by the same process, not by another server or an earlier process of this one. -/
def admitted (τ : Transcript n M Req Val) (action : ServiceAction n Req) : Bool :=
  τ.service.freshAck action && τ.service.ownResult action

abbrev Run (machine : StateMachine M Req Val) (trace : List (Transcript n M Req Val)) : Prop :=
  Runs.Run (step machine) (fun τ action => τ.admitted action = true) (init machine n) trace

/-- The service with the commands delivered so far and the points of its history. -/
structure Linear (machine : StateMachine M Req Val) (committed : List (Op n Req))
    (marks : List (Mark (Op n Req) Req Val)) (τ : Transcript n M Req Val) : Prop extends
    τ.service.InOrder machine committed where
  history : marks.filterMap Mark.event = τ.history
  pointed : machine.Pointed committed marks
  each : Each machine.object.Allows marks
  made : ∀ op ∈ τ.service.created, .seen (.invoke op op.req) ∈ marks
  invoked : ∀ op req, .seen (.invoke op req) ∈ marks → op ∈ τ.service.created
  responded : ∀ op value, .seen (.respond op value) ∈ marks → τ.service.Reached 3 op

namespace Linear

theorem init (machine : StateMachine M Req Val) (n : Nat) :
    (Transcript.init machine n : Transcript n M Req Val).Linear machine [] [] where
  toInOrder := .init machine n
  history := rfl
  pointed := ⟨rfl, nofun, nofun⟩
  each := .nil
  made := nofun
  invoked := nofun
  responded := nofun

section

variable (linear : τ.Linear machine committed marks)

include linear

variable {action : ServiceAction n Req}

/-- What is seen of the action is allowed. -/
theorem event_allowed {event : Linearizability.Event (Op n Req) Req Val}
    (seen : τ.service.event action = some event) : machine.object.Allows marks (.seen event) := by
  cases event with
  | invoke op req =>
    obtain ⟨_, _, id, incarnation⟩ := Service.event_invoke seen
    intro other again
    exact linear.sound.unmade id incarnation (linear.invoked op other again)
  | respond op value =>
    obtain ⟨s, channel, submission, result, _, found, rfl, taken, own, held⟩ :=
      Service.event_respond seen
    obtain ⟨i, place, rfl⟩ := linear.sound.taken_value linear.mirrors found taken own held
    refine ⟨⟨_, linear.pointed.taken i _ place⟩, ?_⟩
    intro other again
    refine linear.single.named.ahead found ?_ (linear.responded _ other again)
    rw [taken]
    exact Nat.lt_succ_self 2

/-- A call that returns OK has returned. -/
theorem responded_now {service : Service n M Req Val}
    (moved : τ.service.step machine action = some service) {op : Op n Req} {value : Val}
    (seen : τ.service.event action = some (.respond op value)) : service.Reached 3 op := by
  have named := linear.single.named.step moved
  obtain ⟨s, channel, submission, result, rfl, found, rfl, _, _, _⟩ := Service.event_respond seen
  cases Service.step_outcome moved with
  | @finish _ _ other err answer found' =>
  obtain rfl := Option.some.inj (found.symm.trans found')
  have now : ((τ.service.setRsm s (((τ.service.rsm s).forget submission.commandId).setSubmission
      channel { submission with phase := .returned err answer })).rsm s).submits[channel]? =
        some { submission with phase := .returned err answer } := by
    simp only [Service.setRsm, Function.update_self]
    exact List.getElem?_set_self (List.getElem?_eq_some_iff.mp found).1
  exact named.reached now

/-- What callers see of an action comes first. -/
theorem see (action : ServiceAction n Req) :
    ∃ middle, middle.filterMap Mark.event = (τ.service.event action).toList ++ τ.history ∧
      Each machine.object.Allows middle ∧ machine.Pointed committed middle ∧
      ∀ event, .seen event ∈ middle ↔
        .seen event ∈ marks ∨ τ.service.event action = some event := by
  cases seen : τ.service.event action with
  | none =>
    refine ⟨marks, linear.history, linear.each, linear.pointed, fun event => ?_⟩
    simp
  | some event =>
    refine ⟨.seen event :: marks, ?_, linear.each.cons (linear.event_allowed seen),
      linear.pointed.seen event, fun other => ?_⟩
    · change event :: marks.filterMap Mark.event = event :: τ.history
      rw [linear.history]
    · rw [List.mem_cons, Mark.seen.injEq, Option.some.injEq, or_comm, eq_comm]

/-- Then the commands delivered by the action take effect. -/
theorem step (recoverable : machine.Recoverable) (ok : τ.admitted action = true)
    (moved : τ.step machine action = some τ') :
    ∃ longer marks', τ'.Linear machine longer marks' := by
  obtain ⟨fresh, own⟩ := Bool.and_eq_true_iff.mp ok
  obtain ⟨service, below, rfl⟩ := Option.map_eq_some_iff.mp moved
  obtain ⟨longer, more, ordered⟩ := linear.toInOrder.step recoverable fresh own below
  obtain ⟨middle, history, each, pointed, seen⟩ := linear.see action
  have created := Service.step_created below
  have made : ∀ op ∈ service.created, .seen (.invoke op op.req) ∈ middle := by
    intro op member
    rw [seen]
    rcases created with ⟨same, _⟩ | ⟨new, invokes, grown⟩
    · exact Or.inl (linear.made op (same ▸ member))
    · rw [grown] at member
      rcases List.mem_cons.mp member with rfl | old
      · exact Or.inr invokes
      · exact Or.inl (linear.made op old)
  obtain ⟨marks', same, pointed, each⟩ := pointed.extend each more
    (ordered.mirrors.nodup ordered.single) fun op member => made op (ordered.made member)
  have visible (event : Linearizability.Event (Op n Req) Req Val) :
      .seen event ∈ marks' ↔ .seen event ∈ middle := by
    rw [← mem_observed, same, mem_observed]
  refine ⟨longer, marks', ordered, same.trans history, pointed, each, ?_, ?_, ?_⟩
  · exact fun op member => (visible _).mpr (made op member)
  · intro op req member
    rcases (seen _).mp ((visible _).mp member) with old | now
    · have before := linear.invoked op req old
      rcases created with ⟨same, _⟩ | ⟨_, _, grown⟩
      · exact same ▸ before
      · exact grown ▸ List.mem_cons_of_mem _ before
    · rcases created with ⟨_, never⟩ | ⟨new, invokes, grown⟩
      · exact absurd now (never op req)
      · cases invokes.symm.trans now
        exact grown ▸ List.mem_cons_self ..
  · intro op value member
    rcases (seen _).mp ((visible _).mp member) with old | now
    · exact (linear.responded op value old).step below
    · exact linear.responded_now below now

end

end Linear

theorem Run.linear (recoverable : machine.Recoverable) {trace : List (Transcript n M Req Val)}
    (run : Run machine trace) :
    ∀ τ ∈ trace, ∃ committed marks, τ.Linear machine committed marks := by
  refine run.invariant ⟨_, _, .init machine n⟩ ?_
  rintro before action after ok moved ⟨committed, marks, linear⟩
  exact linear.step recoverable ok moved

/-- The replicated state machine is linearizable: whatever the servers, the network and
the crashes do, the calls of `Submit` and the values they return with OK are those of one
copy of the state machine that executes each call at some moment before it returns. -/
theorem submit_linearizable (recoverable : machine.Recoverable)
    {trace : List (Transcript n M Req Val)} (run : Run machine trace) :
    ∀ τ ∈ trace, Linearizable machine.object τ.history := by
  intro τ member
  obtain ⟨committed, marks, linear⟩ := run.linear recoverable τ member
  rw [← linear.history]
  exact linearizable_of_points linear.each

/-- Server 0 executes request 5, takes a snapshot, answers and is restarted from the
snapshot. Server 1 is elected, takes request 6 and has it at server 0 as well, executes both
requests and answers. -/
def answeredTwice : List (ServiceAction 3 UInt8) :=
  [.raft (.startElection 0), .raft (.handleRequestVote 0), .raft (.receiveRequestVote 0),
    .submit 0 5, .start 0 0, .raft (.replicateToFollower 0 1), .raft (.handleAppendEntries 0),
    .raft (.receiveAppendEntries 0), .raft (.applierRead 0), .receive 0, .snapshot 0, .lookup 0,
    .send 0, .take 0 0, .finish 0 0, .raft (.crash 0),
    .raft (.startElection 1), .raft (.handleRequestVote 2), .raft (.receiveRequestVote 2),
    .submit 1 6, .start 1 0, .raft (.replicateToFollower 1 0), .raft (.handleAppendEntries 1),
    .raft (.receiveAppendEntries 1), .raft (.applierRead 1), .receive 1, .lookup 1,
    .raft (.applierAck 1), .raft (.applierRead 1), .receive 1, .lookup 1, .send 1, .take 1 0,
    .finish 1 0]

theorem submit_linearizable_answered :
    StateMachine.Recoverable Service.echo ∧
    ∃ (trace : List (Transcript 3 Bytes UInt8 UInt8)) (τ : Transcript 3 Bytes UInt8 UInt8),
      Run Service.echo trace ∧ τ ∈ trace ∧
      τ.history = [.respond (Service.firstOp 1 6) 6, .invoke (Service.firstOp 1 6) 6,
        .respond (Service.firstOp 0 5) 5, .invoke (Service.firstOp 0 5) 5] ∧
      Linearizable Service.echo.object τ.history := by
  obtain ⟨past, run⟩ := Runs.Run.reached (step Service.echo) admitted (init Service.echo 3)
    answeredTwice (by decide +kernel)
  exact ⟨Service.echo_recoverable, _, _, run, List.mem_cons_self .., rfl,
    submit_linearizable Service.echo_recoverable run _ (List.mem_cons_self ..)⟩

end Transcript

end KvStore

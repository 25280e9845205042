import KvStore.Raft.ApplyOrder

set_option autoImplicit false

/-! Raft moves no command to another index: whatever a log, a message or a delivery
holds at an index has been started there. -/

namespace KvStore

open ReplicatedLog

variable {n : Nat} {C : Type}

/-- Every command in the log satisfies `P` at its index, the first one at `base`. -/
def LogAt (P : Option C → Nat → Prop) (base : Nat) (log : List (LogEntry C)) : Prop :=
  ∀ (k : Nat) (entry : LogEntry C), log[k]? = some entry → P entry.command (base + k)

namespace LogAt

variable {P Q : Option C → Nat → Prop} {base : Nat} {log more : List (LogEntry C)}

theorem mono (at_ : LogAt P base log) (weaken : ∀ c i, P c i → Q c i) : LogAt Q base log :=
  fun k entry found => weaken _ _ (at_ k entry found)

theorem shorten {short : List (LogEntry C)} (at_ : LogAt P base log) (pre : short <+: log) :
    LogAt P base short :=
  fun k entry found => at_ k entry (prefix_getElem pre found)

theorem drop (at_ : LogAt P 0 log) (k : Nat) : LogAt P k (log.drop k) := by
  intro j entry found
  rw [List.getElem?_drop] at found
  have here := at_ (k + j) entry found
  rwa [Nat.zero_add] at here

theorem append (at_ : LogAt P 0 log) (after : LogAt P log.length more) :
    LogAt P 0 (log ++ more) := by
  intro k entry found
  by_cases old : k < log.length
  · rw [List.getElem?_append_left old] at found
    exact at_ k entry found
  · rw [List.getElem?_append_right (by omega)] at found
    have here := after (k - log.length) entry found
    rwa [show log.length + (k - log.length) = 0 + k by omega] at here

theorem adopt {offered : List (LogEntry C)} (mine : LogAt P 0 log) (theirs : LogAt P 0 offered) :
    LogAt P 0 (adopt log offered) := by
  by_cases known : offered <+: log
  · rwa [adopt_known known]
  · rwa [adopt_fresh known]

end LogAt

/-- What a request offers is what the peer has through the entry named and the entries
carried. -/
theorem Raft.Offered.logAt {P : Option C → Nat → Prop} {whole logical : List (LogEntry C)}
    {args : AppendEntriesArgs n C} (ask : Raft.Offered whole args)
    (inside : args.prevLogIndex < logical.length)
    (agree : logical.take (args.prevLogIndex + 1) =
      (Raft.offerOf whole args).take (args.prevLogIndex + 1))
    (mine : LogAt P 0 logical) (carried : LogAt P (args.prevLogIndex + 1) args.entries) :
    LogAt P 0 (Raft.offerOf whole args) := by
  rw [← List.take_append_drop (args.prevLogIndex + 1) (Raft.offerOf whole args), ← agree, ask.drop]
  refine (mine.shorten (List.take_prefix _ _)).append ?_
  rwa [List.length_take, Nat.min_eq_left (by omega)]

def MsgAt (P : Option C → Nat → Prop) : ApplyMsg C → Prop
  | .command command index => 0 < index ∧ P command index
  | .snapshot _ _ _ => True

theorem MsgAt.mono {P Q : Option C → Nat → Prop} {msg : ApplyMsg C} (at_ : MsgAt P msg)
    (weaken : ∀ c i, P c i → Q c i) : MsgAt Q msg := by
  cases msg with
  | command command index => exact at_.imp_right (weaken command index)
  | snapshot _ _ _ => trivial

/-- Every command in a log or on its way to one satisfies `P` at its index. -/
structure Cluster.Stored (P : Option C → Nat → Prop) (σ : Cluster n C) : Prop where
  logs : ∀ s, LogAt P 0 (σ.logical s)
  appends : ∀ call ∈ σ.appendCalls, LogAt P (call.args.prevLogIndex + 1) call.args.entries
  shipments : ∀ call ∈ σ.snapshotCalls, LogAt P 0 call.args.covered

/-- So does every command about to be delivered. -/
structure Cluster.Placed (P : Option C → Nat → Prop) (σ : Cluster n C) : Prop extends
    Cluster.Stored P σ where
  flight : ∀ s msg, (σ.nodes s).applier = .sending msg → MsgAt P msg

namespace Cluster.Stored

variable {P Q : Option C → Nat → Prop} {σ σ' : Cluster n C} {core : RaftCore n C}

section

variable (stored : σ.Stored P)

include stored

theorem mono (weaken : ∀ c i, P c i → Q c i) : σ.Stored Q where
  logs s := (stored.logs s).mono weaken
  appends call member := (stored.appends call member).mono weaken
  shipments call member := (stored.shipments call member).mono weaken

theorem congr (logical : σ'.logical = σ.logical) (appends : σ'.appendCalls = σ.appendCalls)
    (shipments : σ'.snapshotCalls = σ.snapshotCalls) : σ'.Stored P where
  logs := logical ▸ stored.logs
  appends := appends ▸ stored.appends
  shipments := shipments ▸ stored.shipments

theorem setLogical {s : Fin n} {log : List (LogEntry C)} (at_ : LogAt P 0 log)
    (logical : σ'.logical = Function.update σ.logical s log)
    (appends : σ'.appendCalls = σ.appendCalls) (shipments : σ'.snapshotCalls = σ.snapshotCalls) :
    σ'.Stored P := by
  refine ⟨fun j => ?_, appends ▸ stored.appends, shipments ▸ stored.shipments⟩
  rw [logical]
  by_cases same : j = s
  · rwa [same, Function.update_self]
  · rw [Function.update_of_ne same]
    exact stored.logs j

theorem setAppend {k : Nat} {call : Call n (AppendEntriesArgs n C) AppendEntriesReply}
    (found : σ.appendCalls[k]? = some call) (status : CallStatus AppendEntriesReply) :
    Stored P { σ with appendCalls := σ.appendCalls.set k { call with status } } := by
  refine ⟨stored.logs, fun other member => ?_, stored.shipments⟩
  rcases List.mem_or_eq_of_mem_set member with old | rfl
  · exact stored.appends other old
  · exact stored.appends call (List.mem_of_getElem? found)

theorem setSnapshot {k : Nat} {call : Call n (Shipment n C) InstallSnapshotReply}
    (found : σ.snapshotCalls[k]? = some call) (status : CallStatus InstallSnapshotReply) :
    Stored P { σ with snapshotCalls := σ.snapshotCalls.set k { call with status } } := by
  refine ⟨stored.logs, stored.appends, fun other member => ?_⟩
  rcases List.mem_or_eq_of_mem_set member with old | rfl
  · exact stored.shipments other old
  · exact stored.shipments call (List.mem_of_getElem? found)

/-- The log of a peer that has handled an `AppendEntries`. -/
theorem handled (rel : Rel σ core) {call : Call n (AppendEntriesArgs n C) AppendEntriesReply}
    (sent : call ∈ σ.appendCalls) {rf : Raft n C} {reply : AppendEntriesReply}
    (done : (σ.nodes call.dst).appendEntries call.args = .ok (rf, reply)) :
    LogAt P 0 (Cluster.relog (σ.logical call.dst) rf) := by
  have node := rel.nodes call.dst
  have mine := stored.logs call.dst
  obtain ⟨middle, moved, heard⟩ := node.heardLeader rel.safe call.args.term
  have outcome := Raft.appendEntries_outcome (σ.nodes call.dst) call.args
  rw [done] at outcome
  cases outcome with
  | stale _ old refused => rwa [Cluster.relog, node.slice.relog]
  | refused _ recent refused => rwa [Cluster.relog, heard.slice.relog]
  | merged _ prev merged remaining recent found same merge term =>
    have ask := (rel.appends call sent).extend moved.extended
    have coherent : Coherent LogEntry.term middle.led (σ.logical call.dst) :=
      heard.log ▸ moved.safe.sound.coherent call.dst
    have matching := coherent.matching (moved.safe.sound.coherentLed call.args.term)
    obtain ⟨inside, agree⟩ := ask.offered.agree heard.slice matching found same
    rw [ask.merged_relog moved.safe heard.slice coherent found same merge]
    exact mine.adopt (ask.offered.logAt inside agree mine (stored.appends call sent))

/-- The log of a peer that has handled an `InstallSnapshot`. -/
theorem installed (rel : Rel σ core) {call : Call n (Shipment n C) InstallSnapshotReply}
    (sent : call ∈ σ.snapshotCalls) {after : Raft n C} {reply : InstallSnapshotReply}
    (done : (σ.nodes call.dst).installSnapshot call.args.request = (after, reply)) :
    LogAt P 0 (Cluster.relogInstalled (σ.logical call.dst) call.args.covered
      (σ.nodes call.dst) after) := by
  have mine := stored.logs call.dst
  have outcome := Raft.installSnapshot_outcome (σ.nodes call.dst) call.args.request
  rw [done] at outcome
  unfold Cluster.relogInstalled
  cases outcome with
  | stale old => rwa [if_neg (Nat.lt_irrefl _)]
  | kept recent covered => rwa [Raft.raised_lastIncludedIndex, if_neg (Nat.lt_irrefl _)]
  | installed recent ahead =>
    obtain ⟨middle, moved, raised⟩ := (rel.nodes call.dst).raised rel.safe call.args.request.term
    have ask := (rel.snapshots call sent).extend moved.extended
    have coherent : Coherent LogEntry.term middle.led (σ.logical call.dst) :=
      raised.log ▸ moved.safe.sound.coherent call.dst
    have theirs := (moved.safe.sound.coherentLed _).shorten ask.covered
    obtain ⟨_, _, _, _, log, index⟩ :=
      ((σ.nodes call.dst).raised call.args.request.term).installed_keeps call.args.request
    obtain ⟨_, relog⟩ := Raft.replaceLog_adopt raised.slice coherent theirs ask.length ask.last
      (by rwa [Raft.raised_lastIncludedIndex])
    rw [Raft.persist_lastIncludedIndex, index, if_pos ahead, Raft.persist_log, log, relog]
    exact mine.adopt (stored.shipments call sent)

theorem replicateToFollower (rel : Rel σ core) {server follower : Fin n}
    (moved : σ.replicateToFollower server follower = some σ') : σ'.Stored P := by
  obtain ⟨_, _, outcome⟩ := Cluster.replicateToFollower_cases moved
  rcases outcome with ⟨rf, _, rfl⟩ | ⟨request, built, rfl⟩ | ⟨args, retained, built, rfl⟩
  · exact stored.congr rfl rfl rfl
  · refine ⟨stored.logs, stored.appends, fun call member => ?_⟩
    rcases List.mem_append.mp member with old | fresh
    · exact stored.shipments call old
    · rw [List.mem_singleton.mp fresh]
      exact (stored.logs server).shorten (List.take_prefix _ _)
  · obtain ⟨prev, entries, _, suffix, rfl⟩ := Raft.newAppendEntriesArgsFor_ok built
    refine ⟨stored.logs, fun call member => ?_, stored.shipments⟩
    rcases List.mem_append.mp member with old | fresh
    · exact stored.appends call old
    · rw [List.mem_singleton.mp fresh]
      dsimp only
      rw [Nat.sub_add_cancel (by omega),
        Raft.suffix?_retained (rel.nodes server).slice retained suffix]
      exact (stored.logs server).drop _

theorem start {s : Fin n} {command : Option C}
    (started : (σ.nodes s).state = .leader → P command (σ.logical s).length) :
    (σ.start s command).Stored P := by
  rcases Cluster.start_cases σ s command with same | ⟨leads, done⟩
  · rwa [same]
  · rw [done]
    refine stored.setLogical ((stored.logs s).append ?_) rfl rfl rfl
    intro k entry found
    obtain ⟨rfl, rfl⟩ : k = 0 ∧ { term := (σ.nodes s).currentTerm, command } = entry := by
      simpa [List.getElem?_singleton] using found
    exact started leads

theorem settle_congr (s : Fin n) (result : Except (Raft n C) (Raft n C)) :
    (σ.settle s result).Stored P := by
  cases result with
  | ok rf => exact stored.congr rfl rfl rfl
  | error rf => exact stored.congr rfl rfl rfl

theorem step (rel : Rel σ core) {action : Action n C} (moved : σ.step action = some σ')
    (started : ∀ s command, action = .start s command → (σ.nodes s).state = .leader →
      P command (σ.logical s).length) : σ'.Stored P := by
  cases action with
  | startElection s =>
    rw [← Option.some.inj moved]
    unfold Cluster.startElection
    split
    · exact stored.congr rfl rfl rfl
    · exact stored.congr rfl rfl rfl
  | handleRequestVote k =>
    obtain ⟨call, _, _, ⟨_, _, _, rfl⟩ | ⟨_, _, rfl⟩⟩ := Cluster.handleRequestVote_cases moved
    · exact stored.congr rfl rfl rfl
    · exact stored.congr rfl rfl rfl
  | receiveRequestVote k =>
    obtain ⟨call, reply, _, _, _, rfl⟩ := Cluster.receiveRequestVote_cases moved
    exact stored.congr rfl rfl rfl
  | replicateToFollower s follower => exact stored.replicateToFollower rel moved
  | handleAppendEntries k =>
    obtain ⟨call, found, _, ⟨rf, reply, done, rfl⟩ | ⟨rf, _, rfl⟩⟩ :=
      Cluster.handleAppendEntries_cases moved
    · have log := stored.handled rel (List.mem_of_getElem? found) done
      exact (stored.setAppend found (.replied reply)).setLogical log rfl rfl rfl
    · exact (stored.setAppend found .lost).congr rfl rfl rfl
  | receiveAppendEntries k =>
    obtain ⟨call, reply, found, _, _, rfl⟩ := Cluster.receiveAppendEntries_cases moved
    have marked := stored.setAppend found (.received reply)
    exact ⟨(stored.settle_congr call.src _).logs, marked.appends,
      (stored.settle_congr call.src _).shipments⟩
  | handleInstallSnapshot k =>
    obtain ⟨call, found, _, after, reply, done, rfl⟩ := Cluster.handleInstallSnapshot_cases moved
    have log := stored.installed rel (List.mem_of_getElem? found) done
    exact (stored.setSnapshot found (.replied reply)).setLogical log rfl rfl rfl
  | receiveInstallSnapshot k =>
    obtain ⟨call, reply, found, _, _, rfl⟩ := Cluster.receiveInstallSnapshot_cases moved
    have marked := stored.setSnapshot found (.received reply)
    exact ⟨(stored.settle_congr call.src _).logs, (stored.settle_congr call.src _).appends,
      marked.shipments⟩
  | start s command =>
    rw [← Option.some.inj moved]
    exact stored.start (started s command rfl)
  | snapshot s index data =>
    obtain ⟨_, rfl⟩ := Cluster.snapshot_inversion moved
    exact stored.settle_congr s _
  | applierRead s =>
    rcases Cluster.applierRead_inversion moved with
      rfl | ⟨_, _, _, _, rfl⟩ | ⟨_, _, _, _, _, rfl⟩
    all_goals exact stored.congr rfl rfl rfl
  | applierSend s =>
    obtain ⟨msg, _, rfl⟩ := Cluster.applierSend_inversion moved
    exact stored.congr rfl rfl rfl
  | applierAck s =>
    obtain ⟨msg, applied, _, _, rfl⟩ := Cluster.applierAck_inversion moved
    exact stored.congr rfl rfl rfl
  | crash s =>
    rw [← Option.some.inj moved]
    exact stored.congr rfl rfl rfl

end

end Cluster.Stored

/-- The cluster follows the abstract protocol, and every applier is in order. -/
structure Cluster.Regular (σ : Cluster n C) : Prop where
  related : ∃ core, Rel σ core
  order : ∀ s, InOrder (σ.nodes s) (σ.delivered s)

namespace Cluster.Regular

variable {σ σ' : Cluster n C} {action : Action n C}

theorem init (n : Nat) (C : Type) : (Cluster.init n C).Regular :=
  ⟨⟨_, Rel.init n C⟩, fun s => (Sequenced.init s).order⟩

theorem delivery (regular : σ.Regular) (moved : σ.step action = some σ') (s : Fin n) :
    DeliveryStep σ action σ' s := by
  obtain ⟨core, rel⟩ := regular.related
  exact Cluster.delivery_step (fun s => (rel.nodes s).saved) moved s

theorem step (regular : σ.Regular) (moved : σ.step action = some σ') : σ'.Regular := by
  obtain ⟨core, rel⟩ := regular.related
  obtain ⟨core', rel', -⟩ := rel.step moved
  exact ⟨⟨core', rel'⟩, fun s => (regular.order s).step (regular.delivery moved s)⟩

end Cluster.Regular

namespace Cluster.Placed

variable {P Q : Option C → Nat → Prop} {σ σ' : Cluster n C} {core : RaftCore n C}

theorem mono (placed : σ.Placed P) (weaken : ∀ c i, P c i → Q c i) : σ.Placed Q :=
  ⟨placed.toStored.mono weaken, fun s msg sending => (placed.flight s msg sending).mono weaken⟩

/-- Index 0 holds the entry every log starts with. -/
theorem init (first : P none 0) : (Cluster.init n C).Placed P where
  logs _ k entry found := by
    obtain ⟨rfl, rfl⟩ : k = 0 ∧ { term := 0, command := none } = entry := by
      simpa [Cluster.init, List.getElem?_singleton] using found
    exact first
  appends := nofun
  shipments := nofun
  flight s msg sending := by cases sending

/-- The applier of a process that lives on takes commands from the log only. -/
theorem turn {action : Action n C} {s : Fin n} {rf : Raft n C} (placed : σ.Placed P)
    (rel : Rel σ core) (paced : Paced (σ.nodes s)) (turn : Turn σ action s rf) (msg : ApplyMsg C)
    (sending : rf.applier = .sending msg) : MsgAt P msg := by
  cases turn with
  | unmoved same => exact placed.flight s msg (same.applier ▸ sending)
  | @installed call raised _ same _ =>
    obtain ⟨applier, _⟩ := raised.installed_effect call.args.request
    exact placed.flight s msg ((applier.trans same.applier) ▸ sending)
  | cut _ _ _ => exact placed.flight s msg sending
  | readSnapshot _ _ _ =>
    cases sending
    trivial
  | @readCommand entry idle calm found =>
    cases sending
    have above := (paced.readCommand idle calm entry.command).2
    rw [Raft.entryAt?_retained (rel.nodes s).slice above] at found
    have here := placed.logs s _ entry found
    rw [Nat.zero_add] at here
    exact ⟨Nat.zero_lt_of_lt above, here⟩
  | acked _ _ => cases sending

/-- One action keeps it, provided the command it starts satisfies `P` where it is put. -/
theorem step (placed : σ.Placed P) (regular : σ.Regular) {action : Action n C}
    (moved : σ.step action = some σ')
    (started : ∀ s command, action = .start s command → (σ.nodes s).state = .leader →
      P command (σ.logical s).length) : σ'.Placed P := by
  obtain ⟨core, rel⟩ := regular.related
  refine ⟨placed.toStored.step rel moved started, fun s msg sending => ?_⟩
  cases regular.delivery moved s with
  | turned turned _ _ _ => exact placed.turn rel (regular.order s).paced turned msg sending
  | sent _ _ _ after _ _ _ =>
    rw [after] at sending
    cases sending
  | died persister after _ _ _ _ _ _ =>
    rw [after] at sending
    unfold Raft.make Raft.readPersist at sending
    split at sending <;> cases sending

end Cluster.Placed

end KvStore

import KvStore.Kv.RaftCalls

set_option autoImplicit false

/-! The kvraft clerks against the committed log: every reply they get is that of the plain
map where their request was executed first, and no clerk or handler ever panics. -/

namespace KvStore.KvRaft

variable {n : Nat} {gob : Gob} {info : RequestInfo}

section Log

variable {log : List Entry} {committed : List (Op n Request)}

/-- A log stays serialised if the Put added is the newest of its client or not new. -/
theorem Serialised.snoc (serial : Serialised log) {entry : Entry}
    (newest : ∀ info, putInfo entry = some info → info ∉ sent log → ∀ other ∈ sent log,
      other.clientId = info.clientId → other.requestId < info.requestId) :
    Serialised (log ++ [entry]) := by
  unfold Serialised at serial ⊢
  rw [sent_snoc, List.eraseDups_append]
  refine List.pairwise_append.mpr ⟨serial, ?_, ?_⟩
  · cases putInfo entry with
    | none => exact .nil
    | some info =>
      by_cases old : info ∈ sent log
      · simp [List.removeAll, old]
      · simp [List.removeAll, old, List.eraseDups_cons]
  · intro other member info new
    rw [List.mem_eraseDups] at member new
    cases found : putInfo entry with
    | none => simp [found, List.removeAll] at new
    | some put =>
      rw [found] at new
      have outside : put ∉ sent log := by
        intro old
        simp [List.removeAll, old] at new
      obtain rfl : info = put := by simpa [List.removeAll, outside] using new
      exact newest info found outside other member

theorem distinct_append (log later : List Entry) :
    distinct (log ++ later) = distinct log ++ distinctFrom log later := by
  induction later using List.reverseRecOn with
  | nil => simp [distinctFrom]
  | append_singleton later entry ih =>
    rw [← List.append_assoc, distinct_snoc, ih, distinctFrom_snoc, List.append_assoc]

/-- The requests kept of a part of the log come first among those kept of the whole. -/
theorem distinct_take (log : List Entry) (k : Nat) :
    (distinct log).take (distinct (log.take k)).length = distinct (log.take k) := by
  have split := distinct_append (log.take k) (log.drop k)
  rw [List.take_append_drop] at split
  rw [split, List.take_left]

theorem plainRun_reply {reqs : List Request} {k : Nat} {req : Request}
    (found : reqs[k]? = some req) :
    (plainRun reqs).2[k]? = some (plainOp (plainRun (reqs.take k)).1 req).2 := by
  induction reqs using List.reverseRecOn with
  | nil => cases found
  | append_singleton reqs last ih =>
    have size := plainRun_length reqs
    rw [plainRun_snoc]
    rcases Slots.append_cases found with old | ⟨rfl, rfl⟩
    · have inside := (List.getElem?_eq_some_iff.mp old).1
      rw [List.getElem?_append_left (by omega), List.take_append_of_le_length (by omega)]
      exact ih old
    · rw [List.take_left, ← size, List.getElem?_concat_length]

/-- The first Put with the id. -/
theorem first_sent {info : RequestInfo} (member : info ∈ sent log) :
    ∃ k args, IsFirst log k (.put args) ∧ args.toRequestInfo = info := by
  induction log using List.reverseRecOn with
  | nil => cases member
  | append_singleton log entry ih =>
    by_cases old : info ∈ sent log
    · obtain ⟨k, args, first, same⟩ := ih old
      have inside := first.inside
      refine ⟨k, args, ⟨Slots.append_kept first.1 _, ?_⟩, same⟩
      rw [List.take_append_of_le_length (by omega)]
      exact first.2
    · rw [sent_snoc, List.mem_append, Option.mem_toList] at member
      have new := member.resolve_left old
      obtain ⟨args, rfl, rfl⟩ : ∃ args, entry = .request (.put args) ∧
          args.toRequestInfo = info := by
        unfold putInfo at new
        split at new
        · cases new
          exact ⟨_, rfl, rfl⟩
        · cases new
      refine ⟨log.length, args, ⟨List.getElem?_concat_length, ?_⟩, rfl⟩
      rw [List.take_left]
      rintro ⟨info, same, sentBefore⟩
      cases same
      exact old sentBefore

theorem requests_get {i : Nat} {op : Op n Request} (found : committed[i]? = some op) :
    (requests committed)[i]? = some (.request op.req) := by
  rw [requests, List.getElem?_map, found]
  rfl

/-- A committed request that is not repeated is answered as by the plain map. -/
theorem reply_first (gob : Gob) (serial : Serialised (requests committed)) {i : Nat}
    {op : Op n Request} (found : committed[i]? = some op)
    (fresh : ¬Repeated ((requests committed).take i) op.req) :
    ((machine gob).doOp ((machine gob).after committed i) op.req).2 =
      (plainOp (plainRun (distinct ((requests committed).take i))).1 op.req).2 := by
  obtain ⟨replies, refines⟩ := after_refines gob serial i
  have extended : Serialised ((requests committed).take i ++ [.request op.req]) := by
    have longer := serial.take (i + 1)
    rwa [List.take_add_one, requests_get found] at longer
  rw [← refines.plain.map]
  exact (refines.doOp_first extended fresh).2

/-- A repeated Put of a client that has committed none after it is answered as the first
one was. -/
theorem reply_repeated (gob : Gob) (serial : Serialised (requests committed)) {i : Nat}
    {args : PutArgs} (again : args.toRequestInfo ∈ sent ((requests committed).take i))
    (latest : ∀ info ∈ sent ((requests committed).take i), info.clientId = args.clientId →
      info.requestId ≤ args.requestId) :
    ∃ k first, k < i ∧ IsFirst (requests committed) k (.put first) ∧
      first.toRequestInfo = args.toRequestInfo ∧
      ((machine gob).doOp ((machine gob).after committed i) (.put args)).2 =
        (plainOp (plainRun (distinct ((requests committed).take k))).1 (.put first)).2 := by
  obtain ⟨replies, refines⟩ := after_refines gob serial i
  obtain ⟨lastPut, held, below⟩ := refines.lookup_sent again
  obtain ⟨k, first, isFirst, same⟩ := first_sent again
  have client : first.clientId = args.clientId := congrArg RequestInfo.clientId same
  have number : first.requestId = args.requestId := congrArg RequestInfo.requestId same
  have exact_ : args.requestId = lastPut.requestId :=
    Nat.le_antisymm below (latest _ (refines.recorded.newest _ lastPut held).1 rfl)
  have answer := refines.recorded.reply k first lastPut isFirst
    (by rw [client]; exact held) (number.trans exact_)
  obtain ⟨place, reply, kept, rfl, replied, expected⟩ := refines.plain.answers k _ isFirst
  have inside := isFirst.inside
  rw [List.length_take] at inside
  have prefix_ : ((requests committed).take i).take k = (requests committed).take k := by
    rw [List.take_take, Nat.min_eq_left (by omega)]
  rw [plainRun_reply kept, distinct_take, prefix_] at expected
  refine ⟨k, first, by omega, ⟨?_, ?_⟩, same, ?_⟩
  · have here := isFirst.1
    rwa [List.getElem?_take, if_pos (by omega)] at here
  · rw [← prefix_]
    exact isFirst.2
  · have echoed : (machine gob).doOp ((machine gob).after committed i) (.put args) =
        ((machine gob).after committed i, .put lastPut.reply) :=
      KVServer.doOp_put_answered held below
    rw [echoed, Option.some.inj expected]
    exact Option.some.inj (Option.some.inj (answer.symm.trans replied))

end Log

/-- The operation that a request carries out. -/
def Request.clientOp : Request → Option ClientOp
  | .get args => some (.get args.key)
  | .put args => some (.put args.key args.value args.version)
  | .unknown => none

@[simp] theorem ClerkCall.request_op (call : ClerkCall n) :
    call.request.clientOp = some call.op := by
  unfold ClerkCall.request
  cases call.op <;> rfl

/-- The handler passes on what the plain map returns. -/
theorem handlerReply_plain {req : Request} {op : ClientOp} (carries : req.clientOp = some op)
    (kvm : KvMap String String) :
    (plainMap.apply kvm op).1 = (plainOp kvm req).1 ∧
      handlerReply req .ok (some (plainOp kvm req).2) = some (plainMap.apply kvm op).2 := by
  cases req with
  | get args =>
    cases carries
    exact ⟨rfl, rfl⟩
  | put args =>
    cases carries
    exact ⟨rfl, rfl⟩
  | unknown => cases carries

/-- The clerk knows every error of the plain map. -/
theorem plainMap_verdict (kvm : KvMap String String) (op : ClientOp) :
    verdict op (plainMap.apply kvm op).2.err = .returns := by
  cases op with
  | get key =>
    change verdict (.get key) (getReply (kvm key)).err = .returns
    cases kvm key <;> rfl
  | put key value version =>
    change verdict (.put key value version) (kvm.put key value version).2 = .returns
    unfold KvMap.put
    cases kvm key with
    | none => by_cases new : version = 0 <;> simp [new, verdict]
    | some held => by_cases same : held.version = version <;> simp [same, verdict]

theorem mem_sent {log : List Entry} :
    info ∈ sent log ↔ ∃ entry ∈ log, putInfo entry = some info := List.mem_filterMap

theorem mem_sent_requests {committed : List (Op n Request)} :
    info ∈ sent (requests committed) ↔ ∃ op ∈ committed, putInfo (.request op.req) = some info := by
  rw [mem_sent]
  constructor
  · rintro ⟨entry, member, same⟩
    obtain ⟨op, there, rfl⟩ := List.mem_map.mp member
    exact ⟨op, there, same⟩
  · rintro ⟨op, member, same⟩
    exact ⟨_, List.mem_map_of_mem member, same⟩

theorem sent_mono {log longer : List Entry} (more : log <+: longer) : sent log ⊆ sent longer := by
  intro info member
  obtain ⟨entry, there, same⟩ := mem_sent.mp member
  exact mem_sent.mpr ⟨entry, more.subset there, same⟩

/-- Only a Put has an id. -/
theorem ClerkCall.putInfo_some {call : ClerkCall n}
    (put : putInfo (.request call.request) = some info) :
    call.op.isPut = true ∧ info = { clientId := call.clientId, requestId := call.requestId } := by
  unfold ClerkCall.request at put
  split at put
  · cases put
  · rename_i same
    cases put
    rw [same]
    exact ⟨rfl, rfl⟩

/-- The calls and RPCs against the commands delivered so far. -/
structure Tidy (gob : Gob) (committed : List (Op n Request)) (created : List (Op n Request))
    (calls : List (ClerkCall n)) (clerks : Nat → Clerk n) (attempts : List (Attempt n)) :
    Prop where
  puts : Puts calls clerks
  rpcs : Rpcs calls attempts created
  done : ∀ call ∈ calls, ∀ answer, call.phase = .returned answer → ∀ info,
    putInfo (.request call.request) = some info → info ∈ sent (requests committed)
  answers : ∀ attempt ∈ attempts, ∀ op answer, attempt.status = .replied op answer →
    answer.err = .wrongLeader ∨ ∃ i, committed[i]? = some op ∧
      handlerReply op.req .ok
        (some ((machine gob).doOp ((machine gob).after committed i) op.req).2) = some answer
  calm : ∀ call ∈ calls, call.phase ≠ .panicked

namespace Tidy

variable {committed longer created : List (Op n Request)} {calls : List (ClerkCall n)}
  {clerks : Nat → Clerk n} {attempts : List (Attempt n)} {i : Nat} {call : ClerkCall n}

section

variable (tidy : Tidy gob committed created calls clerks attempts)

include tidy

theorem mono (more : committed <+: longer) : Tidy gob longer created calls clerks attempts where
  puts := tidy.puts
  rpcs := tidy.rpcs
  done call member answer back info put :=
    sent_mono (more.map _) (tidy.done call member answer back info put)
  answers attempt member op answer replied := by
    rcases tidy.answers attempt member op answer replied with refused | ⟨i, found, same⟩
    · exact Or.inl refused
    · have inside := (List.getElem?_eq_some_iff.mp found).1
      refine Or.inr ⟨i, ReplicatedLog.prefix_getElem more found, ?_⟩
      rwa [StateMachine.after_longer more (by omega)]
  calm := tidy.calm

/-- The ids delivered were drawn by the clerks. -/
theorem delivered (made : committed ⊆ created) {info : RequestInfo}
    (member : info ∈ sent (requests committed)) :
    ∃ (j : Nat) (call : ClerkCall n), ∃ op ∈ committed, calls[j]? = some call ∧
      call.Putting ∧ Owned attempts op j ∧ op.req = call.request ∧
      info = { clientId := call.clientId, requestId := call.requestId } := by
  obtain ⟨op, there, put⟩ := mem_sent_requests.mp member
  obtain ⟨j, owned⟩ := tidy.rpcs.covered op (made there)
  obtain ⟨call, found, request, started⟩ := tidy.rpcs.request owned
  rw [request] at put
  obtain ⟨puts, same⟩ := ClerkCall.putInfo_some put
  exact ⟨j, call, op, there, found, ⟨puts, started⟩, owned, request, same⟩

/-- The Put under way has the newest id of its clerk. -/
theorem newest (made : committed ⊆ created) (found : calls[i]? = some call) (puts : call.Putting)
    (under : call.phase.active = true) : ∀ info ∈ sent (requests committed),
      info.clientId = call.clientId → info.requestId ≤ call.requestId := by
  intro info member client
  obtain ⟨j, other, _, _, there, putting, _, _, rfl⟩ := tidy.delivered made member
  dsimp only at client
  rw [(tidy.puts.active i call found puts under).2, ← client]
  exact tidy.puts.numbered j other there putting

/-- A call that owns a command is under way or has returned. -/
theorem under_way (found : calls[i]? = some call) (started : call.phase ≠ .locking) :
    call.phase.active = true ∨ ∃ answer, call.phase = .returned answer := by
  have calm := tidy.calm call (List.mem_of_getElem? found)
  cases phase : call.phase with
  | locking => exact absurd phase started
  | trying => exact Or.inl rfl
  | calling => exact Or.inl rfl
  | returned answer => exact Or.inr ⟨answer, rfl⟩
  | panicked => exact absurd phase calm

/-- The next command delivered keeps the order of the clients' ids. -/
theorem serial_snoc (made : committed ⊆ created) (serial : Serialised (requests committed))
    {op : Op n Request} (new : op ∈ created) : Serialised (requests (committed ++ [op])) := by
  rw [requests, List.map_append]
  refine serial.snoc ?_
  intro info put fresh other member client
  change putInfo (.request op.req) = some info at put
  obtain ⟨i, owned⟩ := tidy.rpcs.covered op new
  obtain ⟨call, found, request, started⟩ := tidy.rpcs.request owned
  rw [request] at put
  rcases tidy.under_way found started with under | ⟨answer, back⟩
  · obtain ⟨puts, rfl⟩ := ClerkCall.putInfo_some put
    have bound := tidy.newest made found ⟨puts, started⟩ under other member client
    refine Nat.lt_of_le_of_ne bound fun same => fresh ?_
    cases other
    cases client
    cases same
    exact member
  · exact absurd (tidy.done call (List.mem_of_getElem? found) answer back info put) fresh

theorem serial (serial : Serialised (requests committed)) (more : committed <+: longer)
    (made : longer ⊆ created) : Serialised (requests longer) := by
  obtain ⟨rest, rfl⟩ := more
  induction rest using List.reverseRecOn with
  | nil => rwa [List.append_nil]
  | append_singleton rest op ih =>
    rw [← List.append_assoc] at made ⊢
    have before : committed ++ rest ⊆ created := fun _ member =>
      made (List.mem_append_left _ member)
    exact (tidy.mono (List.prefix_append _ _)).serial_snoc before (ih before)
      (made (List.mem_append_right _ (List.mem_singleton_self _)))

/-- A reply to a call under way, other than that the server does not lead, is what the
plain map returned where a request of the call was executed first. -/
theorem replied (made : committed ⊆ created) (serial : Serialised (requests committed))
    (found : calls[i]? = some call) (under : call.phase.active = true) {attempt : Attempt n}
    (member : attempt ∈ attempts) (mine : attempt.call = i) {op : Op n Request} {answer : Answer}
    (replied : attempt.status = .replied op answer) (leads : answer.err ≠ .wrongLeader) :
    ∃ (k : Nat) (first : Op n Request), committed[k]? = some first ∧ Owned attempts first i ∧
      first.req = call.request ∧ ¬Repeated ((requests committed).take k) first.req ∧
      answer = (plainMap.apply
        (plainRun (distinct ((requests committed).take k))).1 call.op).2 := by
  have started : call.phase ≠ .locking := by
    intro locking
    rw [locking] at under
    cases under
  have owned : Owned attempts op i := ⟨attempt, member, by rw [replied]; rfl, mine⟩
  have request : op.req = call.request := by
    obtain ⟨same, here, request, _⟩ := tidy.rpcs.request owned
    obtain rfl := Option.some.inj (found.symm.trans here)
    exact request
  obtain ⟨j, place, handled⟩ := (tidy.answers attempt member op answer replied).resolve_left leads
  -- what the plain map returns for the request reaches the clerk as it is
  have passed (kvm : KvMap String String)
      (same : handlerReply call.request .ok (some (plainOp kvm call.request).2) = some answer) :
      answer = (plainMap.apply kvm call.op).2 := by
    rw [(handlerReply_plain call.request_op kvm).2] at same
    exact (Option.some.inj same).symm
  by_cases again : Repeated ((requests committed).take j) op.req
  · obtain ⟨info, put, before⟩ := again
    obtain ⟨args, isPut⟩ : ∃ args, op.req = .put args := by
      cases req : op.req with
      | put args => exact ⟨args, rfl⟩
      | _ => rw [req] at put; cases put
    rw [isPut] at put handled
    cases put
    have sub := sent_mono (List.take_prefix j (requests committed))
    have calls_ : putInfo (.request call.request) = some args.toRequestInfo := by
      rw [← request, isPut]
      rfl
    obtain ⟨puts, ids⟩ := ClerkCall.putInfo_some calls_
    obtain ⟨k, first, earlier, isFirst, same, echoed⟩ := reply_repeated gob serial before
      (fun info sentBefore client => by
        have mineToo : info.clientId = call.clientId :=
          client.trans (congrArg RequestInfo.clientId ids)
        have bound := tidy.newest made found ⟨puts, started⟩ under info (sub sentBefore) mineToo
        have number : args.requestId = call.requestId := congrArg RequestInfo.requestId ids
        omega)
    obtain ⟨command, at_, isCommand⟩ : ∃ command, committed[k]? = some command ∧
        command.req = .put first := by
      have here := isFirst.1
      rw [requests, List.getElem?_map] at here
      obtain ⟨command, at_, same⟩ := Option.map_eq_some_iff.mp here
      exact ⟨command, at_, Entry.request.inj same⟩
    obtain ⟨j', mine'⟩ := tidy.rpcs.covered command (made (List.mem_of_getElem? at_))
    obtain ⟨other, there, request', started'⟩ := tidy.rpcs.request mine'
    have put' : putInfo (.request other.request) = some first.toRequestInfo := by
      rw [← request', isCommand]
      rfl
    obtain ⟨puts', ids'⟩ := ClerkCall.putInfo_some put'
    have twin := ids'.symm.trans (same.trans ids)
    obtain rfl : j' = i := tidy.puts.unique j' i other call there found ⟨puts', started'⟩
      ⟨puts, started⟩ (congrArg RequestInfo.clientId twin) (congrArg RequestInfo.requestId twin)
    obtain rfl := Option.some.inj (found.symm.trans there)
    refine ⟨k, command, at_, mine', request', ?_, passed _ ?_⟩
    · rw [isCommand]
      exact isFirst.2
    · rw [echoed] at handled
      rw [← request', isCommand]
      exact handled
  · refine ⟨j, op, place, owned, request, again, passed _ ?_⟩
    rw [reply_first gob serial place again, request] at handled
    exact handled

end

end Tidy

namespace System

variable {σ σ' : System n} {committed longer : List (Op n Request)} {i a : Nat}

/-- The system against the commands delivered so far. -/
structure Settled (gob : Gob) (committed : List (Op n Request)) (σ : System n) : Prop extends
    σ.service.InOrder (machine gob) committed where
  serial : Serialised (requests committed)
  tidy : Tidy gob committed σ.service.created σ.calls σ.clerks σ.attempts

namespace Settled

theorem made (settled : σ.Settled gob committed) : committed ⊆ σ.service.created :=
  fun _ => settled.toInOrder.made

theorem init (gob : Gob) (positive : 0 < n) : (System.init gob positive).Settled gob [] where
  toInOrder := .init _ n
  serial := List.Pairwise.nil
  tidy := by
    refine ⟨⟨?_, ?_, ?_⟩, ⟨?_, ?_, ?_, ?_, ?_⟩, ?_, ?_, ?_⟩
    all_goals simp [System.init, Service.init, Owned]

section

variable (settled : σ.Settled gob committed)

include settled

variable {op : Op n Request} {attempt : Attempt n}

/-- What `Submit` has returned to a handler with OK is what its command gave where it
stands. -/
theorem handler_value {value : Option Reply}
    (returned : σ.handlerAt a = some (attempt, op, .ok, value)) :
    ∃ i, committed[i]? = some op ∧
      value = some ((machine gob).doOp ((machine gob).after committed i) op.req).2 := by
  obtain ⟨submission, found, serving, alive, there, back⟩ := handlerAt_inversion returned
  have mine : op ∈ σ.service.created := by
    have submits : attempt.status.op = some op := by rw [serving]; rfl
    exact (settled.tidy.rpcs.submitted attempt (List.mem_of_getElem? found) op submits).1
  exact settled.toInOrder.returned_value mine alive there back

/-- The type assertion of a handler succeeds. -/
theorem handler_replies {err : SubmitErr} {value : Option Reply}
    (returned : σ.handlerAt a = some (attempt, op, err, value)) :
    ∃ answer, handlerReply attempt.request err value = some answer ∧
      (answer.err = .wrongLeader ∨ ∃ i, committed[i]? = some op ∧ handlerReply op.req .ok
        (some ((machine gob).doOp ((machine gob).after committed i) op.req).2) =
          some answer) := by
  obtain ⟨submission, found, serving, _, _, _⟩ := handlerAt_inversion returned
  have member := List.mem_of_getElem? found
  obtain ⟨call, there, request, _⟩ := settled.tidy.rpcs.asked attempt member
  have same : op.req = attempt.request :=
    (settled.tidy.rpcs.submitted attempt member op (by rw [serving]; rfl)).2
  have carries : attempt.request.clientOp = some call.op := by rw [request, call.request_op]
  cases err with
  | wrongLeader =>
    cases req : attempt.request with
    | get args => exact ⟨_, rfl, Or.inl rfl⟩
    | put args => exact ⟨_, rfl, Or.inl rfl⟩
    | unknown => rw [req] at carries; cases carries
  | ok =>
    obtain ⟨i, place, rfl⟩ := settled.handler_value returned
    rw [← same] at carries ⊢
    cases req : op.req with
    | get args => exact ⟨_, rfl, Or.inr ⟨i, place, rfl⟩⟩
    | put args =>
      obtain ⟨reply, is⟩ : ∃ reply, ((machine gob).doOp ((machine gob).after committed i)
          (.put args)).2 = .put reply := by
        change ∃ reply, (KVServer.doOp _ (.put args)).2 = .put reply
        unfold KVServer.doOp KVServer.executePut
        dsimp only
        split
        · split <;> exact ⟨_, rfl⟩
        · exact ⟨_, rfl⟩
      rw [is]
      exact ⟨_, rfl, Or.inr ⟨i, place, by rw [is]; rfl⟩⟩
    | unknown => rw [req] at carries; cases carries

/-- A reply that a clerk waits for is one it knows what to do about; if it returns it,
it is that of the plain map where the call took effect. -/
theorem received {call : ClerkCall n} {leader : Fin n} {tries : Nat} {answer : Answer}
    (found : σ.calls[i]? = some call) (calling : call.phase = .calling leader tries a)
    (there : σ.attempts[a]? = some attempt) (replied : attempt.status = .replied op answer) :
    (verdict call.op answer.err = .next) ∨
      (verdict call.op answer.err = .returns ∧
      ∃ (k : Nat) (first : Op n Request), committed[k]? = some first ∧
        Owned σ.attempts first i ∧ first.req = call.request ∧
        ¬Repeated ((requests committed).take k) first.req ∧
        answer = (plainMap.apply
          (plainRun (distinct ((requests committed).take k))).1 call.op).2) := by
  by_cases leads : answer.err = .wrongLeader
  · left
    rw [leads]
    cases call.op <;> rfl
  · right
    obtain ⟨same, here, mine⟩ := settled.tidy.rpcs.waiting i call leader tries a found calling
    obtain rfl := Option.some.inj (there.symm.trans here)
    obtain ⟨k, first, rest⟩ := settled.tidy.replied settled.made settled.serial found
      (by rw [calling]; rfl) (List.mem_of_getElem? there) mine replied leads
    refine ⟨?_, k, first, rest⟩
    rw [rest.2.2.2.2]
    exact plainMap_verdict _ _

/-- One call goes on, its clerk with it. -/
theorem setCall {after : ClerkCall n} {clerks : Nat → Clerk n}
    (puts : Puts (σ.calls.set i after) clerks)
    (rpcs : Rpcs (σ.calls.set i after) σ.attempts σ.service.created)
    (calm : after.phase ≠ .panicked)
    (done : ∀ answer, after.phase = .returned answer → ∀ info,
      putInfo (.request after.request) = some info → info ∈ sent (requests committed)) :
    Tidy gob committed σ.service.created (σ.calls.set i after) clerks σ.attempts := by
  refine ⟨puts, rpcs, ?_, settled.tidy.answers, ?_⟩
  · intro call member
    rcases List.mem_or_eq_of_mem_set member with old | rfl
    · exact settled.tidy.done call old
    · exact done
  · intro call member
    rcases List.mem_or_eq_of_mem_set member with old | rfl
    · exact settled.tidy.calm call old
    · exact calm

/-- A call that goes on trying. -/
theorem retry {call : ClerkCall n} {leader : Fin n} {tries : Nat} (found : σ.calls[i]? = some call)
    (calling : call.phase = .calling leader tries a) (next : Fin n) (more : Nat) :
    Tidy gob committed σ.service.created
      (σ.calls.set i { call with phase := .trying next more }) σ.clerks σ.attempts := by
  have onward : call.Onward { call with phase := .trying next more } :=
    ⟨rfl, rfl, rfl, by rw [calling]; simp, by simp⟩
  refine settled.setCall (settled.tidy.puts.set found onward ?_)
    (settled.tidy.rpcs.set found (Or.inl onward) onward.still (by simp)) (by simp) (by simp)
  intro _
  rw [calling]
  rfl

/-- What is above the service stays tidy, whether or not the service moves with it. -/
theorem tidy_step {action : Action n} (moved : σ.step gob action = some σ') :
    Tidy gob committed σ'.service.created σ'.calls σ'.clerks σ'.attempts := by
  have tidy := settled.tidy
  cases action with
  | service action =>
    obtain ⟨service, _, created, rfl⟩ := serviceStep_inversion moved
    dsimp only
    rw [created]
    exact tidy
  | invoke clientId op =>
    obtain rfl := Option.some.inj moved
    have quiet : ∀ call ∈ (σ.invoke clientId op).calls, call ∈ σ.calls ∨
        (call.phase.active = true ∨ call.phase = .locking) ∧ ¬call.Putting ∧
          ∀ leader tries (a : Nat), call.phase ≠ .calling leader tries a := by
      intro call member
      rcases List.mem_append.mp member with old | new
      · exact Or.inl old
      · rw [List.mem_singleton.mp new]
        cases op <;> simp [ClerkCall.Putting, ClientOp.isPut, CallPhase.active]
    refine ⟨tidy.puts.append ?_, tidy.rpcs.invoke ?_, ?_, tidy.answers, ?_⟩
    · cases op <;> simp [ClerkCall.Putting, ClientOp.isPut]
    · cases op <;> simp
    · intro call member answer back
      rcases quiet call member with old | ⟨phase, _⟩
      · exact tidy.done call old answer back
      · rw [back] at phase
        simp [CallPhase.active] at phase
    · intro call member bad
      rcases quiet call member with old | ⟨phase, _⟩
      · exact tidy.calm call old bad
      · rw [bad] at phase
        simp [CallPhase.active] at phase
  | lock i =>
    obtain ⟨call, found, locking, free, rfl⟩ := lock_inversion moved
    exact settled.setCall (tidy.puts.lock found free _)
      (tidy.rpcs.set found (Or.inr locking) (by simp) (by simp)) (by simp) (by simp)
  | send i =>
    obtain ⟨call, leader, tries, found, trying, rfl⟩ := send_inversion moved
    have onward : call.Onward { call with phase := .calling leader tries σ.attempts.length } :=
      ⟨rfl, rfl, rfl, by rw [trying]; simp, by simp⟩
    refine ⟨tidy.puts.set found onward (fun _ => by rw [trying]; rfl),
      tidy.rpcs.send found onward rfl, ?_, ?_, ?_⟩
    · intro other member answer back
      rcases List.mem_or_eq_of_mem_set member with old | rfl
      · exact tidy.done other old answer back
      · cases back
    · intro attempt member op answer replied
      rcases List.mem_append.mp member with old | new
      · exact tidy.answers attempt old op answer replied
      · rw [List.mem_singleton.mp new] at replied
        cases replied
    · intro other member
      rcases List.mem_or_eq_of_mem_set member with old | rfl
      · exact tidy.calm other old
      · simp
  | serve a =>
    obtain ⟨attempt, found, sent, rfl⟩ := serve_inversion moved
    have fresh : σ.nextOp attempt ∉ σ.service.created := settled.sound.unmade rfl rfl
    refine ⟨tidy.puts, tidy.rpcs.serve found sent rfl fresh, tidy.done, ?_, tidy.calm⟩
    intro other member op answer replied
    rcases List.mem_or_eq_of_mem_set member with old | rfl
    · exact tidy.answers other old op answer replied
    · cases replied
  | reply a =>
    obtain ⟨attempt, op, err, value, returned, outcome⟩ := reply_inversion moved
    obtain ⟨answer, handled, known⟩ := settled.handler_replies returned
    obtain ⟨_, found, serving, _⟩ := handlerAt_inversion returned
    rcases outcome with ⟨answer', handled', rfl⟩ | ⟨failed, _⟩
    · obtain rfl := Option.some.inj (handled.symm.trans handled')
      refine ⟨tidy.puts, (tidy.rpcs.status found (by rw [serving]; rfl)).1, tidy.done, ?_,
        tidy.calm⟩
      intro other member op' answer' replied
      rcases List.mem_or_eq_of_mem_set member with old | rfl
      · exact tidy.answers other old op' answer' replied
      · cases replied
        exact known
    · rw [handled] at failed
      cases failed
  | receive i =>
    obtain ⟨call, leader, tries, a, attempt, op, answer, found, calling, there, replied,
      outcome⟩ := receive_inversion moved
    have verdicts := settled.received found calling there replied
    rcases outcome with ⟨back, rfl⟩ | ⟨_, rfl⟩ | ⟨bad, _⟩
    · obtain ⟨_, k, first, place, _, request, _⟩ :=
        verdicts.resolve_left (by rw [back]; simp)
      have under : call.phase.active = true := by rw [calling]; rfl
      have onward : call.Onward { call with phase := .returned answer } :=
        ⟨rfl, rfl, rfl, by rw [calling]; simp, by simp⟩
      refine settled.setCall (tidy.puts.returns found under leader answer)
        (tidy.rpcs.set found (Or.inl onward) (by simp) (by simp)) (by simp) ?_
      intro _ _ info put
      rw [onward.request, ← request] at put
      exact mem_sent_requests.mpr ⟨first, List.mem_of_getElem? place, put⟩
    · exact settled.retry found calling _ _
    · rcases verdicts with next | ⟨back, _⟩
      · rw [bad] at next
        cases next
      · rw [bad] at back
        cases back
  | fail i =>
    obtain ⟨call, leader, tries, a, found, calling, rfl⟩ := fail_inversion moved
    exact settled.retry found calling _ _

/-- The service moves as it may, or not at all. -/
theorem service_step {action : Action n} (ok : σ.admitted action = true)
    (moved : σ.step gob action = some σ') :
    σ'.service = σ.service ∨ ∃ below : ServiceAction n Request,
      σ.service.freshAck below = true ∧ σ.service.ownResult below = true ∧
      σ.service.step (machine gob) below = some σ'.service := by
  cases action with
  | service action =>
    obtain ⟨service, below, _, rfl⟩ := serviceStep_inversion moved
    obtain ⟨fresh, own⟩ := Bool.and_eq_true_iff.mp ok
    exact Or.inr ⟨action, fresh, own, below⟩
  | invoke clientId op => exact Or.inl (Option.some.inj moved ▸ rfl)
  | lock i =>
    obtain ⟨_, _, _, _, rfl⟩ := lock_inversion moved
    exact Or.inl rfl
  | send i =>
    obtain ⟨_, _, _, _, _, rfl⟩ := send_inversion moved
    exact Or.inl rfl
  | serve a =>
    obtain ⟨attempt, _, _, rfl⟩ := serve_inversion moved
    exact Or.inr ⟨.submit attempt.server attempt.request, rfl, rfl, rfl⟩
  | reply a =>
    obtain ⟨attempt, op, err, value, returned, outcome⟩ := reply_inversion moved
    obtain ⟨answer, handled, _⟩ := settled.handler_replies returned
    rcases outcome with ⟨_, _, rfl⟩ | ⟨failed, _⟩
    · exact Or.inl rfl
    · rw [handled] at failed
      cases failed
  | receive i =>
    obtain ⟨_, _, _, _, _, _, _, _, _, _, _, ⟨_, rfl⟩ | ⟨_, rfl⟩ | ⟨_, rfl⟩⟩ :=
      receive_inversion moved
    all_goals exact Or.inl rfl
  | fail i =>
    obtain ⟨_, _, _, _, _, _, rfl⟩ := fail_inversion moved
    exact Or.inl rfl

theorem step {action : Action n} (ok : σ.admitted action = true)
    (moved : σ.step gob action = some σ') :
    ∃ longer, committed <+: longer ∧ σ'.Settled gob longer := by
  have tidy := settled.tidy_step moved
  rcases settled.service_step ok moved with same | ⟨below, fresh, own, step⟩
  · refine ⟨committed, List.prefix_refl _, ?_⟩
    rw [same] at tidy
    exact ⟨same ▸ settled.toInOrder, settled.serial, by rw [same]; exact tidy⟩
  · obtain ⟨longer, more, ordered⟩ :=
      settled.toInOrder.step (machine_recoverable gob) fresh own step
    exact ⟨longer, more, ordered, tidy.serial settled.serial more fun _ => ordered.made,
      tidy.mono more⟩

end

end Settled

theorem Run.settled {positive : 0 < n} {trace : List (System n)} (run : Run gob positive trace) :
    ∀ σ ∈ trace, ∃ committed, σ.Settled gob committed := by
  refine run.invariant ⟨_, .init gob positive⟩ ?_
  rintro before action after ok moved ⟨committed, settled⟩
  obtain ⟨longer, _, after⟩ := settled.step ok moved
  exact ⟨longer, after⟩

/-- Server 0 leads. Client 7 puts "x" there, and the Put is executed. -/
def executedPut : List (Action 3) :=
  [.service (.raft (.startElection 0)), .service (.raft (.handleRequestVote 0)),
    .service (.raft (.receiveRequestVote 0)),
    .invoke 7 (.put "x" "a" 0), .lock 0, .send 0, .serve 0, .service (.start 0 0),
    .service (.raft (.replicateToFollower 0 1)), .service (.raft (.handleAppendEntries 0)),
    .service (.raft (.receiveAppendEntries 0)), .service (.raft (.applierRead 0)),
    .service (.receive 0), .service (.lookup 0), .service (.send 0), .service (.take 0 0),
    .service (.finish 0 0)]

end System

end KvStore.KvRaft

import KvStore.Kv.RaftReplies

set_option autoImplicit false

/-! Whatever applications see of the kvraft store they could have seen of one versioned
map. -/

namespace KvStore.KvRaft

open Histories Linearizability

variable {n : Nat} {gob : Gob}

/-- The points of a history against the commands delivered so far: every command that is
no repetition has its point. -/
structure Pointed (attempts : List (Attempt n)) (committed : List (Op n Request))
    (marks : List (Mark Nat ClientOp Answer)) : Prop where
  state : plainMap.after (marks.filterMap Mark.effect) =
    (plainRun (distinct (requests committed))).1
  points : ∀ effect, .point effect ∈ marks → ∃ op ∈ committed, Owned attempts op effect.call
  taken : ∀ (k : Nat) (op : Op n Request) i kind, committed[k]? = some op →
    Owned attempts op i → ¬Repeated ((requests committed).take k) op.req →
    op.req.clientOp = some kind → .point ⟨i, kind, (plainMap.apply
      (plainRun (distinct ((requests committed).take k))).1 kind).2⟩ ∈ marks

namespace Pointed

variable {attempts attempts' : List (Attempt n)} {committed longer created : List (Op n Request)}
  {marks : List (Mark Nat ClientOp Answer)} {calls : List (ClerkCall n)}

theorem seen (pointed : Pointed attempts committed marks) (event : Event Nat ClientOp Answer) :
    Pointed attempts committed (.seen event :: marks) where
  state := pointed.state
  points effect member := by
    rcases List.mem_cons.mp member with same | old
    · cases same
    · exact pointed.points effect old
  taken k op i kind found owned fresh carries :=
    List.mem_cons_of_mem _ (pointed.taken k op i kind found owned fresh carries)

/-- The commands delivered keep their owners. -/
theorem owned (pointed : Pointed attempts committed marks)
    (same : ∀ op ∈ committed, ∀ i, Owned attempts' op i ↔ Owned attempts op i) :
    Pointed attempts' committed marks where
  state := pointed.state
  points effect member := by
    obtain ⟨op, there, owned⟩ := pointed.points effect member
    exact ⟨op, there, (same op there _).mpr owned⟩
  taken k op i kind found owned :=
    pointed.taken k op i kind found ((same op (List.mem_of_getElem? found) i).mp owned)

theorem taken_snoc {op : Op n Request} {k : Nat} {other : Op n Request}
    (found : (committed ++ [op])[k]? = some other) :
    (requests (committed ++ [op])).take k = (requests committed).take k := by
  have inside := (List.getElem?_eq_some_iff.mp found).1
  rw [List.length_append, List.length_singleton] at inside
  have size : (requests committed).length = committed.length := List.length_map ..
  rw [requests, List.map_append, ← requests, List.take_append_of_le_length (by omega)]

/-- The next command takes effect, unless it is a repetition. -/
theorem point (pointed : Pointed attempts committed marks)
    (each : Each plainMap.Allows marks) (rpcs : Rpcs calls attempts created)
    (invoked : ∀ (i : Nat) call, calls[i]? = some call → .seen (.invoke i call.op) ∈ marks)
    {op : Op n Request} (made : op ∈ created) :
    ∃ marks', marks'.filterMap Mark.event = marks.filterMap Mark.event ∧
      Pointed attempts (committed ++ [op]) marks' ∧ Each plainMap.Allows marks' := by
  obtain ⟨i, owned⟩ := rpcs.covered op made
  obtain ⟨call, found, request, _⟩ := rpcs.request owned
  have carries : op.req.clientOp = some call.op := by rw [request, call.request_op]
  have size : (requests committed).length = committed.length := List.length_map ..
  have snoc : requests (committed ++ [op]) = requests committed ++ [.request op.req] :=
    List.map_append
  by_cases again : Repeated (requests committed) op.req
  · refine ⟨marks, rfl, ⟨?_, ?_, ?_⟩, each⟩
    · rw [snoc, distinct_snoc, keep, if_pos again, Option.toList_none, List.append_nil]
      exact pointed.state
    · intro effect member
      obtain ⟨other, there, mine⟩ := pointed.points effect member
      exact ⟨other, List.mem_append_left _ there, mine⟩
    · intro k other j kind there mine fresh
      rw [taken_snoc there] at fresh ⊢
      rcases Slots.append_cases there with old | ⟨rfl, rfl⟩
      · exact pointed.taken k other j kind old mine fresh
      · rw [← size, List.take_length] at fresh
        exact absurd again fresh
  · obtain ⟨written, _⟩ :=
      handlerReply_plain carries (plainRun (distinct (requests committed))).1
    refine ⟨.point ⟨i, call.op,
      (plainMap.apply (plainRun (distinct (requests committed))).1 call.op).2⟩ :: marks, rfl,
      ⟨?_, ?_, ?_⟩, each.cons ⟨invoked i call found, ?_, ?_⟩⟩
    · rw [snoc, distinct_snoc, keep, if_neg again, Option.toList_some, plainRun_snoc, ← written,
        ← pointed.state]
      rfl
    · intro effect member
      rcases List.mem_cons.mp member with same | old
      · cases same
        exact ⟨op, List.mem_append_right _ (List.mem_singleton_self _), owned⟩
      · obtain ⟨other, there, mine⟩ := pointed.points effect old
        exact ⟨other, List.mem_append_left _ there, mine⟩
    · intro k other j kind there mine fresh kinds
      rw [taken_snoc there] at fresh ⊢
      rcases Slots.append_cases there with old | ⟨rfl, rfl⟩
      · exact List.mem_cons_of_mem _ (pointed.taken k other j kind old mine fresh kinds)
      · obtain rfl := rpcs.owner _ _ _ owned mine
        obtain rfl := Option.some.inj (carries.symm.trans kinds)
        rw [← size, List.take_length]
        exact List.mem_cons_self ..
    · rw [pointed.state]
    · cases kind : call.op with
      | get key => exact Or.inl fun kvm => rfl
      | put key value version =>
        -- a command of the same Put delivered before would make this one a repetition
        refine Or.inr fun other member same => again ?_
        obtain ⟨earlier, there, mine⟩ := pointed.points other member
        rw [same] at mine
        obtain ⟨call', found', request', _⟩ := rpcs.request mine
        obtain rfl := Option.some.inj (found.symm.trans found')
        have put : putInfo (.request op.req) =
            some { clientId := call.clientId, requestId := call.requestId } := by
          rw [request, ClerkCall.request, kind]
          rfl
        refine ⟨_, put, mem_sent_requests.mpr ⟨earlier, there, ?_⟩⟩
        rw [request', ← request]
        exact put

theorem extend (pointed : Pointed attempts committed marks)
    (each : Each plainMap.Allows marks) (rpcs : Rpcs calls attempts created)
    (invoked : ∀ (i : Nat) call, calls[i]? = some call → .seen (.invoke i call.op) ∈ marks)
    (more : committed <+: longer) (made : longer ⊆ created) :
    ∃ marks', marks'.filterMap Mark.event = marks.filterMap Mark.event ∧
      Pointed attempts longer marks' ∧ Each plainMap.Allows marks' := by
  obtain ⟨rest, rfl⟩ := more
  induction rest generalizing committed marks with
  | nil =>
    rw [List.append_nil]
    exact ⟨marks, rfl, pointed, each⟩
  | cons op rest ih =>
    have split : committed ++ op :: rest = committed ++ [op] ++ rest := by simp
    rw [split] at made ⊢
    have fresh : op ∈ created := made (by simp)
    obtain ⟨middle, same, pointed', each'⟩ := pointed.point each rpcs invoked fresh
    obtain ⟨marks', same', rest⟩ := ih pointed' each' (fun i call found => by
      rw [← mem_observed, same, mem_observed]
      exact invoked i call found) made
    exact ⟨marks', same'.trans same, rest⟩

end Pointed

namespace System

variable {σ σ' : System n} {committed : List (Op n Request)}
  {marks : List (Mark Nat ClientOp Answer)} {i : Nat}

/-- What the marks of a history say of the table of calls. -/
structure Booked (calls : List (ClerkCall n)) (marks : List (Mark Nat ClientOp Answer)) :
    Prop where
  invoked : ∀ (i : Nat) call, calls[i]? = some call → .seen (.invoke i call.op) ∈ marks
  counted : ∀ i op, .seen (.invoke i op) ∈ marks → i < calls.length
  responded : ∀ i answer, .seen (.respond i answer) ∈ marks →
    ∃ call, calls[i]? = some call ∧ call.phase = .returned answer

namespace Booked

variable {calls : List (ClerkCall n)} {before after : ClerkCall n}

/-- A call goes on and nothing is seen of it. -/
theorem set (booked : Booked calls marks) (found : calls[i]? = some before)
    (op : after.op = before.op) (open_ : ∀ answer, before.phase ≠ .returned answer) :
    Booked (calls.set i after) marks where
  invoked j call there := by
    rcases Slots.set_cases there with ⟨rfl, rfl⟩ | ⟨_, old⟩
    · rw [op]
      exact booked.invoked j before found
    · exact booked.invoked j call old
  counted j op member := by
    rw [List.length_set]
    exact booked.counted j op member
  responded j answer member := by
    obtain ⟨call, there, back⟩ := booked.responded j answer member
    rcases Slots.set_kept found after there with ⟨_, rfl, _⟩ | ⟨_, now⟩
    · exact absurd back (open_ answer)
    · exact ⟨call, now, back⟩

theorem invoke (booked : Booked calls marks) (new : ClerkCall n) :
    Booked (calls ++ [new]) (.seen (.invoke calls.length new.op) :: marks) where
  invoked j call there := by
    rcases Slots.append_cases there with old | ⟨rfl, rfl⟩
    · exact List.mem_cons_of_mem _ (booked.invoked j call old)
    · exact List.mem_cons_self ..
  counted j op member := by
    rw [List.length_append, List.length_singleton]
    rcases List.mem_cons.mp member with same | old
    · cases same
      exact Nat.lt_succ_self _
    · exact (booked.counted j op old).trans (Nat.lt_succ_self _)
  responded j answer member := by
    obtain ⟨call, there, back⟩ :=
      booked.responded j answer ((List.mem_cons.mp member).resolve_left nofun)
    exact ⟨call, Slots.append_kept there _, back⟩

theorem respond (booked : Booked calls marks) (found : calls[i]? = some before)
    (open_ : ∀ answer, before.phase ≠ .returned answer) (answer : Answer) :
    Booked (calls.set i { before with phase := .returned answer })
      (.seen (.respond i answer) :: marks) := by
  have next : Booked (calls.set i { before with phase := .returned answer }) marks :=
    booked.set found rfl open_
  refine ⟨fun j call there => List.mem_cons_of_mem _ (next.invoked j call there),
    fun j op member => next.counted j op ((List.mem_cons.mp member).resolve_left nofun), ?_⟩
  intro j other member
  rcases List.mem_cons.mp member with same | old
  · cases same
    exact ⟨_, Slots.set_self found, rfl⟩
  · exact next.responded j other old

end Booked

/-- The system with the commands delivered so far and the points of its history. -/
structure Linear (gob : Gob) (committed : List (Op n Request))
    (marks : List (Mark Nat ClientOp Answer)) (σ : System n) : Prop where
  settled : σ.Settled gob committed
  history : marks.filterMap Mark.event = σ.history
  pointed : Pointed σ.attempts committed marks
  each : Each plainMap.Allows marks
  invoked : ∀ (i : Nat) call, σ.calls[i]? = some call → .seen (.invoke i call.op) ∈ marks
  counted : ∀ i op, .seen (.invoke i op) ∈ marks → i < σ.calls.length
  responded : ∀ i answer, .seen (.respond i answer) ∈ marks →
    ∃ call, σ.calls[i]? = some call ∧ call.phase = .returned answer

namespace Linear

theorem init (gob : Gob) (positive : 0 < n) :
    (System.init gob positive).Linear gob [] [] where
  settled := .init gob positive
  history := rfl
  pointed := ⟨rfl, by simp, by simp⟩
  each := .nil
  invoked := by simp [System.init]
  counted := by simp
  responded := by simp

theorem booked (linear : σ.Linear gob committed marks) : Booked σ.calls marks :=
  ⟨linear.invoked, linear.counted, linear.responded⟩

/-- What the applications see of an action is allowed; the calls go on. -/
theorem see (linear : σ.Linear gob committed marks) {action : Action n}
    (moved : σ.step gob action = some σ') :
    ∃ middle, middle.filterMap Mark.event = σ'.history ∧
      Each plainMap.Allows middle ∧ Pointed σ'.attempts committed middle ∧
      Booked σ'.calls middle := by
  have settled := linear.settled
  have booked := linear.booked
  cases action with
  | service action =>
    obtain ⟨service, _, _, rfl⟩ := serviceStep_inversion moved
    exact ⟨marks, linear.history, linear.each, linear.pointed, booked⟩
  | invoke clientId op =>
    obtain rfl := Option.some.inj moved
    refine ⟨.seen (.invoke σ.calls.length op) :: marks, ?_, linear.each.cons ?_,
      linear.pointed.seen _, booked.invoke _⟩
    · change _ :: marks.filterMap Mark.event = _ :: σ.history
      rw [linear.history]
    · intro other again
      exact Nat.lt_irrefl _ (linear.counted _ other again)
  | lock i =>
    obtain ⟨call, found, locking, _, rfl⟩ := lock_inversion moved
    exact ⟨marks, linear.history, linear.each, linear.pointed,
      booked.set found rfl (by rw [locking]; simp)⟩
  | send i =>
    obtain ⟨call, leader, tries, found, trying, rfl⟩ := send_inversion moved
    exact ⟨marks, linear.history, linear.each,
      linear.pointed.owned fun _ _ _ => Rpcs.owned_append rfl,
      booked.set found rfl (by rw [trying]; simp)⟩
  | serve a =>
    obtain ⟨attempt, found, sent, rfl⟩ := serve_inversion moved
    have fresh : σ.nextOp attempt ∉ σ.service.created := settled.sound.unmade rfl rfl
    refine ⟨marks, linear.history, linear.each, linear.pointed.owned ?_, booked⟩
    intro op member j
    rw [Rpcs.owned_serve found sent]
    constructor
    · rintro (mine | ⟨rfl, _⟩)
      · exact mine
      · exact absurd (settled.made member) fresh
    · exact Or.inl
  | reply a =>
    obtain ⟨attempt, op, err, value, returned, outcome⟩ := reply_inversion moved
    obtain ⟨_, found, serving, _⟩ := handlerAt_inversion returned
    rcases outcome with ⟨answer, _, rfl⟩ | ⟨_, service, _, rfl⟩
    · have kept : (AttemptStatus.replied op answer).op = attempt.status.op := by
        rw [serving]
        rfl
      have same := (settled.tidy.rpcs.status found kept).2
      exact ⟨marks, linear.history, linear.each, linear.pointed.owned fun op _ => same op,
        booked⟩
    · exact ⟨marks, linear.history, linear.each, linear.pointed, booked⟩
  | receive i =>
    obtain ⟨call, leader, tries, a, attempt, op, answer, found, calling, there, replied,
      outcome⟩ := receive_inversion moved
    have open_ : ∀ answer, call.phase ≠ .returned answer := by rw [calling]; simp
    rcases outcome with ⟨back, rfl⟩ | ⟨_, rfl⟩ | ⟨_, rfl⟩
    · obtain ⟨_, k, first, place, owned, request, fresh, same⟩ :=
        (settled.received found calling there replied).resolve_left (by rw [back]; simp)
      have carries : first.req.clientOp = some call.op := by rw [request, call.request_op]
      have point := linear.pointed.taken k first i call.op place owned fresh carries
      rw [← same] at point
      refine ⟨.seen (.respond i answer) :: marks, ?_, linear.each.cons ⟨⟨call.op, point⟩, ?_⟩,
        linear.pointed.seen _, booked.respond found open_ answer⟩
      · change _ :: marks.filterMap Mark.event = _ :: σ.history
        rw [linear.history]
      · intro other again
        obtain ⟨call', found', back'⟩ := linear.responded i other again
        obtain rfl := Option.some.inj (found.symm.trans found')
        exact open_ other back'
    · exact ⟨marks, linear.history, linear.each, linear.pointed, booked.set found rfl open_⟩
    · exact ⟨marks, linear.history, linear.each, linear.pointed, booked.set found rfl open_⟩
  | fail i =>
    obtain ⟨call, leader, tries, a, found, calling, rfl⟩ := fail_inversion moved
    exact ⟨marks, linear.history, linear.each, linear.pointed,
      booked.set found rfl (by rw [calling]; simp)⟩

theorem step (linear : σ.Linear gob committed marks) {action : Action n}
    (ok : σ.admitted action = true) (moved : σ.step gob action = some σ') :
    ∃ longer marks', σ'.Linear gob longer marks' := by
  obtain ⟨longer, more, settled⟩ := linear.settled.step ok moved
  obtain ⟨middle, history, each, pointed, booked⟩ := linear.see moved
  obtain ⟨marks', same, pointed, each⟩ :=
    pointed.extend each settled.tidy.rpcs booked.invoked more settled.made
  have visible (event : Event Nat ClientOp Answer) :
      .seen event ∈ marks' ↔ .seen event ∈ middle := by
    rw [← mem_observed, same, mem_observed]
  refine ⟨longer, marks', settled, same.trans history, pointed, each, ?_, ?_, ?_⟩
  · exact fun i call found => (visible _).mpr (booked.invoked i call found)
  · exact fun i op member => booked.counted i op ((visible _).mp member)
  · exact fun i answer member => booked.responded i answer ((visible _).mp member)

end Linear

/-- The kvraft store is linearizable for its clients: however messages are lost or
delayed, servers crash and clerks retry, the Gets and Puts of any number of clerks and
what they return are those of one versioned map. -/
theorem clerks_linearizable {positive : 0 < n} {trace : List (System n)}
    (run : Run gob positive trace) : ∀ σ ∈ trace, Linearizable plainMap σ.history := by
  have linear : ∀ σ ∈ trace, ∃ committed marks, σ.Linear gob committed marks := by
    refine run.invariant ⟨_, _, .init gob positive⟩ ?_
    rintro before action after ok moved ⟨committed, marks, linear⟩
    exact linear.step ok moved
  intro σ member
  obtain ⟨committed, marks, linear⟩ := linear σ member
  rw [← linear.history]
  exact linearizable_of_points linear.each

/-- The reply to the Put is lost. The clerk asks server 1, which does not lead, gets no
answer from server 2 and sends the Put to server 0 again, where it is in the log twice. -/
def resentPut : List (Action 3) :=
  executedPut ++
    [.fail 0, .send 0, .serve 1, .service (.refuse 1 0), .reply 1, .receive 0, .send 0, .fail 0,
      .send 0, .serve 3, .service (.start 0 1), .service (.raft (.replicateToFollower 0 1)),
      .service (.raft (.handleAppendEntries 1)), .service (.raft (.receiveAppendEntries 1)),
      .service (.raft (.applierAck 0)), .service (.raft (.applierRead 0)), .service (.receive 0),
      .service (.lookup 0), .service (.send 0), .service (.take 0 1), .service (.finish 0 1),
      .reply 3, .receive 0]

theorem clerks_linearizable_resent :
    ∃ (trace : List (System 3)) (σ : System 3), Run Gob.unary (by decide : 0 < 3) trace ∧
      σ ∈ trace ∧
      σ.history = [.respond 0 (.put { err := .ok }), .invoke 0 (.put "x" "a" 0)] ∧
      Linearizable plainMap σ.history := by
  obtain ⟨past, run⟩ := Runs.Run.reached (step Gob.unary) admitted
    (init Gob.unary (by decide : 0 < 3)) resentPut (by decide +kernel)
  exact ⟨_, _, run, List.mem_cons_self .., rfl,
    clerks_linearizable run _ (List.mem_cons_self ..)⟩

end System

end KvStore.KvRaft

import KvStore.Kv.KvRaft

set_option autoImplicit false

/-! Puts that a log repeats are executed once: the server against a plain versioned
map that is handed the log without the repetitions. -/

namespace KvStore.KvRaft

/-- What a server goes through: a committed request, or its own snapshot restored. -/
inductive Entry
  | request (req : Request)
  | restored
  deriving DecidableEq, Repr

namespace KVServer

def apply (gob : Gob) (kv : KVServer) : Entry → Option (KVServer × Option Reply)
  | .request req => some ((kv.doOp req).1, some (kv.doOp req).2)
  | .restored => (kv.restore gob (kv.snapshot gob)).map (·, none)

/-- The state after the log, and the reply to each of its entries. -/
def run (gob : Gob) (log : List Entry) : Option (KVServer × List (Option Reply)) :=
  log.foldlM (fun state entry =>
    (state.1.apply gob entry).map fun next => (next.1, state.2 ++ [next.2])) (start, [])

@[simp] theorem run_snoc (gob : Gob) (log : List Entry) (entry : Entry) :
    run gob (log ++ [entry]) = (run gob log).bind fun state =>
      (state.1.apply gob entry).map fun next => (next.1, state.2 ++ [next.2]) := by
  simp only [run, List.foldlM_append, List.foldlM_cons, List.foldlM_nil, bind_pure]
  rfl

end KVServer

/-- A request to the versioned map alone. -/
def plainOp (kvm : KvMap String String) : Request → KvMap String String × Reply
  | .get args => (kvm, .get (getReply (kvm args.key)))
  | .put args =>
    ((kvm.put args.key args.value args.version).1,
      .put { err := (kvm.put args.key args.value args.version).2 })
  | .unknown => (kvm, .nil)

def plainRun (reqs : List Request) : KvMap String String × List Reply :=
  reqs.foldl (fun state req =>
    ((plainOp state.1 req).1, state.2 ++ [(plainOp state.1 req).2])) (KvMap.empty, [])

@[simp] theorem plainRun_snoc (reqs : List Request) (req : Request) :
    plainRun (reqs ++ [req]) = ((plainOp (plainRun reqs).1 req).1,
      (plainRun reqs).2 ++ [(plainOp (plainRun reqs).1 req).2]) := by
  simp only [plainRun, List.foldl_append, List.foldl_cons, List.foldl_nil]

theorem plainRun_length (reqs : List Request) : (plainRun reqs).2.length = reqs.length := by
  induction reqs using List.reverseRecOn with
  | nil => rfl
  | append_singleton reqs req ih =>
    rw [plainRun_snoc, List.length_append, List.length_append, ih]
    rfl

def putInfo : Entry → Option RequestInfo
  | .request (.put args) => some args.toRequestInfo
  | _ => none

/-- The ids of the Puts of a log. -/
def sent (log : List Entry) : List RequestInfo := log.filterMap putInfo

@[simp] theorem sent_snoc (log : List Entry) (entry : Entry) :
    sent (log ++ [entry]) = sent log ++ (putInfo entry).toList := by
  rw [sent, List.filterMap_append, sent]
  cases found : putInfo entry with
  | none => rw [List.filterMap_cons_none found]; rfl
  | some info => rw [List.filterMap_cons_some found]; rfl

/-- A Put whose id is that of an earlier one. -/
def Repeated (earlier : List Entry) (req : Request) : Prop :=
  ∃ info, putInfo (.request req) = some info ∧ info ∈ sent earlier

instance (earlier : List Entry) (req : Request) : Decidable (Repeated earlier req) :=
  decidable_of_iff ((putInfo (.request req)).any (· ∈ sent earlier) = true) (by
    simp only [Repeated, Option.any_eq_true, decide_eq_true_eq])

def keep (earlier : List Entry) : Entry → Option Request
  | .request req => if Repeated earlier req then none else some req
  | .restored => none

/-- The requests of `log`, which comes after `earlier`, without the repeated Puts. -/
def distinctFrom (earlier : List Entry) : List Entry → List Request
  | [] => []
  | entry :: log => (keep earlier entry).toList ++ distinctFrom (earlier ++ [entry]) log

def distinct (log : List Entry) : List Request := distinctFrom [] log

@[simp] theorem distinctFrom_snoc (earlier log : List Entry) (entry : Entry) :
    distinctFrom earlier (log ++ [entry]) =
      distinctFrom earlier log ++ (keep (earlier ++ log) entry).toList := by
  induction log generalizing earlier with
  | nil => simp only [List.nil_append, distinctFrom, List.append_nil]
  | cons head log ih =>
    simp only [List.cons_append, distinctFrom, ih, List.append_assoc, List.nil_append]

@[simp] theorem distinct_snoc (log : List Entry) (entry : Entry) :
    distinct (log ++ [entry]) = distinct log ++ (keep log entry).toList :=
  distinctFrom_snoc [] log entry

/-- The ids of each client's Puts increase in the order of their first appearance. -/
def Serialised (log : List Entry) : Prop :=
  (sent log).eraseDups.Pairwise fun earlier later =>
    earlier.clientId = later.clientId → earlier.requestId < later.requestId

/-- The entry is a request that is not a Put sent before. -/
def IsFirst (log : List Entry) (i : Nat) (req : Request) : Prop :=
  log[i]? = some (.request req) ∧ ¬Repeated (log.take i) req

variable {log : List Entry} {entry : Entry}

theorem Serialised.of_append {later : List Entry} (serial : Serialised (log ++ later)) :
    Serialised log := by
  unfold Serialised at serial
  rw [sent, List.filterMap_append, List.eraseDups_append] at serial
  exact (List.pairwise_append.mp serial).1

theorem Serialised.newest {args : PutArgs}
    (serial : Serialised (log ++ [.request (.put args)]))
    (fresh : args.toRequestInfo ∉ sent log) :
    ∀ info ∈ sent log, info.clientId = args.clientId → info.requestId < args.requestId := by
  intro info member same
  unfold Serialised at serial
  rw [sent_snoc, List.eraseDups_append] at serial
  apply (List.pairwise_append.mp serial).2.2 info (List.mem_eraseDups.mpr member)
    args.toRequestInfo _ same
  apply List.mem_eraseDups.mpr
  simp [putInfo, List.removeAll, fresh]

theorem IsFirst.snoc {i : Nat} {req : Request} (here : IsFirst (log ++ [entry]) i req) :
    IsFirst log i req ∨ i = log.length ∧ entry = .request req ∧ ¬Repeated log req := by
  obtain ⟨found, fresh⟩ := here
  have bound := (List.getElem?_eq_some_iff.mp found).1
  rw [List.length_append, List.length_singleton] at bound
  rcases Nat.lt_succ_iff_lt_or_eq.mp bound with old | rfl
  · rw [List.getElem?_append_left old] at found
    rw [List.take_append_of_le_length (by omega)] at fresh
    exact Or.inl ⟨found, fresh⟩
  · rw [List.getElem?_concat_length] at found
    rw [List.take_left] at fresh
    exact Or.inr ⟨rfl, Option.some.inj found, fresh⟩

theorem IsFirst.inside {i : Nat} {req : Request} (here : IsFirst log i req) : i < log.length :=
  (List.getElem?_eq_some_iff.mp here.1).1

theorem IsFirst.sent {i : Nat} {args : PutArgs} (here : IsFirst log i (.put args)) :
    args.toRequestInfo ∈ sent log :=
  List.mem_filterMap.mpr ⟨_, List.mem_of_getElem? here.1, rfl⟩

/-- The map is that of the plain run, and so are the replies to first occurrences. -/
structure Plain (log : List Entry) (kvm : KvMap String String) (replies : List (Option Reply)) :
    Prop where
  map : kvm = (plainRun (distinct log)).1
  answers : ∀ i req, IsFirst log i req → ∃ k reply, (distinct log)[k]? = some req ∧
    k = (distinct (log.take i)).length ∧ replies[i]? = some (some reply) ∧
    (plainRun (distinct log)).2[k]? = some reply

/-- The table of last Puts has the newest Put of every client, with its reply. -/
structure Recorded (log : List Entry) (lastPuts : Finmap fun _ : Nat => LastPut)
    (replies : List (Option Reply)) : Prop where
  absent : ∀ client, lastPuts.lookup client = none → ∀ info ∈ sent log, info.clientId ≠ client
  newest : ∀ client lastPut, lastPuts.lookup client = some lastPut →
    { clientId := client, requestId := lastPut.requestId } ∈ sent log ∧
      ∀ info ∈ sent log, info.clientId = client → info.requestId ≤ lastPut.requestId
  reply : ∀ i args lastPut, IsFirst log i (.put args) →
    lastPuts.lookup args.clientId = some lastPut → args.requestId = lastPut.requestId →
    replies[i]? = some (some (.put lastPut.reply))

/-- A Put sent again before the client's next one is answered as it was first. -/
def Echoed (log : List Entry) (replies : List (Option Reply)) : Prop :=
  ∀ i j args again, IsFirst log i (.put args) → i < j → log[j]? = some (.request (.put again)) →
    again.toRequestInfo = args.toRequestInfo →
    (∀ info ∈ sent (log.take j), info.clientId = args.clientId →
      info.requestId ≤ args.requestId) →
    replies[j]? = replies[i]?

structure Refines (log : List Entry) (kv : KVServer) (replies : List (Option Reply)) : Prop where
  length : replies.length = log.length
  plain : Plain log kv.kvm.view replies
  recorded : Recorded log kv.lastPutByClientId replies
  echoed : Echoed log replies

section Step

variable {kvm : KvMap String String} {lastPuts : Finmap fun _ : Nat => LastPut}
  {replies : List (Option Reply)}

theorem Plain.skipped (plain : Plain log kvm replies) (size : replies.length = log.length)
    (removed : keep log entry = none) (reply : Option Reply) :
    Plain (log ++ [entry]) kvm (replies ++ [reply]) := by
  have same : distinct (log ++ [entry]) = distinct log := by
    rw [distinct_snoc, removed, Option.toList_none, List.append_nil]
  refine ⟨by rw [same]; exact plain.map, ?_⟩
  intro i req here
  rcases here.snoc with old | ⟨-, rfl, fresh⟩
  · obtain ⟨k, answer, place, rfl, replied, expected⟩ := plain.answers i req old
    have inside := old.inside
    rw [same, List.take_append_of_le_length (by omega)]
    refine ⟨_, answer, place, rfl, ?_, expected⟩
    rw [List.getElem?_append_left (by omega), replied]
  · rw [keep, if_neg fresh] at removed
    cases removed

theorem Plain.kept (plain : Plain log kvm replies) (size : replies.length = log.length)
    {req : Request} (fresh : ¬Repeated log req) :
    Plain (log ++ [.request req]) (plainOp kvm req).1
      (replies ++ [some (plainOp kvm req).2]) := by
  have longer : distinct (log ++ [.request req]) = distinct log ++ [req] := by
    rw [distinct_snoc, keep, if_neg fresh, Option.toList_some]
  have expectedSize := plainRun_length (distinct log)
  refine ⟨by rw [longer, plainRun_snoc, plain.map], ?_⟩
  intro i other here
  rw [longer, plainRun_snoc, ← plain.map]
  rcases here.snoc with old | ⟨rfl, same, -⟩
  · obtain ⟨k, answer, place, rfl, replied, expected⟩ := plain.answers i other old
    have inside := old.inside
    have bound := (List.getElem?_eq_some_iff.mp place).1
    rw [List.take_append_of_le_length (by omega)]
    refine ⟨_, answer, ?_, rfl, ?_, ?_⟩
    · rw [List.getElem?_append_left bound, place]
    · rw [List.getElem?_append_left (by omega), replied]
    · rw [List.getElem?_append_left (by omega), expected]
  · cases same
    rw [List.take_left]
    refine ⟨_, (plainOp kvm req).2, List.getElem?_concat_length, rfl, ?_, ?_⟩
    · rw [← size, List.getElem?_concat_length]
    · rw [← expectedSize, List.getElem?_concat_length]

/-- An entry that is no new Put leaves the table as it is. -/
theorem Recorded.skipped (recorded : Recorded log lastPuts replies)
    (size : replies.length = log.length)
    (old : ∀ info, putInfo entry = some info → info ∈ sent log) (reply : Option Reply) :
    Recorded (log ++ [entry]) lastPuts (replies ++ [reply]) := by
  have same (info : RequestInfo) : info ∈ sent (log ++ [entry]) ↔ info ∈ sent log := by
    rw [sent_snoc, List.mem_append, Option.mem_toList]
    constructor
    · rintro (member | new)
      · exact member
      · exact old info new
    · exact Or.inl
  refine ⟨?_, ?_, ?_⟩
  · intro client absent info member
    exact recorded.absent client absent info ((same info).mp member)
  · intro client lastPut found
    obtain ⟨member, bound⟩ := recorded.newest client lastPut found
    exact ⟨(same _).mpr member, fun info member => bound info ((same info).mp member)⟩
  · intro i args lastPut here found latest
    rcases here.snoc with earlier | ⟨-, rfl, fresh⟩
    · have inside := earlier.inside
      rw [List.getElem?_append_left (by omega)]
      exact recorded.reply i args lastPut earlier found latest
    · exact absurd ⟨_, rfl, old _ rfl⟩ fresh

theorem Recorded.kept (recorded : Recorded log lastPuts replies)
    (size : replies.length = log.length) {args : PutArgs}
    (newest : ∀ info ∈ sent log, info.clientId = args.clientId →
      info.requestId < args.requestId) (reply : PutReply) :
    Recorded (log ++ [.request (.put args)])
      (lastPuts.insert args.clientId { requestId := args.requestId, reply })
      (replies ++ [some (.put reply)]) := by
  have mem (info : RequestInfo) : info ∈ sent (log ++ [.request (.put args)]) ↔
      info ∈ sent log ∨ info = args.toRequestInfo := by
    rw [sent_snoc, List.mem_append]
    exact or_congr_right List.mem_singleton
  refine ⟨?_, ?_, ?_⟩
  · intro client absent info member
    by_cases same : client = args.clientId
    · rw [same, Finmap.lookup_insert] at absent
      cases absent
    · rw [Finmap.lookup_insert_of_ne _ same] at absent
      rcases (mem info).mp member with old | rfl
      · exact recorded.absent client absent info old
      · exact Ne.symm same
  · intro client lastPut found
    by_cases same : client = args.clientId
    · rw [same, Finmap.lookup_insert] at found
      cases found
      subst same
      refine ⟨(mem _).mpr (Or.inr rfl), ?_⟩
      intro info member sender
      rcases (mem info).mp member with old | rfl
      · exact Nat.le_of_lt (newest info old sender)
      · exact Nat.le_refl _
    · rw [Finmap.lookup_insert_of_ne _ same] at found
      obtain ⟨member, bound⟩ := recorded.newest client lastPut found
      refine ⟨(mem _).mpr (Or.inl member), ?_⟩
      intro info member sender
      rcases (mem info).mp member with old | rfl
      · exact bound info old sender
      · exact absurd sender.symm same
  · intro i other lastPut here found latest
    rcases here.snoc with earlier | ⟨rfl, same, -⟩
    · have inside := earlier.inside
      rw [List.getElem?_append_left (by omega)]
      by_cases sender : other.clientId = args.clientId
      · rw [sender, Finmap.lookup_insert] at found
        cases found
        have smaller : other.requestId < args.requestId := newest _ earlier.sent sender
        exact absurd latest (Nat.ne_of_lt smaller)
      · rw [Finmap.lookup_insert_of_ne _ sender] at found
        exact recorded.reply i other lastPut earlier found latest
    · cases same
      rw [Finmap.lookup_insert] at found
      cases found
      rw [← size, List.getElem?_concat_length]

theorem Echoed.snoc (echoed : Echoed log replies) (size : replies.length = log.length)
    {reply : Option Reply}
    (last : ∀ i args again, IsFirst log i (.put args) → entry = .request (.put again) →
      again.toRequestInfo = args.toRequestInfo →
      (∀ info ∈ sent log, info.clientId = args.clientId → info.requestId ≤ args.requestId) →
      replies[i]? = some reply) :
    Echoed (log ++ [entry]) (replies ++ [reply]) := by
  intro i j args again first after found same latest
  have bound := (List.getElem?_eq_some_iff.mp found).1
  rw [List.length_append, List.length_singleton] at bound
  have first' : IsFirst log i (.put args) := by
    rcases first.snoc with earlier | ⟨rfl, -, -⟩
    · exact earlier
    · omega
  have inside := first'.inside
  rw [List.getElem?_append_left (by omega : i < replies.length)]
  rcases Nat.lt_succ_iff_lt_or_eq.mp bound with old | rfl
  · rw [List.getElem?_append_left old] at found
    rw [List.take_append_of_le_length (by omega)] at latest
    rw [List.getElem?_append_left (by omega)]
    exact echoed i j args again first' after found same latest
  · rw [List.getElem?_concat_length] at found
    rw [List.take_left] at latest
    rw [← size, List.getElem?_concat_length]
    exact (last i args again first' (Option.some.inj found) same latest).symm

end Step

namespace Refines

variable {kv : KVServer} {replies : List (Option Reply)}

theorem start : Refines [] KVServer.start [] := by
  have nowhere {i : Nat} {req : Request} : ¬IsFirst [] i req :=
    fun here => absurd here.inside (Nat.not_lt_zero _)
  refine ⟨rfl, ⟨Table.view_empty, fun _ _ here => absurd here nowhere⟩, ⟨?_, ?_, ?_⟩, ?_⟩
  · intro client absent info member
    exact absurd member List.not_mem_nil
  · intro client lastPut found
    exact absurd (found.symm.trans (Finmap.lookup_empty client)) (Option.some_ne_none lastPut)
  · intro i args lastPut here
    exact absurd here nowhere
  · intro i j args again here
    exact absurd here nowhere

section

variable (refines : Refines log kv replies)

include refines

/-- An entry that is not a Put, with the reply the plain map gives if it is a request. -/
theorem other (noPut : putInfo entry = none) {reply : Option Reply}
    (plain : Plain (log ++ [entry]) kv.kvm.view (replies ++ [reply])) :
    Refines (log ++ [entry]) kv (replies ++ [reply]) where
  length := by rw [List.length_append, List.length_append, refines.length]; rfl
  plain := plain
  recorded := by
    apply refines.recorded.skipped refines.length
    intro info found
    rw [noPut] at found
    cases found
  echoed := by
    apply refines.echoed.snoc refines.length
    rintro i args again - rfl
    cases noPut

/-- The server has the record that answers a repeated Put. -/
theorem lookup_sent {info : RequestInfo} (member : info ∈ sent log) :
    ∃ lastPut, kv.lastPutByClientId.lookup info.clientId = some lastPut ∧
      info.requestId ≤ lastPut.requestId := by
  cases found : kv.lastPutByClientId.lookup info.clientId with
  | none => exact absurd rfl (refines.recorded.absent _ found info member)
  | some lastPut =>
    exact ⟨lastPut, rfl, (refines.recorded.newest _ lastPut found).2 info member rfl⟩

theorem answered {args : PutArgs} (member : args.toRequestInfo ∈ sent log) :
    ∃ reply, kv.doOp (.put args) = (kv, reply) ∧
      Refines (log ++ [.request (.put args)]) kv (replies ++ [some reply]) := by
  obtain ⟨lastPut, found, old⟩ := refines.lookup_sent member
  refine ⟨.put lastPut.reply, KVServer.doOp_put_answered found old, ?_, ?_, ?_, ?_⟩
  · rw [List.length_append, List.length_append, refines.length]
    rfl
  · apply refines.plain.skipped refines.length
    exact if_pos ⟨_, rfl, member⟩
  · apply refines.recorded.skipped refines.length
    intro info same
    cases same
    exact member
  · apply refines.echoed.snoc refines.length
    intro i first again here same ids latest
    cases same
    -- the record is of the client's newest Put, and this is it
    have sender : args.clientId = first.clientId := congrArg RequestInfo.clientId ids
    have number : args.requestId = first.requestId := congrArg RequestInfo.requestId ids
    have bound := latest _ (refines.recorded.newest _ lastPut found).1 sender
    apply refines.recorded.reply i first lastPut here
    · rw [← sender, found]
    · exact Nat.le_antisymm (number ▸ old) bound

theorem doOp_newest {args : PutArgs}
    (newest : ∀ info ∈ sent log, info.clientId = args.clientId → info.requestId < args.requestId) :
    kv.doOp (.put args) = kv.executePut args := by
  apply KVServer.doOp_put_executed
  intro lastPut found
  exact newest _ (refines.recorded.newest _ lastPut found).1 rfl

/-- A request that is no repetition does what it does to the plain map. -/
theorem doOp_first {req : Request} (serial : Serialised (log ++ [.request req]))
    (fresh : ¬Repeated log req) :
    (kv.doOp req).1.kvm.view = (plainOp kv.kvm.view req).1 ∧
      (kv.doOp req).2 = (plainOp kv.kvm.view req).2 := by
  cases req with
  | get args => exact ⟨rfl, rfl⟩
  | unknown => exact ⟨rfl, rfl⟩
  | put args =>
    have new : args.toRequestInfo ∉ sent log := fun member => fresh ⟨_, rfl, member⟩
    obtain ⟨written, replied⟩ := kv.write_plain args
    rw [refines.doOp_newest (serial.newest new)]
    refine ⟨written, ?_⟩
    rw [plainOp, ← replied]
    rfl

theorem executed {args : PutArgs} (serial : Serialised (log ++ [.request (.put args)]))
    (fresh : args.toRequestInfo ∉ sent log) :
    Refines (log ++ [.request (.put args)]) (kv.doOp (.put args)).1
      (replies ++ [some (kv.doOp (.put args)).2]) := by
  have first : ¬Repeated log (.put args) := by
    rintro ⟨info, same, member⟩
    cases same
    exact fresh member
  have newest := serial.newest fresh
  obtain ⟨written, replied⟩ := refines.doOp_first serial first
  refine ⟨?_, ?_, ?_, ?_⟩
  · rw [List.length_append, List.length_append, refines.length]
    rfl
  · rw [written, replied]
    exact refines.plain.kept refines.length first
  · rw [refines.doOp_newest newest]
    exact refines.recorded.kept refines.length newest _
  · apply refines.echoed.snoc refines.length
    intro i args' again here same ids _
    cases same
    rw [ids] at fresh
    exact absurd here.sent fresh

end

theorem step (gob : Gob) (refines : Refines log kv replies)
    (serial : Serialised (log ++ [entry])) :
    ∃ next reply, kv.apply gob entry = some (next, reply) ∧
      Refines (log ++ [entry]) next (replies ++ [reply]) := by
  cases entry with
  | restored =>
    refine ⟨kv, none, ?_, refines.other rfl (refines.plain.skipped refines.length rfl _)⟩
    rw [KVServer.apply, KVServer.restore_snapshot]
    rfl
  | request req =>
    refine ⟨(kv.doOp req).1, some (kv.doOp req).2, rfl, ?_⟩
    cases req with
    | get args =>
      apply refines.other rfl
      exact refines.plain.kept refines.length (by rintro ⟨info, same, -⟩; cases same)
    | unknown =>
      apply refines.other rfl
      exact refines.plain.kept refines.length (by rintro ⟨info, same, -⟩; cases same)
    | put args =>
      by_cases again : args.toRequestInfo ∈ sent log
      · obtain ⟨reply, done, next⟩ := refines.answered again
        rw [done]
        exact next
      · exact refines.executed serial again

end Refines

/-- The server never stops, and agrees with the plain map after every entry. -/
theorem run_refines (gob : Gob) (log : List Entry) (serial : Serialised log) :
    ∃ kv replies, KVServer.run gob log = some (kv, replies) ∧ Refines log kv replies := by
  induction log using List.reverseRecOn with
  | nil => exact ⟨KVServer.start, [], rfl, Refines.start⟩
  | append_singleton log entry ih =>
    obtain ⟨kv, replies, ran, refines⟩ := ih serial.of_append
    obtain ⟨next, reply, applied, refines'⟩ := refines.step gob serial
    refine ⟨next, replies ++ [reply], ?_, refines'⟩
    rw [KVServer.run_snoc, ran, Option.bind_some, applied]
    rfl

/-- Over a log in which the ids of each client's Puts first appear in increasing
order, `DoOp` gives the map that the log without the repeated Puts gives on a plain
versioned map, and the same replies where the request is not such a repetition; a
repetition of a client's newest Put gets the reply of the first. -/
theorem exactly_once (gob : Gob) (log : List Entry) (serial : Serialised log) :
    ∃ kv replies, KVServer.run gob log = some (kv, replies) ∧
      kv.kvm.view = (plainRun (distinct log)).1 ∧
      (∀ i req, IsFirst log i req → ∃ k reply, (distinct log)[k]? = some req ∧
        k = (distinct (log.take i)).length ∧ replies[i]? = some (some reply) ∧
        (plainRun (distinct log)).2[k]? = some reply) ∧
      ∀ i j args again, IsFirst log i (.put args) → i < j →
        log[j]? = some (.request (.put again)) → again.toRequestInfo = args.toRequestInfo →
        (∀ info ∈ sent (log.take j), info.clientId = args.clientId →
          info.requestId ≤ args.requestId) →
        replies[j]? = replies[i]? := by
  obtain ⟨kv, replies, ran, refines⟩ := run_refines gob log serial
  exact ⟨kv, replies, ran, refines.plain.map, refines.plain.answers, refines.echoed⟩

def putX (requestId : Nat) (value : String) (version : Nat) : Request :=
  .put { clientId := 7, requestId, key := "x", value, version }

/-- Both Puts are sent again, the first also after the second, and the server restarts
from its snapshot in between. -/
def resentLog : List Entry :=
  [.request (putX 1 "a" 0), .request (putX 1 "a" 0), .restored, .request (putX 2 "b" 1),
    .request (putX 1 "a" 0), .restored, .request (putX 2 "b" 1), .request (.get { key := "x" })]

theorem exactly_once_resent :
    Serialised resentLog ∧ ∃ kv replies, KVServer.run Gob.unary resentLog = some (kv, replies) ∧
      kv.kvm.view "x" = some { value := "b", version := 2 } ∧
      replies[3]? = some (some (.put { err := .ok })) ∧ replies[6]? = replies[3]? ∧
      replies[7]? = some (some (.get { value := "b", version := 2, err := .ok })) := by
  have serial : Serialised resentLog := by unfold Serialised; decide
  obtain ⟨kv, replies, ran, map, answers, echoed⟩ := exactly_once Gob.unary resentLog serial
  refine ⟨serial, kv, replies, ran, ?_, ?_, ?_, ?_⟩
  · rw [map]
    decide
  · obtain ⟨_, reply, -, rfl, replied, expected⟩ :=
      answers 3 (putX 2 "b" 1) ⟨rfl, by decide⟩
    rw [replied, ← expected]
    decide
  · exact echoed 3 6 _ _ ⟨rfl, by decide⟩ (by decide) rfl rfl (by decide)
  · obtain ⟨_, reply, -, rfl, replied, expected⟩ :=
      answers 7 (.get { key := "x" }) ⟨rfl, by decide⟩
    rw [replied, ← expected]
    decide

end KvStore.KvRaft

import KvStore.Shard.Refinement

set_option autoImplicit false

/-! Every step of the sharded store is a move of the handoff protocol for each shard. -/

namespace KvStore.Shard

variable {a a' : Shid → Protocol} {σ σ' : System} {i j k q : Nat} {s : Shid}

namespace Promises

theorem setOperation (promises : Promises a σ) {operation : Operation}
    (rel : OperationRel a σ.storePuts σ.groupCalls operation) :
    Promises a (σ.setOperation i operation) where
  queries := promises.queries
  puts := promises.puts
  stored := promises.stored
  operations other member := by
    rcases List.mem_or_eq_of_mem_set member with old | rfl
    · exact promises.operations other old
    · exact rel
  calls := promises.calls
  replies := promises.replies

theorem addOperation (promises : Promises a σ) {operation : Operation}
    (rel : OperationRel a σ.storePuts σ.groupCalls operation) :
    Promises a { σ with operations := σ.operations ++ [operation] } where
  queries := promises.queries
  puts := promises.puts
  stored := promises.stored
  operations other member := by
    rcases List.mem_append.mp member with old | new
    · exact promises.operations other old
    · rw [List.mem_singleton.mp new]
      exact rel
  calls := promises.calls
  replies := promises.replies

theorem growth_refl (inv : ∀ s, Inv (a s)) : Growth a a := ⟨inv, fun _ => .refl _⟩

theorem withPut (promises : Promises a σ) (inv : ∀ s, Inv (a s)) {operation : Operation}
    {put : StorePut} (sent : PutRel a put)
    (rel : OperationRel a (σ.storePuts ++ [put]) σ.groupCalls operation) :
    Promises a (σ.withPut i operation put) where
  queries := promises.queries
  puts other member := by
    rcases List.mem_append.mp member with old | new
    · exact promises.puts other old
    · rw [List.mem_singleton.mp new]
      exact sent
  stored k good := by
    obtain ⟨other, found, known⟩ := promises.stored k good
    exact ⟨other, Keeps.append _ _ k other found, known⟩
  operations other member := by
    rcases List.mem_or_eq_of_mem_set member with old | rfl
    · exact (promises.operations other old).mono (growth_refl inv) (.append _ _) (.refl _)
    · exact rel
  calls := promises.calls
  replies := promises.replies

theorem withCall (promises : Promises a σ) (inv : ∀ s, Inv (a s)) {call : GroupCall}
    (sent : CallRel a call) : Promises a (σ.withCall call) where
  queries := promises.queries
  puts := promises.puts
  stored := promises.stored
  operations operation member :=
    (promises.operations operation member).mono (growth_refl inv) (.refl _) (.append _ _)
  calls other member := by
    rcases List.mem_append.mp member with old | new
    · exact promises.calls other old
    · rw [List.mem_singleton.mp new]
      exact sent
  replies k reply member := by
    obtain ⟨other, found, rel⟩ := promises.replies k reply member
    exact ⟨other, Keeps.append _ _ k other found, rel⟩

theorem reply (promises : Promises a σ) {call : GroupCall} {reply : Reply} {kv' : KVServer}
    (found : σ.groupCalls[k]? = some call) (rel : ReplyRel a call reply) :
    Promises a (σ.replied k call kv' reply) where
  queries := promises.queries
  puts := promises.puts
  stored := promises.stored
  operations := promises.operations
  calls := promises.calls
  replies k' reply' member := by
    rcases List.mem_cons.mp member with same | old
    · obtain ⟨rfl, rfl⟩ := Prod.mk.inj same
      exact ⟨call, found, rel⟩
    · exact promises.replies k' reply' old

theorem storeReply (promises : Promises a σ) {put : StorePut} {err : Err}
    {store : KvMap ConfigKey ShardConfig} (found : σ.storePuts[k]? = some put)
    (known : err = .ok → put.key = .nextConfig → Known a put.value) :
    Promises a { σ with configStore := store, storeReplies := (k, err) :: σ.storeReplies } where
  queries := promises.queries
  puts := promises.puts
  stored k' good := by
    rcases List.mem_cons.mp good with same | old
    · obtain ⟨rfl, rfl⟩ := Prod.mk.inj same
      exact ⟨put, found, known rfl⟩
    · exact promises.stored k' old
  operations := promises.operations
  calls := promises.calls
  replies := promises.replies

end Promises

/-- The protocol can follow to the state of the system. -/
def Simulates (a : Shid → Protocol) (σ' : System) : Prop :=
  ∃ a', Follows a a' ∧ Rel a' σ'

theorem Follows.refl (a : Shid → Protocol) : Follows a a := fun _ => Or.inl rfl

namespace Rel

section

variable (rel : Rel a σ)

include rel

/-- Neither the config store, nor a group, nor the log changes. -/
theorem frame (promises : Promises a σ') (store : σ'.configStore = σ.configStore)
    (groups : σ'.groups = σ.groups) (log : σ'.log = σ.log) : Rel a σ' where
  inv := rel.inv
  store := store ▸ rel.store
  holders := groups ▸ rel.holders
  packable := groups ▸ rel.packable
  truth := log ▸ rel.truth
  log := log ▸ rel.log
  promises := promises

/-- The protocol stands still. -/
theorem still (promises : Promises a σ') (store : σ'.configStore = σ.configStore)
    (groups : σ'.groups = σ.groups) (log : σ'.log = σ.log) : Simulates a σ' :=
  ⟨a, .refl a, rel.frame promises store groups log⟩

theorem query (moved : σ.query = some σ') : Simulates a σ' := by
  obtain ⟨held, found, rfl⟩ := System.query_inversion moved
  obtain ⟨cur, nxt, store⟩ := rel.store
  refine rel.still { rel.promises with queries := ?_ } rfl rfl rfl
  intro cfg member s
  rcases List.mem_append.mp member with old | new
  · exact rel.promises.queries cfg old s
  · rw [store.current] at found
    obtain rfl := Option.some.inj found
    rw [List.mem_singleton.mp new, (store.currentAt s).1]

theorem changeConfigTo {newCfg : ShardConfig} (moved : σ.changeConfigTo q newCfg = some σ') :
    Simulates a σ' := by
  obtain ⟨queried, member, next, rfl⟩ := System.changeConfigTo_inversion moved
  refine rel.still (rel.promises.addOperation ?_) rfl rfl rfl
  intro s
  have := rel.promises.queries queried member s
  omega

end

variable {newCfg old : ShardConfig}

/-- `migrateShards` starts from what was current and what is stored as next. -/
theorem migrateShards {puts : List StorePut} {calls : List GroupCall} {ver : Nat}
    (past : Past a old ver) (known : Known a newCfg) (later : old.num < newCfg.num) :
    OperationRel a puts calls (.migrateShards newCfg old ver) := by
  refine ⟨past, known, later, fun s => ?_⟩
  dsimp only
  split
  · rename_i same
    exact Or.inl same.symm
  · rename_i differs
    exact ⟨fun same => differs same.symm, trivial, nofun⟩

section

variable (rel : Rel a σ)

include rel

theorem read (moved : σ.read i = some σ') : Simulates a σ' := by
  obtain ⟨operation, operation', found, outcome, rfl⟩ := System.read_cases moved
  obtain ⟨cur, nxt, store⟩ := rel.store
  have known : Known a nxt := fun s => by
    obtain ⟨at_, owned⟩ := store.nextAt s
    exact ⟨by omega, owned⟩
  have past : Past a cur cur.num := ⟨rfl, fun s => by
    obtain ⟨at_, owned⟩ := store.currentAt s
    exact ⟨by omega, owned⟩⟩
  have before := rel.promises.operations operation (List.mem_of_getElem? found)
  refine rel.still (rel.promises.setOperation ?_) rfl rfl rfl
  cases outcome with
  | initCurrent stored =>
    rw [store.current] at stored
    obtain rfl := Option.some.inj stored
    exact past
  | resume stored pending =>
    rw [store.next] at stored
    obtain rfl := Option.some.inj stored
    exact migrateShards before known pending
  | returned => trivial
  | @changeCurrent newCfg held stored later =>
    rw [store.current] at stored
    obtain rfl := Option.some.inj stored
    refine ⟨past, ?_⟩
    have bound := before 0
    rw [(store.currentAt 0).1] at bound
    dsimp only at later ⊢
    omega
  | @saveQuery newCfg old ver held stored later =>
    rw [store.next] at stored
    obtain rfl := Option.some.inj stored
    obtain ⟨ago, succ⟩ := before
    -- nothing has been stored as next since the current configuration was read
    have early := (ago.2 0).1
    have ordered := (rel.inv 0).ordered
    have next := (store.nextAt 0).1
    dsimp only at later ⊢
    exact ⟨ago, succ, by omega, nofun⟩
  | @saveCheck newCfg old ver held stored same =>
    rw [store.next] at stored
    obtain rfl := Option.some.inj stored
    obtain ⟨ago, succ⟩ := before
    obtain ⟨num, shards⟩ := (ShardConfig.equalTo_iff _ _).mp same
    refine migrateShards ago (fun s => ?_) (by omega)
    obtain ⟨bound, owned⟩ := known s
    dsimp only at num shards
    rw [← num, ← shards s]
    exact ⟨bound, owned⟩

theorem put (moved : σ.put i = some σ') : Simulates a σ' := by
  rcases System.put_cases moved with
    ⟨newCfg, old, ver, nextVer, call, resent, found, rfl⟩ | ⟨newCfg, ver, call, found, rfl⟩
  · obtain ⟨past, succ, version, _⟩ :=
      rel.promises.operations _ (List.mem_of_getElem? found)
    refine rel.still (rel.promises.withPut rel.inv ?_ ?_) rfl rfl rfl
    · exact ⟨by dsimp only; omega, fun s => version ▸ (past.2 s).1⟩
    · refine ⟨past, succ, version, fun k mine => ?_⟩
      obtain rfl := Option.some.inj mine
      exact List.getElem?_concat_length
  · have settled : PutRel a { key := .currentConfig, value := newCfg, version := ver } :=
      rel.promises.operations _ (List.mem_of_getElem? found)
    exact rel.still (rel.promises.withPut rel.inv settled settled) rfl rfl rfl

theorem putReply (moved : σ.putReply i j = some σ') : Simulates a σ' := by
  obtain ⟨operation, operation', found, outcome, rfl⟩ := System.putReply_cases moved
  have before := rel.promises.operations operation (List.mem_of_getElem? found)
  refine rel.still (rel.promises.setOperation ?_) rfl rfl rfl
  rcases outcome with ⟨newCfg, old, ver, nextVer, k, rfl, good, rfl⟩ |
    ⟨newCfg, old, ver, nextVer, call, rfl, rfl⟩ | ⟨ok, rfl⟩ | rfl
  · obtain ⟨past, succ, _, sent⟩ := before
    obtain ⟨put, stored, known⟩ := rel.promises.stored k good
    rw [sent k rfl] at stored
    obtain rfl := Option.some.inj stored
    exact migrateShards past (known rfl) (by omega)
  · exact ⟨before.1, before.2.1⟩
  · trivial
  · trivial

/-- The config store takes a next configuration only while none is pending, and a
current one only when it is the pending one and all its shards have moved. -/
theorem storeExecute (moved : σ.storeExecute k = some σ') : Simulates a σ' := by
  obtain ⟨put, found, rfl⟩ := System.storeExecute_inversion moved
  obtain ⟨cur, nxt, store⟩ := rel.store
  have sent := rel.promises.puts put (List.mem_of_getElem? found)
  obtain ⟨key, value, version⟩ := put
  cases key with
  | nextConfig =>
    obtain ⟨succ, early⟩ := sent
    dsimp only at succ early
    rcases KvMap.put_held store.next value version with ⟨same, done⟩ | ⟨differs, done⟩ <;>
      dsimp only at done ⊢ <;> rw [done]
    · dsimp only at same
      have settled : ∀ s, (a s).current = (a s).next := fun s => by
        have := (rel.inv s).ordered
        have := early s
        have := (store.nextAt s).1
        omega
      have follows : Follows a (fun s => (a s).propose (value.shards s)) := fun s =>
        Or.inr (.propose _ (settled s))
      have pending : ∀ s, (a s).next + 1 = value.num := fun s => by
        rw [(store.nextAt s).1]
        omega
      have proposed : ∀ s, ((a s).propose (value.shards s)).owner value.num = value.shards s :=
        fun s => by
          dsimp only [Handoff.State.propose]
          rw [pending s, Function.update_self]
      refine ⟨_, follows, follows.inv rel.inv, ⟨cur, value, ?_, ?_, ?_, ?_⟩, rel.holders,
        rel.packable, rel.truth, ⟨rel.log.froze, rel.log.frozenAs, rel.log.installed⟩,
        (rel.promises.mono (follows.growth rel.inv)).storeReply found fun _ _ s => ?_⟩
      · dsimp only
        rw [Function.update_of_ne (by decide)]
        exact store.current
      · dsimp only
        rw [Function.update_self, succ]
      · intro s
        obtain ⟨at_, owned⟩ := store.currentAt s
        have := settled s
        exact ⟨at_, owned.trans (Function.update_of_ne (by omega) ..).symm⟩
      · exact fun s => ⟨pending s, (proposed s).symm⟩
      · exact ⟨(pending s).ge, (proposed s).symm⟩
    · exact rel.still (rel.promises.storeReply found nofun) rfl rfl rfl
  | currentConfig =>
    obtain ⟨known, later, settled⟩ := sent
    dsimp only at known later settled
    rcases KvMap.put_held store.current value version with ⟨same, done⟩ | ⟨differs, done⟩ <;>
      dsimp only at done ⊢ <;> rw [done]
    · dsimp only at same
      have pending : ∀ s, (a s).current = version ∧ (a s).next = version + 1 ∧
          value.num = version + 1 := fun s => by
        have := (rel.inv s).ordered
        have := (known s).1
        have := (store.currentAt s).1
        omega
      have follows : Follows a (fun s => (a s).commit) := fun s => by
        obtain ⟨now, next, num⟩ := pending s
        refine Or.inr (.commit (by omega) ?_)
        rw [now, next, ← num, ← (known s).2]
        exact (settled s).2
      refine ⟨_, follows, follows.inv rel.inv, ⟨value, nxt, ?_, ?_, ?_, store.nextAt⟩,
        rel.holders, rel.packable, rel.truth,
        ⟨rel.log.froze, rel.log.frozenAs, rel.log.installed⟩,
        (rel.promises.mono (follows.growth rel.inv)).storeReply found nofun⟩
      · dsimp only
        rw [Function.update_self, (pending 0).2.2]
      · dsimp only
        rw [Function.update_of_ne (by decide)]
        exact store.next
      · intro s
        exact ⟨(pending s).2.1.trans (pending s).2.2.symm, (known s).2⟩
    · exact rel.still (rel.promises.storeReply found nofun) rfl rfl rfl

end

theorem update_same {α : Type} {b : Protocol} (f : Protocol → α) (same : f b = f (a s))
    (s' : Shid) : f (Function.update a s b s') = f (a s') := by
  by_cases here : s' = s
  · rw [here, Function.update_self, same]
  · rw [Function.update_of_ne here]

theorem follows_update {b : Protocol} (step : Step (a s) b) :
    Follows a (Function.update a s b) := by
  intro s'
  by_cases here : s' = s
  · rw [here, Function.update_self]
    exact Or.inr step
  · rw [Function.update_of_ne here]
    exact Or.inl rfl

/-- A message of the protocol leaves everything else as it is. -/
theorem told {b : Protocol} (rel : Rel a σ) (step : Step (a s) b) (same : (a s).Told b) :
    Rel (Function.update a s b) σ := by
  have follows := follows_update step
  obtain ⟨cur, nxt, store⟩ := rel.store
  have owner := update_same (·.owner) (congrArg (·.owner) same)
  have current := update_same (·.current) (congrArg (·.current) same)
  have next := update_same (·.next) (congrArg (·.next) same)
  have holders := update_same (·.holders) (congrArg (·.holders) same)
  have truth := update_same (·.truth) (congrArg (·.truth) same)
  have frozenAs := update_same (·.frozenAs) (congrArg (·.frozenAs) same)
  have installed := update_same (·.installed) (congrArg (·.installed) same)
  refine ⟨follows.inv rel.inv, ⟨cur, nxt, store.current, store.next, ?_, ?_⟩, ?_, rel.packable,
    ?_, ⟨?_, ?_, ?_⟩, rel.promises.mono (follows.growth rel.inv)⟩
  · intro s'
    rw [owner, current]
    exact store.currentAt s'
  · intro s'
    rw [owner, next]
    exact store.nextAt s'
  · intro s' g
    rw [holders]
    exact rel.holders s' g
  · intro s'
    rw [truth]
    exact rel.truth s'
  · intro g s' num kv member
    rw [frozenAs]
    exact rel.log.froze g s' num kv member
  · intro s' num g truth' recorded
    rw [frozenAs] at recorded
    exact rel.log.frozenAs s' num g truth' recorded
  · intro s' num done
    rw [installed] at done
    exact rel.log.installed s' num done

theorem setWorker {ver : Nat} {workers : Shid → Worker} {worker : Worker} {puts : List StorePut}
    {calls : List GroupCall} (rel : OperationRel a puts calls (.migrate newCfg old ver workers))
    (mine : WorkerRel a calls newCfg old s worker) :
    OperationRel a puts calls (.migrate newCfg old ver (Function.update workers s worker)) := by
  obtain ⟨past, known, later, others⟩ := rel
  refine ⟨past, known, later, fun s' => ?_⟩
  by_cases here : s' = s
  · subst here
    rw [Function.update_self]
    exact mine
  · rw [Function.update_of_ne here]
    exact others s'

/-- A goroutine is only ever at a stage whose request the protocol can send. -/
theorem stage_sent {stage : Stage} (known : Known a newCfg) (moves : old.shards s ≠ newCfg.shards s)
    (reached : StageRel a newCfg s stage) (i : Nat) :
    ∃ b, Step (a s) b ∧ (a s).Told b ∧
      CallRel (Function.update a s b) (System.callOf newCfg old i s stage) := by
  obtain ⟨bound, owned⟩ := known s
  cases stage with
  | freeze =>
    refine ⟨_, .sendFreeze bound (owned ▸ moves), rfl, ?_⟩
    dsimp only [CallRel, System.callOf, Stage.target]
    rw [Function.update_self]
    exact Or.inr ⟨rfl, rfl⟩
  | install state =>
    refine ⟨_, .sendInstall reached, rfl, ?_⟩
    dsimp only [CallRel, System.callOf, Stage.target]
    rw [Function.update_self]
    exact ⟨owned, Or.inr ⟨rfl, rfl⟩⟩
  | delete =>
    refine ⟨(a s).sendDelete (old.shards s) newCfg.num, .sendDelete reached, rfl, ?_⟩
    dsimp only [CallRel, System.callOf, Stage.target]
    rw [Function.update_self]
    exact Or.inr ⟨rfl, rfl⟩

theorem send (rel : Rel a σ) (moved : σ.send i s = some σ') : Simulates a σ' := by
  obtain ⟨newCfg, old, ver, workers, stage, call, found, running, rfl⟩ :=
    System.send_inversion moved
  have before := rel.promises.operations _ (List.mem_of_getElem? found)
  obtain ⟨_, known, _, others⟩ := before
  have worker := others s
  rw [running] at worker
  obtain ⟨moves, reached, _⟩ := worker
  obtain ⟨b, step, same, sent⟩ := stage_sent known moves reached i
  have told := rel.told step same
  have growth := (follows_update step).growth rel.inv
  refine ⟨_, follows_update step, told.frame ?_ rfl rfl rfl⟩
  have after := (rel.promises.operations _ (List.mem_of_getElem? found)).mono growth
    (.refl _) (.append σ.groupCalls [System.callOf newCfg old i s stage])
  have mine : WorkerRel (Function.update a s b)
      (σ.groupCalls ++ [System.callOf newCfg old i s stage]) newCfg old s
      (.running stage (some σ.groupCalls.length)) := by
    have before := after.2.2.2 s
    rw [running] at before
    refine ⟨moves, before.2.1, fun k mine => ?_⟩
    obtain rfl := Option.some.inj mine
    exact ⟨_, List.getElem?_concat_length, rfl⟩
  exact (told.promises.withCall told.inv sent).setOperation (setWorker after mine)

/-- A reply with which a goroutine goes on means what its next stage needs. -/
theorem stage_next {stage : Stage} {call : GroupCall} {reply : Reply} {worker : Worker}
    {calls : List GroupCall} (moves : old.shards s ≠ newCfg.shards s)
    (mine : (call.gid, call.request) = stage.target newCfg old s) (answered : ReplyRel a call reply)
    (next : stage.next reply = some worker) : WorkerRel a calls newCfg old s worker := by
  obtain ⟨gid, request, caller⟩ := call
  unfold Stage.next at next
  split at next
  · obtain ⟨rfl, rfl⟩ := Prod.mk.inj mine
    split at next
    · rename_i good
      obtain rfl := Option.some.inj next
      refine ⟨moves, answered.resolve_left ?_, nofun⟩
      rintro rfl
      rcases good with bad | bad <;> cases bad
    · cases next
  · obtain ⟨rfl, rfl⟩ := Prod.mk.inj mine
    split at next
    · rename_i good
      obtain rfl := Option.some.inj next
      refine ⟨moves, answered.resolve_left ?_, nofun⟩
      rintro rfl
      rcases good with bad | bad <;> cases bad
    · cases next
  · obtain ⟨rfl, rfl⟩ := Prod.mk.inj mine
    split at next
    · rename_i good
      obtain rfl := Option.some.inj next
      refine Or.inr (answered.resolve_left ?_)
      rintro rfl
      rcases good with bad | bad <;> cases bad
    · cases next
  · cases next

section

variable (rel : Rel a σ)

include rel

theorem receive (moved : σ.receive i s j = some σ') : Simulates a σ' := by
  obtain ⟨newCfg, old, ver, workers, stage, k, reply, found, running, replied, outcome⟩ :=
    System.receive_cases moved
  have before := rel.promises.operations _ (List.mem_of_getElem? found)
  rcases outcome with ⟨worker, next, rfl⟩ | ⟨_, rfl⟩
  · have waiting := before.2.2.2 s
    rw [running] at waiting
    obtain ⟨moves, _, sent⟩ := waiting
    obtain ⟨call, known, target⟩ := sent k rfl
    obtain ⟨call', known', answered⟩ := rel.promises.replies k reply replied
    obtain rfl : call = call' := Option.some.inj (known.symm.trans known')
    exact rel.still (rel.promises.setOperation
      (setWorker before (stage_next moves target answered next))) rfl rfl rfl
  · exact rel.still (rel.promises.setOperation trivial) rfl rfl rfl

theorem check (moved : σ.check i s = some σ') : Simulates a σ' := by
  obtain ⟨newCfg, old, ver, workers, found, rfl⟩ := System.check_inversion moved
  have before := rel.promises.operations _ (List.mem_of_getElem? found)
  exact rel.still (rel.promises.setOperation (setWorker before trivial)) rfl rfl rfl

theorem join (moved : σ.join i = some σ') : Simulates a σ' := by
  obtain ⟨newCfg, old, ver, workers, operation', found, outcome, rfl⟩ := System.join_cases moved
  refine rel.still (rel.promises.setOperation ?_) rfl rfl rfl
  rcases outcome with rfl | ⟨finished, rfl⟩
  · trivial
  · obtain ⟨⟨rfl, past⟩, known, later, others⟩ :=
      rel.promises.operations _ (List.mem_of_getElem? found)
    refine ⟨known, later, fun s => ?_⟩
    have done := others s
    rw [finished s] at done
    obtain ⟨early, owned⟩ := past s
    dsimp only
    rw [← owned]
    exact ⟨early, done⟩

theorem logged {event : Event} (noPut : event.isPut = false) (noFroze : event.isFroze = false) :
    Rel a { σ with log := event :: σ.log } where
  inv := rel.inv
  store := rel.store
  holders := rel.holders
  packable := rel.packable
  truth s := (rel.truth s).trans (truthOf_quiet noPut σ.log s).symm
  log := rel.log.cons noFroze
  promises := { rel.promises with }

theorem invoke (clerk : ClientId) (op : ClientOp) : Simulates a (σ.invoke clerk op) := by
  have after : Rel a { σ with log := .invoked σ.clients.length op :: σ.log } := rel.logged rfl rfl
  exact ⟨a, .refl a, after.frame { after.promises with } rfl rfl rfl⟩

theorem acquire (moved : σ.acquire i = some σ') : Simulates a σ' := by
  obtain ⟨client, _, _, _, rfl⟩ := System.acquire_inversion moved
  exact rel.still { rel.promises with } rfl rfl rfl

theorem attempt (moved : σ.attempt i q = some σ') : Simulates a σ' := by
  obtain ⟨client, call, gid, _, _, rfl⟩ := System.attempt_inversion moved
  have sent : CallRel a { gid, request := client.request, caller := .client i } := by
    unfold ClientCall.request
    split <;> exact ⟨i, rfl⟩
  exact rel.still { rel.promises.withCall rel.inv sent with } rfl rfl rfl

theorem answer (moved : σ.answer i j = some σ') : Simulates a σ' := by
  obtain ⟨client, k, reply, _, _, _, _, rfl⟩ := System.answer_inversion moved
  have after : Rel a { σ with log := .returned i reply :: σ.log } := rel.logged rfl rfl
  exact ⟨a, .refl a, after.frame { after.promises with } rfl rfl rfl⟩

end

end Rel

end KvStore.Shard

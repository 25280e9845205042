import KvStore.Shard.Simulation

set_option autoImplicit false

/-! A group executing a request is a move of the handoff protocol, for the shard the
request names and for every other shard the group holds. -/

namespace KvStore.Shard

variable {a a' : Shid → Protocol} {σ σ' : System} {k num : Nat} {s : Shid} {call : GroupCall}
  {kv kv' : KVServer} {reply : Reply}

namespace KVServer

@[simp] theorem setShard_holder (kv : KVServer) (s : Shid) (status : ShardStatus) (num : Nat) :
    (kv.setShard s status num).holder s = { status, num, copy := (kv.holder s).copy } := by
  simp [setShard, holder]

theorem setShard_other (kv : KVServer) {s s' : Shid} (status : ShardStatus) (num : Nat)
    (other : s' ≠ s) : (kv.setShard s status num).holder s' = kv.holder s' := by
  simp [setShard, holder, other]

@[simp] theorem erased_holder (kv : KVServer) (s : Shid) (num : Nat) :
    (kv.erased s num).holder s =
      { status := .absent, num, copy := ((kv.erased s num).holder s).copy } := by
  simp [erased, setShard, holder]

theorem erased_other (kv : KVServer) {s s' : Shid} (num : Nat) (other : s' ≠ s) :
    (kv.erased s num).holder s' = kv.holder s' := by
  simp [erased, setShard, holder, other]

end KVServer

namespace Rel

/-- Only groups, the item and its record of handoffs change. -/
theorem regroup (rel : Rel a σ) (follows : Follows a a') (found : σ.groupCalls[k]? = some call)
    (fixed : ∀ s, (a' s).owner = (a s).owner ∧ (a' s).current = (a s).current ∧
      (a' s).next = (a s).next)
    (holders : ∀ s g, (a' s).holders g = (Function.update σ.groups call.gid kv' g).holder s)
    (packable : kv'.Packable)
    (truth : ∀ s, (a' s).truth = truthOf (σ.replied k call kv' reply).log s)
    (log : LogRel a' (σ.replied k call kv' reply).log) (answered : ReplyRel a' call reply) :
    Rel a' (σ.replied k call kv' reply) where
  inv := follows.inv rel.inv
  store := by
    obtain ⟨cur, nxt, store⟩ := rel.store
    refine ⟨cur, nxt, store.current, store.next, fun s => ?_, fun s => ?_⟩
    · rw [(fixed s).1, (fixed s).2.1]
      exact store.currentAt s
    · rw [(fixed s).1, (fixed s).2.2]
      exact store.nextAt s
  holders := holders
  packable g := by
    dsimp only [System.replied]
    by_cases here : g = call.gid
    · rw [here, Function.update_self]
      exact packable
    · rw [Function.update_of_ne here]
      exact rel.packable g
  truth := truth
  log := log
  promises := (rel.promises.mono (follows.growth rel.inv)).reply found answered

/-- The group answers and stays as it is. -/
theorem unchanged (rel : Rel a σ) (found : σ.groupCalls[k]? = some call)
    (log : (σ.replied k call (σ.groups call.gid) reply).log = σ.log ∨
      ∃ event, (σ.replied k call (σ.groups call.gid) reply).log = event :: σ.log ∧
        event.isPut = false ∧ event.isFroze = false)
    (answered : ReplyRel a call reply) :
    Rel a (σ.replied k call (σ.groups call.gid) reply) := by
  refine rel.regroup (.refl a) found (fun _ => ⟨rfl, rfl, rfl⟩) ?_ (rel.packable _) ?_ ?_ answered
  · rw [Function.update_eq_self]
    exact rel.holders
  · rcases log with same | ⟨event, more, noPut, noFroze⟩
    · rw [same]
      exact rel.truth
    · rw [more]
      exact (rel.logged noPut noFroze).truth
  · rcases log with same | ⟨event, more, _, noFroze⟩
    · rw [same]
      exact rel.log
    · rw [more]
      exact rel.log.cons noFroze

theorem get (rel : Rel a σ) {key : String} (found : σ.groupCalls[k]? = some call)
    (request : call.request = .get key)
    (done : (σ.groups call.gid).doGet key = (kv', reply)) :
    Simulates a (σ.replied k call kv' reply) := by
  have same := (σ.groups call.gid).doGet_state key
  rw [done] at same
  dsimp only at same
  subst same
  have kind : ∃ value version err, reply = .get value version err := by
    have outcome := congrArg Prod.snd done
    dsimp only at outcome
    rw [← outcome]
    by_cases serving : (σ.groups call.gid).shardStatuses (key2Shard key) = .serving
    · rw [KVServer.doGet_serving serving]
      unfold getReply
      split <;> exact ⟨_, _, _, rfl⟩
    · rw [KVServer.doGet_refused serving]
      exact ⟨_, _, _, rfl⟩
  obtain ⟨value, version, err, rfl⟩ := kind
  have sent : CallRel a call := rel.promises.calls call (List.mem_of_getElem? found)
  obtain ⟨gid, _, caller⟩ := call
  dsimp only at request
  subst request
  obtain ⟨i, rfl⟩ := sent
  refine ⟨a, .refl a, rel.unchanged found ?_ trivial⟩
  dsimp only [System.replied, KVServer.accepted, KVServer.answered]
  split
  · exact Or.inr ⟨_, rfl, rfl, rfl⟩
  · exact Or.inl rfl

variable {g : Gid}

/-- One shard of one group changes. -/
theorem holders_update (rel : Rel a σ) {b : Protocol}
    (here : b.holders = Function.update (a s).holders g (kv'.holder s))
    (others : ∀ s', s' ≠ s → kv'.holder s' = (σ.groups g).holder s') :
    ∀ s' g', (Function.update a s b s').holders g' =
      (Function.update σ.groups g kv' g').holder s' := by
  intro s' g'
  by_cases shard : s' = s
  · subst shard
    rw [Function.update_self, here]
    by_cases group : g' = g
    · rw [group, Function.update_self, Function.update_self]
    · rw [Function.update_of_ne group, Function.update_of_ne group]
      exact rel.holders s' g'
  · rw [Function.update_of_ne shard, rel.holders]
    by_cases group : g' = g
    · rw [group, Function.update_self, others s' shard]
    · rw [Function.update_of_ne group]

/-- A serving group holds the shard as it is. -/
theorem serving_faithful (rel : Rel a σ) (serving : (σ.groups g).shardStatuses s = .serving) :
    Faithful (a s).truth ((σ.groups g).holder s).copy := by
  rw [← rel.holders]
  refine (rel.inv s).serving_faithful ?_
  rw [rel.holders]
  exact serving

theorem fixed_update {b : Protocol} (owner : b.owner = (a s).owner)
    (current : b.current = (a s).current) (next : b.next = (a s).next) (s' : Shid) :
    (Function.update a s b s').owner = (a s').owner ∧
      (Function.update a s b s').current = (a s').current ∧
      (Function.update a s b s').next = (a s').next :=
  ⟨update_same (·.owner) owner s', update_same (·.current) current s',
    update_same (·.next) next s'⟩

/-- The log once the shard is frozen, when it is frozen for the first time. -/
theorem frozen_log (rel : Rel a σ) {b : Protocol} (step : Step (a s) b)
    (records : b.frozenAs = Function.update (a s).frozenAs num (some (g, (a s).truth)))
    (installed : b.installed = (a s).installed) :
    LogRel (Function.update a s b) (.froze g s num (a s).truth.kv :: σ.log) := by
  have recorded : b.frozenAs num = some (g, (a s).truth) := by
    rw [records, Function.update_self]
  refine ⟨?_, ?_, ?_⟩
  · intro g' s' n kv member
    rcases List.mem_cons.mp member with same | old
    · cases same
      rw [Function.update_self]
      exact ⟨_, recorded, rfl⟩
    · obtain ⟨truth, known, rfl⟩ := rel.log.froze g' s' n kv old
      refine ⟨truth, ?_, rfl⟩
      by_cases shard : s' = s
      · subst shard
        rw [Function.update_self]
        exact ((rel.inv s').grows step).frozenAs n _ known
      · rw [Function.update_of_ne shard]
        exact known
  · intro s' n g' truth known
    by_cases shard : s' = s
    · subst shard
      rw [Function.update_self] at known
      by_cases fresh : n = num
      · subst fresh
        obtain ⟨rfl, rfl⟩ := Prod.mk.inj (Option.some.inj (recorded.symm.trans known))
        exact List.mem_cons_self ..
      · rw [records, Function.update_of_ne fresh] at known
        exact List.mem_cons_of_mem _ (rel.log.frozenAs s' n g' truth known)
    · rw [Function.update_of_ne shard] at known
      exact List.mem_cons_of_mem _ (rel.log.frozenAs s' n g' truth known)
  · intro s' n done
    rw [update_same (·.installed) installed] at done
    obtain ⟨g', state, held, member⟩ := rel.log.installed s' n done
    exact ⟨g', state, held, List.mem_cons_of_mem _ member⟩

theorem freezeShard (rel : Rel a σ) (found : σ.groupCalls[k]? = some call)
    (request : call.request = .freezeShard s num)
    (done : (σ.groups call.gid).doFreezeShard s num = some (kv', reply)) :
    Simulates a (σ.replied k call kv' reply) := by
  have sent : CallRel a call := rel.promises.calls call (List.mem_of_getElem? found)
  obtain ⟨gid, _, caller⟩ := call
  dsimp only at request
  subst request
  have held := rel.holders s gid
  change (a s).freezes gid num at sent
  rcases KVServer.doFreezeShard_cases done with ⟨later, serving, state, packed, rfl, rfl⟩ |
    ⟨same, idle, state, packed, rfl, rfl⟩ | ⟨late, rfl, rfl⟩ | ⟨refused, rfl, at_, rfl⟩
  · have step : Step (a s) (((a s).freeze gid num ((a s).holders gid).copy).ship num
        (some state)) := by
      refine .freeze sent ?_ ?_ ?_ <;> rw [held]
      · exact serving
      · exact later
      · exact fun faithful => faithful.packed packed
    have data : (σ.groups gid).kvm s = some (a s).truth.kv := (rel.serving_faithful serving).1
    have log : (σ.replied k { gid, request := .freezeShard s num, caller }
        ((σ.groups gid).setShard s .frozen num) (.freezeShard (some state) num .ok)).log =
        .froze gid s num (a s).truth.kv :: σ.log := by
      simp [System.replied, KVServer.accepted, KVServer.answered, later, serving, data]
    refine ⟨_, follows_update step, rel.regroup (follows_update step) found
      (fixed_update rfl rfl rfl) ?_ (rel.packable gid) ?_ ?_ (Or.inr ?_)⟩
    · refine rel.holders_update ?_ fun s' other => KVServer.setShard_other _ _ _ other
      rw [KVServer.setShard_holder, ← held]
      rfl
    · intro s'
      rw [log, truthOf_quiet rfl, ← rel.truth s']
      exact update_same (·.truth) (by rfl) s'
    · rw [log]
      exact rel.frozen_log step rfl rfl
    · rw [Function.update_self]
      exact Or.inr ⟨rfl, rfl⟩
  · have step : Step (a s) ((a s).ship num (some state)) := by
      refine .refreeze sent ?_ ?_ ?_ <;> rw [held]
      · exact idle
      · exact same.symm
      · exact fun _ faithful => faithful.packed packed
    refine ⟨_, follows_update step, (rel.told step rfl).unchanged found (Or.inl ?_) (Or.inr ?_)⟩
    · simp [System.replied, KVServer.accepted, KVServer.answered, idle]
    · rw [Function.update_self]
      exact Or.inr ⟨rfl, rfl⟩
  · have step : Step (a s) ((a s).ship num none) := by
      refine .freezeLate sent ?_
      rw [held]
      exact late
    refine ⟨_, follows_update step, (rel.told step rfl).unchanged found (Or.inl ?_) (Or.inr ?_)⟩
    · simp [System.replied, KVServer.accepted, KVServer.answered, Nat.not_lt_of_lt late]
    · rw [Function.update_self]
      exact Or.inr ⟨rfl, rfl⟩
  · refine ⟨a, .refl a, rel.unchanged found (Or.inl ?_) (Or.inl rfl)⟩
    simp [System.replied, KVServer.accepted, KVServer.answered, refused]

theorem deleteShard (rel : Rel a σ) (found : σ.groupCalls[k]? = some call)
    (request : call.request = .deleteShard s num)
    (done : (σ.groups call.gid).doDeleteShard s num = (kv', reply)) :
    Simulates a (σ.replied k call kv' reply) := by
  have sent : CallRel a call := rel.promises.calls call (List.mem_of_getElem? found)
  obtain ⟨gid, _, caller⟩ := call
  dsimp only at request
  subst request
  have held := rel.holders s gid
  change (a s).deletes gid num at sent
  rcases (σ.groups gid).doDeleteShard_cases s num with ⟨frozen, same, outcome⟩ |
    ⟨known, outcome⟩ | ⟨refused, outcome⟩ <;>
    obtain ⟨rfl, rfl⟩ := Prod.mk.inj (done.symm.trans outcome)
  · have step : Step (a s) (((a s).delete gid num
        (((σ.groups gid).erased s num).holder s).copy).erase gid num) := by
      refine .delete sent ?_ ?_ <;> rw [held]
      · exact frozen
      · exact same.symm
    have log : (σ.replied k { gid, request := .deleteShard s num, caller }
        ((σ.groups gid).erased s num) (.deleteShard .ok)).log =
        .deleted gid s num :: σ.log := by
      simp [System.replied, KVServer.accepted, KVServer.answered, frozen, same]
    refine ⟨_, follows_update step, rel.regroup (follows_update step) found
      (fixed_update rfl rfl rfl) ?_ (KVServer.erased_packable (rel.packable gid) s num) ?_ ?_
      (Or.inr ?_)⟩
    · refine rel.holders_update ?_ fun s' other => KVServer.erased_other _ _ other
      rw [KVServer.erased_holder]
      rfl
    · intro s'
      rw [log, truthOf_quiet rfl, ← rel.truth s']
      exact update_same (·.truth) (by rfl) s'
    · rw [log]
      refine LogRel.cons ⟨?_, ?_, ?_⟩ rfl
      · intro g s' n kv member
        rw [update_same (·.frozenAs) (by rfl)]
        exact rel.log.froze g s' n kv member
      · intro s' n g truth known
        rw [update_same (·.frozenAs) (by rfl)] at known
        exact rel.log.frozenAs s' n g truth known
      · intro s' n installed
        rw [update_same (·.installed) (by rfl)] at installed
        exact rel.log.installed s' n installed
    · rw [Function.update_self]
      exact Or.inr ⟨rfl, rfl⟩
  · have step : Step (a s) ((a s).erase gid num) := by
      refine .redelete sent ?_
      rw [held]
      exact known.imp_left fun ⟨absent, same⟩ => ⟨absent, same.symm⟩
    refine ⟨_, follows_update step, (rel.told step rfl).unchanged found (Or.inl ?_) (Or.inr ?_)⟩
    · have quiet : ¬(num = (σ.groups gid).cfgNumByShid s ∧
          (σ.groups gid).shardStatuses s = .frozen) := by
        rintro ⟨same, frozen⟩
        rcases known with ⟨absent, _⟩ | late
        · rw [absent] at frozen
          cases frozen
        · omega
      simp [System.replied, KVServer.accepted, KVServer.answered, quiet]
    · rw [Function.update_self]
      exact Or.inr ⟨rfl, rfl⟩
  · refine ⟨a, .refl a, rel.unchanged found (Or.inl ?_) (Or.inl rfl)⟩
    simp [System.replied, KVServer.accepted, KVServer.answered, refused]

/-- What one group holds of a shard changes, with the shard itself if the group serves it. -/
theorem evolves (rel : Rel a σ) {t : Truth}
    (status : kv'.shardStatuses s = (σ.groups g).shardStatuses s)
    (num : kv'.cfgNumByShid s = (σ.groups g).cfgNumByShid s)
    (follows : Faithful (a s).truth ((σ.groups g).holder s).copy → Faithful t (kv'.holder s).copy)
    (served : t = (a s).truth ∨ (σ.groups g).shardStatuses s = .serving) :
    Step (a s) { a s with
      holders := fun g' => (Function.update σ.groups g kv' g').holder s, truth := t } := by
  have others : ∀ g', g' ≠ g →
      (Function.update σ.groups g kv' g').holder s = (a s).holders g' := fun g' other => by
    rw [Function.update_of_ne other, rel.holders]
  have serves : ∀ g', ((a s).holders g').status = (σ.groups g').shardStatuses s := fun g' => by
    rw [rel.holders]
    rfl
  refine .evolve ?_ ?_ ?_ ?_
  · intro g'
    by_cases here : g' = g
    · rw [here, Function.update_self, serves]
      exact status
    · rw [others g' here]
  · intro g'
    by_cases here : g' = g
    · rw [here, Function.update_self, rel.holders]
      exact num
    · rw [others g' here]
  · intro g' faithful current
    by_cases here : g' = g
    · rw [here, Function.update_self]
      rw [here, rel.holders] at faithful
      exact follows faithful
    · rw [others g' here]
      have same : t = (a s).truth := by
        rcases served with same | serving
        · exact same
        · refine current.resolve_left fun other => here ?_
          exact (rel.inv s).exclusive other ((serves g).trans serving)
      rw [same]
      exact faithful
  · refine served.imp_right fun serving => ⟨g, ?_⟩
    rw [serves]
    exact serving

/-- The protocol when a group takes a shard over: the records of last Puts of its other
shards grow with it. -/
def installedAs (a : Shid → Protocol) (groups : Gid → KVServer) (s : Shid) (num : Nat)
    (copy : Copy) : Shid → Protocol :=
  Function.update (fun s' => { a s' with holders := fun g => (groups g).holder s' }) s
    (((a s).install num copy).accept num)

theorem installedAs_same {α : Type} (f : Protocol → α) {groups : Gid → KVServer} {copy : Copy}
    (other : ∀ s' holders, f { a s' with holders } = f (a s'))
    (here : f (((a s).install num copy).accept num) = f (a s)) (s' : Shid) :
    f (installedAs a groups s num copy s') = f (a s') := by
  unfold installedAs
  by_cases shard : s' = s
  · rw [shard, Function.update_self, here]
  · rw [Function.update_of_ne shard, other]

theorem installed_log (rel : Rel a σ) {groups : Gid → KVServer} {copy : Copy} {state : Packed}
    {held : Option (KvMap String String)} :
    LogRel (installedAs a groups s num copy) (.installed g s num state held :: σ.log) := by
  have frozenAs : ∀ s', (installedAs a groups s num copy s').frozenAs = (a s').frozenAs :=
    installedAs_same (·.frozenAs) (fun _ _ => rfl) rfl
  refine ⟨?_, ?_, ?_⟩
  · intro g' s' n kv member
    rw [frozenAs]
    rcases List.mem_cons.mp member with same | old
    · cases same
    · exact rel.log.froze g' s' n kv old
  · intro s' n g' truth known
    rw [frozenAs] at known
    exact List.mem_cons_of_mem _ (rel.log.frozenAs s' n g' truth known)
  · intro s' n done
    unfold installedAs at done
    by_cases shard : s' = s
    · subst shard
      rw [Function.update_self] at done
      rcases done with old | rfl
      · obtain ⟨g', state', held', member⟩ := rel.log.installed s' n old
        exact ⟨g', state', held', List.mem_cons_of_mem _ member⟩
      · exact ⟨g, state, held, List.mem_cons_self ..⟩
    · rw [Function.update_of_ne shard] at done
      obtain ⟨g', state', held', member⟩ := rel.log.installed s' n done
      exact ⟨g', state', held', List.mem_cons_of_mem _ member⟩

theorem install_accepted (rel : Rel a σ) {gid : Gid} {caller : Caller} {state : Packed}
    {loaded : KVServer}
    (found : σ.groupCalls[k]? = some { gid, request := .installShard s state num, caller })
    (later : (σ.groups gid).cfgNumByShid s < num)
    (absent : (σ.groups gid).shardStatuses s = .absent)
    (unpacked : (σ.groups gid).installShardState s state = some loaded) :
    Simulates a (σ.replied k { gid, request := .installShard s state num, caller }
      (loaded.setShard s .serving num) (.installShard .ok)) := by
  obtain ⟨rfl, sent⟩ : CallRel a _ := rel.promises.calls _ (List.mem_of_getElem? found)
  have held := rel.holders s ((a s).owner num)
  obtain ⟨shardState, rfl, shape⟩ := KVServer.installShardState_cases unpacked
  have step : Step (a s) (((a s).install num
      ((loaded.setShard s .serving num).holder s).copy).accept num) := by
    refine .install sent ?_ ?_ fun carries => carries.unpacked unpacked <;> rw [held]
    · exact absent
    · exact later
  have other : ∀ s', s' ≠ s → Step (a s') { a s' with
      holders := fun g => (Function.update σ.groups ((a s).owner num)
        (loaded.setShard s .serving num) g).holder s' } := by
    intro s' differs
    have same := loaded.setShard_other .serving num differs
    refine rel.evolves ?_ ?_ (fun faithful => ?_) (Or.inl rfl)
    · exact (congrArg (·.status) same).trans (by rw [shape])
    · exact (congrArg (·.num) same).trans (by rw [shape])
    · rw [same, shape]
      refine faithful.mono ?_ ?_ fun client requestId reached => KVServer.merged_reached reached
      · exact Function.update_of_ne differs ..
      · exact Function.update_of_ne differs ..
  have follows : Follows a (installedAs a (Function.update σ.groups ((a s).owner num)
      (loaded.setShard s .serving num)) s num
      ((loaded.setShard s .serving num).holder s).copy) := by
    intro s'
    unfold installedAs
    by_cases shard : s' = s
    · rw [shard, Function.update_self]
      exact Or.inr step
    · rw [Function.update_of_ne shard]
      exact Or.inr (other s' shard)
  have log : (σ.replied k
      ⟨(a s).owner num, .installShard s (some shardState) num, caller⟩
      (loaded.setShard s .serving num) (.installShard .ok)).log =
      .installed ((a s).owner num) s num (some shardState)
        (((σ.groups ((a s).owner num)).doInstallShard s (some shardState) num).bind
          (·.1.kvm s)) :: σ.log := by
    simp [System.replied, KVServer.accepted, KVServer.answered, later, absent]
  have packable : loaded.Packable :=
    KVServer.installShardState_packable (rel.packable _) unpacked
  refine ⟨_, follows, rel.regroup follows found ?_ ?_ packable ?_ ?_ (Or.inr ?_)⟩
  · exact fun s' => ⟨installedAs_same (·.owner) (fun _ _ => rfl) rfl s',
      installedAs_same (·.current) (fun _ _ => rfl) rfl s',
      installedAs_same (·.next) (fun _ _ => rfl) rfl s'⟩
  · intro s' g
    unfold installedAs
    by_cases shard : s' = s
    · rw [shard, Function.update_self]
      dsimp only [Handoff.State.install, Handoff.State.accept, Handoff.State.setHolder]
      by_cases group : g = (a s).owner num
      · rw [group, Function.update_self, Function.update_self, KVServer.setShard_holder]
      · rw [Function.update_of_ne group, Function.update_of_ne group]
        exact rel.holders s g
    · rw [Function.update_of_ne shard]
  · intro s'
    rw [log, truthOf_quiet rfl, ← rel.truth s']
    exact installedAs_same (·.truth) (fun _ _ => rfl) rfl s'
  · rw [log]
    exact rel.installed_log
  · dsimp only [installedAs]
    rw [Function.update_self]
    exact Or.inr rfl

theorem installShard (rel : Rel a σ) {state : Packed} (found : σ.groupCalls[k]? = some call)
    (request : call.request = .installShard s state num)
    (done : (σ.groups call.gid).doInstallShard s state num = some (kv', reply)) :
    Simulates a (σ.replied k call kv' reply) := by
  have sent : CallRel a call := rel.promises.calls call (List.mem_of_getElem? found)
  obtain ⟨gid, _, caller⟩ := call
  dsimp only at request
  subst request
  have held := rel.holders s gid
  rcases KVServer.doInstallShard_cases done with ⟨later, absent, loaded, unpacked, rfl, rfl⟩ |
    ⟨known, rfl, rfl⟩ | ⟨refused, rfl, rfl⟩
  · exact rel.install_accepted found later absent unpacked
  · obtain ⟨there, sent⟩ := sent
    dsimp only at there
    have step : Step (a s) ((a s).accept num) := by
      refine .reinstall sent ?_
      rw [← there, held]
      exact known.imp_left fun ⟨serving, same⟩ => ⟨serving, same.symm⟩
    refine ⟨_, follows_update step, (rel.told step rfl).unchanged found (Or.inl ?_) (Or.inr ?_)⟩
    · have quiet : ¬((σ.groups gid).cfgNumByShid s < num ∧
          (σ.groups gid).shardStatuses s = .absent) := by
        rintro ⟨later, absent⟩
        dsimp only at known
        omega
      simp [System.replied, KVServer.accepted, KVServer.answered, quiet]
    · rw [Function.update_self]
      exact Or.inr rfl
  · refine ⟨a, .refl a, rel.unchanged found (Or.inl ?_) (Or.inl rfl)⟩
    simp [System.replied, KVServer.accepted, KVServer.answered, refused]

end Rel

/-- A Put that passes the duplicate check is newer than what is recorded. -/
theorem KVServer.put_reached {clientId requestId : Nat} {err : Err}
    (fresh : kv.duplicate clientId requestId = none) {client : ClientId} {earlier : Nat}
    (reached : KVServer.Reached kv.lastPutByClientId client earlier) :
    KVServer.Reached (Function.update kv.lastPutByClientId clientId (some { requestId, err }))
      client earlier := by
  obtain ⟨lastPut, found, bound⟩ := reached
  by_cases here : client = clientId
  · subst here
    refine ⟨{ requestId, err }, Function.update_self .., ?_⟩
    have late : ¬requestId ≤ lastPut.requestId := by
      simpa [duplicate, found] using fresh
    dsimp only
    omega
  · exact ⟨lastPut, by rw [Function.update_of_ne here, found], bound⟩

@[simp] theorem onShard_put (kvm : KvMap String String) (key value : String) (version : Nat) :
    ((onShard (key2Shard key) kvm).put key value version).1 =
      onShard (key2Shard key) (kvm.put key value version).1 := by
  have here : onShard (key2Shard key) kvm key = kvm key := by simp [onShard]
  funext other
  by_cases same : other = key
  · subst same
    rw [(KvMap.put_congr here value version).1]
    simp [onShard]
  · rw [KvMap.put_other _ _ _ same]
    unfold onShard
    rw [KvMap.put_other _ _ _ same]

theorem onShard_put_other {key : String} (kvm : KvMap String String) (value : String)
    (version : Nat) (other : s ≠ key2Shard key) :
    onShard s (kvm.put key value version).1 = onShard s kvm := by
  funext key'
  unfold onShard
  split
  · rename_i here
    refine KvMap.put_other _ _ _ ?_
    rintro rfl
    exact other here.symm
  · rfl

section Put

variable {gid : Gid} {i clientId requestId version : Nat} {key value : String} {log : List Event}

theorem executedOn_put {client earlier : Nat} :
    ExecutedOn (.executed gid i (.put clientId requestId key value version) reply :: log) s
      client earlier ↔
    (client = clientId ∧ earlier = requestId ∧ key2Shard key = s) ∨
      ExecutedOn log s client earlier := by
  constructor
  · rintro ⟨g, j, key', value', version', reply', member, here⟩
    rcases List.mem_cons.mp member with same | old
    · cases same
      exact Or.inl ⟨rfl, rfl, here⟩
    · exact Or.inr ⟨g, j, key', value', version', reply', old, here⟩
  · rintro (⟨rfl, rfl, here⟩ | ⟨g, j, key', value', version', reply', old, here⟩)
    · exact ⟨gid, i, key, value, version, reply, List.mem_cons_self .., here⟩
    · exact ⟨g, j, key', value', version', reply', List.mem_cons_of_mem _ old, here⟩

theorem truthOf_put_other (other : s ≠ key2Shard key) :
    truthOf (.executed gid i (.put clientId requestId key value version) reply :: log) s =
      truthOf log s := by
  unfold truthOf
  congr 1
  · exact onShard_put_other _ _ _ other
  · funext client earlier
    rw [executedOn_put, eq_iff_iff]
    exact or_iff_right fun same => other same.2.2.symm

/-- A Put that passes the duplicate check does to the group what it does to the shard. -/
theorem Faithful.put {kvshard : Option (KvMap String String)} {err : Err}
    {clients : List ClientId}
    (faithful : Faithful (truthOf log (key2Shard key)) (kv.holder (key2Shard key)).copy)
    (fresh : kv.duplicate clientId requestId = none)
    (written : kv.writeShard (key2Shard key) key value version = some (kvshard, err))
    (present : kv.shardClients (key2Shard key) = some clients) :
    Faithful
      (truthOf (.executed gid i (.put clientId requestId key value version) reply :: log)
        (key2Shard key))
      ((kv.afterPut clientId requestId key kvshard err clients).holder (key2Shard key)).copy := by
  obtain ⟨data, listed, known, reached⟩ := faithful
  have held : kv.kvm (key2Shard key) = some (onShard (key2Shard key) (mapOf log)) := data
  have same : kv.shardClients (key2Shard key) = some listed := known
  obtain rfl := Option.some.inj (present.symm.trans same)
  rw [KVServer.writeShard, held] at written
  obtain ⟨rfl, rfl⟩ := Prod.mk.inj (Option.some.inj written)
  refine ⟨?_, _, Function.update_self .., ?_⟩
  · dsimp only [KVServer.holder, KVServer.afterPut, truthOf]
    rw [Function.update_self, onShard_put]
    rfl
  · intro client earlier executed
    rcases executedOn_put.mp executed with ⟨rfl, rfl, _⟩ | old
    · refine ⟨?_, _, Function.update_self .., le_rfl⟩
      split
      · assumption
      · exact List.mem_cons_self ..
    · obtain ⟨member, before⟩ := reached client earlier old
      refine ⟨?_, KVServer.put_reached fresh before⟩
      split
      · exact member
      · exact List.mem_cons_of_mem _ member

namespace Rel

theorem put_executed (rel : Rel a σ) {kvshard : Option (KvMap String String)} {err : Err}
    {clients : List ClientId}
    (found : σ.groupCalls[k]? =
      some ⟨gid, .put clientId requestId key value version, .client i⟩)
    (serving : (σ.groups gid).shardStatuses (key2Shard key) = .serving)
    (fresh : (σ.groups gid).duplicate clientId requestId = none)
    (written : (σ.groups gid).writeShard (key2Shard key) key value version = some (kvshard, err))
    (present : (σ.groups gid).shardClients (key2Shard key) = some clients) :
    Simulates a (σ.replied k ⟨gid, .put clientId requestId key value version, .client i⟩
      ((σ.groups gid).afterPut clientId requestId key kvshard err clients) (.put err)) := by
  have log : (σ.replied k ⟨gid, .put clientId requestId key value version, .client i⟩
      ((σ.groups gid).afterPut clientId requestId key kvshard err clients) (.put err)).log =
      .executed gid i (.put clientId requestId key value version) (.put err) :: σ.log := by
    simp [System.replied, KVServer.accepted, KVServer.answered, serving, fresh]
  have follows : Follows a (fun s => { a s with
      holders := fun g => (Function.update σ.groups gid
        ((σ.groups gid).afterPut clientId requestId key kvshard err clients) g).holder s
      truth := truthOf (.executed gid i (.put clientId requestId key value version) (.put err) ::
        σ.log) s }) := by
    intro s
    refine Or.inr (rel.evolves rfl rfl ?_ ?_)
    · rw [rel.truth]
      intro faithful
      by_cases shard : s = key2Shard key
      · subst shard
        exact faithful.put fresh written present
      · rw [truthOf_put_other shard]
        refine faithful.mono ?_ ?_ fun client earlier => KVServer.put_reached fresh
        · exact Function.update_of_ne shard ..
        · exact Function.update_of_ne shard ..
    · by_cases shard : s = key2Shard key
      · subst shard
        exact Or.inr serving
      · rw [truthOf_put_other shard, rel.truth]
        exact Or.inl rfl
  refine ⟨_, follows, rel.regroup follows found (fun _ => ⟨rfl, rfl, rfl⟩) (fun _ _ => rfl)
    (KVServer.afterPut_packable (rel.packable gid) present) ?_ ?_ trivial⟩
  · rw [log]
    exact fun _ => rfl
  · rw [log]
    have same : LogRel a (.executed gid i (.put clientId requestId key value version) (.put err) ::
        σ.log) := rel.log.cons rfl
    exact ⟨same.froze, same.frozenAs, same.installed⟩

theorem executePut (rel : Rel a σ) (found : σ.groupCalls[k]? = some call)
    (request : call.request = .put clientId requestId key value version)
    (done : (σ.groups call.gid).doPut clientId requestId key value version =
      some (kv', reply)) : Simulates a (σ.replied k call kv' reply) := by
  have sent : CallRel a call := rel.promises.calls call (List.mem_of_getElem? found)
  obtain ⟨gid, _, caller⟩ := call
  dsimp only at request
  subst request
  obtain ⟨i, same⟩ := sent
  dsimp only at same
  subst same
  rcases KVServer.doPut_cases done with ⟨refused, rfl, rfl⟩ | ⟨serving, lastPut, known, rfl, rfl⟩ |
    ⟨serving, fresh, kvshard, err, clients, written, present, rfl, rfl⟩
  · refine ⟨a, .refl a, rel.unchanged found (Or.inl ?_) trivial⟩
    simp [System.replied, KVServer.accepted, KVServer.answered, refused]
  · refine ⟨a, .refl a, rel.unchanged found (Or.inl ?_) trivial⟩
    simp [System.replied, KVServer.accepted, KVServer.answered, known]
  · exact rel.put_executed found serving fresh written present

end Rel

end Put

/-- No request that is ever sent kills a group. -/
theorem Rel.lives (rel : Rel a σ) (found : σ.groupCalls[k]? = some call) :
    (σ.groups call.gid).doOp call.request ≠ none := by
  have sent : CallRel a call := rel.promises.calls call (List.mem_of_getElem? found)
  obtain ⟨gid, request, caller⟩ := call
  have packs := (rel.packable gid).marshall
  cases request with
  | get key => nofun
  | put clientId requestId key value version =>
    dsimp only [KVServer.doOp, KVServer.doPut]
    split
    · nofun
    · rename_i serving
      obtain ⟨data, clients, listed, _⟩ := rel.serving_faithful (not_not.mp serving)
      have held : (σ.groups gid).kvm (key2Shard key) = some (a (key2Shard key)).truth.kv := data
      have known : (σ.groups gid).shardClients (key2Shard key) = some clients := listed
      split
      · nofun
      · rw [KVServer.writeShard, held, known]
        nofun
  | freezeShard s num =>
    obtain ⟨state, packed⟩ := packs s
    have after : ((σ.groups gid).setShard s .frozen num).marshallShardState s = some state := packed
    dsimp only [KVServer.doOp, KVServer.doFreezeShard]
    rw [after, packed]
    split <;> split <;> (try split) <;> nofun
  | installShard s state num =>
    dsimp only [KVServer.doOp, KVServer.doInstallShard]
    split
    · rename_i later
      split
      · rename_i absent
        obtain ⟨there, sent⟩ := sent
        dsimp only at there
        subst there
        have held := rel.holders s ((a s).owner num)
        obtain ⟨_, _, shardState, rfl, _⟩ := (rel.inv s).install_pending sent
          (by rw [held]; exact absent) (by rw [held]; exact later)
        nofun
      · nofun
    · split <;> (try split) <;> nofun
  | deleteShard s num => nofun

theorem Rel.execute (rel : Rel a σ) (moved : σ.execute k = some σ') : Simulates a σ' := by
  obtain ⟨call, found, outcome⟩ := System.execute_cases moved
  rcases outcome with ⟨kv', reply, done, rfl⟩ | ⟨died, _⟩
  · cases request : call.request with
    | get key =>
      rw [request] at done
      exact rel.get found request (Option.some.inj done)
    | put clientId requestId key value version =>
      rw [request] at done
      exact rel.executePut found request done
    | freezeShard s num =>
      rw [request] at done
      exact rel.freezeShard found request done
    | installShard s state num =>
      rw [request] at done
      exact rel.installShard found request done
    | deleteShard s num =>
      rw [request] at done
      exact rel.deleteShard found request (Option.some.inj done)
  · exact absurd died (rel.lives found)

namespace System

/-- The protocol at the start: everything is on `gid1`, for configuration 1. -/
def initialProtocol (s : Shid) : Protocol where
  owner _ := gid1
  current := 1
  next := 1
  holders g := (KVServer.start g).holder s
  truth := truthOf [] s
  frozenAs _ := none
  installed _ := False
  freezes _ _ := False
  installs _ _ := False
  deletes _ _ := False
  shipped _ _ := False
  accepted _ := False
  erased _ _ := False

theorem initialProtocol_inv (s : Shid) : Inv (initialProtocol s) := by
  have source : (KVServer.start gid1).holder s = { status := .serving, num := 1, copy :=
      { kvm := some KvMap.empty, clients := some [], lastPuts := fun _ => none } } := rfl
  have others : ∀ g, g ≠ gid1 → ((KVServer.start g).holder s).status = .absent ∧
      ((KVServer.start g).holder s).num ≤ 1 := by
    intro g differs
    simp [KVServer.start, KVServer.holder, differs]
  refine ⟨⟨le_rfl, Nat.le_succ _⟩, fun _ _ => False.elim, fun _ _ => False.elim,
    fun _ _ => False.elim, fun _ => False.elim, fun _ _ => False.elim, fun _ _ => False.elim,
    fun k recorded => absurd rfl recorded, ?_, ?_, Or.inl ?_⟩
  · intro k _ absent
    cases absent
  · intro g serving k _ _
    by_contra differs
    rw [initialProtocol, (others g (Ne.symm differs)).1] at serving
    cases serving
  · refine ⟨rfl, le_rfl, ⟨?_, [], rfl, ?_⟩, others, fun _ _ => False.elim, fun _ => False.elim,
      fun k recorded => absurd rfl recorded⟩
    · refine congrArg some (funext fun key => ?_)
      simp [initialProtocol, truthOf, onShard, mapOf, KvMap.empty]
    · rintro client requestId ⟨_, _, _, _, _, _, member, _⟩
      cases member

theorem init_rel (servers : List String) : Rel initialProtocol (init servers) where
  inv := initialProtocol_inv
  store := ⟨initialConfig servers, initialConfig servers, rfl, rfl, fun _ => ⟨rfl, rfl⟩,
    fun _ => ⟨rfl, rfl⟩⟩
  holders _ _ := rfl
  packable _ _ _ member := by cases member
  truth _ := rfl
  log := ⟨nofun, nofun, nofun⟩
  promises := ⟨nofun, nofun, nofun, nofun, nofun, nofun⟩

end System

/-- Every step of the system is followed by the protocol. -/
theorem Rel.step (rel : Rel a σ) {action : Action} (moved : σ.step action = some σ') :
    Simulates a σ' := by
  cases action with
  | query => exact rel.query moved
  | storeExecute k => exact rel.storeExecute moved
  | execute k => exact rel.execute moved
  | initController =>
    obtain rfl := Option.some.inj moved
    exact rel.still (rel.promises.addOperation trivial) rfl rfl rfl
  | changeConfigTo q newCfg => exact rel.changeConfigTo moved
  | read i => exact rel.read moved
  | put i => exact rel.put moved
  | putReply i j => exact rel.putReply moved
  | send i s => exact rel.send moved
  | receive i s j => exact rel.receive moved
  | check i s => exact rel.check moved
  | join i => exact rel.join moved
  | invoke clerk op =>
    obtain rfl := Option.some.inj moved
    exact rel.invoke clerk op
  | acquire i => exact rel.acquire moved
  | attempt i q => exact rel.attempt moved
  | answer i j => exact rel.answer moved

end KvStore.Shard

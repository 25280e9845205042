import Mathlib.Data.List.Nodup
import KvStore.Kv.KvSrv
import KvStore.Lib.Slots

set_option autoImplicit false

/-! What the clerks of kvsrv may conclude from what a Put returns. -/

namespace KvStore.KvSrv

/-- How the calls, the attempts and the history of writes belong together. -/
structure Coherent (σ : System) : Prop where
  owner : ∀ (a : Nat) (attempt : Attempt), σ.attempts[a]? = some attempt →
    ∃ call : Call, σ.calls[attempt.call]? = some call ∧ call.args = attempt.args
  current : ∀ (c : Nat) (call : Call), σ.calls[c]? = some call →
    ∃ attempt : Attempt, σ.attempts[call.attempt]? = some attempt ∧ attempt.call = c
  first : ∀ (c : Nat) (call : Call), σ.calls[c]? = some call → call.resent = false →
    ∀ (a : Nat) (attempt : Attempt), σ.attempts[a]? = some attempt → attempt.call = c →
      a = call.attempt
  result : ∀ (c : Nat) (call : Call) (result : Reply), σ.calls[c]? = some call →
    call.result = some result →
    ∃ (attempt : Attempt) (reply : Reply), σ.attempts[call.attempt]? = some attempt ∧
      attempt.reply = some reply ∧ call.returns reply = some result
  genuine : ∀ w ∈ σ.writes, ∃ attempt : Attempt, σ.attempts[w.attempt]? = some attempt ∧
    attempt.call = w.call ∧ attempt.args = .put w.key w.value w.version ∧
    attempt.reply = some (.put .ok)
  recorded : ∀ (a : Nat) (attempt : Attempt), σ.attempts[a]? = some attempt →
    attempt.reply = some (.put .ok) → ∃ w ∈ σ.writes, w.call = attempt.call

/-- The writes of every key follow one another, and the map holds the last of them. -/
structure Chained (σ : System) : Prop where
  versions : ∀ key, (σ.chain key).map (·.version) = List.range (σ.kvm.versionOf key)
  value : ∀ key, (σ.kvm key).map (·.value) = (σ.chain key).getLast?.map (·.value)

variable {σ σ' : System} {action : Action}

theorem init_coherent : Coherent System.init where
  owner a attempt found := by simp [System.init] at found
  current c call found := by simp [System.init] at found
  first c call found := by simp [System.init] at found
  result c call result found := by simp [System.init] at found
  genuine w member := by simp [System.init] at member
  recorded a attempt found := by simp [System.init] at found

theorem init_chained : Chained System.init where
  versions _ := rfl
  value _ := rfl

theorem mem_written {call attempt : Nat} {args : Args} {reply : Reply} {w : Write} :
    w ∈ written call attempt args reply ↔ w.call = call ∧ w.attempt = attempt ∧
      args = .put w.key w.value w.version ∧ reply = .put .ok := by
  unfold written
  split
  · simp only [List.mem_singleton, Args.put.injEq, and_true]
    constructor
    · rintro rfl
      exact ⟨rfl, rfl, rfl, rfl, rfl⟩
    · rintro ⟨rfl, rfl, rfl, rfl, rfl⟩
      rfl
  · rename_i other
    simp only [List.not_mem_nil, false_iff, not_and]
    intro _ _ put ok
    exact other _ _ _ put ok

theorem Coherent.invoke (coherent : Coherent σ) (args : Args) : Coherent (σ.invoke args) where
  owner a attempt found := by
    rcases Slots.append_cases found with old | ⟨rfl, rfl⟩
    · obtain ⟨call, held, same⟩ := coherent.owner a attempt old
      exact ⟨call, Slots.append_kept held _, same⟩
    · exact ⟨_, List.getElem?_concat_length, rfl⟩
  current c call found := by
    rcases Slots.append_cases found with old | ⟨rfl, rfl⟩
    · obtain ⟨attempt, held, same⟩ := coherent.current c call old
      exact ⟨attempt, Slots.append_kept held _, same⟩
    · exact ⟨_, List.getElem?_concat_length, rfl⟩
  first c call found unsent a attempt found' belongs := by
    rcases Slots.append_cases found with old | ⟨rfl, rfl⟩
    · rcases Slots.append_cases found' with old' | ⟨rfl, rfl⟩
      · exact coherent.first c call old unsent a attempt old' belongs
      · have bound := (List.getElem?_eq_some_iff.mp old).1
        exact absurd belongs (by dsimp only; omega)
    · rcases Slots.append_cases found' with old' | ⟨rfl, rfl⟩
      · obtain ⟨call, held, -⟩ := coherent.owner a attempt old'
        have bound := (List.getElem?_eq_some_iff.mp held).1
        omega
      · rfl
  result c call result found returned := by
    rcases Slots.append_cases found with old | ⟨rfl, rfl⟩
    · obtain ⟨attempt, reply, held, rest⟩ := coherent.result c call result old returned
      exact ⟨attempt, reply, Slots.append_kept held _, rest⟩
    · cases returned
  genuine w member := by
    obtain ⟨attempt, held, rest⟩ := coherent.genuine w member
    exact ⟨attempt, Slots.append_kept held _, rest⟩
  recorded a attempt found accepted := by
    rcases Slots.append_cases found with old | ⟨rfl, rfl⟩
    · exact coherent.recorded a attempt old accepted
    · cases accepted

theorem Coherent.executed (coherent : Coherent σ) {a : Nat} {attempt : Attempt}
    (found : σ.attempts[a]? = some attempt) (fresh : attempt.reply = none) :
    Coherent (σ.executed a attempt) where
  owner b other found' := by
    rcases Slots.set_cases found' with ⟨rfl, rfl⟩ | ⟨_, old⟩
    · exact coherent.owner b attempt found
    · exact coherent.owner b other old
  current c call held := by
    obtain ⟨other, current, belongs⟩ := coherent.current c call held
    rcases Slots.set_kept found _ current with ⟨_, rfl, now⟩ | ⟨apart, _⟩
    · exact ⟨_, now, belongs⟩
    · exact ⟨other, Slots.set_apart apart current, belongs⟩
  first c call held unsent b other found' belongs := by
    rcases Slots.set_cases found' with ⟨rfl, rfl⟩ | ⟨_, old⟩
    · exact coherent.first c call held unsent b attempt found belongs
    · exact coherent.first c call held unsent b other old belongs
  result c call result held returned := by
    obtain ⟨other, reply, current, replied, returns⟩ := coherent.result c call result held returned
    have elsewhere : call.attempt ≠ a := by
      intro here
      rw [here, found] at current
      rw [← Option.some.inj current, fresh] at replied
      cases replied
    exact ⟨other, reply, Slots.set_apart elsewhere current, replied, returns⟩
  genuine w member := by
    rcases List.mem_append.mp member with old | new
    · obtain ⟨other, current, belongs, args, replied⟩ := coherent.genuine w old
      have elsewhere : w.attempt ≠ a := by
        intro here
        rw [here, found] at current
        rw [← Option.some.inj current, fresh] at replied
        cases replied
      exact ⟨other, Slots.set_apart elsewhere current, belongs, args, replied⟩
    · obtain ⟨belongs, here, args, replied⟩ := mem_written.mp new
      rw [here]
      exact ⟨_, Slots.set_self found, belongs.symm, args, congrArg some replied⟩
  recorded b other found' accepted := by
    rcases Slots.set_cases found' with ⟨rfl, rfl⟩ | ⟨_, old⟩
    · have replied : (handle σ.kvm attempt.args).2 = .put .ok := Option.some.inj accepted
      cases put : attempt.args with
      | get key =>
        rw [put] at replied
        unfold handle get at replied
        dsimp only at replied
        split at replied <;> cases replied
      | put key value version =>
        refine ⟨⟨attempt.call, b, key, value, version⟩, List.mem_append_right _ ?_, rfl⟩
        exact mem_written.mpr ⟨rfl, rfl, put, replied⟩
    · obtain ⟨w, member, belongs⟩ := coherent.recorded b other old accepted
      exact ⟨w, List.mem_append_left _ member, belongs⟩

theorem Coherent.resend (coherent : Coherent σ) {c : Nat} {call : Call}
    (found : σ.calls[c]? = some call) (waiting : call.result = none) :
    Coherent (σ.resend c call) where
  owner a attempt found' := by
    have kept : ∀ (d : Nat) (other : Call), σ.calls[d]? = some other →
        ∃ call' : Call, (σ.resend c call).calls[d]? = some call' ∧ call'.args = other.args := by
      intro d other held
      rcases Slots.set_kept found _ held with ⟨_, rfl, now⟩ | ⟨apart, _⟩
      · exact ⟨_, now, rfl⟩
      · exact ⟨other, Slots.set_apart apart held, rfl⟩
    rcases Slots.append_cases found' with old | ⟨rfl, rfl⟩
    · obtain ⟨other, held, same⟩ := coherent.owner a attempt old
      obtain ⟨call', held', same'⟩ := kept attempt.call other held
      exact ⟨call', held', same'.trans same⟩
    · exact kept c call found
  current d other held := by
    rcases Slots.set_cases held with ⟨rfl, rfl⟩ | ⟨_, old⟩
    · exact ⟨_, List.getElem?_concat_length, rfl⟩
    · obtain ⟨attempt, current, belongs⟩ := coherent.current d other old
      exact ⟨attempt, Slots.append_kept current _, belongs⟩
  first d other held unsent a attempt found' belongs := by
    rcases Slots.set_cases held with ⟨rfl, rfl⟩ | ⟨apart, old⟩
    · cases unsent
    · rcases Slots.append_cases found' with old' | ⟨rfl, rfl⟩
      · exact coherent.first d other old unsent a attempt old' belongs
      · exact absurd belongs.symm apart
  result d other result held returned := by
    rcases Slots.set_cases held with ⟨rfl, rfl⟩ | ⟨_, old⟩
    · rw [waiting] at returned
      cases returned
    · obtain ⟨attempt, reply, current, rest⟩ := coherent.result d other result old returned
      exact ⟨attempt, reply, Slots.append_kept current _, rest⟩
  genuine w member := by
    obtain ⟨attempt, held, rest⟩ := coherent.genuine w member
    exact ⟨attempt, Slots.append_kept held _, rest⟩
  recorded a attempt found' accepted := by
    rcases Slots.append_cases found' with old | ⟨rfl, rfl⟩
    · exact coherent.recorded a attempt old accepted
    · cases accepted

theorem Coherent.returned (coherent : Coherent σ) {c : Nat} {call : Call} {attempt : Attempt}
    {reply result : Reply} (found : σ.calls[c]? = some call)
    (current : σ.attempts[call.attempt]? = some attempt) (replied : attempt.reply = some reply)
    (returns : call.returns reply = some result) : Coherent (σ.returned c call result) where
  owner a other found' := by
    obtain ⟨owner, held, same⟩ := coherent.owner a other found'
    rcases Slots.set_kept found _ held with ⟨_, rfl, now⟩ | ⟨apart, _⟩
    · exact ⟨_, now, same⟩
    · exact ⟨owner, Slots.set_apart apart held, same⟩
  current d other held := by
    rcases Slots.set_cases held with ⟨rfl, rfl⟩ | ⟨_, old⟩
    · exact coherent.current d call found
    · exact coherent.current d other old
  first d other held unsent := by
    rcases Slots.set_cases held with ⟨rfl, rfl⟩ | ⟨_, old⟩
    · exact coherent.first d call found unsent
    · exact coherent.first d other old unsent
  result d other result' held returned := by
    rcases Slots.set_cases held with ⟨rfl, rfl⟩ | ⟨_, old⟩
    · obtain rfl := Option.some.inj returned
      refine ⟨attempt, reply, current, replied, ?_⟩
      cases reply with
      | get value version err => exact returns
      | put err => exact returns
    · exact coherent.result d other result' old returned
  genuine := coherent.genuine
  recorded := coherent.recorded

theorem Coherent.step (coherent : Coherent σ) (moved : σ.step action = some σ') : Coherent σ' := by
  cases System.step_cases moved with
  | invoke args => exact coherent.invoke args
  | execute found fresh => exact coherent.executed found fresh
  | returned found waiting current replied returns =>
    exact coherent.returned found current replied returns
  | resend action found waiting => exact coherent.resend found waiting

/-- Executing an attempt is a write that continues the versions of its key, or leaves
the map and the history as they are. -/
theorem executed_cases (σ : System) (a : Nat) (attempt : Attempt) :
    (∃ key value version, attempt.args = .put key value version ∧
      σ.kvm.versionOf key = version ∧
      (σ.executed a attempt).kvm =
        Function.update σ.kvm key (some { value, version := version + 1 }) ∧
      (σ.executed a attempt).writes =
        σ.writes ++ [{ call := attempt.call, attempt := a, key, value, version }]) ∨
    (∀ key value version, attempt.args = .put key value version →
      σ.kvm.versionOf key ≠ version) ∧
      (σ.executed a attempt).kvm = σ.kvm ∧ (σ.executed a attempt).writes = σ.writes := by
  unfold System.executed
  cases args : attempt.args with
  | get key =>
    exact Or.inr ⟨by simp, rfl, List.append_nil _⟩
  | put key value version =>
    simp only [handle]
    rcases σ.kvm.put_cases key value version with ⟨matching, put⟩ | ⟨differs, err, refused, put⟩
    · rw [put]
      exact Or.inl ⟨key, value, version, rfl, matching, rfl, rfl⟩
    · rw [put]
      refine Or.inr ⟨?_, rfl, ?_⟩
      · rintro _ _ _ ⟨⟩
        exact differs
      · unfold written
        split
        · rename_i accepted
          exact absurd (Reply.put.inj accepted) refused
        · exact List.append_nil _

theorem Chained.executed (chained : Chained σ) (a : Nat) (attempt : Attempt) :
    Chained (σ.executed a attempt) := by
  rcases executed_cases σ a attempt with ⟨key, value, version, -, matching, kvm, writes⟩ |
    ⟨-, kvm, writes⟩
  · refine ⟨fun other => ?_, fun other => ?_⟩
    · have earlier := chained.versions other
      rw [System.chain] at earlier
      rw [System.chain, writes, KvMap.versionOf, kvm, List.filter_append, List.map_append, earlier]
      by_cases here : other = key
      · subst here
        rw [Function.update_self, matching]
        simp [List.range_succ]
      · rw [Function.update_of_ne here]
        simp [Ne.symm here, KvMap.versionOf]
    · have earlier := chained.value other
      rw [System.chain] at earlier
      rw [System.chain, writes, kvm, List.filter_append]
      by_cases here : other = key
      · subst here
        rw [Function.update_self]
        simp
      · rw [Function.update_of_ne here, earlier]
        simp [Ne.symm here]
  · exact ⟨fun other => by rw [System.chain, writes, kvm]; exact chained.versions other,
      fun other => by rw [System.chain, writes, kvm]; exact chained.value other⟩

theorem Chained.step (chained : Chained σ) (moved : σ.step action = some σ') : Chained σ' := by
  cases System.step_cases moved with
  | invoke args => exact ⟨chained.versions, chained.value⟩
  | execute found fresh => exact chained.executed _ _
  | returned found waiting current replied returns => exact ⟨chained.versions, chained.value⟩
  | resend action found waiting => exact ⟨chained.versions, chained.value⟩

/-- The writes of one call are on its key and at its version. -/
theorem Coherent.write_args (coherent : Coherent σ) {w : Write} (member : w ∈ σ.writes) :
    ∃ call : Call, σ.calls[w.call]? = some call ∧ call.args = .put w.key w.value w.version := by
  obtain ⟨attempt, held, belongs, args, -⟩ := coherent.genuine w member
  obtain ⟨call, found, same⟩ := coherent.owner _ attempt held
  exact ⟨call, belongs ▸ found, same.trans args⟩

/-- A version is written once, so a call takes effect once. -/
theorem applied_le_one (coherent : Coherent σ) (chained : Chained σ) (c : Nat) :
    σ.applied c ≤ 1 := by
  unfold System.applied
  by_cases none : σ.writes.filter (·.call = c) = []
  · rw [none]
    exact Nat.zero_le 1
  · obtain ⟨w, first⟩ := List.exists_mem_of_ne_nil _ none
    obtain ⟨member, belongs⟩ := List.mem_filter.mp first
    obtain ⟨call, found, args⟩ := coherent.write_args member
    have alike : ∀ other ∈ σ.writes.filter (·.call = c), other.key = w.key ∧
        other.version = w.version := by
      intro other listed
      obtain ⟨member', belongs'⟩ := List.mem_filter.mp listed
      obtain ⟨call', found', args'⟩ := coherent.write_args member'
      rw [of_decide_eq_true belongs', ← of_decide_eq_true belongs, found] at found'
      rw [← Option.some.inj found', args] at args'
      obtain ⟨key, -, version⟩ := Args.put.inj args'
      exact ⟨key.symm, version.symm⟩
    have inChain : (σ.writes.filter (·.call = c)).Sublist (σ.chain w.key) := by
      have same : σ.writes.filter (·.call = c) = (σ.chain w.key).filter (·.call = c) := by
        rw [System.chain, List.filter_filter]
        refine List.filter_congr fun other listed => ?_
        by_cases mine : other.call = c
        · have key := (alike other (List.mem_filter.mpr ⟨listed, decide_eq_true mine⟩)).1
          simp [mine, key]
        · simp [mine]
      rw [same]
      exact List.filter_sublist
    have distinct : ((σ.writes.filter (·.call = c)).map (·.version)).Nodup := by
      refine List.Nodup.sublist (inChain.map _) ?_
      rw [chained.versions]
      exact List.nodup_range
    have constant : (σ.writes.filter (·.call = c)).map (·.version) =
        List.replicate (σ.writes.filter (·.call = c)).length w.version := by
      refine List.eq_replicate_iff.mpr ⟨List.length_map _, fun version listed => ?_⟩
      obtain ⟨other, member', rfl⟩ := List.mem_map.mp listed
      exact (alike other member').2
    rw [constant] at distinct
    exact List.nodup_replicate.mp distinct

theorem applied_pos {c : Nat} {w : Write} (member : w ∈ σ.writes) (belongs : w.call = c) :
    0 < σ.applied c :=
  List.length_pos_of_mem (List.mem_filter.mpr ⟨member, decide_eq_true belongs⟩)

/-- What a Put has returned is the reply of the attempt it waited for, or `ErrMaybe` if
it was resent. -/
theorem Coherent.put_result (coherent : Coherent σ) {c : Nat} {call : Call} {err : Err}
    (found : σ.calls[c]? = some call) (returned : call.result = some (.put err))
    (certain : err ≠ .maybe) : call.resent = false ∧ ∃ attempt : Attempt,
      σ.attempts[call.attempt]? = some attempt ∧ attempt.call = c ∧
      attempt.reply = some (.put err) := by
  obtain ⟨attempt, reply, current, replied, returns⟩ := coherent.result c call _ found returned
  obtain ⟨other, current', belongs⟩ := coherent.current c call found
  rw [current] at current'
  obtain rfl := Option.some.inj current'
  cases reply with
  | get value version err' =>
    unfold Call.returns at returns
    dsimp only at returns
    split at returns
    · cases returns
    · split at returns <;> cases returns
  | put err' =>
    have same : (if call.resent then Err.maybe else err') = err :=
      Reply.put.inj (Option.some.inj returns)
    cases resent : call.resent with
    | true =>
      rw [resent] at same
      exact absurd same.symm certain
    | false =>
      rw [resent] at same
      have kept : err' = err := same
      exact ⟨rfl, attempt, current, belongs, kept ▸ replied⟩

theorem applied_of_ok (coherent : Coherent σ) (chained : Chained σ) {c : Nat} {call : Call}
    (found : σ.calls[c]? = some call) (returned : call.result = some (.put .ok)) :
    σ.applied c = 1 := by
  obtain ⟨-, attempt, current, belongs, replied⟩ := coherent.put_result found returned (by simp)
  obtain ⟨w, member, same⟩ := coherent.recorded _ attempt current replied
  have positive := applied_pos member (same.trans belongs)
  have once := applied_le_one coherent chained c
  omega

theorem applied_of_refused (coherent : Coherent σ) {c : Nat} {call : Call} {err : Err}
    (found : σ.calls[c]? = some call) (returned : call.result = some (.put err))
    (certain : err ≠ .maybe) (refused : err ≠ .ok) : σ.applied c = 0 := by
  obtain ⟨unsent, attempt, current, -, replied⟩ := coherent.put_result found returned certain
  refine List.length_eq_zero_iff.mpr (List.filter_eq_nil_iff.mpr fun w member mine => ?_)
  -- the only attempt of the call is the one that was refused
  obtain ⟨other, held, belongs, -, accepted⟩ := coherent.genuine w member
  have same := coherent.first c call found unsent w.attempt other held
    (belongs.trans (of_decide_eq_true mine))
  rw [same, current] at held
  rw [← Option.some.inj held, replied] at accepted
  exact refused (Reply.put.inj (Option.some.inj accepted))

/-- No other call's Put on the key is executed. -/
def Quiet (c : Nat) (key : String) (σ : System) (action : Action) : Prop :=
  ∀ a attempt, action = .execute a → σ.attempts[a]? = some attempt →
    ∀ value version, attempt.args = .put key value version → attempt.call = c

/-- Some run leads from one state to the other by steps that are allowed. -/
def Leads (allowed : System → Action → Prop) (σ σ' : System) : Prop :=
  ∃ past, Runs.Run System.step allowed σ (σ' :: past)

def anyAction : System → Action → Prop := fun _ _ => True

/-- The call is a Put at the version its key has, and no attempt of it was executed. -/
structure Untried (σ : System) (c : Nat) (key : String) (version : Nat) : Prop where
  matching : σ.kvm.versionOf key = version
  args : ∃ (call : Call) (value : String), σ.calls[c]? = some call ∧
    call.args = .put key value version
  unexecuted : ∀ (a : Nat) (attempt : Attempt), σ.attempts[a]? = some attempt →
    attempt.call = c → attempt.reply = none

theorem step_applied (moved : σ.step action = some σ') (c : Nat) :
    σ.applied c ≤ σ'.applied c := by
  cases System.step_cases moved with
  | invoke args => exact Nat.le_refl _
  | execute found fresh =>
    unfold System.applied System.executed
    dsimp only
    rw [List.filter_append, List.length_append]
    omega
  | returned found waiting current replied returns => exact Nat.le_refl _
  | resend action found waiting => exact Nat.le_refl _

theorem Untried.step {c : Nat} {key : String} {version : Nat}
    (untried : Untried σ c key version) (coherent : Coherent σ) (quiet : Quiet c key σ action)
    (moved : σ.step action = some σ') :
    Untried σ' c key version ∨ 0 < σ'.applied c := by
  obtain ⟨matching, ⟨call, value, held, args⟩, unexecuted⟩ := untried
  cases System.step_cases moved with
  | invoke args' =>
    refine Or.inl ⟨matching, ⟨call, value, Slots.append_kept held _, args⟩, ?_⟩
    intro a attempt found belongs
    rcases Slots.append_cases found with old | ⟨rfl, rfl⟩
    · exact unexecuted a attempt old belongs
    · rfl
  | @execute a attempt found fresh =>
    rcases executed_cases σ a attempt with ⟨key', value', version', put, current, kvm, writes⟩ |
      ⟨refused, kvm, -⟩
    · by_cases mine : attempt.call = c
      · refine Or.inr (applied_pos (w := ⟨attempt.call, a, key', value', version'⟩) ?_ mine)
        rw [writes]
        exact List.mem_append_right _ (List.mem_singleton_self _)
      · have apart : key ≠ key' := by
          rintro rfl
          exact mine (quiet a attempt rfl found value' version' put)
        refine Or.inl ⟨?_, ⟨call, value, held, args⟩, fun b other found' belongs => ?_⟩
        · rw [KvMap.versionOf, kvm, Function.update_of_ne apart]
          exact matching
        · rcases Slots.set_cases found' with ⟨rfl, rfl⟩ | ⟨_, old⟩
          · exact absurd belongs mine
          · exact unexecuted b other old belongs
    · have other : attempt.call ≠ c := by
        intro mine
        obtain ⟨owner, owned, same⟩ := coherent.owner a attempt found
        rw [mine, held] at owned
        rw [← Option.some.inj owned, args] at same
        exact refused key value version same.symm matching
      refine Or.inl ⟨by rw [kvm, matching], ⟨call, value, held, args⟩, ?_⟩
      intro b attempt' found' belongs
      rcases Slots.set_cases found' with ⟨rfl, rfl⟩ | ⟨_, old⟩
      · exact absurd belongs other
      · exact unexecuted b attempt' old belongs
  | @returned d call' attempt reply result found waiting current replied returns =>
    refine Or.inl ⟨matching, ?_, unexecuted⟩
    rcases Slots.set_kept found _ held with ⟨_, rfl, now⟩ | ⟨apart, _⟩
    · exact ⟨_, value, now, args⟩
    · exact ⟨call, value, Slots.set_apart apart held, args⟩
  | @resend d call' action found waiting =>
    refine Or.inl ⟨matching, ?_, ?_⟩
    · rcases Slots.set_kept found _ held with ⟨_, rfl, now⟩ | ⟨apart, _⟩
      · exact ⟨_, value, now, args⟩
      · exact ⟨call, value, Slots.set_apart apart held, args⟩
    · intro a attempt found' belongs
      rcases Slots.append_cases found' with old | ⟨rfl, rfl⟩
      · exact unexecuted a attempt old belongs
      · rfl

theorem Leads.sound {allowed : System → Action → Prop} (leads : Leads allowed σ σ')
    (coherent : Coherent σ) (chained : Chained σ) : Coherent σ' ∧ Chained σ' := by
  obtain ⟨past, run⟩ := leads
  have all : ∀ state ∈ σ' :: past, Coherent state ∧ Chained state :=
    run.invariant ⟨coherent, chained⟩ fun _ _ _ _ moved ⟨coherent, chained⟩ =>
      ⟨coherent.step moved, chained.step moved⟩
  exact all σ' (List.mem_cons_self ..)

theorem Leads.applied {allowed : System → Action → Prop} (leads : Leads allowed σ σ') {c : Nat}
    (positive : 0 < σ.applied c) : 0 < σ'.applied c := by
  obtain ⟨past, run⟩ := leads
  have all : ∀ state ∈ σ' :: past, 0 < state.applied c :=
    run.invariant positive fun _ _ _ _ moved earlier =>
      Nat.lt_of_lt_of_le earlier (step_applied moved c)
  exact all σ' (List.mem_cons_self ..)

theorem invoke_untried (coherent : Coherent σ) {key value : String} {version : Nat}
    (matching : σ.kvm.versionOf key = version) :
    Untried (σ.invoke (.put key value version)) σ.calls.length key version where
  matching := matching
  args := ⟨_, value, List.getElem?_concat_length, rfl⟩
  unexecuted a attempt found belongs := by
    rcases Slots.append_cases found with old | ⟨rfl, rfl⟩
    · obtain ⟨call, held, -⟩ := coherent.owner a attempt old
      have bound := (List.getElem?_eq_some_iff.mp held).1
      omega
    · rfl

/-- Through quiet steps the call stays untried until it takes effect. -/
theorem Leads.untried {c : Nat} {key : String} {version : Nat} (leads : Leads (Quiet c key) σ σ')
    (coherent : Coherent σ) (untried : Untried σ c key version) :
    Untried σ' c key version ∨ 0 < σ'.applied c := by
  obtain ⟨past, run⟩ := leads
  have all : ∀ state ∈ σ' :: past,
      Coherent state ∧ (Untried state c key version ∨ 0 < state.applied c) := by
    refine run.invariant ⟨coherent, Or.inl untried⟩ ?_
    rintro before action after quiet moved ⟨coherent, untried | positive⟩
    · exact ⟨coherent.step moved, untried.step coherent quiet moved⟩
    · exact ⟨coherent.step moved, Or.inr (Nat.lt_of_lt_of_le positive (step_applied moved c))⟩
  exact (all σ' (List.mem_cons_self ..)).2

/-- A Put that has returned is no longer untried. -/
theorem Untried.not_returned {c : Nat} {key : String} {version : Nat} {call : Call}
    (untried : Untried σ c key version) (coherent : Coherent σ)
    (found : σ.calls[c]? = some call) : call.result = none := by
  cases returned : call.result with
  | none => rfl
  | some result =>
    obtain ⟨attempt, reply, current, replied, -⟩ := coherent.result c call result found returned
    obtain ⟨other, current', belongs⟩ := coherent.current c call found
    rw [current] at current'
    obtain rfl := Option.some.inj current'
    rw [untried.unexecuted _ attempt current belongs] at replied
    cases replied

theorem Chained.unique (chained : Chained σ) {key : String} {v : Nat} (positive : 0 < v)
    (reached : v ≤ σ.kvm.versionOf key) :
    ∃! c, ∃ w ∈ σ.chain key, w.version + 1 = v ∧ w.call = c := by
  have listed : v - 1 ∈ (σ.chain key).map (·.version) := by
    rw [chained.versions]
    exact List.mem_range.mpr (by omega)
  obtain ⟨w, member, version⟩ := List.mem_map.mp listed
  refine ⟨w.call, ⟨w, member, by omega, rfl⟩, ?_⟩
  rintro _ ⟨other, member', version', rfl⟩
  have distinct : ((σ.chain key).map (·.version)).Nodup := by
    rw [chained.versions]
    exact List.nodup_range
  rw [List.inj_on_of_nodup_map distinct member' member (by omega)]

/-- In every state of every run: a Put that returned OK took effect once, one that
returned an error never, and none more than once; one at the version of its key that
nobody interferes with until it returns took effect once; and the Puts on a key that
took effect number its versions, each the work of one call. -/
theorem clerk_put_semantics (reached : Leads anyAction System.init σ) :
    (∀ c call key value version, σ.calls[c]? = some call → call.args = .put key value version →
      (call.result = some (.put .ok) → σ.applied c = 1) ∧
      (call.result = some (.put .version) ∨ call.result = some (.put .noKey) →
        σ.applied c = 0) ∧
      σ.applied c ≤ 1) ∧
    (∀ key value version invoked returned later call, σ.kvm.versionOf key = version →
      σ.step (.invoke (.put key value version)) = some invoked →
      Leads (Quiet σ.calls.length key) invoked returned →
      returned.calls[σ.calls.length]? = some call → call.result ≠ none →
      Leads anyAction returned later → later.applied σ.calls.length = 1) ∧
    (∀ key, (σ.chain key).map (·.version) = List.range (σ.kvm.versionOf key) ∧
      (σ.kvm key).map (·.value) = (σ.chain key).getLast?.map (·.value)) ∧
    (∀ key v, 0 < v → v ≤ σ.kvm.versionOf key →
      ∃! c, ∃ w ∈ σ.chain key, w.version + 1 = v ∧ w.call = c) ∧
    ∀ w ∈ σ.writes, ∃ call, σ.calls[w.call]? = some call ∧
      call.args = .put w.key w.value w.version := by
  obtain ⟨coherent, chained⟩ := reached.sound init_coherent init_chained
  refine ⟨?_, ?_, fun key => ⟨chained.versions key, chained.value key⟩,
    fun key v => chained.unique, fun w => coherent.write_args⟩
  · intro c call key value version found args
    refine ⟨applied_of_ok coherent chained found, ?_, applied_le_one coherent chained c⟩
    rintro (refused | refused)
    · exact applied_of_refused coherent found refused (by simp) (by simp)
    · exact applied_of_refused coherent found refused (by simp) (by simp)
  · intro key value version invoked returned later call matching moved quiet found result after
    obtain rfl : σ.invoke (.put key value version) = invoked := Option.some.inj moved
    have coherent' := coherent.invoke (.put key value version)
    have chained' := chained.step moved
    obtain ⟨coherent'', chained''⟩ := quiet.sound coherent' chained'
    obtain ⟨coherentLater, chainedLater⟩ := after.sound coherent'' chained''
    have effect : 0 < returned.applied σ.calls.length := by
      refine (quiet.untried coherent' (invoke_untried coherent matching)).resolve_left ?_
      exact fun untried => result (untried.not_returned coherent'' found)
    have positive := after.applied effect
    have once := applied_le_one coherentLater chainedLater σ.calls.length
    omega

/-- The first RPC of a Put is given up and sent again; both copies are executed, the
given up one first, and the Put returns `ErrMaybe`. -/
def gaveUp : List Action := [.failed 0, .execute 0, .execute 1, .answered 0]

theorem clerk_put_semantics_maybe : ∃ σ : System,
    σ.calls.map (·.result) = [some (.put .maybe)] ∧ σ.applied 0 = 1 := by
  obtain ⟨σ, past, run, ended⟩ := Runs.Run.ends System.step
    (fun σ _ => σ.attempts.all (·.call = 0)) (System.init.invoke (.put "k" "v" 0)) gaveUp
    (fun σ => σ.calls.map (·.result) = [some (.put .maybe)]) (by decide)
  have quiet : Leads (Quiet 0 "k") (System.init.invoke (.put "k" "v" 0)) σ := by
    refine ⟨past, run.mono fun state action own a attempt _ found _ _ _ => ?_⟩
    exact of_decide_eq_true (List.all_eq_true.mp own attempt (List.mem_of_getElem? found))
  have result := of_decide_eq_true ended
  obtain ⟨call, rest, calls, returned, -⟩ := List.map_eq_cons_iff.mp result
  refine ⟨σ, result, ?_⟩
  exact (clerk_put_semantics ⟨[], .start⟩).2.1 "k" "v" 0 _ σ σ call rfl rfl quiet
    (by rw [calls]; rfl) (by rw [returned]; simp) ⟨[], .start⟩

end KvStore.KvSrv

import KvStore.Shard.Events

set_option autoImplicit false

/-! Clerks, controllers and the config store only know the groups by their replies: with
other groups in their place they can take the same steps. -/

namespace KvStore.Shard

namespace System

/-- The system with other groups and other replies on their way, all groups alive. -/
def graft (σ : System) (groups : Gid → KVServer) (replies : List (Nat × Reply))
    (log : List Event) : System :=
  { σ with groups, halted := [], groupReplies := replies, log }

section Graft

variable {σ σ' : System} {groups : Gid → KVServer} {replies : List (Nat × Reply)}
  {log : List Event}

theorem query_graft :
    (σ.graft groups replies log).query = σ.query.map (graft · groups replies log) := by
  unfold query
  change (do let held ← σ.configStore .currentConfig; _) = _
  cases σ.configStore .currentConfig <;> rfl

theorem storeExecute_graft (k : Nat) : (σ.graft groups replies log).storeExecute k =
    (σ.storeExecute k).map (graft · groups replies log) := by
  unfold storeExecute
  change (do let put ← σ.storePuts[k]?; _) = _
  cases σ.storePuts[k]? <;> rfl

theorem changeConfigTo_graft (q : Nat) (newCfg : ShardConfig) :
    (σ.graft groups replies log).changeConfigTo q newCfg =
      (σ.changeConfigTo q newCfg).map (graft · groups replies log) := by
  unfold changeConfigTo
  change (do let queried ← σ.queries[q]?; _) = _
  cases σ.queries[q]? with
  | none => rfl
  | some queried =>
    dsimp only [Option.bind_eq_bind, Option.bind_some]
    split <;> rfl

theorem read_graft (i : Nat) :
    (σ.graft groups replies log).read i = (σ.read i).map (graft · groups replies log) := by
  unfold read
  change (do let operation ← σ.operations[i]?; _) = _
  cases σ.operations[i]? with
  | none => rfl
  | some operation =>
    cases operation with
    | initCurrent | changeCurrent =>
      change (do let held ← σ.configStore .currentConfig; _) = _
      dsimp only [Option.bind_eq_bind, Option.bind_some]
      cases σ.configStore .currentConfig <;> rfl
    | initNext | saveQuery | saveCheck =>
      change (do let held ← σ.configStore .nextConfig; _) = _
      dsimp only [Option.bind_eq_bind, Option.bind_some]
      cases σ.configStore .nextConfig <;> rfl
    | _ => rfl

theorem put_graft (i : Nat) :
    (σ.graft groups replies log).put i = (σ.put i).map (graft · groups replies log) := by
  unfold put
  change (do let operation ← σ.operations[i]?; _) = _
  cases σ.operations[i]? with
  | none => rfl
  | some operation => cases operation <;> rfl

theorem putReply_graft (i j : Nat) : (σ.graft groups replies log).putReply i j =
    (σ.putReply i j).map (graft · groups replies log) := by
  unfold putReply
  change (do let operation ← σ.operations[i]?; _) = _
  cases σ.operations[i]? with
  | none => rfl
  | some operation =>
    change (do let entry ← σ.storeReplies[j]?; _) = _
    dsimp only [Option.bind_eq_bind, Option.bind_some]
    cases σ.storeReplies[j]? with
    | none => rfl
    | some entry =>
      dsimp only [Option.bind_eq_bind, Option.bind_some]
      cases operation with
      | savePut | finalPut =>
        dsimp only
        split <;> rfl
      | _ => rfl

theorem send_graft (i : Nat) (s : Shid) :
    (σ.graft groups replies log).send i s = (σ.send i s).map (graft · groups replies log) := by
  unfold send
  change (do let operation ← σ.operations[i]?; _) = _
  cases σ.operations[i]? with
  | none => rfl
  | some operation =>
    dsimp only [Option.bind_eq_bind, Option.bind_some]
    cases operation with
    | migrate newCfg old ver workers =>
      dsimp only
      cases workers s <;> rfl
    | _ => rfl

theorem check_graft (i : Nat) (s : Shid) :
    (σ.graft groups replies log).check i s = (σ.check i s).map (graft · groups replies log) := by
  unfold check
  change (do let operation ← σ.operations[i]?; _) = _
  cases σ.operations[i]? with
  | none => rfl
  | some operation =>
    dsimp only [Option.bind_eq_bind, Option.bind_some]
    cases operation with
    | migrate newCfg old ver workers =>
      dsimp only
      cases workers s with
      | running stage call =>
        change (σ.configStore .currentConfig).bind _ = Option.map _ ((σ.configStore _).bind _)
        cases σ.configStore .currentConfig with
        | none => rfl
        | some held =>
          dsimp only [Option.bind_some]
          split <;> rfl
      | _ => rfl
    | _ => rfl

theorem join_graft (i : Nat) :
    (σ.graft groups replies log).join i = (σ.join i).map (graft · groups replies log) := by
  unfold join
  change (do let operation ← σ.operations[i]?; _) = _
  cases σ.operations[i]? with
  | none => rfl
  | some operation =>
    dsimp only [Option.bind_eq_bind, Option.bind_some]
    cases operation with
    | migrate newCfg old ver workers =>
      dsimp only
      split <;> rfl
    | _ => rfl

theorem acquire_graft (i : Nat) :
    (σ.graft groups replies log).acquire i = (σ.acquire i).map (graft · groups replies log) := by
  unfold acquire
  change (do let client ← σ.clients[i]?; _) = _
  cases σ.clients[i]? with
  | none => rfl
  | some client =>
    dsimp only [Option.bind_eq_bind, Option.bind_some]
    cases client.phase with
    | queued =>
      change (if σ.clients.any _ then _ else _) = Option.map _ (if _ then _ else _)
      split <;> rfl
    | _ => rfl

theorem attempt_graft (i q : Nat) : (σ.graft groups replies log).attempt i q =
    (σ.attempt i q).map (graft · groups replies log) := by
  unfold attempt
  change (do let client ← σ.clients[i]?; _) = _
  cases σ.clients[i]? with
  | none => rfl
  | some client =>
    change (do let cached ← σ.queries[q]?; _) = _
    dsimp only [Option.bind_eq_bind, Option.bind_some]
    cases σ.queries[q]? with
    | none => rfl
    | some cached =>
      dsimp only [Option.bind_eq_bind, Option.bind_some]
      cases client.phase with
      | active call =>
        dsimp only
        split <;> rfl
      | _ => rfl

/-- The reply that is received may stand elsewhere. -/
theorem receive_graft {i j j' : Nat} {s : Shid} (same : replies[j']? = σ.groupReplies[j]?) :
    (σ.graft groups replies log).receive i s j' =
      (σ.receive i s j).map (graft · groups replies log) := by
  unfold receive
  change (do let operation ← σ.operations[i]?; _) = _
  cases σ.operations[i]? with
  | none => rfl
  | some operation =>
    change (do let entry ← replies[j']?; _) = _
    dsimp only [Option.bind_eq_bind, Option.bind_some]
    rw [same]
    cases σ.groupReplies[j]? with
    | none => rfl
    | some entry =>
      dsimp only [Option.bind_eq_bind, Option.bind_some]
      cases operation with
      | migrate newCfg old ver workers =>
        dsimp only
        cases workers s with
        | running stage call =>
          dsimp only
          split
          · cases stage.next entry.2 <;> rfl
          · rfl
        | _ => rfl
      | _ => rfl

theorem answer_graft (groups : Gid → KVServer) (log : List Event) {i j j' : Nat}
    (same : replies[j']? = σ.groupReplies[j]?) (moved : σ.answer i j = some σ') :
    ∃ reply, (σ.graft groups replies log).answer i j' =
        some (σ'.graft groups replies (.returned i reply :: log)) ∧
      σ'.log = .returned i reply :: σ.log := by
  obtain ⟨client, found, rest⟩ := Option.bind_eq_some_iff.mp moved
  obtain ⟨⟨k, reply⟩, replied, rest⟩ := Option.bind_eq_some_iff.mp rest
  have there : (σ.graft groups replies log).groupReplies[j']? = some (k, reply) :=
    same.trans replied
  dsimp only at rest
  split at rest
  · rename_i call active
    split at rest
    · rename_i mine
      refine ⟨reply, ?_, by rw [← Option.some.inj rest]⟩
      have here : (σ.graft groups replies log).clients[i]? = some client := found
      rw [← Option.some.inj rest]
      simp only [answer, here, there, Option.bind_eq_bind, Option.bind_some, active]
      rw [if_pos mine]
      rfl
    · cases rest
  · cases rest

/-- A step of anything but a group, with the events it adds. -/
structure Around (σ σ' : System) (new : List Event) : Prop where
  log : σ'.log = new ++ σ.log
  replies : σ'.groupReplies = σ.groupReplies
  calls : Keeps σ.groupCalls σ'.groupCalls

/-- No part but the groups knows what the groups are. -/
theorem step_graft {action : Action} (moved : σ.step action = some σ')
    (other : ∀ k, action ≠ .execute k) (known : ∀ entry ∈ σ.groupReplies, entry ∈ replies)
    (groups : Gid → KVServer) (log : List Event) :
    ∃ action' new, Around σ σ' new ∧ (σ.graft groups replies log).step action' =
      some (σ'.graft groups replies (new ++ log)) := by
  have quiet {after : Option System}
      (same : after = (σ.step action).map (graft · groups replies log)) :
      after = some (σ'.graft groups replies log) := by
    rw [same, moved]
    rfl
  have place (j : Nat) (inside : j < σ.groupReplies.length) :
      ∃ j' : Nat, replies[j']? = σ.groupReplies[j]? := by
    obtain ⟨j', found⟩ := List.getElem?_of_mem (known _ (List.getElem_mem inside))
    exact ⟨j', found.trans (List.getElem?_eq_getElem inside).symm⟩
  cases action with
  | execute k => exact absurd rfl (other k)
  | query =>
    refine ⟨.query, [], ?_, quiet query_graft⟩
    obtain ⟨_, _, rfl⟩ := query_inversion moved
    exact ⟨rfl, rfl, .refl _⟩
  | storeExecute k =>
    refine ⟨.storeExecute k, [], ?_, quiet (storeExecute_graft k)⟩
    obtain ⟨_, _, rfl⟩ := storeExecute_inversion moved
    exact ⟨rfl, rfl, .refl _⟩
  | initController =>
    refine ⟨.initController, [], ?_, quiet rfl⟩
    obtain rfl := Option.some.inj moved
    exact ⟨rfl, rfl, .refl _⟩
  | changeConfigTo q newCfg =>
    refine ⟨.changeConfigTo q newCfg, [], ?_, quiet (changeConfigTo_graft q newCfg)⟩
    obtain ⟨_, _, _, rfl⟩ := changeConfigTo_inversion moved
    exact ⟨rfl, rfl, .refl _⟩
  | read i =>
    have controls := read_controls moved
    exact ⟨.read i, [], ⟨controls.log, controls.replies, controls.calls⟩, quiet (read_graft i)⟩
  | put i =>
    have controls := put_controls moved
    exact ⟨.put i, [], ⟨controls.log, controls.replies, controls.calls⟩, quiet (put_graft i)⟩
  | putReply i j =>
    have controls := putReply_controls moved
    exact ⟨.putReply i j, [], ⟨controls.log, controls.replies, controls.calls⟩,
      quiet (putReply_graft i j)⟩
  | send i s =>
    have controls := send_controls moved
    exact ⟨.send i s, [], ⟨controls.log, controls.replies, controls.calls⟩, quiet (send_graft i s)⟩
  | receive i s j =>
    have controls := receive_controls moved
    have inside : j < σ.groupReplies.length := by
      by_contra outside
      have nothing := List.getElem?_eq_none (Nat.le_of_not_lt outside)
      simp [step, receive, nothing] at moved
    obtain ⟨j', same⟩ := place j inside
    exact ⟨.receive i s j', [], ⟨controls.log, controls.replies, controls.calls⟩,
      quiet (receive_graft same)⟩
  | check i s =>
    have controls := check_controls moved
    exact ⟨.check i s, [], ⟨controls.log, controls.replies, controls.calls⟩,
      quiet (check_graft i s)⟩
  | join i =>
    have controls := join_controls moved
    exact ⟨.join i, [], ⟨controls.log, controls.replies, controls.calls⟩, quiet (join_graft i)⟩
  | invoke clerk op =>
    obtain rfl := Option.some.inj moved
    exact ⟨.invoke clerk op, [.invoked σ.clients.length op], ⟨rfl, rfl, .refl _⟩, rfl⟩
  | acquire i =>
    refine ⟨.acquire i, [], ?_, quiet (acquire_graft i)⟩
    obtain ⟨_, _, _, _, rfl⟩ := acquire_inversion moved
    exact ⟨rfl, rfl, .refl _⟩
  | attempt i q =>
    refine ⟨.attempt i q, [], ?_, quiet (attempt_graft i q)⟩
    obtain ⟨_, _, _, _, _, rfl⟩ := attempt_inversion moved
    exact ⟨rfl, rfl, .append _ _⟩
  | answer i j =>
    have inside : j < σ.groupReplies.length := by
      by_contra outside
      have nothing := List.getElem?_eq_none (Nat.le_of_not_lt outside)
      simp [step, answer, nothing] at moved
    obtain ⟨j', same⟩ := place j inside
    obtain ⟨reply, answered, more⟩ := answer_graft groups log same moved
    obtain ⟨_, _, _, _, _, _, _, rfl⟩ := answer_inversion moved
    exact ⟨.answer i j', [.returned i reply], ⟨more, rfl, .refl _⟩, answered⟩

end Graft

end System

end KvStore.Shard

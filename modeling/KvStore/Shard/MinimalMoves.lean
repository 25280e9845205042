import KvStore.Lib.FewestMoves
import KvStore.Shard.Rebalance

set_option autoImplicit false

/-! `Rebalance` moves as few shards as any way of spreading them evenly. -/

namespace KvStore.Shard.ShardConfig

open Balancing

variable {cfg before : ShardConfig} {moves : List (Move Shid Gid)}

/-- The shard at its owner, before it goes to `gid`. -/
def move (cfg : ShardConfig) (s : Shid) (gid : Gid) : Move Shid Gid := ⟨s, cfg.shards s, gid⟩

def replay (cfg : ShardConfig) (moves : List (Move Shid Gid)) : ShardConfig :=
  moves.foldl (fun cfg move => cfg.setShard move.item move.target) cfg

/-- The moves of the assigning loop over `rest`. -/
def assignMoves : List Shid → ShardConfig → List (Move Shid Gid)
  | [], _ => []
  | s :: rest, cfg =>
    if cfg.isListed (cfg.shards s) then assignMoves rest cfg
    else cfg.move s cfg.least :: assignMoves rest (cfg.setShard s cfg.least)

/-- The moves of the levelling loop. -/
def levelMoves : Nat → ShardConfig → List (Move Shid Gid)
  | 0, _ => []
  | rounds + 1, cfg =>
    let found := cfg.analyze
    if found.mn < found.ln + 2 then []
    else
      match (List.finRange NShards).find? fun s => cfg.shards s = found.mg with
      | some s => cfg.move s found.lg :: levelMoves rounds (cfg.setShard s found.lg)
      | none => levelMoves rounds cfg

/-- The moves of `Rebalance` when there are groups, in their order. -/
def rebalanceMoves (cfg : ShardConfig) : List (Move Shid Gid) :=
  assignMoves (List.finRange NShards) cfg ++ levelMoves maxRounds cfg.assign

@[simp] theorem replay_append (cfg : ShardConfig) (first second : List (Move Shid Gid)) :
    cfg.replay (first ++ second) = (cfg.replay first).replay second :=
  List.foldl_append

/-- The loop makes the moves it is said to make. -/
@[simp] theorem replay_assign (rest : List Shid) (cfg : ShardConfig) :
    cfg.replay (assignMoves rest cfg) = rest.foldl assignOne cfg := by
  induction rest generalizing cfg with
  | nil => rfl
  | cons s rest ih =>
    rw [List.foldl_cons, assignOne, assignMoves]
    by_cases member : cfg.isListed (cfg.shards s)
    · rw [if_pos member, if_pos member]
      exact ih cfg
    · rw [if_neg member, if_neg member]
      exact ih (cfg.setShard s cfg.least)

theorem replay_level {rounds : Nat} {cfg' : ShardConfig} (done : level rounds cfg = some cfg') :
    cfg.replay (levelMoves rounds cfg) = cfg' := by
  induction rounds generalizing cfg with
  | zero => cases done
  | succ rounds ih =>
    unfold level at done
    unfold levelMoves
    dsimp only at done ⊢
    by_cases even : cfg.analyze.mn < cfg.analyze.ln + 2
    · rw [if_pos even] at done ⊢
      exact Option.some.inj done
    · rw [if_neg even] at done ⊢
      cases found : (List.finRange NShards).find? fun s => cfg.shards s = cfg.analyze.mg with
      | some s =>
        rw [found] at done
        exact ih done
      | none =>
        rw [found] at done
        exact ih done

/-- The member groups. -/
def members (cfg : ShardConfig) : Finset Gid := cfg.gids.toFinset

theorem mem_members {gid : Gid} : gid ∈ cfg.members ↔ gid ∈ cfg.gids := List.mem_toFinset

theorem least_load (grouped : cfg.groups ≠ []) :
    cfg.analyze.lg ∈ cfg.members ∧
      ∀ gid ∈ cfg.members, load cfg.shards cfg.analyze.lg ≤ load cfg.shards gid := by
  obtain ⟨⟨least, ln⟩, -, all⟩ := cfg.analyze_spec grouped
  refine ⟨mem_members.mpr least, fun gid member => ?_⟩
  have low := (all gid (mem_members.mp member)).1
  rw [ln, count_eq_load, count_eq_load] at low
  exact Int.ofNat_le.mp low

theorem most_load (grouped : cfg.groups ≠ []) :
    ∀ gid ∈ cfg.members, load cfg.shards gid ≤ load cfg.shards cfg.analyze.mg := by
  obtain ⟨-, ⟨-, mn⟩, all⟩ := cfg.analyze_spec grouped
  intro gid member
  have high := (all gid (mem_members.mp member)).2
  rw [mn, count_eq_load, count_eq_load] at high
  exact Int.ofNat_le.mp high

/-- The assigning loop only places shards of groups that are gone, at a least loaded
group. -/
theorem assign_greedy (rest : List Shid) (grouped : cfg.groups ≠ [])
    (greedy : Greedy cfg.members before.shards moves cfg.shards) :
    Greedy cfg.members before.shards (moves ++ assignMoves rest cfg)
      (rest.foldl assignOne cfg).shards := by
  induction rest generalizing cfg moves with
  | nil =>
    rw [assignMoves, List.append_nil]
    exact greedy
  | cons s rest ih =>
    rw [List.foldl_cons, assignOne, assignMoves]
    by_cases member : cfg.isListed (cfg.shards s)
    · rw [if_pos member, if_pos member]
      exact ih grouped greedy
    · rw [if_neg member, if_neg member, List.append_cons]
      have homeless : cfg.shards s ∉ cfg.members := by
        rwa [mem_members, ← isListed_iff]
      obtain ⟨least, lowest⟩ := least_load grouped
      have placed : Greedy (cfg.setShard s cfg.least).members before.shards
          (moves ++ [cfg.move s cfg.least]) (cfg.setShard s cfg.least).shards :=
        greedy.place homeless least lowest
      have grouped' : (cfg.setShard s cfg.least).groups ≠ [] := grouped
      exact ih grouped' placed

/-- The levelling loop only shifts shards from a most to a least loaded group. -/
theorem level_greedy (rounds : Nat) (grouped : cfg.groups ≠ []) (total : cfg.Total)
    {cfg' : ShardConfig} (done : level rounds cfg = some cfg')
    (greedy : Greedy cfg.members before.shards moves cfg.shards) :
    Greedy cfg.members before.shards (moves ++ levelMoves rounds cfg) cfg'.shards := by
  induction rounds generalizing cfg moves with
  | zero => cases done
  | succ rounds ih =>
    unfold level at done
    unfold levelMoves
    dsimp only at done ⊢
    by_cases even : cfg.analyze.mn < cfg.analyze.ln + 2
    · rw [if_pos even] at done ⊢
      rw [← Option.some.inj done, List.append_nil]
      exact greedy
    · obtain ⟨s, found, member, -⟩ := level_step grouped even
      rw [if_neg even, found] at done ⊢
      rw [List.append_cons]
      have here : cfg.shards s = cfg.analyze.mg := by simpa using List.find?_some found
      obtain ⟨least, lowest⟩ := least_load grouped
      have gap : load cfg.shards cfg.analyze.lg + 2 ≤ load cfg.shards (cfg.shards s) := by
        obtain ⟨⟨-, ln⟩, ⟨-, mn⟩, -⟩ := cfg.analyze_spec grouped
        rw [count_eq_load] at ln mn
        rw [here]
        omega
      have shifted : Greedy (cfg.setShard s cfg.analyze.lg).members before.shards
          (moves ++ [cfg.move s cfg.analyze.lg]) (cfg.setShard s cfg.analyze.lg).shards :=
        greedy.shift (fun other => mem_members.mpr (total other)) least lowest
          (here ▸ most_load grouped) gap
      have total' : (cfg.setShard s cfg.analyze.lg).Total := fun other =>
        setShard_member member (Or.inr (total other))
      have grouped' : (cfg.setShard s cfg.analyze.lg).groups ≠ [] := grouped
      exact ih grouped' total' done shifted

/-- `Rebalance` with at least one group moves no shard twice and none out of a group
that gets one, and no way of spreading the shards evenly over the groups leaves more of
them with their owners. -/
theorem rebalance_fewest_moves (cfg : ShardConfig) (grouped : cfg.groups ≠ []) :
    ∃ cfg', cfg.rebalance = some cfg' ∧ cfg' = cfg.replay cfg.rebalanceMoves ∧
      (cfg.rebalanceMoves.map (·.item)).Nodup ∧
      (∀ move ∈ cfg.rebalanceMoves, move.source = cfg.shards move.item) ∧
      (∀ move ∈ cfg.rebalanceMoves, ∀ move' ∈ cfg.rebalanceMoves, move.target ≠ move'.source) ∧
      ∀ other : ShardConfig, other.Total → other.groups = cfg.groups →
        (∀ gid ∈ cfg.gids, ∀ gid' ∈ cfg.gids, other.count gid ≤ other.count gid' + 1) →
        kept cfg.shards other.shards ≤ kept cfg.shards cfg'.shards := by
  obtain ⟨groups, total⟩ := cfg.assign_total grouped
  have grouped' : cfg.assign.groups ≠ [] := by rwa [groups]
  obtain ⟨cfg', done, same, total', -⟩ := level_ends grouped' total (assign_rounds cfg)
  have gids : cfg'.gids = cfg.gids := by rw [ShardConfig.gids, same, groups, ShardConfig.gids]
  have members : cfg.assign.members = cfg.members := by
    rw [ShardConfig.members, ShardConfig.gids, groups, ShardConfig.members, ShardConfig.gids]
  have placed : Greedy cfg.members cfg.shards (assignMoves (List.finRange NShards) cfg)
      cfg.assign.shards :=
    assign_greedy (List.finRange NShards) grouped (Greedy.nil cfg.members cfg.shards)
  have greedy : Greedy cfg.members cfg.shards cfg.rebalanceMoves cfg'.shards := by
    rw [← members] at placed ⊢
    exact level_greedy maxRounds grouped' total done placed
  refine ⟨cfg', by rw [rebalance, if_neg grouped, done], ?_, greedy.distinct, greedy.source,
    greedy.oneWay, fun other into common even => ?_⟩
  · rw [rebalanceMoves, replay_append, replay_assign, ← assign, replay_level done]
  · refine greedy.fewest (fun s => ?_) (fun s => ?_) fun gid here gid' there => ?_
    · rw [mem_members, ← gids]
      exact total' s
    · rw [mem_members, ShardConfig.gids, ← common]
      exact into s
    · have close := even gid (mem_members.mp here) gid' (mem_members.mp there)
      rw [count_eq_load, count_eq_load] at close
      exact Int.ofNat_le.mp close

/-- A second group joins the one that has every shard: half of the shards stay. -/
theorem rebalance_fewest_moves_second_group :
    ∃ cfg' : ShardConfig,
      ({ num := 2, shards := fun _ => 1, groups := [(1, ["a"]), (2, ["b"])] } :
        ShardConfig).rebalance = some cfg' ∧ 6 ≤ kept (fun _ : Shid => (1 : Gid)) cfg'.shards := by
  obtain ⟨cfg', done, -, -, -, -, fewest⟩ := rebalance_fewest_moves
    { num := 2, shards := fun _ => 1, groups := [(1, ["a"]), (2, ["b"])] } (by decide)
  refine ⟨cfg', done, ?_⟩
  have halves := fewest
    { num := 2, shards := fun s => if s.val % 2 = 0 then 1 else 2,
      groups := [(1, ["a"]), (2, ["b"])] }
    (by unfold Total; decide) rfl (by decide)
  exact le_trans (by decide) halves

end KvStore.Shard.ShardConfig

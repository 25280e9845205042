import KvStore.Lib.Balancing
import KvStore.Shard.Config

set_option autoImplicit false

/-! `Rebalance` ends, with every shard at a member group and the loads of any two
member groups at most one apart. -/

namespace KvStore.Shard.ShardConfig

open Balancing

variable {cfg : ShardConfig}

/-- The groups of the configuration. -/
def gids (cfg : ShardConfig) : List Gid := cfg.groups.map (·.1)

theorem isListed_iff (cfg : ShardConfig) (gid : Gid) :
    cfg.isListed gid = true ↔ gid ∈ cfg.gids := by
  unfold isListed gids
  induction cfg.groups with
  | nil => simp
  | cons group rest ih =>
    rw [List.lookup_cons, List.map_cons, List.mem_cons]
    by_cases same : gid = group.1
    · simp [same]
    · simp [same, beq_false_of_ne same, ih]

theorem count_eq_load (cfg : ShardConfig) (gid : Gid) : cfg.count gid = load cfg.shards gid := by
  rw [count, load, List.countP_eq_length_filter]
  rfl

theorem count_bounds (cfg : ShardConfig) (gid : Gid) :
    0 ≤ cfg.count gid ∧ cfg.count gid ≤ NShards := by
  have bound := load_le_card cfg.shards gid
  rw [Fintype.card_fin] at bound
  rw [count_eq_load]
  omega

theorem see_least (cfg : ShardConfig) (found : Analysis) (gid : Gid) :
    ((cfg.see found gid).ln, (cfg.see found gid).lg) =
      if cfg.count gid < found.ln then (cfg.count gid, gid) else (found.ln, found.lg) := by
  by_cases low : cfg.count gid < found.ln <;> by_cases high : cfg.count gid > found.mn <;>
    simp [see, low, high]

theorem see_most (cfg : ShardConfig) (found : Analysis) (gid : Gid) :
    ((cfg.see found gid).mn, (cfg.see found gid).mg) =
      if cfg.count gid > found.mn then (cfg.count gid, gid) else (found.mn, found.mg) := by
  by_cases low : cfg.count gid < found.ln <;> by_cases high : cfg.count gid > found.mn <;>
    simp [see, low, high]

/-- What `analyze` knows after the groups in `seen`. -/
structure Ranked (cfg : ShardConfig) (seen : List Gid) (found : Analysis) : Prop where
  low : ∀ gid ∈ seen, found.ln ≤ cfg.count gid
  high : ∀ gid ∈ seen, cfg.count gid ≤ found.mn
  least : found.lg ∈ seen ∧ found.ln = cfg.count found.lg ∨ seen = [] ∧ found.ln = 257
  most : found.mg ∈ seen ∧ found.mn = cfg.count found.mg ∨ seen = [] ∧ found.mn = -1

/-- One group more: it replaces a least loaded group with more shards and a most
loaded one with fewer. -/
theorem Ranked.next {seen : List Gid} {found : Analysis} (ranked : Ranked cfg seen found)
    (gid : Gid) : Ranked cfg (seen ++ [gid]) (cfg.see found gid) := by
  have bounds := cfg.count_bounds gid
  have small : (NShards : Int) < 257 := by decide
  have here : gid ∈ seen ++ [gid] := List.mem_append_right _ (List.mem_singleton_self gid)
  have lower := cfg.see_least found gid
  have upper := cfg.see_most found gid
  constructor
  · intro other member
    have before := ranked.low other
    split at lower
    all_goals
      obtain ⟨ln, -⟩ := Prod.mk.inj lower
      rcases List.mem_append.mp member with old | new
      · have := before old
        omega
      · rw [List.mem_singleton.mp new]
        omega
  · intro other member
    have before := ranked.high other
    split at upper
    all_goals
      obtain ⟨mn, -⟩ := Prod.mk.inj upper
      rcases List.mem_append.mp member with old | new
      · have := before old
        omega
      · rw [List.mem_singleton.mp new]
        omega
  · refine Or.inl ?_
    split at lower
    · obtain ⟨ln, lg⟩ := Prod.mk.inj lower
      rw [ln, lg]
      exact ⟨here, rfl⟩
    · obtain ⟨ln, lg⟩ := Prod.mk.inj lower
      rw [ln, lg]
      rcases ranked.least with ⟨old, same⟩ | ⟨-, first⟩
      · exact ⟨List.mem_append_left _ old, same⟩
      · omega
  · refine Or.inl ?_
    split at upper
    · obtain ⟨mn, mg⟩ := Prod.mk.inj upper
      rw [mn, mg]
      exact ⟨here, rfl⟩
    · obtain ⟨mn, mg⟩ := Prod.mk.inj upper
      rw [mn, mg]
      rcases ranked.most with ⟨old, same⟩ | ⟨-, first⟩
      · exact ⟨List.mem_append_left _ old, same⟩
      · omega

theorem Ranked.foldl (cfg : ShardConfig) (gids : List Gid) :
    Ranked cfg gids (gids.foldl cfg.see { mg := -1, mn := -1, lg := -1, ln := 257 }) := by
  induction gids using List.reverseRecOn with
  | nil =>
    exact ⟨fun _ member => absurd member List.not_mem_nil,
      fun _ member => absurd member List.not_mem_nil, Or.inr ⟨rfl, rfl⟩, Or.inr ⟨rfl, rfl⟩⟩
  | append_singleton seen gid ih =>
    rw [List.foldl_concat]
    exact ih.next gid

/-- `analyze` finds a least and a most loaded member group. -/
theorem analyze_spec (cfg : ShardConfig) (member : cfg.groups ≠ []) :
    (cfg.analyze.lg ∈ cfg.gids ∧ cfg.analyze.ln = cfg.count cfg.analyze.lg) ∧
      (cfg.analyze.mg ∈ cfg.gids ∧ cfg.analyze.mn = cfg.count cfg.analyze.mg) ∧
      ∀ gid ∈ cfg.gids, cfg.analyze.ln ≤ cfg.count gid ∧ cfg.count gid ≤ cfg.analyze.mn := by
  have ranked : Ranked cfg _ cfg.analyze := Ranked.foldl cfg (cfg.gids.insertionSort (· ≤ ·))
  have same : ∀ gid, gid ∈ cfg.gids.insertionSort (· ≤ ·) ↔ gid ∈ cfg.gids :=
    fun gid => List.mem_insertionSort (· ≤ ·)
  have grouped : cfg.gids.insertionSort (· ≤ ·) ≠ [] := by
    intro empty
    have size := List.length_insertionSort (· ≤ ·) cfg.gids
    rw [empty, gids, List.length_map, List.length_nil] at size
    exact member (List.length_eq_zero_iff.mp size.symm)
  refine ⟨?_, ?_, fun gid present => ?_⟩
  · rcases ranked.least with ⟨present, count⟩ | ⟨empty, -⟩
    · exact ⟨(same _).mp present, count⟩
    · exact absurd empty grouped
  · rcases ranked.most with ⟨present, count⟩ | ⟨empty, -⟩
    · exact ⟨(same _).mp present, count⟩
    · exact absurd empty grouped
  · exact ⟨ranked.low gid ((same gid).mpr present), ranked.high gid ((same gid).mpr present)⟩

/-- Every shard is at a member group. -/
def Total (cfg : ShardConfig) : Prop := ∀ s, cfg.shards s ∈ cfg.gids

theorem setShard_member {s other : Shid} {gid : Gid} (member : gid ∈ cfg.gids)
    (held : other = s ∨ cfg.shards other ∈ cfg.gids) :
    (cfg.setShard s gid).shards other ∈ (cfg.setShard s gid).gids := by
  change Function.update cfg.shards s gid other ∈ cfg.gids
  by_cases same : other = s
  · rwa [same, Function.update_self]
  · rw [Function.update_of_ne same]
    exact held.resolve_left same

/-- The assigning loop over `rest`: it keeps the groups, and every shard it passes or
that was at a member group ends at one. -/
theorem assign_loop (rest : List Shid) (cfg : ShardConfig) (grouped : cfg.groups ≠ []) :
    (rest.foldl assignOne cfg).groups = cfg.groups ∧
      ∀ s, s ∈ rest ∨ cfg.shards s ∈ cfg.gids →
        (rest.foldl assignOne cfg).shards s ∈ (rest.foldl assignOne cfg).gids := by
  induction rest generalizing cfg with
  | nil => exact ⟨rfl, fun s held => held.resolve_left List.not_mem_nil⟩
  | cons first rest ih =>
    rw [List.foldl_cons, assignOne]
    by_cases member : cfg.isListed (cfg.shards first)
    · rw [if_pos member]
      obtain ⟨groups, total⟩ := ih cfg grouped
      refine ⟨groups, fun s held => total s ?_⟩
      rcases held with passed | held
      · rcases List.mem_cons.mp passed with rfl | later
        · exact Or.inr ((cfg.isListed_iff _).mp member)
        · exact Or.inl later
      · exact Or.inr held
    · rw [if_neg member]
      have least : cfg.least ∈ cfg.gids := (cfg.analyze_spec grouped).1.1
      obtain ⟨groups, total⟩ := ih (cfg.setShard first cfg.least) grouped
      refine ⟨groups, fun s held => total s ?_⟩
      rcases held with passed | held
      · rcases List.mem_cons.mp passed with rfl | later
        · exact Or.inr (setShard_member least (Or.inl rfl))
        · exact Or.inl later
      · exact Or.inr (setShard_member least (Or.inr held))

theorem assign_total (cfg : ShardConfig) (grouped : cfg.groups ≠ []) :
    cfg.assign.groups = cfg.groups ∧ cfg.assign.Total := by
  obtain ⟨groups, total⟩ := assign_loop (List.finRange NShards) cfg grouped
  rw [assign]
  exact ⟨groups, fun s => total s (Or.inl (List.mem_finRange s))⟩

/-- While the loads differ by two or more, there is a shard to move, and moving it
lowers the measure. -/
theorem level_step (grouped : cfg.groups ≠ []) (uneven : ¬ cfg.analyze.mn < cfg.analyze.ln + 2) :
    ∃ s, ((List.finRange NShards).find? fun s => cfg.shards s = cfg.analyze.mg) = some s ∧
      cfg.analyze.lg ∈ cfg.gids ∧
      crowding (cfg.setShard s cfg.analyze.lg).shards + 2 ≤ crowding cfg.shards := by
  obtain ⟨⟨least, ln⟩, ⟨_, mn⟩, -⟩ := cfg.analyze_spec grouped
  rw [count_eq_load] at ln mn
  cases found : (List.finRange NShards).find? fun s => cfg.shards s = cfg.analyze.mg with
  | none =>
    have nobody : ¬ 0 < load cfg.shards cfg.analyze.mg := by
      rw [load_pos_iff]
      rintro ⟨s, here⟩
      have := List.find?_eq_none.mp found s (List.mem_finRange s)
      simp [here] at this
    omega
  | some s =>
    have here : cfg.shards s = cfg.analyze.mg := by simpa using List.find?_some found
    refine ⟨s, rfl, least, crowding_lt ?_⟩
    rw [here]
    omega

/-- The levelling loop ends, by induction on the rounds it may take, with the loads
of the most and the least loaded group at most one apart. -/
theorem level_ends {rounds : Nat} (grouped : cfg.groups ≠ []) (total : cfg.Total)
    (enough : crowding cfg.shards < 2 * rounds) :
    ∃ cfg', level rounds cfg = some cfg' ∧ cfg'.groups = cfg.groups ∧ cfg'.Total ∧
      cfg'.analyze.mn < cfg'.analyze.ln + 2 := by
  induction rounds generalizing cfg with
  | zero => omega
  | succ rounds ih =>
    unfold level
    by_cases even : cfg.analyze.mn < cfg.analyze.ln + 2
    · exact ⟨cfg, if_pos even, rfl, total, even⟩
    · obtain ⟨s, found, least, falls⟩ := level_step grouped even
      simp only [if_neg even, found]
      have kept : (cfg.setShard s cfg.analyze.lg).Total :=
        fun other => setShard_member least (Or.inr (total other))
      exact ih grouped kept (by omega)

/-- With more rounds the loop ends as it did. -/
theorem level_longer {rounds more : Nat} {cfg' : ShardConfig}
    (done : level rounds cfg = some cfg') (longer : rounds ≤ more) :
    level more cfg = some cfg' := by
  induction rounds generalizing cfg more with
  | zero => cases done
  | succ rounds ih =>
    obtain ⟨more, rfl⟩ : ∃ k, more = k + 1 := ⟨more - 1, by omega⟩
    unfold level at done ⊢
    dsimp only at done ⊢
    split at done
    · rename_i even
      rw [if_pos even]
      exact done
    · rename_i uneven
      rw [if_neg uneven]
      split at done
      · exact ih done (by omega)
      · exact ih done (by omega)

theorem assign_rounds (cfg : ShardConfig) : crowding cfg.assign.shards < 2 * maxRounds := by
  have bound := crowding_le cfg.assign.shards
  rw [Fintype.card_fin] at bound
  exact Nat.lt_of_le_of_lt bound (by decide)

/-- `Rebalance` on any configuration: its unbounded loop ends within `maxRounds`
rounds, the number and the groups stay, and the shards are spread evenly over the
member groups, or over none if there are none. -/
theorem rebalance_balanced (cfg : ShardConfig) :
    ∃ cfg', cfg.rebalance = some cfg' ∧ cfg'.num = cfg.num ∧ cfg'.groups = cfg.groups ∧
      (cfg.groups = [] → ∀ s, cfg'.shards s = 0) ∧
      (cfg.groups ≠ [] →
        (∀ rounds, maxRounds ≤ rounds → level rounds cfg.assign = some cfg') ∧
        (∀ s, ∃ servers, (cfg'.shards s, servers) ∈ cfg.groups) ∧
        ∀ group ∈ cfg.groups, ∀ group' ∈ cfg.groups,
          cfg'.count group.1 ≤ cfg'.count group'.1 + 1) := by
  by_cases empty : cfg.groups = []
  · exact ⟨{ cfg with shards := fun _ => 0 }, by rw [rebalance, if_pos empty], rfl, rfl,
      fun _ _ => rfl, fun grouped => absurd empty grouped⟩
  obtain ⟨groups, total⟩ := cfg.assign_total empty
  have grouped : cfg.assign.groups ≠ [] := by rwa [groups]
  obtain ⟨cfg', done, same, total', even⟩ := level_ends grouped total cfg.assign_rounds
  have result : cfg.rebalance = some cfg' := by rw [rebalance, if_neg empty, done]
  rw [groups] at same
  refine ⟨cfg', result, rebalance_num result, same, fun none => absurd none empty, fun _ => ?_⟩
  have spec := (cfg'.analyze_spec (same ▸ empty)).2.2
  have member : ∀ group ∈ cfg.groups, group.1 ∈ cfg'.gids := fun group present =>
    List.mem_map_of_mem (same ▸ present)
  refine ⟨fun rounds longer => level_longer done longer, fun s => ?_,
    fun group here group' there => ?_⟩
  · obtain ⟨group, present, equal⟩ := List.mem_map.mp (total' s)
    exact ⟨group.2, by rw [← equal, ← same]; exact present⟩
  · have high := (spec _ (member group here)).2
    have low := (spec _ (member group' there)).1
    omega

end KvStore.Shard.ShardConfig

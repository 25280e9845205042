import Mathlib.Algebra.GroupWithZero.Nat
import Mathlib.Data.Fintype.Basic
import Mathlib.Data.List.Sort
import Mathlib.Logic.Function.Basic

set_option autoImplicit false

/-! Shard configurations: the assignment of shards to groups and how it is changed. -/

namespace KvStore.Shard

/-- The number of shards. -/
abbrev NShards : Nat := 12

instance neZero_nShards : NeZero NShards := ⟨by decide⟩

abbrev Shid := Fin NShards

abbrev Gid := Int

/-- The group that owns every shard at the start. -/
def gid1 : Gid := 1

def fnv32a (bytes : List UInt8) : UInt32 :=
  bytes.foldl (fun hash byte => (hash ^^^ byte.toUInt32) * 16777619) 2166136261

/-- Which shard is a key in? -/
def key2Shard (key : String) : Shid :=
  ⟨(fnv32a key.toUTF8.data.toList).toNat % NShards, Nat.mod_lt _ (by decide)⟩

/-- `groups` is a map from group to servers, with one entry for each group. -/
structure ShardConfig where
  num : Nat
  shards : Shid → Gid
  groups : List (Gid × List String)
  deriving DecidableEq

namespace ShardConfig

/-- `Groups` plays no part in it. -/
def equalTo (cfg other : ShardConfig) : Bool :=
  cfg.num = other.num && (List.finRange NShards).all fun s => cfg.shards s = other.shards s

theorem equalTo_iff (cfg other : ShardConfig) :
    cfg.equalTo other = true ↔ cfg.num = other.num ∧ ∀ s, cfg.shards s = other.shards s := by
  simp [equalTo]

/-- A group is a key of the map `Groups`. -/
def isListed (cfg : ShardConfig) (gid : Gid) : Bool :=
  (cfg.groups.lookup gid).isSome

/-- The servers listed for a group, none if it is not listed. -/
def servers (cfg : ShardConfig) (gid : Gid) : List String :=
  (cfg.groups.lookup gid).getD []

/-- The number of shards each group has. -/
def count (cfg : ShardConfig) (gid : Gid) : Int :=
  (List.finRange NShards).countP fun s => cfg.shards s = gid

/-- The most and the least loaded group with their loads. -/
structure Analysis where
  mg : Gid
  mn : Int
  lg : Gid
  ln : Int

/-- One iteration of `analyze`. -/
def see (cfg : ShardConfig) (found : Analysis) (gid : Gid) : Analysis :=
  let found := if cfg.count gid < found.ln then
    { found with ln := cfg.count gid, lg := gid } else found
  if cfg.count gid > found.mn then { found with mn := cfg.count gid, mg := gid } else found

def analyze (cfg : ShardConfig) : Analysis :=
  ((cfg.groups.map (·.1)).insertionSort (· ≤ ·)).foldl cfg.see
    { mg := -1, mn := -1, lg := -1, ln := 257 }

/-- The group with the fewest shards. -/
def least (cfg : ShardConfig) : Gid :=
  cfg.analyze.lg

def setShard (cfg : ShardConfig) (s : Shid) (gid : Gid) : ShardConfig :=
  { cfg with shards := Function.update cfg.shards s gid }

/-- A shard of a group that is gone goes to the least loaded group. -/
def assignOne (cfg : ShardConfig) (s : Shid) : ShardConfig :=
  if cfg.isListed (cfg.shards s) then cfg else cfg.setShard s cfg.least

def assign (cfg : ShardConfig) : ShardConfig :=
  (List.finRange NShards).foldl assignOne cfg

/-- Moves shards from the most to the least loaded group until they are balanced;
`none` if that has taken more than `rounds` rounds. -/
def level : Nat → ShardConfig → Option ShardConfig
  | 0, _ => none
  | rounds + 1, cfg =>
    let found := cfg.analyze
    if found.mn < found.ln + 2 then some cfg
    else
      match (List.finRange NShards).find? fun s => cfg.shards s = found.mg with
      | some s => level rounds (cfg.setShard s found.lg)
      | none => level rounds cfg

/-- The loop of the source has no bound; no run of it takes more rounds than this. -/
def maxRounds : Nat := NShards * NShards

def rebalance (cfg : ShardConfig) : Option ShardConfig :=
  if cfg.groups = [] then some { cfg with shards := fun _ => 0 }
  else level maxRounds cfg.assign

/-- The groups joining, in the order in which the map is read; `none` if a server
would be in two groups or nothing joins. A group that is there already stops the
loop, with the groups before it added. -/
def joinGroups : List (Gid × List String) → ShardConfig → Option (ShardConfig × Bool)
  | [], cfg => some (cfg, true)
  | (gid, servers) :: rest, cfg =>
    if cfg.isListed gid then some (cfg, false)
    else if cfg.groups.any fun group => group.2.any (servers.contains ·) then none
    else joinGroups rest { cfg with groups := cfg.groups ++ [(gid, servers)] }

def join (cfg : ShardConfig) (servers : List (Gid × List String)) :
    Option (ShardConfig × Bool) := do
  let (cfg, joined) ← joinGroups servers cfg
  if joined then
    if servers = [] then none else some ({ cfg with num := cfg.num + 1 }, true)
  else some (cfg, false)

def leaveGroups : List Gid → ShardConfig → ShardConfig × Bool
  | [], cfg => (cfg, true)
  | gid :: rest, cfg =>
    if cfg.isListed gid then
      leaveGroups rest { cfg with groups := cfg.groups.filter (·.1 ≠ gid) }
    else (cfg, false)

def leave (cfg : ShardConfig) (gids : List Gid) : Option (ShardConfig × Bool) :=
  let (cfg, left) := leaveGroups gids cfg
  if left then
    if gids = [] then none else some ({ cfg with num := cfg.num + 1 }, true)
  else some (cfg, false)

def joinBalance (cfg : ShardConfig) (servers : List (Gid × List String)) :
    Option (ShardConfig × Bool) := do
  let (cfg, ok) ← cfg.join servers
  if ok then some (← cfg.rebalance, true) else some (cfg, false)

def leaveBalance (cfg : ShardConfig) (gids : List Gid) : Option (ShardConfig × Bool) := do
  let (cfg, ok) ← cfg.leave gids
  if ok then some (← cfg.rebalance, true) else some (cfg, false)

/-- The configurations that callers pass to `ChangeConfigTo`. -/
def Derived (queried cfg : ShardConfig) : Prop :=
  (∃ servers, queried.joinBalance servers = some (cfg, true)) ∨
    ∃ gids, queried.leaveBalance gids = some (cfg, true)

@[simp] theorem assign_num (cfg : ShardConfig) : cfg.assign.num = cfg.num := by
  unfold assign
  induction List.finRange NShards generalizing cfg with
  | nil => rfl
  | cons s rest ih =>
    rw [List.foldl_cons, ih, assignOne]
    split <;> rfl

variable {cfg cfg' : ShardConfig} {servers : List (Gid × List String)} {gids : List Gid}

theorem level_num {rounds : Nat} (done : level rounds cfg = some cfg') : cfg'.num = cfg.num := by
  induction rounds generalizing cfg with
  | zero => cases done
  | succ rounds ih =>
    unfold level at done
    dsimp only at done
    split at done
    · rw [Option.some.inj done]
    · split at done
      · have moved := ih done
        exact moved
      · exact ih done

theorem rebalance_num (done : cfg.rebalance = some cfg') : cfg'.num = cfg.num := by
  unfold rebalance at done
  split at done
  · rw [← Option.some.inj done]
  · rw [level_num done, assign_num]

theorem joinGroups_num {ok : Bool} (done : joinGroups servers cfg = some (cfg', ok)) :
    cfg'.num = cfg.num := by
  induction servers generalizing cfg with
  | nil => rw [(Prod.mk.inj (Option.some.inj done)).1]
  | cons group rest ih =>
    unfold joinGroups at done
    split at done
    · rw [(Prod.mk.inj (Option.some.inj done)).1]
    · split at done
      · cases done
      · have grown := ih done
        exact grown

theorem leaveGroups_kept (gids : List Gid) (cfg : ShardConfig) :
    (leaveGroups gids cfg).1.num = cfg.num ∧ (leaveGroups gids cfg).1.shards = cfg.shards := by
  induction gids generalizing cfg with
  | nil => exact ⟨rfl, rfl⟩
  | cons gid rest ih =>
    unfold leaveGroups
    split
    · exact ih _
    · exact ⟨rfl, rfl⟩

theorem join_num (done : cfg.join servers = some (cfg', true)) : cfg'.num = cfg.num + 1 := by
  obtain ⟨⟨joined, ok⟩, grown, rest⟩ := Option.bind_eq_some_iff.mp done
  dsimp only at rest
  split at rest
  · split at rest
    · cases rest
    · rw [← (Prod.mk.inj (Option.some.inj rest)).1]
      exact congrArg (· + 1) (joinGroups_num grown)
  · cases rest

theorem leave_num (done : cfg.leave gids = some (cfg', true)) : cfg'.num = cfg.num + 1 := by
  have same := (leaveGroups_kept gids cfg).1
  unfold leave at done
  dsimp only at done
  split at done
  · split at done
    · cases done
    · rw [← (Prod.mk.inj (Option.some.inj done)).1]
      exact congrArg (· + 1) same
  · cases done

/-- Every configuration a caller derives has the next number. -/
theorem Derived.num_succ {queried cfg : ShardConfig} (derived : Derived queried cfg) :
    cfg.num = queried.num + 1 := by
  rcases derived with ⟨servers, done⟩ | ⟨gids, done⟩
  · obtain ⟨⟨joined, ok⟩, changed, rest⟩ := Option.bind_eq_some_iff.mp done
    cases ok with
    | false => cases rest
    | true =>
      obtain ⟨balanced, settled, same⟩ := Option.bind_eq_some_iff.mp rest
      rw [← (Prod.mk.inj (Option.some.inj same)).1, rebalance_num settled, join_num changed]
  · obtain ⟨⟨left, ok⟩, changed, rest⟩ := Option.bind_eq_some_iff.mp done
    cases ok with
    | false => cases rest
    | true =>
      obtain ⟨balanced, settled, same⟩ := Option.bind_eq_some_iff.mp rest
      rw [← (Prod.mk.inj (Option.some.inj same)).1, rebalance_num settled, leave_num changed]

/-- The first group the loop of `Join` or `Leave` meets is a member, or is not. -/
def FirstIs (cfg : ShardConfig) (member : Bool) (gids : List Gid) : Prop :=
  ∃ gid rest, gids = gid :: rest ∧ cfg.isListed gid = member

/-- A refused loop of `Join` has added the groups before the one that is there already. -/
theorem joinGroups_refused (refused : joinGroups servers cfg = some (cfg', false)) :
    cfg'.shards = cfg.shards ∧ ∃ added, cfg'.groups = cfg.groups ++ added ∧
      (added = [] ↔ cfg.FirstIs true (servers.map (·.1))) := by
  induction servers generalizing cfg with
  | nil => cases (Prod.mk.inj (Option.some.inj refused)).2
  | cons group rest ih =>
    unfold joinGroups at refused
    split at refused
    · rename_i member
      rw [← (Prod.mk.inj (Option.some.inj refused)).1]
      exact ⟨rfl, [], (List.append_nil _).symm, iff_of_true rfl ⟨group.1, _, rfl, member⟩⟩
    · rename_i new
      split at refused
      · cases refused
      · obtain ⟨shards, added, groups, -⟩ := ih refused
        refine ⟨shards, group :: added, ?_, iff_of_false (List.cons_ne_nil _ _) ?_⟩
        · rw [groups, List.append_assoc]
          rfl
        · rintro ⟨gid, others, same, member⟩
          rw [← (List.cons.inj same).1] at member
          exact new member

theorem leaveGroups_length (gids : List Gid) (cfg : ShardConfig) :
    (leaveGroups gids cfg).1.groups.length ≤ cfg.groups.length := by
  induction gids generalizing cfg with
  | nil => exact Nat.le_refl _
  | cons gid rest ih =>
    unfold leaveGroups
    split
    · exact (ih _).trans (List.length_filter_le _ _)
    · exact Nat.le_refl _

/-- A group that leaves is one fewer. -/
theorem isListed_removed {cfg : ShardConfig} {gid : Gid} (member : cfg.isListed gid = true) :
    (cfg.groups.filter (·.1 ≠ gid)).length < cfg.groups.length := by
  rw [List.length_filter_lt_length_iff_exists]
  obtain ⟨servers, found⟩ := Option.isSome_iff_exists.mp member
  obtain ⟨before, rest, split, -⟩ := List.lookup_eq_some_iff.mp found
  refine ⟨(gid, servers), ?_, by simp⟩
  rw [split]
  exact List.mem_append_right before (List.mem_cons_self ..)

/-- A refused loop of `Leave` has removed the groups before the one that is not there. -/
theorem leaveGroups_refused (refused : leaveGroups gids cfg = (cfg', false)) :
    cfg' = cfg ↔ cfg.FirstIs false gids := by
  cases gids with
  | nil => cases (Prod.mk.inj refused).2
  | cons gid rest =>
    unfold leaveGroups at refused
    split at refused
    · rename_i member
      refine iff_of_false (fun same => ?_) ?_
      · have shorter := leaveGroups_length rest { cfg with groups := cfg.groups.filter (·.1 ≠ gid) }
        have removed := isListed_removed member
        rw [refused, same] at shorter
        exact absurd shorter (Nat.not_le_of_lt removed)
      · rintro ⟨first, others, same, outside⟩
        rw [← (List.cons.inj same).1, member] at outside
        cases outside
    · rename_i outside
      rw [← (Prod.mk.inj refused).1]
      exact iff_of_true rfl ⟨gid, rest, rfl, Bool.eq_false_iff.mpr outside⟩

theorem join_refused (refused : cfg.join servers = some (cfg', false)) :
    joinGroups servers cfg = some (cfg', false) := by
  obtain ⟨⟨joined, ok⟩, done, rest⟩ := Option.bind_eq_some_iff.mp refused
  dsimp only at rest
  split at rest
  · split at rest <;> cases rest
  · rename_i notOk
    rw [done, Bool.eq_false_iff.mpr notOk, (Prod.mk.inj (Option.some.inj rest)).1]

theorem leave_refused (refused : cfg.leave gids = some (cfg', false)) :
    leaveGroups gids cfg = (cfg', false) := by
  unfold leave at refused
  dsimp only at refused
  split at refused
  · split at refused <;> cases refused
  · rename_i notOk
    rw [← (Prod.mk.inj (Option.some.inj refused)).1, ← Bool.eq_false_iff.mpr notOk]

theorem joinBalance_refused (refused : cfg.joinBalance servers = some (cfg', false)) :
    cfg.join servers = some (cfg', false) := by
  obtain ⟨⟨joined, ok⟩, done, rest⟩ := Option.bind_eq_some_iff.mp refused
  cases ok with
  | false => rw [done, (Prod.mk.inj (Option.some.inj rest)).1]
  | true =>
    obtain ⟨balanced, -, same⟩ := Option.bind_eq_some_iff.mp rest
    cases same

theorem leaveBalance_refused (refused : cfg.leaveBalance gids = some (cfg', false)) :
    cfg.leave gids = some (cfg', false) := by
  obtain ⟨⟨left, ok⟩, done, rest⟩ := Option.bind_eq_some_iff.mp refused
  cases ok with
  | false => rw [done, (Prod.mk.inj (Option.some.inj rest)).1]
  | true =>
    obtain ⟨balanced, -, same⟩ := Option.bind_eq_some_iff.mp rest
    cases same

theorem join_untouched (refused : cfg.join servers = some (cfg', false)) :
    cfg'.num = cfg.num ∧ cfg'.shards = cfg.shards ∧
      (cfg' = cfg ↔ cfg.FirstIs true (servers.map (·.1))) := by
  have loop := join_refused refused
  obtain ⟨shards, added, groups, first⟩ := joinGroups_refused loop
  refine ⟨joinGroups_num loop, shards, ?_⟩
  rw [← first]
  constructor
  · intro same
    rw [same] at groups
    exact List.self_eq_append_right.mp groups
  · intro none
    rw [none, List.append_nil] at groups
    have num := joinGroups_num loop
    cases cfg'
    cases cfg
    simp_all

theorem leave_untouched (refused : cfg.leave gids = some (cfg', false)) :
    cfg'.num = cfg.num ∧ cfg'.shards = cfg.shards ∧ (cfg' = cfg ↔ cfg.FirstIs false gids) := by
  have loop := leave_refused refused
  obtain ⟨num, shards⟩ := leaveGroups_kept gids cfg
  rw [loop] at num shards
  exact ⟨num, shards, leaveGroups_refused loop⟩

/-- What a refusal leaves of the configuration, for every argument and, with `servers` in
the order in which the map is read, for every order: the number and the shards stay, and
the groups stay exactly if the first group the loop meets is the one refused. -/
theorem refused_untouched (cfg cfg' : ShardConfig) (servers : List (Gid × List String))
    (gids : List Gid) :
    (cfg.join servers = some (cfg', false) ∨ cfg.joinBalance servers = some (cfg', false) →
      cfg'.num = cfg.num ∧ cfg'.shards = cfg.shards ∧
        (cfg' = cfg ↔ cfg.FirstIs true (servers.map (·.1)))) ∧
    (cfg.leave gids = some (cfg', false) ∨ cfg.leaveBalance gids = some (cfg', false) →
      cfg'.num = cfg.num ∧ cfg'.shards = cfg.shards ∧ (cfg' = cfg ↔ cfg.FirstIs false gids)) := by
  constructor
  · rintro (refused | refused)
    · exact join_untouched refused
    · exact join_untouched (joinBalance_refused refused)
  · rintro (refused | refused)
    · exact leave_untouched refused
    · exact leave_untouched (leaveBalance_refused refused)

/-- One group with servers of its own. -/
def oneGroup : ShardConfig := { num := 1, shards := fun _ => 1, groups := [(1, ["a"])] }

/-- The refused group comes first, and with it one that would not be refused. -/
theorem refused_untouched_first :
    oneGroup.joinBalance [(1, ["b"]), (2, ["c"])] = some (oneGroup, false) ∧
      oneGroup.leaveBalance [99, 1] = some (oneGroup, false) ∧
      oneGroup.FirstIs true [1, 2] ∧ oneGroup.FirstIs false [99, 1] := by
  have joined : oneGroup.joinBalance [(1, ["b"]), (2, ["c"])] = some (oneGroup, false) := rfl
  have left : oneGroup.leaveBalance [99, 1] = some (oneGroup, false) := rfl
  obtain ⟨join, leave⟩ := refused_untouched oneGroup oneGroup [(1, ["b"]), (2, ["c"])] [99, 1]
  exact ⟨joined, left, (join (Or.inr joined)).2.2.mp rfl, (leave (Or.inr left)).2.2.mp rfl⟩

/-- Leaving with groups 1 and 99 is refused for 99, and 1 is gone; joining with a new
group and then group 1 is refused for 1, and the new one has been added. -/
theorem refused_not_untouched :
    oneGroup.leave [1, 99] = some ({ oneGroup with groups := [] }, false) ∧
      oneGroup.leaveBalance [1, 99] = some ({ oneGroup with groups := [] }, false) ∧
      oneGroup.join [(2, ["b"]), (1, ["a"])] =
        some ({ oneGroup with groups := [(1, ["a"]), (2, ["b"])] }, false) ∧
      oneGroup.joinBalance [(2, ["b"]), (1, ["a"])] =
        some ({ oneGroup with groups := [(1, ["a"]), (2, ["b"])] }, false) := by
  decide

end ShardConfig

end KvStore.Shard

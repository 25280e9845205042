import KvStore.Lib.Balancing

set_option autoImplicit false

/-! Items moved one at a time, first into a least loaded bin and then from a most to a
least loaded one: no even assignment leaves more of them where they were. -/

namespace Balancing

open Finset

variable {ι γ : Type*} [Fintype ι] [DecidableEq γ]

/-- How many items are where they were. -/
def kept (old new : ι → γ) : Nat := (univ.filter fun item => new item = old item).card

/-- How many items of a bin were there before. -/
def stayed (old new : ι → γ) (bin : γ) : Nat :=
  (univ.filter fun item => new item = bin ∧ old item = bin).card

/-- How many items of a bin were elsewhere before. -/
def came (old new : ι → γ) (bin : γ) : Nat :=
  (univ.filter fun item => new item = bin ∧ old item ≠ bin).card

section Counting

variable (old : ι → γ) {new : ι → γ} (bin : γ)

theorem stayed_add_came (new : ι → γ) : stayed old new bin + came old new bin = load new bin := by
  unfold stayed came load
  rw [← filter_filter, ← filter_filter]
  exact card_filter_add_card_filter_not _

theorem stayed_le_old (new : ι → γ) : stayed old new bin ≤ load old bin := by
  refine card_le_card fun item here => ?_
  rw [mem_filter] at here ⊢
  exact ⟨here.1, here.2.2⟩

/-- A bin that gave nothing away has all it had. -/
theorem stayed_of_not_gave (held : ∀ item, old item = bin → new item = bin) :
    stayed old new bin = load old bin := by
  refine congrArg card (filter_congr fun item _ => ?_)
  exact ⟨And.right, fun here => ⟨held item here, here⟩⟩

/-- Nothing came to a bin that has only what it had. -/
theorem came_of_not_received (own : ∀ item, new item = bin → old item = bin) :
    came old new bin = 0 := by
  rw [came, card_eq_zero, filter_eq_empty_iff]
  rintro item - ⟨here, elsewhere⟩
  exact elsewhere (own item here)

variable {members : Finset γ}

theorem kept_eq_sum (into : ∀ item, new item ∈ members) :
    kept old new = ∑ bin ∈ members, stayed old new bin := by
  rw [kept, card_eq_sum_card_fiberwise fun item _ => into item]
  refine sum_congr rfl fun bin _ => congrArg card ?_
  rw [filter_filter]
  refine filter_congr fun item _ =>
    ⟨fun ⟨same, here⟩ => ⟨here, same ▸ here⟩, fun ⟨here, there⟩ => ?_⟩
  exact ⟨here.trans there.symm, here⟩

theorem sum_load (into : ∀ item, new item ∈ members) :
    ∑ bin ∈ members, load new bin = Fintype.card ι :=
  (card_eq_sum_card_fiberwise fun item _ => into item).symm

/-- An item is where it was or has come to where it is. -/
theorem kept_add_came (into : ∀ item, new item ∈ members) :
    kept old new + ∑ bin ∈ members, came old new bin = Fintype.card ι := by
  rw [kept_eq_sum old into, ← sum_add_distrib, ← sum_load into]
  exact sum_congr rfl fun bin _ => stayed_add_came old bin new

end Counting

/-- The bin has an item it did not have. -/
def Received (old new : ι → γ) (bin : γ) : Prop := ∃ item, new item = bin ∧ old item ≠ bin

/-- The bin has lost an item it had. -/
def Gave (old new : ι → γ) (bin : γ) : Prop := ∃ item, old item = bin ∧ new item ≠ bin

section Optimal

variable {members : Finset γ} {old new other : ι → γ}

omit [Fintype ι] [DecidableEq γ] in
theorem held_of_not_gave {bin : γ} (none : ¬ Gave old new bin) :
    ∀ item, old item = bin → new item = bin := by
  intro item here
  by_contra gone
  exact none ⟨item, here, gone⟩

omit [Fintype ι] [DecidableEq γ] in
theorem own_of_not_received {bin : γ} (none : ¬ Received old new bin) :
    ∀ item, new item = bin → old item = bin := by
  intro item here
  by_contra elsewhere
  exact none ⟨item, here, elsewhere⟩

/-- If no bin both gave and received, and every bin that received has at most as many
items as any bin that gave, then an even assignment keeps no more items in place. -/
theorem kept_le_kept (into : ∀ item, new item ∈ members) (into' : ∀ item, other item ∈ members)
    (apart : ∀ bin ∈ members, Received old new bin → ¬ Gave old new bin)
    (ordered : ∀ a ∈ members, ∀ b ∈ members, Received old new a → Gave old new b →
      load new a ≤ load new b)
    (even : ∀ a ∈ members, ∀ b ∈ members, load other a ≤ load other b + 1) :
    kept old other ≤ kept old new := by
  by_cases below : ∀ bin ∈ members, Gave old new bin → load other bin ≤ load new bin
  · -- bin by bin, the other assignment keeps no more
    rw [kept_eq_sum old into, kept_eq_sum old into']
    refine sum_le_sum fun bin member => ?_
    have total := stayed_add_came old bin new
    have total' := stayed_add_came old bin other
    by_cases gave : Gave old new bin
    · have received : ¬ Received old new bin := fun received => apart bin member received gave
      have none := came_of_not_received old bin (own_of_not_received received)
      have fits := below bin member gave
      omega
    · rw [stayed_of_not_gave old bin (held_of_not_gave gave)]
      exact stayed_le_old old bin other
  · -- some bin that gave has more in the other assignment, so no bin that received has less:
    -- bin by bin, the other assignment brings at least as much
    push Not at below
    obtain ⟨b, memberB, gaveB, more⟩ := below
    have brought : ∑ bin ∈ members, came old new bin ≤ ∑ bin ∈ members, came old other bin := by
      refine sum_le_sum fun bin member => ?_
      by_cases received : Received old new bin
      · have gave : ¬ Gave old new bin := apart bin member received
        have total := stayed_add_came old bin new
        have total' := stayed_add_came old bin other
        have whole := stayed_of_not_gave old bin (held_of_not_gave gave)
        have part := stayed_le_old old bin other
        have lower := ordered bin member b memberB received gaveB
        have close := even b memberB bin member
        omega
      · rw [came_of_not_received old bin (own_of_not_received received)]
        exact Nat.zero_le _
    have all := kept_add_came old into
    have all' := kept_add_came old into'
    omega

end Optimal

/-- An item taken from one bin to another. -/
structure Move (ι γ : Type*) where
  item : ι
  source : γ
  target : γ
  deriving DecidableEq

section Greedy

variable {members : Finset γ} {old now : ι → γ} {moves : List (Move ι γ)}

/-- The moves that led from `old` to `now`, with no item moved twice. -/
structure Trail (old : ι → γ) (moves : List (Move ι γ)) (now : ι → γ) : Prop where
  distinct : (moves.map (·.item)).Nodup
  source : ∀ move ∈ moves, move.source = old move.item
  target : ∀ move ∈ moves, move.target = now move.item
  still : ∀ item, item ∉ moves.map (·.item) → now item = old item

namespace Trail

omit [Fintype ι] [DecidableEq γ] in
/-- One more move, of an item that has not moved. -/
theorem next [DecidableEq ι] (trail : Trail old moves now) {item : ι}
    (fresh : item ∉ moves.map (·.item)) (bin : γ) :
    Trail old (moves ++ [⟨item, now item, bin⟩]) (Function.update now item bin) := by
  constructor
  · rw [List.map_append, List.map_singleton, ← List.concat_eq_append]
    exact trail.distinct.concat fresh
  · refine List.forall_mem_append.mpr ⟨trail.source, List.forall_mem_singleton.mpr ?_⟩
    exact trail.still item fresh
  · refine List.forall_mem_append.mpr ⟨fun move past => ?_, List.forall_mem_singleton.mpr ?_⟩
    · have apart : move.item ≠ item := fun same => fresh (same ▸ List.mem_map_of_mem past)
      rw [Function.update_of_ne apart]
      exact trail.target move past
    · exact (Function.update_self item bin now).symm
  · intro other absent
    rw [List.map_append, List.mem_append, not_or, List.map_singleton, List.mem_singleton] at absent
    rw [Function.update_of_ne absent.2]
    exact trail.still other absent.1

omit [Fintype ι] [DecidableEq γ] in
theorem received (trail : Trail old moves now) {bin : γ} (received : Received old now bin) :
    ∃ move ∈ moves, move.target = bin := by
  obtain ⟨item, here, elsewhere⟩ := received
  have moved : item ∈ moves.map (·.item) := by
    by_contra absent
    exact elsewhere ((trail.still item absent).symm.trans here)
  obtain ⟨move, past, same⟩ := List.mem_map.mp moved
  exact ⟨move, past, by rw [trail.target move past, same, here]⟩

omit [Fintype ι] [DecidableEq γ] in
theorem gave (trail : Trail old moves now) {bin : γ} (gave : Gave old now bin) :
    ∃ move ∈ moves, move.source = bin := by
  obtain ⟨item, here, gone⟩ := gave
  have moved : item ∈ moves.map (·.item) := by
    by_contra absent
    exact gone ((trail.still item absent).trans here)
  obtain ⟨move, past, same⟩ := List.mem_map.mp moved
  exact ⟨move, past, by rw [trail.source move past, same, here]⟩

end Trail

/-- What holds after moves that each went to a least loaded member: out of bins that are
no members first, and out of most loaded ones, with a gap of two or more, once all items
are at members. -/
structure Greedy (members : Finset γ) (old : ι → γ) (moves : List (Move ι γ)) (now : ι → γ) :
    Prop extends Trail old moves now where
  member : ∀ move ∈ moves, move.target ∈ members
  low : ∀ move ∈ moves, ∀ bin ∈ members, load now move.target ≤ load now bin + 1
  high : ∀ move ∈ moves, move.source ∈ members →
    ∀ bin ∈ members, load now bin ≤ load now move.source + 1
  ordered : ∀ move ∈ moves, ∀ move' ∈ moves, move'.source ∈ members →
    load now move.target ≤ load now move'.source
  oneWay : ∀ move ∈ moves, ∀ move' ∈ moves, move.target ≠ move'.source
  settled : (∃ move ∈ moves, move.source ∈ members) → ∀ item, now item ∈ members

namespace Greedy

theorem nil (members : Finset γ) (old : ι → γ) : Greedy members old [] old := by
  refine ⟨⟨List.nodup_nil, ?_, ?_, fun item _ => rfl⟩, ?_, ?_, ?_, ?_, ?_, ?_⟩ <;> simp

/-- No even assignment to the members keeps more items where they were. -/
theorem fewest (greedy : Greedy members old moves now) (total : ∀ item, now item ∈ members)
    {other : ι → γ} (into : ∀ item, other item ∈ members)
    (even : ∀ a ∈ members, ∀ b ∈ members, load other a ≤ load other b + 1) :
    kept old other ≤ kept old now := by
  refine kept_le_kept total into (fun bin _ received gave => ?_)
    (fun a _ b member received gave => ?_) even
  · obtain ⟨move, past, target⟩ := greedy.received received
    obtain ⟨move', past', source⟩ := greedy.gave gave
    exact greedy.oneWay move past move' past' (target.trans source.symm)
  · obtain ⟨move, past, rfl⟩ := greedy.received received
    obtain ⟨move', past', rfl⟩ := greedy.gave gave
    exact greedy.ordered move past move' past' member

variable [DecidableEq ι]

/-- An item at a bin that is no member goes to a least loaded member. -/
theorem place (greedy : Greedy members old moves now) {item : ι} {bin : γ}
    (homeless : now item ∉ members) (member : bin ∈ members)
    (least : ∀ other ∈ members, load now bin ≤ load now other) :
    Greedy members old (moves ++ [⟨item, now item, bin⟩]) (Function.update now item bin) := by
  have fresh : item ∉ moves.map (·.item) := by
    intro past
    obtain ⟨move, here, same⟩ := List.mem_map.mp past
    have placed := greedy.member move here
    rw [greedy.target move here, same] at placed
    exact homeless placed
  -- no member has given anything away, since not all items are at members yet
  have outside : ∀ move ∈ moves ++ [Move.mk item (now item) bin], move.source ∉ members :=
    List.forall_mem_append.mpr ⟨fun move past inside =>
      homeless (greedy.settled ⟨move, past, inside⟩ item), List.forall_mem_singleton.mpr homeless⟩
  have placed : ∀ move ∈ moves ++ [Move.mk item (now item) bin], move.target ∈ members :=
    List.forall_mem_append.mpr ⟨greedy.member, List.forall_mem_singleton.mpr member⟩
  have loads : ∀ other ∈ members, load (Function.update now item bin) other =
      load now other + if bin = other then 1 else 0 := by
    intro other inside
    have elsewhere : now item ≠ other := fun same => homeless (same ▸ inside)
    have change := load_move now item bin other
    rwa [if_neg elsewhere, Nat.add_zero] at change
  refine ⟨greedy.toTrail.next fresh bin, placed, ?_, fun move past inside => ?_,
    fun move _ move' past inside => ?_, fun move past move' past' same => ?_, ?_⟩
  · refine List.forall_mem_append.mpr ⟨fun move past other inside => ?_,
      List.forall_mem_singleton.mpr fun other inside => ?_⟩
    · rw [loads _ (greedy.member move past), loads other inside]
      have before := greedy.low move past other inside
      by_cases same : bin = move.target
      · have lowest := least other inside
        rw [if_pos same, ← same]
        omega
      · rw [if_neg same]
        omega
    · have lowest := least other inside
      rw [loads bin member, loads other inside, if_pos rfl]
      omega
  · exact absurd inside (outside move past)
  · exact absurd inside (outside move' past)
  · exact outside move' past' (same ▸ placed move past)
  · rintro ⟨move, past, inside⟩
    exact absurd inside (outside move past)

/-- Once all items are at members, one goes from a most to a least loaded member with at
least two items fewer. -/
theorem shift (greedy : Greedy members old moves now) {item : ι} {bin : γ}
    (total : ∀ item, now item ∈ members) (member : bin ∈ members)
    (least : ∀ other ∈ members, load now bin ≤ load now other)
    (most : ∀ other ∈ members, load now other ≤ load now (now item))
    (gap : load now bin + 2 ≤ load now (now item)) :
    Greedy members old (moves ++ [⟨item, now item, bin⟩]) (Function.update now item bin) := by
  have apart : now item ≠ bin := ne_of_uneven gap
  -- before the move, targets are at most one above the least and sources one below the most
  have lows : ∀ move ∈ moves, load now move.target ≤ load now bin + 1 := fun move past =>
    greedy.low move past bin member
  have highs : ∀ move ∈ moves, move.source ∈ members →
      load now (now item) ≤ load now move.source + 1 := fun move past inside =>
    greedy.high move past inside (now item) (total item)
  have fresh : item ∉ moves.map (·.item) := by
    intro past
    obtain ⟨move, here, same⟩ := List.mem_map.mp past
    have small := lows move here
    rw [greedy.target move here, same] at small
    omega
  have given := load_source apart
  have taken := load_target apart
  -- and so they are after it, while every member stays between the two
  have within : ∀ other ∈ members, load now bin ≤ load (Function.update now item bin) other ∧
      load (Function.update now item bin) other ≤ load now (now item) := fun other inside =>
    load_within gap (least other inside) (most other inside)
  have lows' : ∀ move ∈ moves ++ [Move.mk item (now item) bin],
      load (Function.update now item bin) move.target ≤ load now bin + 1 := by
    refine List.forall_mem_append.mpr ⟨fun move past => ?_, List.forall_mem_singleton.mpr taken.le⟩
    have small := lows move past
    by_cases same : bin = move.target
    · rw [← same, taken]
    · rw [load_rest (fun source => by rw [← source] at small; omega) same]
      exact small
  have highs' : ∀ move ∈ moves ++ [Move.mk item (now item) bin], move.source ∈ members →
      load now (now item) ≤ load (Function.update now item bin) move.source + 1 := by
    refine List.forall_mem_append.mpr ⟨fun move past inside => ?_,
      List.forall_mem_singleton.mpr fun _ => given.ge⟩
    have big := highs move past inside
    by_cases same : now item = move.source
    · rw [← same, given]
    · rw [load_rest same fun target => by rw [← target] at big; omega]
      exact big
  refine ⟨greedy.toTrail.next fresh bin,
    List.forall_mem_append.mpr ⟨greedy.member, List.forall_mem_singleton.mpr member⟩,
    fun move past other inside => ?_, fun move past inside other inside' => ?_,
    fun move past move' past' inside => ?_, ?_, fun _ other => ?_⟩
  · exact (lows' move past).trans (Nat.succ_le_succ (within other inside).1)
  · exact (within other inside').2.trans (highs' move past inside)
  · have small := lows' move past
    have big := highs' move' past' inside
    omega
  · refine List.forall_mem_append.mpr ⟨fun move past => ?_, List.forall_mem_singleton.mpr ?_⟩
    · refine List.forall_mem_append.mpr ⟨greedy.oneWay move past,
        List.forall_mem_singleton.mpr fun (same : move.target = now item) => ?_⟩
      have small := lows move past
      rw [same] at small
      omega
    · refine List.forall_mem_append.mpr ⟨fun move past (same : bin = move.source) => ?_,
        List.forall_mem_singleton.mpr apart.symm⟩
      have big := highs move past (same ▸ member)
      rw [← same] at big
      omega
  · by_cases same : other = item
    · rwa [same, Function.update_self]
    · rw [Function.update_of_ne same]
      exact total other

end Greedy

end Greedy

end Balancing

import Mathlib.Algebra.BigOperators.Group.Finset.Piecewise
import Mathlib.Algebra.Group.Action.Defs
import Mathlib.Algebra.Order.BigOperators.Group.Finset
import Mathlib.Data.Fintype.Card
import Mathlib.Tactic.Common

set_option autoImplicit false

/-! Items assigned to bins, and a measure that falls whenever an item moves from a
bin to one with at least two items fewer. -/

namespace Balancing

open Finset

variable {ι γ : Type*} [Fintype ι] [DecidableEq ι] [DecidableEq γ]

/-- The number of items in a bin. -/
def load (assigned : ι → γ) (bin : γ) : Nat := (univ.filter (assigned · = bin)).card

/-- For every item, how many share its bin. -/
def crowding (assigned : ι → γ) : Nat := ∑ item, load assigned (assigned item)

/-- The items of a bin other than `item`. -/
def others (assigned : ι → γ) (item : ι) (bin : γ) : Nat :=
  ((univ.erase item).filter (assigned · = bin)).card

theorem load_eq (assigned : ι → γ) (item : ι) (bin : γ) :
    load assigned bin = others assigned item bin + if assigned item = bin then 1 else 0 := by
  unfold load others
  rw [← insert_erase (mem_univ item), filter_insert, erase_insert_eq_erase, erase_idem]
  split
  · rw [card_insert_of_notMem (by simp)]
  · rfl

@[simp] theorem others_update (assigned : ι → γ) (item : ι) (bin other : γ) :
    others (Function.update assigned item bin) item other = others assigned item other := by
  unfold others
  congr 1
  refine filter_congr fun elsewhere apart => ?_
  rw [Function.update_of_ne (ne_of_mem_erase apart)]

/-- Moving an item takes it from its bin to the other and leaves all further bins alone. -/
theorem load_move (assigned : ι → γ) (item : ι) (bin other : γ) :
    load (Function.update assigned item bin) other + (if assigned item = other then 1 else 0) =
      load assigned other + if bin = other then 1 else 0 := by
  rw [load_eq _ item, load_eq assigned item, others_update, Function.update_self]
  omega

section Moved

variable {assigned : ι → γ} {item : ι} {bin : γ}

theorem load_source (apart : assigned item ≠ bin) :
    load (Function.update assigned item bin) (assigned item) + 1 =
      load assigned (assigned item) := by
  have change := load_move assigned item bin (assigned item)
  rwa [if_pos rfl, if_neg apart.symm] at change

theorem load_target (apart : assigned item ≠ bin) :
    load (Function.update assigned item bin) bin = load assigned bin + 1 := by
  have change := load_move assigned item bin bin
  rwa [if_pos rfl, if_neg apart] at change

theorem load_rest {other : γ} (notSource : assigned item ≠ other) (notTarget : bin ≠ other) :
    load (Function.update assigned item bin) other = load assigned other := by
  have change := load_move assigned item bin other
  rwa [if_neg notSource, if_neg notTarget] at change

omit [DecidableEq ι] in
theorem ne_of_uneven (uneven : load assigned bin + 2 ≤ load assigned (assigned item)) :
    assigned item ≠ bin := by
  intro same
  rw [same] at uneven
  omega

/-- A move between unequal bins leaves the loads within the bounds they had. -/
theorem load_within {other : γ} (uneven : load assigned bin + 2 ≤ load assigned (assigned item))
    (least : load assigned bin ≤ load assigned other)
    (most : load assigned other ≤ load assigned (assigned item)) :
    load assigned bin ≤ load (Function.update assigned item bin) other ∧
      load (Function.update assigned item bin) other ≤ load assigned (assigned item) := by
  have given := load_source (ne_of_uneven uneven)
  have taken := load_target (ne_of_uneven uneven)
  by_cases source : assigned item = other
  · rw [← source]
    omega
  · by_cases target : bin = other
    · rw [← target]
      omega
    · rw [load_rest source target]
      exact ⟨least, most⟩

end Moved

omit [DecidableEq ι] in
theorem load_le_card (assigned : ι → γ) (bin : γ) : load assigned bin ≤ Fintype.card ι :=
  (card_filter_le _ _).trans_eq rfl

omit [DecidableEq ι] in
theorem load_pos_iff (assigned : ι → γ) (bin : γ) :
    0 < load assigned bin ↔ ∃ item, assigned item = bin := by
  simp [load, card_pos, Finset.Nonempty]

omit [DecidableEq ι] in
theorem crowding_le (assigned : ι → γ) : crowding assigned ≤ Fintype.card ι * Fintype.card ι := by
  refine (sum_le_card_nsmul univ _ (Fintype.card ι) fun item _ => load_le_card assigned _).trans ?_
  rw [smul_eq_mul, card_univ]

theorem sum_others (assigned : ι → γ) (item : ι) (bin : γ) :
    ∑ elsewhere ∈ univ.erase item, (if bin = assigned elsewhere then 1 else 0) =
      others assigned item bin := by
  rw [others, card_filter]
  exact sum_congr rfl fun elsewhere _ => by simp only [eq_comm]

/-- How the measure changes when an item moves to another bin. -/
theorem crowding_move {assigned : ι → γ} {item : ι} {bin : γ} (apart : assigned item ≠ bin) :
    crowding (Function.update assigned item bin) + 2 * load assigned (assigned item) =
      crowding assigned + 2 * load assigned bin + 2 := by
  have rest : ∑ elsewhere ∈ univ.erase item,
        load (Function.update assigned item bin) (Function.update assigned item bin elsewhere) +
        others assigned item (assigned item) =
      ∑ elsewhere ∈ univ.erase item, load assigned (assigned elsewhere) +
        others assigned item bin := by
    rw [← sum_others, ← sum_others, ← sum_add_distrib, ← sum_add_distrib]
    refine sum_congr rfl fun elsewhere other => ?_
    rw [Function.update_of_ne (ne_of_mem_erase other)]
    exact load_move assigned item bin (assigned elsewhere)
  have moved := load_target apart
  have left := load_eq assigned item (assigned item)
  have joined := load_eq assigned item bin
  unfold crowding
  rw [← add_sum_erase univ _ (mem_univ item), ← add_sum_erase univ (fun i => load assigned _)
    (mem_univ item), Function.update_self]
  simp only [apart, ↓reduceIte] at left joined
  omega

/-- The measure falls when the item leaves a bin with at least two items more. -/
theorem crowding_lt {assigned : ι → γ} {item : ι} {bin : γ}
    (uneven : load assigned bin + 2 ≤ load assigned (assigned item)) :
    crowding (Function.update assigned item bin) + 2 ≤ crowding assigned := by
  have change := crowding_move (ne_of_uneven uneven)
  omega

end Balancing

import Mathlib.Data.Fintype.Card
import Mathlib.Tactic.Common

set_option autoImplicit false

/-! Strict majorities of a finite set. -/

namespace Quorum

variable {S : Type*} [Fintype S]

/-- More than half of all members. -/
def Majority (members : Finset S) : Prop := Fintype.card S < 2 * members.card

instance (members : Finset S) : Decidable (Majority members) :=
  inferInstanceAs (Decidable (_ < _))

/-- Any two majorities share a member. -/
theorem Majority.meet {left right : Finset S} (first : Majority left) (second : Majority right) :
    ∃ member, member ∈ left ∧ member ∈ right := by
  classical
  have total := Finset.card_union_add_card_inter left right
  have bound := Finset.card_le_univ (left ∪ right)
  have nonempty : 0 < (left ∩ right).card := by
    unfold Majority at *
    omega
  obtain ⟨member, shared⟩ := Finset.card_pos.mp nonempty
  exact ⟨member, Finset.mem_inter.mp shared⟩

theorem Majority.nonempty {members : Finset S} (majority : Majority members) :
    ∃ member, member ∈ members := by
  obtain ⟨member, inside, _⟩ := majority.meet majority
  exact ⟨member, inside⟩

end Quorum

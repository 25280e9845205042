import Mathlib.Data.List.Basic

set_option autoImplicit false

/-! Tables that are lists: what stands where after one slot has been replaced or added. -/

namespace Slots

variable {α : Type*} {table : List α} {k j : Nat} {old new entry : α}

/-- What stands in a table after slot `k` has been replaced. -/
theorem set_cases (there : (table.set k new)[j]? = some entry) :
    j = k ∧ entry = new ∨ j ≠ k ∧ table[j]? = some entry := by
  by_cases same : j = k
  · subst same
    have inside := (List.getElem?_eq_some_iff.mp there).1
    rw [List.length_set] at inside
    rw [List.getElem?_set_self inside] at there
    exact Or.inl ⟨rfl, (Option.some.inj there).symm⟩
  · rw [List.getElem?_set_ne (Ne.symm same)] at there
    exact Or.inr ⟨same, there⟩

theorem set_self (found : table[k]? = some old) : (table.set k new)[k]? = some new :=
  List.getElem?_set_self (List.getElem?_eq_some_iff.mp found).1

theorem set_apart (apart : j ≠ k) (here : table[j]? = some entry) :
    (table.set k new)[j]? = some entry := by
  rw [List.getElem?_set_ne (Ne.symm apart), here]

/-- Where an entry is after slot `k` has been replaced. -/
theorem set_kept (found : table[k]? = some old) (new : α) (here : table[j]? = some entry) :
    j = k ∧ entry = old ∧ (table.set k new)[j]? = some new ∨
      j ≠ k ∧ (table.set k new)[j]? = some entry := by
  by_cases same : j = k
  · subst same
    exact Or.inl ⟨rfl, Option.some.inj (here.symm.trans found), set_self found⟩
  · exact Or.inr ⟨same, set_apart same here⟩

theorem append_cases (there : (table ++ [new])[j]? = some entry) :
    table[j]? = some entry ∨ j = table.length ∧ entry = new := by
  by_cases old : j < table.length
  · rw [List.getElem?_append_left old] at there
    exact Or.inl there
  · have inside := (List.getElem?_eq_some_iff.mp there).1
    rw [List.length_append, List.length_singleton] at inside
    obtain rfl : j = table.length := by omega
    rw [List.getElem?_concat_length] at there
    exact Or.inr ⟨rfl, (Option.some.inj there).symm⟩

theorem append_kept (here : table[j]? = some entry) (more : List α) :
    (table ++ more)[j]? = some entry := by
  rw [List.getElem?_append_left (List.getElem?_eq_some_iff.mp here).1, here]

end Slots

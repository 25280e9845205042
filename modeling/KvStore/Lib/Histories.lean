import Mathlib.Data.List.Infix

set_option autoImplicit false

/-! Logs of events, the newest first. `event :: earlier <:+ log` says that the event
happened when the log was `earlier`. -/

namespace Histories

variable {α : Type*} {holds weaker : List α → α → Prop} {log : List α} {event : α}

/-- Every event is justified by what happened before it. -/
def Each (holds : List α → α → Prop) (log : List α) : Prop :=
  ∀ event earlier, event :: earlier <:+ log → holds earlier event

theorem Each.nil : Each holds [] := by
  intro event earlier ended
  cases List.suffix_nil.mp ended

theorem Each.cons (each : Each holds log) (now : holds log event) : Each holds (event :: log) := by
  intro other earlier ended
  rcases List.suffix_cons_iff.mp ended with same | old
  · obtain ⟨rfl, rfl⟩ := List.cons.inj same
    exact now
  · exact each other earlier old

theorem happened (member : event ∈ log) : ∃ earlier, event :: earlier <:+ log := by
  obtain ⟨later, earlier, rfl⟩ := List.append_of_mem member
  exact ⟨earlier, List.suffix_append ..⟩

theorem of_happened {earlier : List α} (ended : event :: earlier <:+ log) : event ∈ log :=
  ended.subset (List.mem_cons_self ..)

theorem before {earlier : List α} (ended : event :: earlier <:+ log) : earlier <:+ log :=
  (List.suffix_cons ..).trans ended

/-- Two places of a log are ordered. -/
theorem comparable {event' : α} {earlier earlier' : List α} (one : event :: earlier <:+ log)
    (other : event' :: earlier' <:+ log) :
    event :: earlier = event' :: earlier' ∨ event :: earlier <:+ earlier' ∨
      event' :: earlier' <:+ earlier := by
  rcases Nat.le_total (event :: earlier).length (event' :: earlier').length with short | long
  · rcases List.suffix_cons_iff.mp (List.suffix_of_suffix_length_le one other short) with
      same | before
    · exact Or.inl same
    · exact Or.inr (Or.inl before)
  · rcases List.suffix_cons_iff.mp (List.suffix_of_suffix_length_le other one long) with
      same | before
    · exact Or.inl same.symm
    · exact Or.inr (Or.inr before)

/-- What never happens again has happened once. -/
theorem unique (kind : α → Prop) {event' : α} {earlier earlier' : List α}
    (never : ∀ event earlier, event :: earlier <:+ log → kind event → ∀ old ∈ earlier, ¬kind old)
    (one : event :: earlier <:+ log) (other : event' :: earlier' <:+ log)
    (this : kind event) (that : kind event') : event :: earlier = event' :: earlier' := by
  rcases comparable one other with same | before | after
  · exact same
  · exact absurd this (never _ _ other that _ (of_happened before))
  · exact absurd that (never _ _ one this _ (of_happened after))

end Histories

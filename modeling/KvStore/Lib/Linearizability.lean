import KvStore.Lib.Histories

set_option autoImplicit false

/-! Linearizability of concurrent histories, and how to show it by points at which calls
take effect. Histories and orders have the newest event first. -/

namespace Linearizability

open Histories

variable {C O R S : Type*}

/-- A sequential object: what each operation does and returns. -/
structure Object (S O R : Type*) where
  init : S
  apply : S → O → S × R

/-- What is seen of a call from outside. -/
inductive Event (C O R : Type*)
  | invoke (call : C) (op : O)
  | respond (call : C) (result : R)

/-- A call that has taken effect. -/
structure Effect (C O R : Type*) where
  call : C
  op : O
  result : R

/-- The state after the effects. -/
def Object.after (object : Object S O R) : List (Effect C O R) → S
  | [] => object.init
  | effect :: earlier => (object.apply (object.after earlier) effect.op).1

/-- Every effect returns what the object returns. -/
def Object.Legal (object : Object S O R) (order : List (Effect C O R)) : Prop :=
  Each (fun earlier effect =>
    (object.apply (object.after earlier) effect.op).2 = effect.result) order

/-- One call has returned before the other is made. -/
def Precedes (history : List (Event C O R)) (call call' : C) : Prop :=
  ∃ op result earlier, .invoke call' op :: earlier <:+ history ∧ .respond call result ∈ earlier

/-- An order in which the calls take effect one at a time. It may contain calls that have
not returned. -/
structure Linearization (object : Object S O R) (history : List (Event C O R))
    (order : List (Effect C O R)) : Prop where
  once : (order.map (·.call)).Nodup
  invoked : ∀ effect ∈ order, .invoke effect.call effect.op ∈ history
  responded : ∀ call result, .respond call result ∈ history → ∃ op, ⟨call, op, result⟩ ∈ order
  realTime : order.Pairwise fun later earlier => ¬Precedes history later.call earlier.call
  legal : object.Legal order

def Linearizable (object : Object S O R) (history : List (Event C O R)) : Prop :=
  ∃ order, Linearization object history order

/-- A history with the points at which calls may take effect. -/
inductive Mark (C O R : Type*)
  | seen (event : Event C O R)
  | point (effect : Effect C O R)

def Mark.event : Mark C O R → Option (Event C O R)
  | .seen event => some event
  | .point _ => none

def Mark.effect : Mark C O R → Option (Effect C O R)
  | .seen _ => none
  | .point effect => some effect

/-- The operation never changes the object. -/
def Object.Observes (object : Object S O R) (op : O) : Prop :=
  ∀ state, (object.apply state op).1 = state

/-- A point lies after the call is made and returns what the object returns; a call that
may change the object has only one. A response is the result of some point. -/
def Object.Allows (object : Object S O R) (earlier : List (Mark C O R)) : Mark C O R → Prop
  | .seen (.invoke call _) => ∀ op, .seen (.invoke call op) ∉ earlier
  | .seen (.respond call result) => (∃ op, .point ⟨call, op, result⟩ ∈ earlier) ∧
      ∀ other, .seen (.respond call other) ∉ earlier
  | .point effect => .seen (.invoke effect.call effect.op) ∈ earlier ∧
      (object.apply (object.after (earlier.filterMap Mark.effect)) effect.op).2 = effect.result ∧
      (object.Observes effect.op ∨ ∀ other, .point other ∈ earlier → other.call ≠ effect.call)

section Choice

variable {object : Object S O R} {marks earlier earlier' : List (Mark C O R)}

theorem mem_observed {event : Event C O R} {marks : List (Mark C O R)} :
    event ∈ marks.filterMap Mark.event ↔ .seen event ∈ marks := by
  rw [List.mem_filterMap]
  constructor
  · rintro ⟨mark, member, same⟩
    cases mark with
    | seen other =>
      cases same
      exact member
    | point => cases same
  · exact fun member => ⟨_, member, rfl⟩

/-- A place of the visible history is a place of the marks. -/
theorem observed_place {event : Event C O R} {earlier : List (Event C O R)}
    (place : event :: earlier <:+ marks.filterMap Mark.event) :
    ∃ before, .seen event :: before <:+ marks ∧ earlier = before.filterMap Mark.event := by
  obtain ⟨later, split⟩ := place
  obtain ⟨front, back, rfl, _, tail⟩ := List.filterMap_eq_append_iff.mp split.symm
  obtain ⟨skipped, mark, before, rfl, _, same, rest⟩ := List.filterMap_eq_cons_iff.mp tail
  cases mark with
  | seen other =>
    cases same
    exact ⟨before, ⟨front ++ skipped, by simp⟩, rest.symm⟩
  | point => cases same

/-- A call is made once. -/
theorem invoke_unique (each : Each object.Allows marks) {call : C} {op op' : O}
    (one : .seen (.invoke call op) :: earlier <:+ marks)
    (other : .seen (.invoke call op') :: earlier' <:+ marks) : op = op' ∧ earlier = earlier' := by
  have same := unique (fun mark => ∃ op, mark = .seen (.invoke call op)) ?_ one other
    ⟨op, rfl⟩ ⟨op', rfl⟩
  · cases same
    exact ⟨rfl, rfl⟩
  · rintro _ before place ⟨op, rfl⟩ _ member ⟨again, rfl⟩
    exact each _ _ place again member

theorem respond_unique (each : Each object.Allows marks) {call : C} {result result' : R}
    (one : .seen (.respond call result) :: earlier <:+ marks)
    (other : .seen (.respond call result') :: earlier' <:+ marks) :
    result = result' ∧ earlier = earlier' := by
  have same := unique (fun mark => ∃ result, mark = .seen (.respond call result)) ?_
    one other ⟨result, rfl⟩ ⟨result', rfl⟩
  · cases same
    exact ⟨rfl, rfl⟩
  · rintro _ before place ⟨result, rfl⟩ _ member ⟨again, rfl⟩
    exact (each _ _ place).2 again member

/-- All points of a call are for one operation. -/
theorem point_op (each : Each object.Allows marks) {effect effect' : Effect C O R}
    (one : .point effect :: earlier <:+ marks) (other : .point effect' :: earlier' <:+ marks)
    (same : effect.call = effect'.call) : effect.op = effect'.op := by
  obtain ⟨_, made⟩ := happened (each _ _ one).1
  obtain ⟨_, made'⟩ := happened (each _ _ other).1
  rw [same] at made
  exact (invoke_unique each (made.trans (before one)) (made'.trans (before other))).1

theorem point_unique (each : Each object.Allows marks) {effect effect' : Effect C O R}
    (one : .point effect :: earlier <:+ marks) (other : .point effect' :: earlier' <:+ marks)
    (same : effect.call = effect'.call) (changes : ¬object.Observes effect.op) :
    earlier = earlier' := by
  have equal := unique
    (fun mark => ∃ other, mark = .point other ∧ other.call = effect.call) ?_
    one other ⟨effect, rfl, rfl⟩ ⟨effect', rfl, same.symm⟩
  · cases equal
    rfl
  · rintro _ before place ⟨this, rfl, mine⟩ _ member ⟨that, rfl, also⟩
    rcases (each _ _ place).2.2 with observes | only
    · exact changes (point_op each place one mine ▸ observes)
    · exact only that member (also.trans mine.symm)

/-- Which points count: those of calls that may change the object, at most one of every
call, and one of every call that has returned, with its result. -/
structure Keeps (object : Object S O R) (marks : List (Mark C O R))
    (kept : List (Mark C O R) → Effect C O R → Prop) : Prop where
  changes : ∀ effect earlier, .point effect :: earlier <:+ marks →
    ¬object.Observes effect.op → kept earlier effect
  single : ∀ effect effect' earlier earlier', .point effect :: earlier <:+ marks →
    .point effect' :: earlier' <:+ marks → kept earlier effect → kept earlier' effect' →
    effect.call = effect'.call → earlier = earlier'
  responded : ∀ call result before, .seen (.respond call result) :: before <:+ marks →
    ∃ op earlier, .point ⟨call, op, result⟩ :: earlier <:+ before ∧
      kept earlier ⟨call, op, result⟩

open Classical in
/-- The points that count, in their order. -/
noncomputable def orderOf (kept : List (Mark C O R) → Effect C O R → Prop) :
    List (Mark C O R) → List (Effect C O R)
  | [] => []
  | .seen _ :: earlier => orderOf kept earlier
  | .point effect :: earlier =>
    if kept earlier effect then effect :: orderOf kept earlier else orderOf kept earlier

variable {kept : List (Mark C O R) → Effect C O R → Prop} {past : List (Mark C O R)}

theorem mem_orderOf {effect : Effect C O R} {marks : List (Mark C O R)} :
    effect ∈ orderOf kept marks ↔
      ∃ earlier, .point effect :: earlier <:+ marks ∧ kept earlier effect := by
  induction marks with
  | nil =>
    constructor
    · nofun
    · rintro ⟨earlier, place, _⟩
      cases List.suffix_nil.mp place
  | cons mark marks ih =>
    have older : (∃ earlier, .point effect :: earlier <:+ marks ∧ kept earlier effect) →
        ∃ earlier, .point effect :: earlier <:+ mark :: marks ∧ kept earlier effect := by
      rintro ⟨earlier, place, counts⟩
      exact ⟨earlier, place.trans (List.suffix_cons ..), counts⟩
    cases mark with
    | seen event =>
      rw [orderOf, ih]
      refine ⟨older, ?_⟩
      rintro ⟨earlier, place, counts⟩
      rcases List.suffix_cons_iff.mp place with same | old
      · cases same
      · exact ⟨earlier, old, counts⟩
    | point other =>
      rw [orderOf]
      split
      · rename_i counts
        rw [List.mem_cons, ih]
        constructor
        · rintro (rfl | old)
          · exact ⟨marks, List.suffix_refl _, counts⟩
          · exact older old
        · rintro ⟨earlier, place, mine⟩
          rcases List.suffix_cons_iff.mp place with same | old
          · cases same
            exact Or.inl rfl
          · exact Or.inr ⟨earlier, old, mine⟩
      · rename_i skipped
        rw [ih]
        refine ⟨older, ?_⟩
        rintro ⟨earlier, place, mine⟩
        rcases List.suffix_cons_iff.mp place with same | old
        · cases same
          exact absurd mine skipped
        · exact ⟨earlier, old, mine⟩

/-- What is left out does not change the object. -/
theorem after_orderOf (keeps : Keeps object marks kept) (place : past <:+ marks) :
    object.after (orderOf kept past) = object.after (past.filterMap Mark.effect) := by
  induction past with
  | nil => rfl
  | cons mark past ih =>
    have rest := ih (before place)
    cases mark with
    | seen event => exact rest
    | point effect =>
      have next : object.after ((.point effect :: past).filterMap Mark.effect) =
          (object.apply (object.after (past.filterMap Mark.effect)) effect.op).1 := rfl
      rw [next, orderOf]
      split
      · rw [Object.after, rest]
      · rename_i skipped
        have observes : object.Observes effect.op := by
          by_contra changes
          exact skipped (keeps.changes effect past place changes)
        rw [rest, observes]

theorem orderOf_legal (each : Each object.Allows marks) (keeps : Keeps object marks kept)
    (place : past <:+ marks) : object.Legal (orderOf kept past) := by
  induction past with
  | nil => exact .nil
  | cons mark past ih =>
    have rest := ih (before place)
    cases mark with
    | seen event => exact rest
    | point effect =>
      rw [orderOf]
      split
      · refine rest.cons ?_
        rw [after_orderOf keeps (before place)]
        exact (each _ _ place).2.1
      · exact rest

theorem orderOf_once (keeps : Keeps object marks kept) (place : past <:+ marks) :
    ((orderOf kept past).map (·.call)).Nodup := by
  induction past with
  | nil => exact List.nodup_nil
  | cons mark past ih =>
    have rest := ih (before place)
    cases mark with
    | seen event => exact rest
    | point effect =>
      rw [orderOf]
      split
      · rename_i counts
        refine List.nodup_cons.mpr ⟨fun again => ?_, rest⟩
        obtain ⟨other, member, same⟩ := List.mem_map.mp again
        obtain ⟨earlier, old, also⟩ := mem_orderOf.mp member
        have equal := keeps.single effect other past earlier place (old.trans (before place))
          counts also same.symm
        have shorter := old.length_le
        rw [List.length_cons, equal] at shorter
        omega
      · exact rest

/-- A point that counts lies between the call and its response, so a call that precedes
another has the earlier point. -/
theorem point_precedes (each : Each object.Allows marks) (keeps : Keeps object marks kept)
    {effect effect' : Effect C O R} (one : .point effect :: earlier <:+ marks)
    (other : .point effect' :: earlier' <:+ marks) (counts : kept earlier effect)
    (precedes : Precedes (marks.filterMap Mark.event) effect.call effect'.call) :
    earlier.length < earlier'.length := by
  obtain ⟨op, result, _, place, responded⟩ := precedes
  obtain ⟨atInvoke, invoked, rfl⟩ := observed_place place
  obtain ⟨atRespond, answered⟩ := happened (mem_observed.mp responded)
  obtain ⟨op', atPoint, point, also⟩ := keeps.responded effect.call result atRespond
    (answered.trans (before invoked))
  obtain rfl := keeps.single effect ⟨effect.call, op', result⟩ earlier atPoint one
    (point.trans ((before answered).trans (before invoked))) counts also rfl
  obtain ⟨atInvoke', made⟩ := happened (each _ _ other).1
  obtain ⟨_, rfl⟩ := invoke_unique each invoked (made.trans (before other))
  have first := point.length_le
  have second := answered.length_le
  have third := made.length_le
  rw [List.length_cons] at first second third
  omega

theorem orderOf_realTime (each : Each object.Allows marks) (keeps : Keeps object marks kept)
    (place : past <:+ marks) :
    (orderOf kept past).Pairwise fun later earlier =>
      ¬Precedes (marks.filterMap Mark.event) later.call earlier.call := by
  induction past with
  | nil => exact List.Pairwise.nil
  | cons mark past ih =>
    have rest := ih (before place)
    cases mark with
    | seen event => exact rest
    | point effect =>
      rw [orderOf]
      split
      · rename_i counts
        refine List.pairwise_cons.mpr ⟨?_, rest⟩
        intro other member precedes
        obtain ⟨earlier, old, _⟩ := mem_orderOf.mp member
        have longer := point_precedes each keeps place (old.trans (before place)) counts precedes
        have shorter := old.length_le
        rw [List.length_cons] at shorter
        omega
      · exact rest

theorem Keeps.linearization (each : Each object.Allows marks) (keeps : Keeps object marks kept) :
    Linearization object (marks.filterMap Mark.event) (orderOf kept marks) where
  once := orderOf_once keeps (List.suffix_refl _)
  invoked effect member := by
    obtain ⟨earlier, place, _⟩ := mem_orderOf.mp member
    exact mem_observed.mpr ((before place).subset (each _ _ place).1)
  responded call result member := by
    obtain ⟨earlier, place⟩ := happened (mem_observed.mp member)
    obtain ⟨op, atPoint, point, counts⟩ := keeps.responded call result earlier place
    exact ⟨op, mem_orderOf.mpr ⟨atPoint, point.trans (before place), counts⟩⟩
  realTime := orderOf_realTime each keeps (List.suffix_refl _)
  legal := orderOf_legal each keeps (List.suffix_refl _)

/-- The place before a point with the result of the call, and before its response. -/
def Answers (marks : List (Mark C O R)) (call : C) (earlier : List (Mark C O R)) : Prop :=
  ∃ op result before, .point ⟨call, op, result⟩ :: earlier <:+ before ∧
    .seen (.respond call result) :: before <:+ marks

open Classical in
/-- One point of every call that has returned. -/
noncomputable def chosen (marks : List (Mark C O R)) (call : C) : List (Mark C O R) :=
  if answers : ∃ earlier, Answers marks call earlier then answers.choose else []

theorem chosen_answers {call : C} {earlier : List (Mark C O R)}
    (answers : Answers marks call earlier) : Answers marks call (chosen marks call) := by
  have some_ : ∃ earlier, Answers marks call earlier := ⟨earlier, answers⟩
  rw [chosen, dif_pos some_]
  exact some_.choose_spec

/-- A point counts if its call may change the object, or if it is the chosen one. -/
theorem keeps_chosen (each : Each object.Allows marks) :
    Keeps object marks fun earlier effect =>
      ¬object.Observes effect.op ∨ chosen marks effect.call = earlier where
  changes effect earlier place changes := Or.inl changes
  single effect effect' earlier earlier' one other counts also same := by
    have op := point_op each one other same
    by_cases observes : object.Observes effect.op
    · have mine := counts.resolve_left (not_not.mpr observes)
      have theirs := also.resolve_left (not_not.mpr (op ▸ observes))
      rw [← mine, ← theirs, same]
    · exact point_unique each one other same observes
  responded call result earlier place := by
    obtain ⟨op, point⟩ := (each _ _ place).1
    obtain ⟨atPoint, happenedAt⟩ := happened point
    by_cases observes : object.Observes op
    · obtain ⟨op', result', before, point', place'⟩ :=
        chosen_answers ⟨op, result, earlier, happenedAt, place⟩
      obtain ⟨rfl, rfl⟩ := respond_unique each place' place
      exact ⟨op', _, point', Or.inr rfl⟩
    · exact ⟨op, atPoint, happenedAt, Or.inl observes⟩

/-- A history with such points is linearizable. -/
theorem linearizable_of_points (each : Each object.Allows marks) :
    Linearizable object (marks.filterMap Mark.event) :=
  ⟨_, (keeps_chosen each).linearization each⟩

end Choice

end Linearizability

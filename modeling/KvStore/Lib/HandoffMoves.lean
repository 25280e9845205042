import KvStore.Lib.Handoff

set_option autoImplicit false

/-! The moves of the handoff protocol, and that each of them keeps the invariant. -/

namespace Handoff

variable {G T H S : Type*} {Faithful : T → H → Prop} {Carries : T → S → Prop}
  {a a' : State G T H S} {g g' : G} {k : Nat} {d : S} {copy : H} {t : T}

namespace State

def propose (a : State G T H S) (g : G) : State G T H S :=
  { a with next := a.next + 1, owner := Function.update a.owner (a.next + 1) g }

def commit (a : State G T H S) : State G T H S :=
  { a with current := a.next }

def sendFreeze (a : State G T H S) (g : G) (k : Nat) : State G T H S :=
  { a with freezes := fun g' k' => a.freezes g' k' ∨ g' = g ∧ k' = k }

def sendInstall (a : State G T H S) (k : Nat) (d : S) : State G T H S :=
  { a with installs := fun k' d' => a.installs k' d' ∨ k' = k ∧ d' = d }

def sendDelete (a : State G T H S) (g : G) (k : Nat) : State G T H S :=
  { a with deletes := fun g' k' => a.deletes g' k' ∨ g' = g ∧ k' = k }

def ship (a : State G T H S) (k : Nat) (d : S) : State G T H S :=
  { a with shipped := fun k' d' => a.shipped k' d' ∨ k' = k ∧ d' = d }

def accept (a : State G T H S) (k : Nat) : State G T H S :=
  { a with accepted := fun k' => a.accepted k' ∨ k' = k }

def erase (a : State G T H S) (g : G) (k : Nat) : State G T H S :=
  { a with erased := fun g' k' => a.erased g' k' ∨ g' = g ∧ k' = k }

/-- Only requests and answers differ. -/
def Told (a a' : State G T H S) : Prop :=
  a' = { a with
    freezes := a'.freezes, installs := a'.installs, deletes := a'.deletes
    shipped := a'.shipped, accepted := a'.accepted, erased := a'.erased }

end State

namespace Inv

section

variable (inv : Inv Faithful Carries a)

include inv

theorem propose (settled : a.current = a.next) (g : G) : Inv Faithful Carries (a.propose g) := by
  have same : ∀ k, k ≤ a.next → (a.propose g).owner k = a.owner k := fun k bound =>
    Function.update_of_ne (by omega) _ _
  have rest : Resting Faithful a := by
    rcases inv.phase with rest | froze | moved
    · exact rest
    · have := froze.pending
      omega
    · have := moved.pending
      omega
  have here : (a.propose g).owner (a.propose g).current = a.owner a.current :=
    same _ (Nat.le_of_eq settled)
  refine ⟨?_, ?_, ?_, inv.installs, ?_, inv.deletes, inv.erased, ?_, ?_, ?_, Or.inl ?_⟩
  · dsimp only [State.propose]
    omega
  · intro g' k sent
    obtain ⟨known, moves⟩ := inv.freezes g' k sent
    rw [same k known]
    exact ⟨Nat.le_succ_of_le known, moves⟩
  · exact fun k d shipped => Nat.le_succ_of_le (inv.shipped k d shipped)
  · exact fun k accepted => Nat.le_succ_of_le (inv.accepted k accepted)
  · exact fun k recorded => Nat.le_succ_of_le (inv.recorded k recorded)
  · intro k early
    rw [same k (Nat.le_trans early inv.ordered.1)]
    exact inv.held k early
  · intro g' serves k from_ early
    rw [same k (Nat.le_trans early inv.ordered.1)]
    exact inv.steady g' serves k from_ early
  · refine ⟨?_, ?_, ?_, ?_, rest.shipped, rest.accepted, rest.unrecorded⟩ <;> rw [here]
    · exact rest.serving
    · exact rest.num
    · exact rest.faithful
    · exact rest.others

theorem commit (pending : a.current + 1 = a.next)
    (done : a.owner a.current = a.owner a.next ∨ a.erased (a.owner a.current) a.next) :
    Inv Faithful Carries a.commit := by
  have unaccepted : (∀ k, a.accepted k → k ≤ a.current) →
      a.owner a.current = a.owner a.next := by
    intro early
    refine done.resolve_right fun erased => ?_
    have := early _ (inv.erased _ _ erased)
    omega
  -- either way the owner of the new number serves, and everyone else is absent
  have rest : Resting Faithful a.commit := by
    rcases inv.phase with rest | froze | moved
    · have stays := unaccepted rest.accepted
      refine ⟨?_, ?_, ?_, ?_, inv.shipped, inv.accepted, inv.recorded⟩ <;>
        dsimp only [State.commit] <;> rw [← stays]
      · exact rest.serving
      · have := rest.num
        omega
      · exact rest.faithful
      · intro g differs
        have := rest.others g differs
        exact ⟨this.1, by omega⟩
    · exact absurd (unaccepted froze.accepted) froze.moves
    · have gone := moved.erased (done.resolve_left moved.moves)
      refine ⟨moved.serving, Nat.le_of_eq moved.num, moved.faithful, ?_, inv.shipped,
        inv.accepted, inv.recorded⟩
      intro g differs
      by_cases source : g = a.owner a.current
      · rw [source]
        exact ⟨gone, Nat.le_of_eq moved.source.2⟩
      · have := moved.others g source differs
        exact ⟨this.1, Nat.le_trans this.2 inv.ordered.1⟩
  refine ⟨⟨Nat.le_refl _, Nat.le_succ _⟩, inv.freezes, inv.shipped, inv.installs, inv.accepted,
    inv.deletes, inv.erased, inv.recorded, ?_, ?_, Or.inl rest⟩
  · intro k early absent
    by_cases last : k = a.next
    · rw [last] at absent
      have serving : (a.holders (a.owner a.next)).status = .serving := rest.serving
      rw [show (a.commit.holders (a.commit.owner a.next)).status = _ from serving] at absent
      cases absent
    · exact inv.held k (by dsimp only [State.commit] at early; omega) absent
  · intro g serves k from_ early
    by_cases last : k = a.next
    · rw [last]
      by_contra differs
      rw [(rest.others g (Ne.symm differs)).1] at serves
      cases serves
    · exact inv.steady g serves k from_ (by dsimp only [State.commit] at early; omega)

theorem sendFreeze (known : k ≤ a.next) (moves : g ≠ a.owner k) :
    Inv Faithful Carries (a.sendFreeze g k) := by
  refine ⟨inv.ordered, ?_, inv.shipped, inv.installs, inv.accepted, inv.deletes, inv.erased,
    inv.recorded, inv.held, inv.steady, ?_⟩
  · rintro g' k' (sent | ⟨rfl, rfl⟩)
    · exact inv.freezes g' k' sent
    · exact ⟨known, moves⟩
  · rcases inv.phase with rest | froze | moved
    · exact Or.inl { rest with }
    · exact Or.inr (Or.inl { froze with })
    · exact Or.inr (Or.inr { moved with })

theorem sendInstall (shipped : a.shipped k d) : Inv Faithful Carries (a.sendInstall k d) := by
  refine ⟨inv.ordered, inv.freezes, inv.shipped, ?_, inv.accepted, inv.deletes, inv.erased,
    inv.recorded, inv.held, inv.steady, ?_⟩
  · rintro k' d' (sent | ⟨rfl, rfl⟩)
    · exact inv.installs k' d' sent
    · exact shipped
  · rcases inv.phase with rest | froze | moved
    · exact Or.inl { rest with }
    · exact Or.inr (Or.inl { froze with })
    · exact Or.inr (Or.inr { moved with })

theorem sendDelete (accepted : a.accepted k) (g : G) : Inv Faithful Carries (a.sendDelete g k) := by
  refine ⟨inv.ordered, inv.freezes, inv.shipped, inv.installs, inv.accepted, ?_, inv.erased,
    inv.recorded, inv.held, inv.steady, ?_⟩
  · rintro g' k' (sent | ⟨rfl, rfl⟩)
    · exact inv.deletes g' k' sent
    · exact accepted
  · rcases inv.phase with rest | froze | moved
    · exact Or.inl { rest with }
    · exact Or.inr (Or.inl { froze with })
    · exact Or.inr (Or.inr { moved with })

/-- A freeze is answered once more: with the frozen copy, or for a number that is over. -/
theorem ship (sent : a.freezes g k)
    (answer : (a.holders g).status ≠ .serving ∧ (a.holders g).num = k ∧
        ((a.holders g).status = .frozen → Faithful a.truth (a.holders g).copy →
          Carries a.truth d) ∨ k < (a.holders g).num) : Inv Faithful Carries (a.ship k d) := by
  have known := (inv.freezes g k sent).1
  refine ⟨inv.ordered, inv.freezes, ?_, ?_, inv.accepted, inv.deletes, inv.erased,
    inv.recorded, inv.held, inv.steady, ?_⟩
  · rintro k' d' (old | ⟨rfl, rfl⟩)
    · exact inv.shipped k' d' old
    · exact known
  · exact fun k' d' sent' => Or.inl (inv.installs k' d' sent')
  · rcases inv.phase with rest | froze | moved
    · refine Or.inl { rest with shipped := ?_ }
      rintro k' d' (old | ⟨rfl, rfl⟩)
      · exact rest.shipped k' d' old
      · have bound : (a.holders g).num ≤ a.current := by
          by_cases source : g = a.owner a.current
          · exact source ▸ rest.num
          · exact (rest.others g source).2
        dsimp only [State.ship]
        omega
    · refine Or.inr (Or.inl { froze with carried := ?_ })
      rintro d' (old | ⟨last, rfl⟩)
      · exact froze.carried d' old
      · have pending := froze.pending
        have source : g = a.owner a.current := by
          by_contra differs
          have := (froze.others g differs).2
          dsimp only [State.ship] at last
          omega
        subst source
        rcases answer with ⟨_, _, packed⟩ | late
        · exact packed froze.frozen froze.faithful
        · have := froze.num
          dsimp only [State.ship] at last
          omega
    · exact Or.inr (Or.inr { moved with })

theorem reinstall (sent : a.installs k d)
    (known : (a.holders (a.owner k)).status = .serving ∧ (a.holders (a.owner k)).num = k ∨
      k < (a.holders (a.owner k)).num) : Inv Faithful Carries (a.accept k) := by
  have bound := inv.shipped k d (inv.installs k d sent)
  refine ⟨inv.ordered, inv.freezes, inv.shipped, inv.installs, ?_,
    fun g' k' sent' => Or.inl (inv.deletes g' k' sent'),
    fun g' k' gone => Or.inl (inv.erased g' k' gone), inv.recorded, inv.held, inv.steady, ?_⟩
  · rintro k' (old | rfl)
    · exact inv.accepted k' old
    · exact bound
  · rcases inv.phase with rest | froze | moved
    · refine Or.inl { rest with accepted := ?_ }
      rintro k' (old | rfl)
      · exact rest.accepted k' old
      · have bound : (a.holders (a.owner k')).num ≤ a.current := by
          by_cases source : a.owner k' = a.owner a.current
          · exact source ▸ rest.num
          · exact (rest.others _ source).2
        dsimp only [State.accept]
        omega
    · refine Or.inr (Or.inl { froze with accepted := ?_ })
      rintro k' (old | rfl)
      · exact froze.accepted k' old
      · have pending := froze.pending
        have bound := inv.num_le_next (a.owner k')
        rcases known with ⟨serving, _⟩ | late
        · by_cases source : a.owner k' = a.owner a.current
          · rw [source, froze.frozen] at serving
            cases serving
          · rw [(froze.others _ source).1] at serving
            cases serving
        · dsimp only [State.accept]
          omega
    · exact Or.inr (Or.inr { moved with })

theorem redelete (sent : a.deletes g k)
    (known : (a.holders g).status = .absent ∧ (a.holders g).num = k ∨ k < (a.holders g).num) :
    Inv Faithful Carries (a.erase g k) := by
  refine ⟨inv.ordered, inv.freezes, inv.shipped, inv.installs, inv.accepted, inv.deletes, ?_,
    inv.recorded, inv.held, inv.steady, ?_⟩
  · rintro g' k' (old | ⟨rfl, rfl⟩)
    · exact inv.erased g' k' old
    · exact inv.deletes g' k' sent
  · rcases inv.phase with rest | froze | moved
    · exact Or.inl { rest with }
    · exact Or.inr (Or.inl { froze with })
    · refine Or.inr (Or.inr { moved with erased := ?_ })
      rintro (old | ⟨source, last⟩)
      · exact moved.erased old
      · dsimp only [State.erase] at source last ⊢
        rw [source]
        rcases known with ⟨absent, _⟩ | late
        · exact absent
        · have num := moved.source.2
          rw [source] at num
          omega

end

end Inv

variable [DecidableEq G]

namespace State

def setHolder (a : State G T H S) (g : G) (holder : Holder H) : State G T H S :=
  { a with holders := Function.update a.holders g holder }

/-- The item is frozen at `g` for number `k`. -/
def freeze (a : State G T H S) (g : G) (k : Nat) (copy : H) : State G T H S :=
  { a.setHolder g { status := .frozen, num := k, copy } with
    frozenAs := Function.update a.frozenAs k (some (g, a.truth)) }

/-- The item is served by the owner of number `k` from now on. -/
def install (a : State G T H S) (k : Nat) (copy : H) : State G T H S :=
  { a.setHolder (a.owner k) { status := .serving, num := k, copy } with
    installed := fun k' => a.installed k' ∨ k' = k }

def delete (a : State G T H S) (g : G) (k : Nat) (copy : H) : State G T H S :=
  a.setHolder g { status := .absent, num := k, copy }

end State

namespace Inv

section

variable (inv : Inv Faithful Carries a)

include inv

/-- The current owner freezes the item for the pending number. -/
theorem freeze (sent : a.freezes g k) (serving : (a.holders g).status = .serving)
    (fresh : (a.holders g).num < k)
    (packed : Faithful a.truth (a.holders g).copy → Carries a.truth d) :
    Inv Faithful Carries ((a.freeze g k (a.holders g).copy).ship k d) := by
  obtain ⟨rest, rfl, rfl, pending⟩ := inv.freeze_pending sent serving fresh
  obtain ⟨known, moves⟩ := inv.freezes _ _ sent
  refine ⟨inv.ordered, inv.freezes, ?_, fun k d sent => Or.inl (inv.installs k d sent),
    inv.accepted, inv.deletes, inv.erased, ?_, ?_, ?_, Or.inr (Or.inl ?_)⟩
  all_goals dsimp only [State.ship, State.freeze, State.setHolder]
  · rintro k d (old | ⟨rfl, rfl⟩)
    · exact inv.shipped k d old
    · exact known
  · intro k recorded
    by_cases last : k = a.next
    · exact Nat.le_of_eq last
    · rw [Function.update_of_ne last] at recorded
      exact inv.recorded k recorded
  · intro k early absent
    by_cases here : a.owner k = a.owner a.current
    · rw [here, Function.update_self] at absent
      cases absent
    · rw [Function.update_of_ne here] at absent ⊢
      exact inv.held k early absent
  · intro g serves
    by_cases here : g = a.owner a.current
    · rw [here, Function.update_self] at serves
      cases serves
    · rw [Function.update_of_ne here] at serves
      exact absurd (inv.exclusive serves serving) here
  · constructor <;> dsimp only
    case pending => exact pending
    case moves => exact moves
    case frozen => rw [Function.update_self]
    case num => rw [Function.update_self]
    case faithful =>
      rw [Function.update_self]
      exact rest.faithful
    case others =>
      intro g differs
      rw [Function.update_of_ne differs]
      exact rest.others g differs
    case carried =>
      rintro d' (old | ⟨_, rfl⟩)
      · have := rest.shipped _ _ old
        omega
      · exact packed rest.faithful
    case accepted => exact rest.accepted
    case recorded => rw [Function.update_self]

/-- The owner of the pending number takes the item over. -/
theorem install (sent : a.installs k d) (absent : (a.holders (a.owner k)).status = .absent)
    (fresh : (a.holders (a.owner k)).num < k)
    (unpacked : Carries a.truth d → Faithful a.truth copy) :
    Inv Faithful Carries ((a.install k copy).accept k) := by
  obtain ⟨froze, rfl, carried⟩ := inv.install_pending sent absent fresh
  have pending := froze.pending
  refine ⟨inv.ordered, inv.freezes, inv.shipped, inv.installs, ?_,
    fun g' k' sent' => Or.inl (inv.deletes g' k' sent'),
    fun g' k' gone => Or.inl (inv.erased g' k' gone), inv.recorded, ?_, ?_, Or.inr (Or.inr ?_)⟩
  all_goals dsimp only [State.accept, State.install, State.setHolder]
  · rintro k (old | rfl)
    · exact inv.accepted k old
    · exact Nat.le_refl _
  · intro k early gone
    by_cases here : a.owner k = a.owner a.next
    · rw [here, Function.update_self] at gone
      cases gone
    · rw [Function.update_of_ne here] at gone ⊢
      exact inv.held k early gone
  · intro g serves k from_ early
    by_cases here : g = a.owner a.next
    · rw [here, Function.update_self] at from_
      dsimp only at from_
      omega
    · rw [Function.update_of_ne here] at serves from_
      exact inv.steady g serves k from_ early
  · constructor <;> dsimp only
    case pending => exact pending
    case moves => exact froze.moves
    case serving => rw [Function.update_self]
    case num => rw [Function.update_self]
    case faithful =>
      rw [Function.update_self]
      exact unpacked carried
    case source =>
      rw [Function.update_of_ne froze.moves, froze.frozen]
      exact ⟨nofun, froze.num⟩
    case others =>
      intro g source target
      rw [Function.update_of_ne target]
      exact froze.others g source
    case erased =>
      intro gone
      have := froze.accepted _ (inv.erased _ _ gone)
      omega
    case installed => exact Or.inr rfl
    case recorded => exact ⟨_, froze.recorded⟩

/-- The old owner erases its copy. -/
theorem delete (sent : a.deletes g k) (frozen : (a.holders g).status = .frozen)
    (same : (a.holders g).num = k) : Inv Faithful Carries ((a.delete g k copy).erase g k) := by
  obtain ⟨moved, rfl, rfl⟩ := inv.delete_pending sent frozen same
  have pending := moved.pending
  refine ⟨inv.ordered, inv.freezes, inv.shipped, inv.installs, inv.accepted, inv.deletes, ?_,
    inv.recorded, ?_, ?_, Or.inr (Or.inr ?_)⟩
  all_goals dsimp only [State.erase, State.delete, State.setHolder]
  · rintro g k (old | ⟨rfl, rfl⟩)
    · exact inv.erased g k old
    · exact inv.deletes _ _ sent
  · intro k early gone
    by_cases here : a.owner k = a.owner a.current
    · rw [here, Function.update_self]
      dsimp only
      omega
    · rw [Function.update_of_ne here] at gone ⊢
      exact inv.held k early gone
  · intro g serves k from_ early
    by_cases here : g = a.owner a.current
    · rw [here, Function.update_self] at serves
      cases serves
    · rw [Function.update_of_ne here] at serves from_
      exact inv.steady g serves k from_ early
  · have target := Ne.symm moved.moves
    constructor <;> dsimp only
    case pending => exact pending
    case moves => exact moved.moves
    case serving =>
      rw [Function.update_of_ne target]
      exact moved.serving
    case num =>
      rw [Function.update_of_ne target]
      exact moved.num
    case faithful =>
      rw [Function.update_of_ne target]
      exact moved.faithful
    case source =>
      rw [Function.update_self]
      exact ⟨nofun, rfl⟩
    case others =>
      intro g source differs
      rw [Function.update_of_ne source]
      exact moved.others g source differs
    case erased =>
      intro _
      rw [Function.update_self]
    case installed => exact moved.installed
    case recorded => exact moved.recorded

/-- Only local copies and the item itself change. Who serves the item follows it;
while it is frozen it does not change. -/
theorem evolve {holders : G → Holder H} (status : ∀ g, (holders g).status = (a.holders g).status)
    (num : ∀ g, (holders g).num = (a.holders g).num)
    (follows : ∀ g, Faithful a.truth (a.holders g).copy →
      (a.holders g).status = .serving ∨ t = a.truth → Faithful t (holders g).copy)
    (served : t = a.truth ∨ ∃ g, (a.holders g).status = .serving) :
    Inv Faithful Carries { a with holders, truth := t } := by
  refine ⟨inv.ordered, inv.freezes, inv.shipped, inv.installs, inv.accepted, inv.deletes,
    inv.erased, inv.recorded, ?_, ?_, ?_⟩
  · intro k early absent
    rw [status] at absent
    rw [num]
    exact inv.held k early absent
  · intro g serves k from_ early
    rw [status] at serves
    rw [num] at from_
    exact inv.steady g serves k from_ early
  · have others : ∀ g, (a.holders g).status = .absent ∧ (a.holders g).num ≤ a.current →
        (holders g).status = .absent ∧ (holders g).num ≤ a.current := by
      intro g idle
      rw [status, num]
      exact idle
    rcases inv.phase with rest | froze | moved
    · exact Or.inl ⟨(status _).trans rest.serving, (num _).symm ▸ rest.num,
        follows _ rest.faithful (Or.inl rest.serving),
        fun g differs => others g (rest.others g differs),
        rest.shipped, rest.accepted, rest.unrecorded⟩
    · have same : t = a.truth := by
        refine served.resolve_right fun ⟨g, serves⟩ => ?_
        by_cases source : g = a.owner a.current
        · rw [source, froze.frozen] at serves
          cases serves
        · rw [(froze.others g source).1] at serves
          cases serves
      subst same
      exact Or.inr (Or.inl ⟨froze.pending, froze.moves, (status _).trans froze.frozen,
        (num _).trans froze.num, follows _ froze.faithful (Or.inr rfl),
        fun g differs => others g (froze.others g differs), froze.carried, froze.accepted,
        froze.recorded⟩)
    · exact Or.inr (Or.inr ⟨moved.pending, moved.moves, (status _).trans moved.serving,
        (num _).trans moved.num, follows _ moved.faithful (Or.inl moved.serving),
        ⟨(status _).symm ▸ moved.source.1, (num _).trans moved.source.2⟩,
        fun g source target => others g (moved.others g source target),
        fun gone => (status _).trans (moved.erased gone), moved.installed,
        moved.recorded⟩)

end

end Inv

variable (Faithful Carries) in
/-- The moves of the protocol. A refused request changes nothing and is no move. -/
inductive Step : State G T H S → State G T H S → Prop
  | propose {a : State G T H S} (g : G) (settled : a.current = a.next) : Step a (a.propose g)
  | commit {a : State G T H S} (pending : a.current + 1 = a.next)
      (done : a.owner a.current = a.owner a.next ∨ a.erased (a.owner a.current) a.next) :
      Step a a.commit
  | sendFreeze {a : State G T H S} {g : G} {k : Nat} (known : k ≤ a.next)
      (moves : g ≠ a.owner k) : Step a (a.sendFreeze g k)
  | sendInstall {a : State G T H S} {k : Nat} {d : S} (shipped : a.shipped k d) :
      Step a (a.sendInstall k d)
  | sendDelete {a : State G T H S} {g : G} {k : Nat} (accepted : a.accepted k) :
      Step a (a.sendDelete g k)
  | freeze {a : State G T H S} {g : G} {k : Nat} {d : S} (sent : a.freezes g k)
      (serving : (a.holders g).status = .serving) (fresh : (a.holders g).num < k)
      (packed : Faithful a.truth (a.holders g).copy → Carries a.truth d) :
      Step a ((a.freeze g k (a.holders g).copy).ship k d)
  | refreeze {a : State G T H S} {g : G} {k : Nat} {d : S} (sent : a.freezes g k)
      (idle : (a.holders g).status ≠ .serving) (again : (a.holders g).num = k)
      (packed : (a.holders g).status = .frozen →
        Faithful a.truth (a.holders g).copy → Carries a.truth d) :
      Step a (a.ship k d)
  | freezeLate {a : State G T H S} {g : G} {k : Nat} {d : S} (sent : a.freezes g k)
      (late : k < (a.holders g).num) : Step a (a.ship k d)
  | install {a : State G T H S} {k : Nat} {d : S} {copy : H} (sent : a.installs k d)
      (absent : (a.holders (a.owner k)).status = .absent)
      (fresh : (a.holders (a.owner k)).num < k)
      (unpacked : Carries a.truth d → Faithful a.truth copy) :
      Step a ((a.install k copy).accept k)
  | reinstall {a : State G T H S} {k : Nat} {d : S} (sent : a.installs k d)
      (known : (a.holders (a.owner k)).status = .serving ∧ (a.holders (a.owner k)).num = k ∨
        k < (a.holders (a.owner k)).num) : Step a (a.accept k)
  | delete {a : State G T H S} {g : G} {k : Nat} {copy : H} (sent : a.deletes g k)
      (frozen : (a.holders g).status = .frozen) (same : (a.holders g).num = k) :
      Step a ((a.delete g k copy).erase g k)
  | redelete {a : State G T H S} {g : G} {k : Nat} (sent : a.deletes g k)
      (known : (a.holders g).status = .absent ∧ (a.holders g).num = k ∨
        k < (a.holders g).num) : Step a (a.erase g k)
  | evolve {a : State G T H S} {holders : G → Holder H} {t : T}
      (status : ∀ g, (holders g).status = (a.holders g).status)
      (num : ∀ g, (holders g).num = (a.holders g).num)
      (follows : ∀ g, Faithful a.truth (a.holders g).copy →
        (a.holders g).status = .serving ∨ t = a.truth → Faithful t (holders g).copy)
      (served : t = a.truth ∨ ∃ g, (a.holders g).status = .serving) :
      Step a { a with holders, truth := t }

/-- Every move keeps the invariant. -/
theorem Inv.step (inv : Inv Faithful Carries a) (move : Step Faithful Carries a a') :
    Inv Faithful Carries a' := by
  cases move with
  | propose g settled => exact inv.propose settled g
  | commit pending done => exact inv.commit pending done
  | sendFreeze known moves => exact inv.sendFreeze known moves
  | sendInstall shipped => exact inv.sendInstall shipped
  | sendDelete accepted => exact inv.sendDelete accepted _
  | freeze sent serving fresh packed => exact inv.freeze sent serving fresh packed
  | refreeze sent idle again packed => exact inv.ship sent (Or.inl ⟨idle, again, packed⟩)
  | freezeLate sent late => exact inv.ship sent (Or.inr late)
  | install sent absent fresh unpacked => exact inv.install sent absent fresh unpacked
  | reinstall sent known => exact inv.reinstall sent known
  | delete sent frozen same => exact inv.delete sent frozen same
  | redelete sent known => exact inv.redelete sent known
  | evolve status num follows served => exact inv.evolve status num follows served

theorem Inv.grows (inv : Inv Faithful Carries a) (move : Step Faithful Carries a a') :
    Grows a a' := by
  have same := Grows.refl a
  cases move with
  | propose g settled =>
    exact { same with
      owner := fun k bound => Function.update_of_ne (by omega) _ _
      next := Nat.le_succ _ }
  | commit pending done => exact { same with current := inv.ordered.1 }
  | sendFreeze known moves => exact { same with freezes := fun _ _ => Or.inl }
  | sendInstall shipped => exact { same with installs := fun _ _ => Or.inl }
  | sendDelete accepted => exact { same with deletes := fun _ _ => Or.inl }
  | freeze sent serving fresh packed =>
    obtain ⟨rest, _, rfl, pending⟩ := inv.freeze_pending sent serving fresh
    refine { same with shipped := fun _ _ => Or.inl, frozenAs := ?_ }
    intro k record held
    have early := rest.unrecorded k (by rw [held]; nofun)
    exact (Function.update_of_ne (by omega) _ _).trans held
  | refreeze sent idle again packed => exact { same with shipped := fun _ _ => Or.inl }
  | freezeLate sent late => exact { same with shipped := fun _ _ => Or.inl }
  | install sent absent fresh unpacked =>
    exact { same with accepted := fun _ => Or.inl, installed := fun _ => Or.inl }
  | reinstall sent known => exact { same with accepted := fun _ => Or.inl }
  | delete sent frozen same_ => exact { same with erased := fun _ _ => Or.inl }
  | redelete sent known => exact { same with erased := fun _ _ => Or.inl }
  | evolve status num follows served => exact { same with }

end Handoff

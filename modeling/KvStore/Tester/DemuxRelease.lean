import KvStore.Tester.DemuxSafety

set_option autoImplicit false

/-! A broken connection leaves no call behind: the client's reader fails every call that
still waits, and the calls get there on their own. -/

namespace KvStore.Demux

/-- The steps that the calls under way and the reader of the client take. -/
def Action.OfClient : Action → Prop
  | .put _ => True
  | .write _ => True
  | .read => True
  | .reply => True
  | .outstanding => True
  | .fail _ => True
  | .receive => True
  | _ => False

def ClientMoves (gobs : Gobs) (σ σ' : Connection) : Prop :=
  ∃ action : Action, action.OfClient ∧ σ.step gobs action = some σ'

/-- The same calls, each as far as it was or further. -/
structure Onward (σ σ' : Connection) : Prop where
  length : σ'.calls.length = σ.calls.length
  calls : ∀ (i : Nat) call, σ.calls[i]? = some call → ∃ later, σ'.calls[i]? = some later ∧
    later.tag = call.tag ∧ later.request = call.request ∧
    (call.phase.written = true → later.phase.written = true) ∧
    ∀ reply, call.phase = .returned reply → later.phase = .returned reply

namespace Onward

variable {σ σ' σ'' : Connection}

theorem of_same (same : σ'.calls = σ.calls) : Onward σ σ' where
  length := by rw [same]
  calls i call there := ⟨call, same ▸ there, rfl, rfl, id, fun _ => id⟩

theorem trans (first : Onward σ σ') (second : Onward σ' σ'') : Onward σ σ'' where
  length := second.length.trans first.length
  calls i call there := by
    obtain ⟨middle, here, tag, request, written, returned⟩ := first.calls i call there
    obtain ⟨later, there', tag', request', written', returned'⟩ := second.calls i middle here
    exact ⟨later, there', tag'.trans tag, request'.trans request,
      fun done => written' (written done), fun reply done => returned' reply (returned reply done)⟩

theorem before (onward : Onward σ σ') {i : Nat} {later : SendReceive}
    (there : σ'.calls[i]? = some later) :
    ∃ call, σ.calls[i]? = some call ∧
      (call.phase.written = true → later.phase.written = true) := by
  have inside := (List.getElem?_eq_some_iff.mp there).1
  rw [onward.length] at inside
  have found := List.getElem?_eq_getElem inside
  obtain ⟨same, here, _, _, keeps, _⟩ := onward.calls i _ found
  obtain rfl := Option.some.inj (there.symm.trans here)
  exact ⟨_, found, keeps⟩

/-- One call goes on. -/
theorem of_set {i : Nat} {call : SendReceive} {phase : Phase}
    (calls : σ'.calls = σ.calls.set i { call with phase := phase })
    (found : σ.calls[i]? = some call) (waits : ∀ reply, call.phase ≠ .returned reply)
    (keeps : call.phase.written = true → phase.written = true) : Onward σ σ' where
  length := by rw [calls, List.length_set]
  calls j other there := by
    rw [calls]
    rcases Slots.set_kept found { call with phase := phase } there with ⟨_, rfl, here⟩ | ⟨_, here⟩
    · exact ⟨_, here, rfl, rfl, keeps, fun reply done => absurd done (waits reply)⟩
    · exact ⟨other, here, rfl, rfl, id, fun _ => id⟩

end Onward

/-- A connection that is broken, with everything in order. -/
structure Ended (gobs : Gobs) (clnt : String) (σ : Connection) : Prop where
  sound : ∃ requests replies, Sound gobs clnt requests replies σ
  broken : σ.broken = true

variable {gobs : Gobs} {clnt : String} {σ σ' : Connection}

theorem replyTo_cases (σ : Connection) (tag : Tag) (reply : Reply) (left : Option (List Tag)) :
    (∃ ch callmap, σ.replyTo tag reply left =
        { σ with callmap := callmap, reader := .sending ch reply left }) ∨
      (σ.replyTo tag reply left).clntFatal = true := by
  unfold Connection.replyTo
  cases σ.callmap.remove tag with
  | none => exact Or.inr rfl
  | some found => exact Or.inl ⟨found.1, found.2, rfl⟩

namespace Ended

theorem lives (ended : Ended gobs clnt σ) : σ.clntFatal = false := by
  obtain ⟨_, _, sound⟩ := ended.sound
  exact sound.clntLives

theorem step (ended : Ended gobs clnt σ) {action : Action}
    (moved : σ.step gobs action = some σ') (own : action.OfClient)
    (broken : σ'.broken = σ.broken) :
    Ended gobs clnt σ' := by
  obtain ⟨requests, replies, sound⟩ := ended.sound
  refine ⟨sound.step ?_ moved, broken.trans ended.broken⟩
  cases action with
  | sendReceive request => cases own
  | serve k rep ok => cases own
  | _ => rfl

/-- Every call can be brought to write its request, or to fail at the map. -/
theorem writes (ended : Ended gobs clnt σ) (i : Nat) :
    ∃ σ', Relation.ReflTransGen (ClientMoves gobs) σ σ' ∧ Ended gobs clnt σ' ∧ Onward σ σ' ∧
      ∀ call, σ'.calls[i]? = some call → call.phase.written = true := by
  -- From the map on, one write is enough.
  have second {σ : Connection} (ended : Ended gobs clnt σ) {call : SendReceive}
      (found : σ.calls[i]? = some call) (registered : call.phase = .registered) :
      ∃ σ', Relation.ReflTransGen (ClientMoves gobs) σ σ' ∧ Ended gobs clnt σ' ∧ Onward σ σ' ∧
        ∀ call, σ'.calls[i]? = some call → call.phase.written = true := by
    have moved : σ.step gobs (.write i) = some (σ.setPhase i call .waiting) := by
      simp only [Connection.step, ended.lives, Connection.write, found, Option.bind_eq_bind,
        Option.bind_some, registered, ended.broken, ↓reduceIte, Bool.false_eq_true]
    refine ⟨_, .single ⟨.write i, trivial, moved⟩, ended.step moved trivial rfl,
      .of_set rfl found (by simp [registered]) fun _ => rfl, fun later there => ?_⟩
    obtain rfl := Option.some.inj ((Slots.set_self found).symm.trans there)
    rfl
  cases found : σ.calls[i]? with
  | none =>
    exact ⟨σ, .refl, ended, .of_same rfl, by simp [found]⟩
  | some call =>
    cases phase : call.phase with
    | tagged =>
      cases done : σ.callmap.put call.tag i with
      | ok callmap =>
        have moved : σ.step gobs (.put i) =
            some { σ.setPhase i call .registered with callmap := callmap } := by
          simp only [Connection.step, ended.lives, Connection.put, found, Option.bind_eq_bind,
            Option.bind_some, phase, done, ↓reduceIte, Bool.false_eq_true]
        obtain ⟨σ', reaches, ended', onward, written⟩ :=
          second (ended.step moved trivial rfl) (Slots.set_self found) rfl
        exact ⟨σ', .head ⟨.put i, trivial, moved⟩ reaches, ended',
          .trans (.of_set rfl found (by simp [phase]) (by simp [phase, Phase.written])) onward,
          written⟩
      | error err =>
        have moved : σ.step gobs (.put i) =
            some (σ.setPhase i call (.returned ⟨[], false, some err⟩)) := by
          simp only [Connection.step, ended.lives, Connection.put, found, Option.bind_eq_bind,
            Option.bind_some, phase, done, ↓reduceIte, Bool.false_eq_true]
        refine ⟨_, .single ⟨.put i, trivial, moved⟩, ended.step moved trivial rfl,
          .of_set rfl found (by simp [phase]) fun _ => rfl, fun later there => ?_⟩
        obtain rfl := Option.some.inj ((Slots.set_self found).symm.trans there)
        rfl
    | registered => exact second ended found phase
    | waiting =>
      refine ⟨σ, .refl, ended, .of_same rfl, fun later there => ?_⟩
      obtain rfl := Option.some.inj (found.symm.trans there)
      rw [phase]
      rfl
    | returned reply =>
      refine ⟨σ, .refl, ended, .of_same rfl, fun later there => ?_⟩
      obtain rfl := Option.some.inj (found.symm.trans there)
      rw [phase]
      rfl

end Ended

/-- All calls have come to wait for their replies or have returned. -/
def Written (σ : Connection) : Prop := ∀ call ∈ σ.calls, call.phase.written = true

theorem Onward.written (onward : Onward σ σ') (written : Written σ) : Written σ' := by
  intro later member
  obtain ⟨i, there⟩ := List.mem_iff_getElem?.mp member
  obtain ⟨call, found, keeps⟩ := onward.before there
  exact keeps (written call (List.mem_of_getElem? found))

def waiting (calls : List SendReceive) : Nat := calls.countP fun call => call.phase = .waiting

/-- How far the reader is from its end: every reply it gives leaves one call less to wait. -/
def rank (σ : Connection) : Nat :=
  4 * waiting σ.calls + match σ.reader with
    | .reading => 3
    | .got _ => 2
    | .sending _ _ none => 1
    | .closed => 2
    | .failing _ => 1
    | .sending _ _ (some _) => 0

/-- One step of the reader on a broken connection. -/
structure Advances (gobs : Gobs) (clnt : String) (σ σ' : Connection) : Prop where
  moves : ClientMoves gobs σ σ'
  ended : Ended gobs clnt σ'
  onward : Onward σ σ'
  lower : rank σ' < rank σ

namespace Ended

section

variable (ended : Ended gobs clnt σ)

include ended

theorem advance_read (reading : σ.reader = .reading) : ∃ σ', Advances gobs clnt σ σ' := by
  have closes (short : readCall gobs.msg σ.toClient = .short) : ∃ σ', Advances gobs clnt σ σ' := by
    have moved : σ.step gobs .read =
        some { σ with callmap := σ.callmap.close, reader := .closed } := by
      simp only [Connection.step, ended.lives, Connection.read, reading, short, ended.broken,
        ↓reduceIte, Bool.false_eq_true]
    refine ⟨_, ⟨.read, trivial, moved⟩, ended.step moved trivial rfl, .of_same rfl, ?_⟩
    simp only [rank, reading]
    omega
  obtain ⟨requests, replies, sound⟩ := ended.sound
  cases replies with
  | nil => exact closes sound.toClient.readCall_nil
  | cons msg rest =>
    rcases sound.toClient.readCall_cons with ⟨bytes, found, _⟩ | ⟨short, _⟩
    · have moved : σ.step gobs .read = some { σ with toClient := bytes, reader := .got msg } := by
        simp only [Connection.step, ended.lives, Connection.read, reading, found, ↓reduceIte,
          Bool.false_eq_true]
      refine ⟨_, ⟨.read, trivial, moved⟩, ended.step moved trivial rfl, .of_same rfl, ?_⟩
      simp only [rank, reading]
      omega
    · exact closes short

/-- The reader finds the channel of the tag it has. -/
theorem advance_replyTo {action : Action} {tag : Tag} {reply : Reply} {left : Option (List Tag)}
    (moved : σ.step gobs action = some (σ.replyTo tag reply left)) (own : action.OfClient)
    (lower : ∀ ch, rank { σ with reader := .sending ch reply left } < rank σ) :
    ∃ σ', Advances gobs clnt σ σ' := by
  rcases replyTo_cases σ tag reply left with ⟨ch, callmap, found⟩ | died
  · rw [found] at moved
    exact ⟨_, ⟨action, own, moved⟩, ended.step moved own rfl, .of_same rfl, lower ch⟩
  · have broken : (σ.replyTo tag reply left).broken = σ.broken := by
      unfold Connection.replyTo
      cases σ.callmap.remove tag <;> rfl
    cases died.symm.trans (ended.step moved own broken).lives

theorem advance_receive (written : Written σ) {ch : Nat} {reply : Reply} {left : Option (List Tag)}
    (sending : σ.reader = .sending ch reply left) : ∃ σ', Advances gobs clnt σ σ' := by
  obtain ⟨_, _, sound⟩ := ended.sound
  obtain ⟨⟨call, found, isOpen⟩, _⟩ := sound.table.target ch reply left sending
  have waits : call.phase = .waiting := by
    have done := written call (List.mem_of_getElem? found)
    cases phase : call.phase with
    | waiting => rfl
    | returned reply => rw [phase] at isOpen; cases isOpen
    | _ => rw [phase] at done; cases done
  have moved : σ.step gobs .receive = some { σ.setPhase ch call (.returned reply) with
      reader := left.elim .reading .failing } := by
    simp only [Connection.step, ended.lives, Connection.receive, sending, found,
      Option.bind_eq_bind, Option.bind_some, waits, ↓reduceIte, Bool.false_eq_true]
  refine ⟨_, ⟨.receive, trivial, moved⟩, ended.step moved trivial rfl,
    .of_set rfl found (by simp [waits]) fun _ => rfl, ?_⟩
  obtain ⟨inside, same⟩ := List.getElem?_eq_some_iff.mp found
  have some_waits : 0 < waiting σ.calls :=
    List.countP_pos_iff.mpr ⟨call, List.mem_of_getElem? found, by simp only [waits, decide_true]⟩
  have fewer : waiting (σ.calls.set ch { call with phase := .returned reply }) =
      waiting σ.calls - 1 := by
    simp only [waiting, List.countP_set inside, same, waits, decide_true, ↓reduceIte, reduceCtorEq,
      decide_false, Bool.false_eq_true, Nat.add_zero]
  cases left with
  | none =>
    simp only [rank, Connection.setPhase, sending, fewer, Option.elim]
    omega
  | some tags =>
    simp only [rank, Connection.setPhase, sending, fewer, Option.elim]
    omega

/-- Until it has come to its end, the reader can go on. -/
theorem advance (written : Written σ) (more : σ.reader ≠ .failing []) :
    ∃ σ', Advances gobs clnt σ σ' := by
  cases reader : σ.reader with
  | reading => exact ended.advance_read reader
  | got msg =>
    have moved : σ.step gobs .reply =
        some (σ.replyTo msg.tag ⟨msg.data, msg.ok, none⟩ none) := by
      simp only [Connection.step, ended.lives, Connection.reply, reader, ↓reduceIte,
        Bool.false_eq_true]
    refine ended.advance_replyTo moved trivial fun ch => ?_
    simp only [rank, reader]
    omega
  | sending ch reply left => exact ended.advance_receive written reader
  | closed =>
    have moved : σ.step gobs .outstanding =
        some { σ with reader := .failing σ.callmap.outstanding } := by
      simp only [Connection.step, ended.lives, Connection.outstanding, reader, ↓reduceIte,
        Bool.false_eq_true]
    refine ⟨_, ⟨.outstanding, trivial, moved⟩, ended.step moved trivial rfl, .of_same rfl, ?_⟩
    simp only [rank, reader]
    omega
  | failing tags =>
    cases tags with
    | nil => exact absurd reader more
    | cons tag rest =>
      have moved : σ.step gobs (.fail 0) = some (σ.replyTo tag
          ⟨[], false, some "reader reply fail"⟩ (some ((tag :: rest).eraseIdx 0))) := by
        simp only [Connection.step, ended.lives, Connection.fail, reader, List.getElem?_cons_zero,
          Option.bind_eq_bind, Option.bind_some, ↓reduceIte, Bool.false_eq_true]
      refine ended.advance_replyTo moved trivial fun ch => ?_
      simp only [rank, reader]
      omega

/-- The reader runs to its end. -/
theorem drains (written : Written σ) :
    ∃ σ', Relation.ReflTransGen (ClientMoves gobs) σ σ' ∧ Ended gobs clnt σ' ∧ Onward σ σ' ∧
      Written σ' ∧ σ'.reader = .failing [] := by
  induction fuel : rank σ using Nat.strongRecOn generalizing σ with
  | ind fuel ih =>
    by_cases done : σ.reader = .failing []
    · exact ⟨σ, .refl, ended, .of_same rfl, written, done⟩
    · obtain ⟨middle, first⟩ := ended.advance written done
      obtain ⟨σ', reaches, ended', onward, written', done'⟩ :=
        ih (rank middle) (fuel ▸ first.lower) first.ended
          (first.onward.written written) rfl
      exact ⟨σ', .head first.moves reaches, ended', first.onward.trans onward, written', done'⟩

end

end Ended

end KvStore.Demux

import KvStore.Lib.Slots
import KvStore.Tester.Demux
import Mathlib.Data.List.Perm.Basic
import Mathlib.Data.List.Nodup

set_option autoImplicit false

/-! What holds on a connection in every run: where each request and each answer is, and
which calls the map has. -/

namespace KvStore.Demux

/-- The tag of the call with the given number: the first message has taken tag 0. -/
def tagOf (i : Nat) : Tag := BitVec.ofNat 32 (i + 1)

theorem tagOf_injective {i j : Nat} (low : i < 2 ^ 32) (low' : j < 2 ^ 32)
    (same : tagOf i = tagOf j) : i = j := by
  have equal := congrArg BitVec.toNat same
  simp only [tagOf, BitVec.toNat_ofNat] at equal
  omega

def Phase.isOpen : Phase → Bool
  | .registered => true
  | .waiting => true
  | _ => false

def Phase.written : Phase → Bool
  | .waiting => true
  | .returned _ => true
  | _ => false

namespace Reader

/-- The reader may still read. -/
def live : Reader → Bool
  | .reading => true
  | .got _ => true
  | .sending _ _ none => true
  | _ => false

def hand : Reader → List Msg
  | .got msg => [msg]
  | _ => []

/-- The call that the reader is about to give a reply to. -/
def target : Reader → Option Nat
  | .sending ch _ _ => some ch
  | _ => none

/-- The tags that are left to fail. -/
def left : Reader → Option (List Tag)
  | .sending _ _ left => left
  | .failing tags => some tags
  | _ => none

end Reader

def Execution.answer (execution : Execution) : Msg := ⟨execution.tag, execution.rep, execution.ok⟩

/-- Some call has written this request under this tag. -/
def Asked (calls : List SendReceive) (tag : Tag) (request : Bytes) : Prop :=
  ∃ (i : Nat) (call : SendReceive), calls[i]? = some call ∧ call.tag = tag ∧
    call.request = request ∧ call.phase.written = true

/-- Call `i` has its channel in the map: it has put it there, and the reader has not taken
it out. -/
def Listed (calls : List SendReceive) (target : Option Nat) (i : Nat) : Prop :=
  ∃ call, calls[i]? = some call ∧ call.phase.isOpen = true ∧ target ≠ some i

def Answered (executed : List Execution) (i : Nat) (reply : Reply) : Prop :=
  ∃ execution ∈ executed, execution.tag = tagOf i ∧ execution.rep = reply.rep ∧
    execution.ok = reply.ok

variable {call : SendReceive} {calls : List SendReceive} {request : Bytes} {i : Nat}

theorem Asked.set {phase : Phase} {tag : Tag} (asked : Asked calls tag request)
    (found : calls[i]? = some call) (keeps : call.phase.written = true → phase.written = true) :
    Asked (calls.set i { call with phase := phase }) tag request := by
  obtain ⟨j, old, there, named, asks, written⟩ := asked
  rcases Slots.set_kept found { call with phase := phase } there with ⟨_, rfl, here⟩ | ⟨_, here⟩
  · exact ⟨j, _, here, named, asks, keeps written⟩
  · exact ⟨j, old, here, named, asks, written⟩

theorem Asked.append {tag : Tag} (asked : Asked calls tag request) (more : List SendReceive) :
    Asked (calls ++ more) tag request := by
  obtain ⟨j, old, there, rest⟩ := asked
  exact ⟨j, old, Slots.append_kept there more, rest⟩

theorem Answered.append {executed : List Execution} {reply : Reply}
    (answered : Answered executed i reply) (more : List Execution) :
    Answered (executed ++ more) i reply := by
  obtain ⟨execution, member, rest⟩ := answered
  exact ⟨execution, List.mem_append_left _ member, rest⟩

theorem listed_set {i j : Nat} {phase : Phase} {target : Option Nat}
    (found : calls[i]? = some call) :
    Listed (calls.set i { call with phase := phase }) target j ↔
      j = i ∧ phase.isOpen = true ∧ target ≠ some i ∨ j ≠ i ∧ Listed calls target j := by
  constructor
  · rintro ⟨other, there, opened, free⟩
    rcases Slots.set_cases there with ⟨rfl, rfl⟩ | ⟨apart, there⟩
    · exact Or.inl ⟨rfl, opened, free⟩
    · exact Or.inr ⟨apart, other, there, opened, free⟩
  · rintro (⟨rfl, opened, free⟩ | ⟨apart, other, there, opened, free⟩)
    · exact ⟨_, Slots.set_self found, opened, free⟩
    · exact ⟨other, by rw [List.getElem?_set_ne (Ne.symm apart), there], opened, free⟩

/-- A call leaves the open ones as the reader lets go of it. -/
theorem listed_returned {ch j : Nat} {reply : Reply} (found : calls[ch]? = some call) :
    Listed (calls.set ch { call with phase := .returned reply }) none j ↔
      Listed calls (some ch) j := by
  refine (listed_set found).trans ⟨?_, ?_⟩
  · rintro (⟨_, isOpen, _⟩ | ⟨apart, other, there, isOpen, _⟩)
    · cases isOpen
    · exact ⟨other, there, isOpen, fun same => apart (Option.some.inj same).symm⟩
  · rintro ⟨other, there, isOpen, free⟩
    exact Or.inr ⟨fun same => free (same ▸ rfl), other, there, isOpen, by simp⟩

/-- The reader after it has given its reply: nothing in hand, and nobody to give it to. -/
theorem Reader.resumes (left : Option (List Tag)) :
    (left.elim Reader.reading Reader.failing).target = none ∧
      (left.elim Reader.reading Reader.failing).hand = [] := by
  cases left <;> exact ⟨rfl, rfl⟩

theorem Reader.resumes_like (ch : Nat) (reply : Reply) (left : Option (List Tag)) :
    (left.elim Reader.reading Reader.failing).live = (Reader.sending ch reply left).live ∧
      (left.elim Reader.reading Reader.failing).left = (Reader.sending ch reply left).left := by
  cases left <;> exact ⟨rfl, rfl⟩

namespace CallMap

variable {cm after : CallMap} {tag : Tag} {ch : Nat}

theorem put_ok (done : cm.put tag ch = .ok after) :
    cm.closed = false ∧ ∀ other i, (other, i) ∈ after.calls ↔
      other = tag ∧ i = ch ∨ other ≠ tag ∧ (other, i) ∈ cm.calls := by
  unfold put at done
  split at done
  · cases done
  · rename_i opened
    obtain rfl := Except.ok.inj done
    refine ⟨by simpa using opened, fun other i => ?_⟩
    simp only [List.mem_cons, Prod.mk.injEq, List.mem_filter, decide_eq_true_eq]
    tauto

theorem put_keys (done : cm.put tag ch = .ok after) (keys : (cm.calls.map Prod.fst).Nodup) :
    (after.calls.map Prod.fst).Nodup := by
  unfold put at done
  split at done
  · cases done
  · obtain rfl := Except.ok.inj done
    refine List.nodup_cons.mpr ⟨fun member => ?_, keys.sublist (List.filter_sublist.map _)⟩
    obtain ⟨entry, there, same⟩ := List.mem_map.mp member
    exact of_decide_eq_true (List.mem_filter.mp there).2 same

theorem remove_mem (member : (tag, ch) ∈ cm.calls)
    (unique : ∀ other, (tag, other) ∈ cm.calls → other = ch) :
    cm.remove tag =
      some (ch, { cm with calls := cm.calls.filter fun entry => entry.1 ≠ tag }) := by
  cases found : cm.calls.lookup tag with
  | none =>
    have absent := List.lookup_eq_none_iff.mp found (tag, ch) member
    simp at absent
  | some other =>
    obtain ⟨before, behind, split, _⟩ := List.lookup_eq_some_iff.mp found
    have there : (tag, other) ∈ cm.calls := by
      rw [split]
      exact List.mem_append_right _ (List.mem_cons_self ..)
    simp only [remove, found, Option.map_some, unique other there]

end CallMap

/-- What the calls say of themselves, and what is known of every request that has been
written. -/
structure Books (gobs : Gobs) (clnt : String) (requests : List Msg) (σ : Connection) : Prop where
  tags : ∀ (i : Nat) call, σ.calls[i]? = some call → call.tag = tagOf i
  fits : ∀ call ∈ σ.calls, (⟨call.tag, call.request, true⟩ : Msg).Fits gobs.msg
  few : σ.calls.length ≤ 2 ^ 32
  nextTag : σ.nextTag = tagOf σ.calls.length
  asked : ∀ msg ∈ requests, Asked σ.calls msg.tag msg.data
  started : ∀ handler ∈ σ.started, Asked σ.calls handler.1 handler.2
  executed : ∀ execution ∈ σ.executed, execution.clnt = clnt ∧
    Asked σ.calls execution.tag execution.request
  returned : ∀ (i : Nat) call reply, σ.calls[i]? = some call → call.phase = .returned reply →
    reply.err = none → Answered σ.executed i reply

/-- What the map has, and what the reader is about to do with it. -/
structure Table (σ : Connection) : Prop where
  keys : (σ.callmap.calls.map Prod.fst).Nodup
  listed : ∀ tag i, (tag, i) ∈ σ.callmap.calls ↔
    tag = tagOf i ∧ Listed σ.calls σ.reader.target i
  target : ∀ ch reply left, σ.reader = .sending ch reply left →
    (∃ call, σ.calls[ch]? = some call ∧ call.phase.isOpen = true) ∧
      (left = none → reply.err = none) ∧ (reply.err = none → Answered σ.executed ch reply)
  left : ∀ tags, σ.reader.left = some tags → tags.Nodup ∧
    ∀ tag, tag ∈ tags ↔ ∃ i, tag = tagOf i ∧ Listed σ.calls σ.reader.target i
  closed : σ.reader.live = false → σ.callmap.closed = true

/-- The answers that have not reached their calls. -/
def Connection.answers (σ : Connection) (replies : List Msg) : List Msg :=
  σ.served ++ replies ++ σ.reader.hand

/-- Every request is in one place, and so is every answer; as long as the reader reads, the
calls of all of them are in the map. -/
structure Flow (requests replies : List Msg) (σ : Connection) : Prop where
  once : (requests.map Msg.tag ++ σ.started.map Prod.fst ++
    σ.executed.map Execution.tag).Nodup
  answers : ∀ msg ∈ σ.answers replies, ∃ execution ∈ σ.executed, msg = execution.answer
  distinct : ((σ.answers replies).map Msg.tag).Nodup
  live : σ.reader.live = true → ∀ tag ∈ requests.map Msg.tag ++ σ.started.map Prod.fst ++
    (σ.answers replies).map Msg.tag, ∃ i, tag = tagOf i ∧ Listed σ.calls σ.reader.target i

/-- The first message, until the server has read it. -/
def greeting (gobs : Gobs) (clnt : String) : Option String → List Msg
  | none => [Connection.initMsg gobs clnt]
  | some _ => []

structure Sound (gobs : Gobs) (clnt : String) (requests replies : List Msg) (σ : Connection) :
    Prop where
  books : Books gobs clnt requests σ
  table : Table σ
  flow : Flow requests replies σ
  toServer : Carries gobs.msg σ.broken (greeting gobs clnt σ.clntEnd ++ requests) σ.toServer
  toClient : Carries gobs.msg σ.broken replies σ.toClient
  fits : ∀ msg ∈ σ.served, msg.Fits gobs.msg
  named : ∀ name, σ.clntEnd = some name → name = clnt
  clntLives : σ.clntFatal = false
  srvLives : σ.srvFatal = true →
    σ.broken = true ∧ σ.clntEnd = none ∧ readCall gobs.msg σ.toServer = .short

variable {gobs : Gobs} {clnt : String} {requests replies : List Msg} {σ σ' : Connection}

theorem Books.setPhase (books : Books gobs clnt requests σ) {phase : Phase}
    (found : σ.calls[i]? = some call) (keeps : call.phase.written = true → phase.written = true)
    (answered : ∀ reply, phase = .returned reply → reply.err = none → Answered σ.executed i reply) :
    Books gobs clnt requests (σ.setPhase i call phase) where
  tags j other there := by
    rcases Slots.set_cases there with ⟨rfl, rfl⟩ | ⟨_, there⟩
    · exact books.tags j call found
    · exact books.tags j other there
  fits other member := by
    rcases List.mem_or_eq_of_mem_set member with old | rfl
    · exact books.fits other old
    · exact books.fits call (List.mem_of_getElem? found)
  few := by
    simp only [Connection.setPhase, List.length_set]
    exact books.few
  nextTag := by
    simp only [Connection.setPhase, List.length_set]
    exact books.nextTag
  asked msg member := (books.asked msg member).set found keeps
  started handler member := (books.started handler member).set found keeps
  executed execution member :=
    ⟨(books.executed execution member).1, (books.executed execution member).2.set found keeps⟩
  returned j other reply there done clean := by
    rcases Slots.set_cases there with ⟨rfl, rfl⟩ | ⟨_, there⟩
    · exact answered reply done clean
    · exact books.returned j other reply there done clean

theorem Books.low (books : Books gobs clnt requests σ) {target : Option Nat}
    (listed : Listed σ.calls target i) : i < 2 ^ 32 := by
  obtain ⟨call, there, _⟩ := listed
  have inside := (List.getElem?_eq_some_iff.mp there).1
  have few := books.few
  omega

/-- The call that has asked under the tag of call `i` is call `i`. -/
theorem Books.asks (books : Books gobs clnt requests σ) (found : σ.calls[i]? = some call)
    (asked : Asked σ.calls (tagOf i) request) : call.phase.written = true := by
  obtain ⟨j, other, there, named, _, written⟩ := asked
  have inside := (List.getElem?_eq_some_iff.mp found).1
  have inside' := (List.getElem?_eq_some_iff.mp there).1
  have few := books.few
  obtain rfl : j = i := tagOf_injective (by omega) (by omega)
    ((books.tags j other there).symm.trans named)
  rw [Option.some.inj (found.symm.trans there)]
  exact written

/-- The calls and the executions change, the map and the reader do not. -/
theorem Table.keep (table : Table σ) (callmap : σ'.callmap = σ.callmap)
    (reader : σ'.reader = σ.reader)
    (listed : ∀ i, Listed σ'.calls σ.reader.target i ↔ Listed σ.calls σ.reader.target i)
    (opened : ∀ (i : Nat) call, σ.calls[i]? = some call → call.phase.isOpen = true →
      ∃ later, σ'.calls[i]? = some later ∧ later.phase.isOpen = true)
    (answered : ∀ i reply, Answered σ.executed i reply → Answered σ'.executed i reply) :
    Table σ' where
  keys := callmap ▸ table.keys
  listed tag i := by
    rw [callmap, reader, listed]
    exact table.listed tag i
  target ch reply left sends := by
    obtain ⟨⟨call, there, isOpen⟩, clean, known⟩ := table.target ch reply left (reader ▸ sends)
    exact ⟨opened ch call there isOpen, clean, fun none => answered _ _ (known none)⟩
  left tags remain := by
    rw [reader] at remain ⊢
    simp only [listed]
    exact table.left tags remain
  closed dead := by
    rw [reader] at dead
    rw [callmap]
    exact table.closed dead

/-- Only the calls change, and none leaves the map. -/
theorem Flow.keep (flow : Flow requests replies σ) (started : σ'.started = σ.started)
    (served : σ'.served = σ.served) (executed : σ'.executed = σ.executed)
    (reader : σ'.reader = σ.reader)
    (listed : ∀ i, Listed σ.calls σ.reader.target i → Listed σ'.calls σ.reader.target i) :
    Flow requests replies σ' := by
  have same : σ'.answers replies = σ.answers replies := by
    simp only [Connection.answers, served, reader]
  refine ⟨?_, ?_, ?_, ?_⟩
  · rw [started, executed]
    exact flow.once
  · rw [same, executed]
    exact flow.answers
  · rw [same]
    exact flow.distinct
  · rw [same, started, reader]
    intro live tag member
    obtain ⟨i, named, there⟩ := flow.live live tag member
    exact ⟨i, named, listed i there⟩

/-- A request that is still to be served has no answer. -/
theorem Flow.unanswered (flow : Flow requests replies σ) {tag : Tag}
    (member : (tag, request) ∈ σ.started) : tag ∉ (σ.answers replies).map Msg.tag := by
  intro there
  obtain ⟨msg, inside, same⟩ := List.mem_map.mp there
  obtain ⟨execution, known, rfl⟩ := flow.answers msg inside
  exact (List.nodup_append.mp flow.once).2.2 tag
    (List.mem_append_right _ (List.mem_map_of_mem member)) execution.tag
    (List.mem_map_of_mem known) same.symm

theorem Reader.left_dead {reader : Reader} {tags : List Tag} (left : reader.left = some tags) :
    reader.live = false := by
  cases reader with
  | sending ch reply rest =>
    cases rest with
    | none => cases left
    | some tags => rfl
  | failing tags => rfl
  | _ => cases left

theorem eraseIdx_perm {α : Type} {l : List α} {k : Nat} {a : α} (found : l[k]? = some a) :
    l.Perm (a :: l.eraseIdx k) := by
  obtain ⟨inside, rfl⟩ := List.getElem?_eq_some_iff.mp found
  exact (List.getElem_cons_eraseIdx_perm inside).symm

namespace Sound

section

variable (sound : Sound gobs clnt requests replies σ)

include sound

theorem sendReceive {request : Bytes} (room : σ.calls.length < 2 ^ 32)
    (fits : (⟨σ.nextTag, request, true⟩ : Msg).Fits gobs.msg) :
    Sound gobs clnt requests replies (σ.sendReceive request) := by
  have books := sound.books
  have listed (target : Option Nat) (i : Nat) :
      Listed (σ.sendReceive request).calls target i ↔ Listed σ.calls target i := by
    constructor
    · rintro ⟨call, there, opened, free⟩
      rcases Slots.append_cases there with old | ⟨_, rfl⟩
      · exact ⟨call, old, opened, free⟩
      · cases opened
    · rintro ⟨call, there, rest⟩
      exact ⟨call, Slots.append_kept there _, rest⟩
  refine { sound with books := ?_, table := ?_, flow := ?_ }
  · exact {
      tags := fun i call there => by
        rcases Slots.append_cases there with old | ⟨rfl, rfl⟩
        · exact books.tags i call old
        · exact books.nextTag
      fits := fun call member => by
        rcases List.mem_append.mp member with old | new
        · exact books.fits call old
        · rw [List.mem_singleton.mp new]
          exact fits
      few := by
        simp only [Connection.sendReceive, List.length_append, List.length_singleton]
        omega
      nextTag := by
        simp only [Connection.sendReceive, List.length_append, List.length_singleton,
          books.nextTag, tagOf]
        exact (BitVec.ofNat_add (σ.calls.length + 1) 1).symm
      asked := fun msg member => (books.asked msg member).append _
      started := fun handler member => (books.started handler member).append _
      executed := fun execution member =>
        ⟨(books.executed execution member).1, (books.executed execution member).2.append _⟩
      returned := fun i call reply there done clean => by
        rcases Slots.append_cases there with old | ⟨_, rfl⟩
        · exact books.returned i call reply old done clean
        · cases done }
  · exact sound.table.keep rfl rfl (listed _) (fun i call there opened =>
      ⟨call, Slots.append_kept there _, opened⟩) fun _ _ => id
  · exact sound.flow.keep rfl rfl rfl rfl fun i => (listed _ i).mpr

variable {call : SendReceive} {i : Nat}

/-- A call that is not in the map and does not get there changes its phase. -/
theorem aside {phase : Phase} (found : σ.calls[i]? = some call)
    (outside : call.phase.isOpen = false) (stays : phase.isOpen = false)
    (keeps : call.phase.written = true → phase.written = true)
    (answered : ∀ reply, phase = .returned reply → reply.err = none → Answered σ.executed i reply) :
    Sound gobs clnt requests replies (σ.setPhase i call phase) := by
  have apart (j : Nat) (other : SendReceive) (there : σ.calls[j]? = some other)
      (opened : other.phase.isOpen = true) : j ≠ i := by
    rintro rfl
    rw [Option.some.inj (there.symm.trans found), outside] at opened
    cases opened
  have kept (j : Nat) (other : SendReceive) (there : σ.calls[j]? = some other)
      (opened : other.phase.isOpen = true) :
      (σ.setPhase i call phase).calls[j]? = some other :=
    (List.getElem?_set_ne (Ne.symm (apart j other there opened))).trans there
  have listed (target : Option Nat) (j : Nat) :
      Listed (σ.setPhase i call phase).calls target j ↔ Listed σ.calls target j := by
    refine (listed_set found).trans ⟨?_, ?_⟩
    · rintro (⟨_, opened, _⟩ | ⟨_, there⟩)
      · cases stays.symm.trans opened
      · exact there
    · rintro ⟨other, there, opened, free⟩
      exact Or.inr ⟨apart j other there opened, other, there, opened, free⟩
  exact { sound with
    books := sound.books.setPhase found keeps answered
    table := sound.table.keep rfl rfl (listed _) (fun j other there opened =>
      ⟨other, kept j other there opened, opened⟩) fun _ _ => id
    flow := sound.flow.keep rfl rfl rfl rfl fun j => (listed _ j).mpr }

/-- The reader gives its reply to a call that is open. -/
theorem target_open (found : σ.calls[i]? = some call) (target : σ.reader.target = some i) :
    call.phase.isOpen = true := by
  cases reader : σ.reader with
  | sending ch reply left =>
    rw [reader] at target
    obtain rfl := Option.some.inj target
    obtain ⟨⟨other, there, isOpen⟩, _⟩ := sound.table.target ch reply left reader
    rw [Option.some.inj (found.symm.trans there)]
    exact isOpen
  | _ =>
    rw [reader] at target
    cases target

/-- A call enters the map. -/
theorem registers {callmap : CallMap} (found : σ.calls[i]? = some call)
    (tagged : call.phase = .tagged) (done : σ.callmap.put call.tag i = .ok callmap) :
    Sound gobs clnt requests replies { σ.setPhase i call .registered with callmap := callmap } := by
  obtain ⟨opened, entries⟩ := CallMap.put_ok done
  have books := sound.books
  have table := sound.table
  have outside : call.phase.isOpen ≠ true := by simp [tagged, Phase.isOpen]
  have unwritten : call.phase.written ≠ true := by simp [tagged, Phase.written]
  have alive : σ.reader.live ≠ false := fun dead => by
    cases (table.closed dead).symm.trans opened
  have apart (j : Nat) (other : SendReceive) (there : σ.calls[j]? = some other)
      (isOpen : other.phase.isOpen = true) : j ≠ i := by
    rintro rfl
    exact outside (Option.some.inj (there.symm.trans found) ▸ isOpen)
  have apart' (j : Nat) (listed : Listed σ.calls σ.reader.target j) : j ≠ i := by
    obtain ⟨other, there, isOpen, _⟩ := listed
    exact apart j other there isOpen
  have free : σ.reader.target ≠ some i := fun target => outside (sound.target_open found target)
  have low := (List.getElem?_eq_some_iff.mp found).1
  have few := books.few
  have later : Books gobs clnt requests (σ.setPhase i call .registered) :=
    books.setPhase found (fun written => absurd written unwritten) (by simp)
  refine { sound with
    books := { later with }
    table := ⟨CallMap.put_keys done table.keys, ?_, ?_, ?_, ?_⟩
    flow := sound.flow.keep rfl rfl rfl rfl fun j listed =>
      (listed_set found).mpr (Or.inr ⟨apart' j listed, listed⟩) }
  · intro tag j
    refine (entries tag j).trans (Iff.trans ?_ (and_congr_right' (listed_set found).symm))
    rw [books.tags i call found, table.listed]
    constructor
    · rintro (⟨rfl, rfl⟩ | ⟨_, rfl, listed⟩)
      · exact ⟨rfl, Or.inl ⟨rfl, rfl, free⟩⟩
      · exact ⟨rfl, Or.inr ⟨apart' j listed, listed⟩⟩
    · rintro ⟨rfl, ⟨rfl, _⟩ | ⟨other, listed⟩⟩
      · exact Or.inl ⟨rfl, rfl⟩
      · refine Or.inr ⟨fun same => other ?_, rfl, listed⟩
        exact tagOf_injective (books.low listed) (by omega) same
  · intro ch reply left sends
    obtain ⟨⟨other, there, isOpen⟩, rest⟩ := table.target ch reply left sends
    have different := Ne.symm (apart ch other there isOpen)
    exact ⟨⟨other, (List.getElem?_set_ne different).trans there, isOpen⟩, rest⟩
  · intro tags remain
    exact absurd (Reader.left_dead remain) alive
  · intro dead
    exact absurd dead alive

theorem put (moved : σ.put i = some σ') : Sound gobs clnt requests replies σ' := by
  simp only [Connection.put, Option.bind_eq_bind] at moved
  obtain ⟨call, found, moved⟩ := Option.bind_eq_some_iff.mp moved
  split at moved
  · rename_i tagged
    split at moved
    · rename_i callmap done
      obtain rfl := Option.some.inj moved
      exact sound.registers found tagged done
    · obtain rfl := Option.some.inj moved
      refine sound.aside found (by rw [tagged]; rfl) rfl (fun _ => rfl) fun reply same clean => ?_
      rw [← Phase.returned.inj same] at clean
      cases clean
  · cases moved

/-- The request of call `i` is on its way. -/
theorem writes (found : σ.calls[i]? = some call) (registered : call.phase = .registered) :
    Sound gobs clnt requests replies (σ.setPhase i call .waiting) ∧
      (∀ request, ¬ Asked σ.calls (tagOf i) request) ∧
      (σ.reader.live = true → Listed σ.calls σ.reader.target i) := by
  have books := sound.books
  have isOpen : call.phase.isOpen = true := by rw [registered]; rfl
  have unwritten : call.phase.written ≠ true := by simp [registered, Phase.written]
  have fresh (request : Bytes) : ¬ Asked σ.calls (tagOf i) request :=
    fun asked => unwritten (books.asks found asked)
  have listed (target : Option Nat) (j : Nat) :
      Listed (σ.setPhase i call .waiting).calls target j ↔ Listed σ.calls target j := by
    refine (listed_set found).trans ⟨?_, ?_⟩
    · rintro (⟨rfl, _, free⟩ | ⟨_, there⟩)
      · exact ⟨call, found, isOpen, free⟩
      · exact there
    · rintro ⟨other, there, opened, free⟩
      by_cases same : j = i
      · exact Or.inl ⟨same, rfl, same ▸ free⟩
      · exact Or.inr ⟨same, other, there, opened, free⟩
  refine ⟨{ sound with
    books := books.setPhase found (fun _ => rfl) (by simp)
    table := sound.table.keep rfl rfl (listed _) (fun j other there opened => ?_) fun _ _ => id
    flow := sound.flow.keep rfl rfl rfl rfl fun j => (listed _ j).mpr }, fresh, fun live => ?_⟩
  · rcases Slots.set_kept found { call with phase := .waiting } there with ⟨_, _, here⟩ | ⟨_, here⟩
    · exact ⟨_, here, rfl⟩
    · exact ⟨other, here, opened⟩
  · refine ⟨call, found, isOpen, fun target => ?_⟩
    -- The reader would have an answer for a request that has not been written.
    cases reader : σ.reader with
    | sending ch reply left =>
      rw [reader] at target live
      obtain rfl := Option.some.inj target
      cases left with
      | none =>
        obtain ⟨_, clean, answered⟩ := sound.table.target ch reply none reader
        obtain ⟨execution, member, tag, _⟩ := answered (clean rfl)
        exact fresh execution.request (tag ▸ (books.executed execution member).2)
      | some tags => cases live
    | _ =>
      rw [reader] at target
      cases target

theorem write (moved : σ.write gobs i = some σ') :
    ∃ requests', Sound gobs clnt requests' replies σ' := by
  simp only [Connection.write, Option.bind_eq_bind] at moved
  obtain ⟨call, found, moved⟩ := Option.bind_eq_some_iff.mp moved
  split at moved
  · rename_i registered
    obtain rfl := Option.some.inj moved
    obtain ⟨later, fresh, listed⟩ := sound.writes found registered
    have tag := sound.books.tags i call found
    cases broken : σ.broken with
    | true => exact ⟨requests, later⟩
    | false =>
      have here : Asked (σ.setPhase i call .waiting).calls call.tag call.request :=
        ⟨i, _, Slots.set_self found, rfl, rfl, rfl⟩
      have absent : call.tag ∉ requests.map Msg.tag ++ σ.started.map Prod.fst ++
          σ.executed.map Execution.tag := by
        rw [tag]
        simp only [List.mem_append, List.mem_map]
        rintro ((⟨msg, member, same⟩ | ⟨handler, member, same⟩) | ⟨execution, member, same⟩)
        · exact fresh _ (same ▸ sound.books.asked msg member)
        · exact fresh _ (same ▸ sound.books.started handler member)
        · exact fresh _ (same ▸ (sound.books.executed execution member).2)
      have stream := sound.toServer
      rw [broken] at stream
      have longer := stream.writeCall (sound.books.fits call (List.mem_of_getElem? found))
      rw [List.append_assoc] at longer
      refine ⟨requests ++ [⟨call.tag, call.request, true⟩], { later with
        books := { later.books with asked := ?_ }
        table := { later.table with }
        flow := { later.flow with once := ?_, live := ?_ }
        toServer := ?_
        srvLives := fun died => absurd (sound.srvLives died).1 (by simp [broken]) }⟩
      · intro msg member
        rcases List.mem_append.mp member with old | new
        · exact later.books.asked msg old
        · rw [List.mem_singleton.mp new]
          exact here
      · have arranged : (requests.map Msg.tag ++ [call.tag] ++ σ.started.map Prod.fst ++
            σ.executed.map Execution.tag).Perm (call.tag :: (requests.map Msg.tag ++
              σ.started.map Prod.fst ++ σ.executed.map Execution.tag)) := by
          simp only [List.append_assoc]
          exact List.perm_middle
        rw [List.map_append]
        exact arranged.nodup_iff.mpr (List.nodup_cons.mpr ⟨absent, sound.flow.once⟩)
      · intro live other member
        simp only [List.map_append, List.map_singleton, List.mem_append, List.mem_singleton]
          at member
        have old := later.flow.live live other
        simp only [List.mem_append] at old
        rcases member with ((asked | rfl) | started) | answer
        · exact old (Or.inl (Or.inl asked))
        · refine ⟨i, tag, _, Slots.set_self found, rfl, ?_⟩
          obtain ⟨_, _, _, free⟩ := listed live
          exact free
        · exact old (Or.inl (Or.inr started))
        · exact old (Or.inr answer)
      · change Carries gobs.msg σ.broken _ _
        rw [broken]
        exact longer
  · cases moved

theorem read (moved : σ.read gobs = some σ') :
    ∃ replies', Sound gobs clnt requests replies' σ' := by
  unfold Connection.read at moved
  split at moved
  · rename_i reading
    have flow := sound.flow
    -- A stream with nothing left to read ends the loop once the connection is broken.
    have ended (short : readCall gobs.msg σ.toClient = .short) : ∃ replies',
        Sound gobs clnt requests replies' σ' := by
      simp only [short] at moved
      split at moved
      · obtain rfl := Option.some.inj moved
        refine ⟨replies, { sound with
          books := { sound.books with }
          table := ⟨sound.table.keys, ?_, by simp, by simp [Reader.left], fun _ => rfl⟩
          flow := ⟨flow.once, ?_, ?_, by simp [Reader.live]⟩ }⟩
        · intro tag i
          have listed := sound.table.listed tag i
          rw [reading] at listed
          exact listed
        · have answers := flow.answers
          rw [Connection.answers, reading] at answers
          exact answers
        · have distinct := flow.distinct
          rw [Connection.answers, reading] at distinct
          exact distinct
      · cases moved
    cases replies with
    | nil => exact ended sound.toClient.readCall_nil
    | cons msg rest =>
      rcases sound.toClient.readCall_cons with ⟨bytes, found, left⟩ | ⟨short, _⟩
      · simp only [found] at moved
        obtain rfl := Option.some.inj moved
        have arranged : (σ.served ++ rest ++ [msg]).Perm (σ.answers (msg :: rest)) := by
          simp only [Connection.answers, reading, Reader.hand, List.append_nil, List.append_assoc]
          exact (List.perm_append_singleton msg rest).append_left _
        refine ⟨rest, { sound with
          books := { sound.books with }
          table := ⟨sound.table.keys, ?_, by simp, by simp [Reader.left], by simp [Reader.live]⟩
          flow := ⟨flow.once, ?_, ?_, ?_⟩
          toClient := left }⟩
        · intro tag i
          have listed := sound.table.listed tag i
          rw [reading] at listed
          exact listed
        · intro other member
          exact flow.answers other (arranged.mem_iff.mp member)
        · exact (arranged.map Msg.tag).nodup_iff.mpr flow.distinct
        · intro _ tag member
          have live := flow.live (by rw [reading]; rfl) tag
          rw [reading] at live
          refine live ?_
          simp only [List.mem_append] at member ⊢
          exact member.imp_right ((arranged.map Msg.tag).mem_iff).mp
      · exact ended short
  · cases moved

/-- The reader takes the channel of a call that is in the map, and finds it. -/
theorem replyTo (reply : Reply) (left : Option (List Tag)) (idle : σ.reader.target = none)
    (listed : Listed σ.calls none i) (clean : left = none → reply.err = none)
    (answered : reply.err = none → Answered σ.executed i reply)
    (remain : ∀ tags, left = some tags → tags.Nodup ∧
      ∀ tag, tag ∈ tags ↔ ∃ j, tag = tagOf j ∧ j ≠ i ∧ Listed σ.calls none j)
    (closed : left ≠ none → σ.callmap.closed = true) :
    ∃ callmap, σ.replyTo (tagOf i) reply left =
        { σ with callmap := callmap, reader := .sending i reply left } ∧
      Table { σ with callmap := callmap, reader := .sending i reply left } := by
  have table := sound.table.listed
  rw [idle] at table
  have low {j : Nat} (there : Listed σ.calls none j) : j < 2 ^ 32 := sound.books.low there
  have removed := CallMap.remove_mem ((table (tagOf i) i).mpr ⟨rfl, listed⟩) fun other member =>
    tagOf_injective (low ((table _ _).mp member).2) (low listed) ((table _ _).mp member).1.symm
  have fewer (j : Nat) : Listed σ.calls (some i) j ↔ j ≠ i ∧ Listed σ.calls none j := by
    constructor
    · rintro ⟨call, there, isOpen, free⟩
      exact ⟨fun same => free (same ▸ rfl), call, there, isOpen, by simp⟩
    · rintro ⟨apart, call, there, isOpen, _⟩
      exact ⟨call, there, isOpen, fun same => apart (Option.some.inj same).symm⟩
  refine ⟨{ σ.callmap with calls := σ.callmap.calls.filter fun entry => entry.1 ≠ tagOf i },
    by simp only [Connection.replyTo, removed], ?_, ?_, ?_, ?_, ?_⟩
  · exact sound.table.keys.sublist (List.filter_sublist.map _)
  · intro tag j
    simp only [List.mem_filter, decide_eq_true_eq, table, Reader.target, fewer]
    constructor
    · rintro ⟨⟨rfl, there⟩, different⟩
      exact ⟨rfl, fun same => different (same ▸ rfl), there⟩
    · rintro ⟨rfl, apart, there⟩
      exact ⟨⟨rfl, there⟩, fun same => apart (tagOf_injective (low there) (low listed) same)⟩
  · intro ch given rest sends
    obtain ⟨rfl, rfl, rfl⟩ := Reader.sending.inj sends
    obtain ⟨call, there, isOpen, _⟩ := listed
    exact ⟨⟨call, there, isOpen⟩, clean, answered⟩
  · intro tags rest
    simp only [Reader.target, fewer]
    exact remain tags rest
  · intro dead
    refine closed fun none => ?_
    subst none
    cases dead

theorem reply (moved : σ.reply = some σ') : Sound gobs clnt requests replies σ' := by
  unfold Connection.reply at moved
  split at moved
  · rename_i msg got
    have flow := sound.flow
    have split : σ.answers replies = σ.served ++ replies ++ [msg] := by
      rw [Connection.answers, got, Reader.hand]
    have answers := flow.answers
    have distinct := flow.distinct
    have live := flow.live (by rw [got]; rfl)
    rw [split] at answers distinct live
    rw [got] at live
    have inHand : msg ∈ σ.served ++ replies ++ [msg] :=
      List.mem_append_right _ (List.mem_singleton_self _)
    obtain ⟨execution, executed, same⟩ := answers msg inHand
    obtain ⟨i, tag, listed⟩ := live msg.tag (List.mem_append_right _ (List.mem_map_of_mem inHand))
    have known : Answered σ.executed i ⟨msg.data, msg.ok, none⟩ :=
      ⟨execution, executed, by rw [← tag, same]; rfl, by rw [same]; rfl, by rw [same]; rfl⟩
    obtain ⟨callmap, replies', table⟩ := sound.replyTo ⟨msg.data, msg.ok, none⟩ none
      (by rw [got]; rfl) listed (fun _ => rfl) (fun _ => known) (by simp) (by simp)
    rw [tag, replies'] at moved
    obtain rfl := Option.some.inj moved
    rw [List.map_append, List.nodup_append] at distinct
    refine { sound with
      books := { sound.books with }
      table := table
      flow := ⟨flow.once, ?_, ?_, ?_⟩ }
    · intro other member
      simp only [Connection.answers, Reader.hand, List.append_nil] at member
      exact answers other (List.mem_append_left _ member)
    · simp only [Connection.answers, Reader.hand, List.append_nil]
      exact distinct.1
    · intro _ other member
      simp only [Connection.answers, Reader.hand, List.append_nil] at member
      -- The tag in hand is neither that of a request nor that of another answer.
      have different : other ≠ msg.tag := by
        rintro rfl
        rcases List.mem_append.mp member with asked | answer
        · exact (List.nodup_append.mp flow.once).2.2 _ asked _
            (List.mem_map_of_mem executed) (by rw [same]; rfl)
        · exact distinct.2.2 _ answer _ (List.mem_map_of_mem (List.mem_singleton_self _)) rfl
      have old : other ∈ requests.map Msg.tag ++ σ.started.map Prod.fst ++
          (σ.served ++ replies ++ [msg]).map Msg.tag := by
        rw [List.map_append, ← List.append_assoc]
        exact List.mem_append_left _ member
      obtain ⟨j, named, call, there, isOpen, _⟩ := live other old
      refine ⟨j, named, call, there, isOpen, fun target => different ?_⟩
      rw [named, tag, Option.some.inj target]
  · cases moved

theorem outstanding (moved : σ.outstanding = some σ') : Sound gobs clnt requests replies σ' := by
  unfold Connection.outstanding at moved
  split at moved
  · rename_i done
    obtain rfl := Option.some.inj moved
    have listed := sound.table.listed
    rw [done] at listed
    have answers := sound.flow.answers
    have distinct := sound.flow.distinct
    rw [Connection.answers, done] at answers distinct
    refine { sound with
      books := { sound.books with }
      table := ⟨sound.table.keys, listed, by simp, ?_, fun _ => ?_⟩
      flow := ⟨sound.flow.once, answers, distinct, by simp [Reader.live]⟩ }
    · intro tags remain
      obtain rfl := Option.some.inj remain
      refine ⟨sound.table.keys, fun tag => ?_⟩
      simp only [CallMap.outstanding, List.mem_map, Prod.exists, exists_and_right, exists_eq_right]
      exact exists_congr fun i => listed tag i
    · exact sound.table.closed (by rw [done]; rfl)
  · cases moved

theorem fail {k : Nat} (moved : σ.fail k = some σ') : Sound gobs clnt requests replies σ' := by
  unfold Connection.fail at moved
  split at moved
  · rename_i tags failing
    simp only [Option.bind_eq_bind] at moved
    obtain ⟨tag, found, moved⟩ := Option.bind_eq_some_iff.mp moved
    have flow := sound.flow
    obtain ⟨nodup, every⟩ := sound.table.left tags (by rw [failing]; rfl)
    simp only [failing, Reader.target] at every
    have arranged := eraseIdx_perm found
    obtain ⟨absent, nodup'⟩ := List.nodup_cons.mp (arranged.nodup_iff.mp nodup)
    obtain ⟨i, rfl, listed⟩ := (every tag).mp (List.mem_of_getElem? found)
    have remain (other : Tag) : other ∈ tags.eraseIdx k ↔
        ∃ j, other = tagOf j ∧ j ≠ i ∧ Listed σ.calls none j := by
      constructor
      · intro member
        obtain ⟨j, rfl, there⟩ := (every _).mp
          (arranged.mem_iff.mpr (List.mem_cons_of_mem _ member))
        exact ⟨j, rfl, fun same => absent (same ▸ member), there⟩
      · rintro ⟨j, rfl, apart, there⟩
        rcases List.mem_cons.mp (arranged.mem_iff.mp ((every _).mpr ⟨j, rfl, there⟩)) with
          same | rest
        · exact absurd (tagOf_injective (sound.books.low there) (sound.books.low listed) same) apart
        · exact rest
    obtain ⟨callmap, replies', table⟩ := sound.replyTo ⟨[], false, some "reader reply fail"⟩
      (some (tags.eraseIdx k)) (by rw [failing]; rfl) listed (by simp) (by simp)
      (fun rest same => Option.some.inj same ▸ ⟨nodup', remain⟩)
      (fun _ => sound.table.closed (by rw [failing]; rfl))
    rw [replies'] at moved
    obtain rfl := Option.some.inj moved
    have answers := flow.answers
    have distinct := flow.distinct
    rw [Connection.answers, failing] at answers distinct
    exact { sound with
      books := { sound.books with }
      table := table
      flow := ⟨flow.once, answers, distinct, by simp [Reader.live]⟩ }
  · cases moved

theorem receive (moved : σ.receive = some σ') : Sound gobs clnt requests replies σ' := by
  unfold Connection.receive at moved
  split at moved
  · rename_i ch reply left sending
    simp only [Option.bind_eq_bind] at moved
    obtain ⟨call, found, moved⟩ := Option.bind_eq_some_iff.mp moved
    split at moved
    · obtain rfl := Option.some.inj moved
      have flow := sound.flow
      have table := sound.table
      obtain ⟨_, _, answered⟩ := table.target ch reply left sending
      obtain ⟨quiet, empty⟩ := Reader.resumes left
      obtain ⟨lives, remains⟩ := Reader.resumes_like ch reply left
      rw [← sending] at lives remains
      have listed (j : Nat) :
          Listed (σ.calls.set ch { call with phase := .returned reply }) none j ↔
          Listed σ.calls σ.reader.target j := by
        rw [sending]
        exact listed_returned found
      have later : Books gobs clnt requests (σ.setPhase ch call (.returned reply)) :=
        sound.books.setPhase found (fun _ => rfl) fun given same clean => by
          obtain rfl := Phase.returned.inj same
          exact answered clean
      refine { sound with
        books := { later with }
        table := ⟨table.keys, ?_, ?_, ?_, ?_⟩
        flow := ⟨flow.once, ?_, ?_, ?_⟩ }
      · intro tag i
        simp only [quiet]
        exact (table.listed tag i).trans (and_congr_right' (listed i).symm)
      · intro other given rest sends
        have nobody := congrArg Reader.target sends
        rw [quiet] at nobody
        cases nobody
      · intro tags rest
        simp only [quiet]
        obtain ⟨nodup, every⟩ := table.left tags (remains ▸ rest)
        exact ⟨nodup, fun tag => (every tag).trans (exists_congr fun i =>
          and_congr_right' (listed i).symm)⟩
      · intro dead
        exact table.closed (lives ▸ dead)
      · have answers := flow.answers
        rw [Connection.answers, sending] at answers
        simp only [Connection.answers, empty]
        exact answers
      · have distinct := flow.distinct
        rw [Connection.answers, sending] at distinct
        simp only [Connection.answers, empty]
        exact distinct
      · intro live tag member
        simp only [Connection.answers, empty] at member
        simp only [quiet]
        have old := flow.live (lives ▸ live) tag
        rw [Connection.answers, sending] at old
        obtain ⟨i, named, there⟩ := old member
        exact ⟨i, named, (listed i).mpr (by rw [sending]; exact there)⟩
    · cases moved
  · cases moved

theorem closeMap (moved : σ.closeMap = some σ') : Sound gobs clnt requests replies σ' := by
  unfold Connection.closeMap at moved
  split at moved
  · obtain rfl := Option.some.inj moved
    exact { sound with
      books := { sound.books with }
      table := { sound.table with closed := fun _ => rfl }
      flow := { sound.flow with } }
  · cases moved

theorem breaks {i j : Nat} (moved : σ.breaks i j = some σ') :
    Sound gobs clnt requests replies σ' := by
  unfold Connection.breaks at moved
  split at moved
  · cases moved
  · rename_i whole
    obtain rfl := Option.some.inj moved
    exact { sound with
      books := { sound.books with }
      table := { sound.table with }
      flow := { sound.flow with }
      toServer := sound.toServer.take i
      toClient := sound.toClient.take j
      srvLives := fun died => absurd (sound.srvLives died).1 whole }

theorem accept (lives : σ.srvFatal = false) (moved : σ.accept gobs = some σ') :
    Sound gobs clnt requests replies σ' := by
  unfold Connection.accept at moved
  split at moved
  · rename_i unnamed
    have stream := sound.toServer
    rw [unnamed] at stream
    rcases stream.readCall_cons with ⟨rest, found, left⟩ | ⟨short, broken⟩
    · simp only [found, Connection.initMsg, gobs.init.decode_encode] at moved
      obtain rfl := Option.some.inj moved
      exact { sound with
        books := { sound.books with }
        table := { sound.table with }
        flow := { sound.flow with }
        toServer := left
        named := fun name same => (Option.some.inj same).symm
        srvLives := by simp [lives] }
    · simp only [short] at moved
      rw [if_pos broken] at moved
      obtain rfl := Option.some.inj moved
      exact { sound with
        books := { sound.books with }
        table := { sound.table with }
        flow := { sound.flow with }
        srvLives := fun _ => ⟨broken, unnamed, short⟩ }
  · cases moved

theorem serverRead (lives : σ.srvFatal = false) (moved : σ.serverRead gobs = some σ') :
    ∃ requests', Sound gobs clnt requests' replies σ' := by
  unfold Connection.serverRead at moved
  split at moved
  · cases moved
  · rename_i named
    have stream := sound.toServer
    cases name : σ.clntEnd with
    | none => exact absurd name named
    | some clntEnd =>
      rw [name, greeting, List.nil_append] at stream
      cases requests with
      | nil =>
        rw [stream.readCall_nil] at moved
        cases moved
      | cons msg rest =>
        rcases stream.readCall_cons with ⟨bytes, found, left⟩ | ⟨short, _⟩
        · simp only [found] at moved
          obtain rfl := Option.some.inj moved
          have flow := sound.flow
          have arranged : (rest.map Msg.tag ++ (σ.started ++ [(msg.tag, msg.data)]).map
              Prod.fst).Perm ((msg :: rest).map Msg.tag ++ σ.started.map Prod.fst) := by
            rw [List.map_append, List.map_singleton, ← List.append_assoc, List.map_cons]
            exact List.perm_append_singleton ..
          refine ⟨rest, { sound with
            books := { sound.books with
              asked := fun other member =>
                sound.books.asked other (List.mem_cons_of_mem _ member)
              started := ?_ }
            table := { sound.table with }
            flow := { flow with once := ?_, live := ?_ }
            toServer := ?_
            srvLives := by simp [lives] }⟩
          · intro handler member
            rcases List.mem_append.mp member with old | new
            · exact sound.books.started handler old
            · rw [List.mem_singleton.mp new]
              exact sound.books.asked msg (List.mem_cons_self ..)
          · exact (arranged.append_right _).nodup_iff.mpr flow.once
          · intro live tag member
            exact flow.live live tag ((arranged.append_right _).mem_iff.mp member)
          · rw [name, greeting, List.nil_append]
            exact left
        · rw [short] at moved
          cases moved

theorem serve {k : Nat} {rep : Bytes} {ok : Bool}
    (fits : ∀ handler, σ.started[k]? = some handler → (⟨handler.1, rep, ok⟩ : Msg).Fits gobs.msg)
    (moved : σ.serve k rep ok = some σ') : Sound gobs clnt requests replies σ' := by
  simp only [Connection.serve, Option.bind_eq_bind] at moved
  obtain ⟨⟨tag, request⟩, found, moved⟩ := Option.bind_eq_some_iff.mp moved
  obtain ⟨name, named, moved⟩ := Option.bind_eq_some_iff.mp moved
  obtain rfl := Option.some.inj moved
  have flow := sound.flow
  have arranged := eraseIdx_perm found
  have member := List.mem_of_getElem? found
  have executed : (requests.map Msg.tag ++ (σ.started.eraseIdx k).map Prod.fst ++
      (σ.executed ++ [(⟨name, tag, request, rep, ok⟩ : Execution)]).map Execution.tag).Perm
      (requests.map Msg.tag ++ σ.started.map Prod.fst ++ σ.executed.map Execution.tag) := by
    rw [List.map_append, List.map_singleton, List.append_assoc, List.append_assoc]
    refine List.Perm.append_left _ ?_
    rw [← List.append_assoc]
    refine (List.perm_append_singleton ..).trans ?_
    exact ((arranged.map Prod.fst).append_right _).symm
  have answered : (({ σ with
      served := σ.served ++ [⟨tag, rep, ok⟩] } : Connection).answers replies).Perm
      (⟨tag, rep, ok⟩ :: σ.answers replies) := by
    simp only [Connection.answers, List.append_assoc, List.singleton_append]
    exact List.perm_middle
  have fresh := flow.unanswered member
  refine { sound with
    books := { sound.books with started := ?_, executed := ?_, returned := ?_ }
    table := { sound.table with target := ?_ }
    flow := ⟨executed.nodup_iff.mpr flow.once, ?_, ?_, ?_⟩
    fits := ?_ }
  · intro handler there
    exact sound.books.started handler ((List.eraseIdx_sublist ..).mem there)
  · intro execution there
    rcases List.mem_append.mp there with old | new
    · exact sound.books.executed execution old
    · rw [List.mem_singleton.mp new]
      exact ⟨sound.named name named, sound.books.started _ member⟩
  · intro i call reply there done clean
    exact (sound.books.returned i call reply there done clean).append _
  · intro ch reply left sends
    obtain ⟨isOpen, clean, known⟩ := sound.table.target ch reply left sends
    exact ⟨isOpen, clean, fun none => (known none).append _⟩
  · intro msg there
    rcases List.mem_cons.mp (answered.mem_iff.mp there) with rfl | old
    · exact ⟨_, List.mem_append_right _ (List.mem_singleton_self _), rfl⟩
    · obtain ⟨execution, known, same⟩ := flow.answers msg old
      exact ⟨execution, List.mem_append_left _ known, same⟩
  · exact (answered.map Msg.tag).nodup_iff.mpr (List.nodup_cons.mpr ⟨fresh, flow.distinct⟩)
  · intro live other there
    refine flow.live live other ?_
    rcases List.mem_append.mp there with asked | answer
    · refine List.mem_append_left _ ((List.Sublist.append_left ?_ _).mem asked)
      exact (List.eraseIdx_sublist ..).map _
    · rcases List.mem_cons.mp ((answered.map Msg.tag).mem_iff.mp answer) with rfl | old
      · exact List.mem_append_left _ (List.mem_append_right _ (List.mem_map_of_mem member))
      · exact List.mem_append_right _ old
  · intro msg there
    rcases List.mem_append.mp there with old | new
    · exact sound.fits msg old
    · rw [List.mem_singleton.mp new]
      exact fits _ found

theorem respond {k : Nat} (moved : σ.respond gobs k = some σ') :
    ∃ replies', Sound gobs clnt requests replies' σ' := by
  simp only [Connection.respond, Option.bind_eq_bind] at moved
  obtain ⟨msg, found, moved⟩ := Option.bind_eq_some_iff.mp moved
  have flow := sound.flow
  have fewer (other : Msg) (there : other ∈ σ.served.eraseIdx k) : other.Fits gobs.msg :=
    sound.fits other ((List.eraseIdx_sublist ..).mem there)
  by_cases broken : σ.broken = true
  · -- The answer is lost.
    rw [if_pos broken] at moved
    obtain rfl := Option.some.inj moved
    have rest : (({ σ with served := σ.served.eraseIdx k } : Connection).answers replies).Sublist
        (σ.answers replies) :=
      ((List.eraseIdx_sublist ..).append_right _).append_right _
    refine ⟨replies, { sound with
      books := { sound.books with }
      table := { sound.table with }
      flow := ⟨flow.once, ?_, ?_, ?_⟩
      fits := fewer }⟩
    · intro other there
      exact flow.answers other (rest.mem there)
    · exact flow.distinct.sublist (rest.map _)
    · intro live tag there
      exact flow.live live tag (((rest.map Msg.tag).append_left _).mem there)
  · rw [if_neg broken] at moved
    obtain rfl := Option.some.inj moved
    have stream := sound.toClient
    rw [Bool.eq_false_iff.mpr broken] at stream
    have longer := stream.writeCall (sound.fits msg (List.mem_of_getElem? found))
    have arranged : (({ σ with served := σ.served.eraseIdx k } : Connection).answers
        (replies ++ [msg])).Perm (σ.answers replies) := by
      simp only [Connection.answers]
      refine List.Perm.append_right _ ?_
      rw [← List.append_assoc]
      refine (List.perm_append_singleton ..).trans ?_
      exact ((eraseIdx_perm found).append_right _).symm
    refine ⟨replies ++ [msg], { sound with
      books := { sound.books with }
      table := { sound.table with }
      flow := ⟨flow.once, ?_, ?_, ?_⟩
      toClient := ?_
      fits := fewer }⟩
    · intro other there
      exact flow.answers other (arranged.mem_iff.mp there)
    · exact (arranged.map Msg.tag).nodup_iff.mpr flow.distinct
    · intro live tag there
      exact flow.live live tag (((arranged.map Msg.tag).append_left _).mem_iff.mp there)
    · change Carries gobs.msg σ.broken _ _
      rw [Bool.eq_false_iff.mpr broken]
      exact longer

theorem step {action : Action} (admitted : σ.admitted gobs action = true)
    (moved : σ.step gobs action = some σ') :
    ∃ requests' replies', Sound gobs clnt requests' replies' σ' := by
  unfold Connection.step at moved
  rw [sound.clntLives] at moved
  cases action with
  | sendReceive request =>
    obtain rfl := Option.some.inj moved
    obtain ⟨room, fits⟩ := of_decide_eq_true admitted
    exact ⟨_, _, sound.sendReceive room fits⟩
  | put i => exact ⟨_, _, sound.put moved⟩
  | write i =>
    obtain ⟨requests', later⟩ := sound.write moved
    exact ⟨requests', _, later⟩
  | read =>
    obtain ⟨replies', later⟩ := sound.read moved
    exact ⟨_, replies', later⟩
  | reply => exact ⟨_, _, sound.reply moved⟩
  | outstanding => exact ⟨_, _, sound.outstanding moved⟩
  | fail k => exact ⟨_, _, sound.fail moved⟩
  | receive => exact ⟨_, _, sound.receive moved⟩
  | closeMap => exact ⟨_, _, sound.closeMap moved⟩
  | breaks i j => exact ⟨_, _, sound.breaks moved⟩
  | accept =>
    dsimp only at moved
    split at moved
    · cases moved
    · exact ⟨_, _, sound.accept (Bool.eq_false_iff.mpr ‹_›) moved⟩
  | serverRead =>
    dsimp only at moved
    split at moved
    · cases moved
    · obtain ⟨requests', later⟩ := sound.serverRead (Bool.eq_false_iff.mpr ‹_›) moved
      exact ⟨requests', _, later⟩
  | serve k rep ok =>
    dsimp only at moved
    split at moved
    · cases moved
    · refine ⟨_, _, sound.serve (fun handler found => ?_) moved⟩
      rw [Connection.admitted, found] at admitted
      exact of_decide_eq_true admitted
  | respond k =>
    dsimp only at moved
    split at moved
    · cases moved
    · obtain ⟨replies', later⟩ := sound.respond moved
      exact ⟨_, replies', later⟩

end

theorem new (fits : (Connection.initMsg gobs clnt).Fits gobs.msg) :
    Sound gobs clnt [] [] (Connection.new gobs clnt) where
  books := by
    refine ⟨?_, ?_, Nat.zero_le _, rfl, ?_, ?_, ?_, ?_⟩ <;> simp [Connection.new]
  table := by
    refine ⟨List.nodup_nil, ?_, ?_, ?_, ?_⟩ <;>
      simp [Connection.new, CallMap.new, Listed, Reader.left, Reader.live]
  flow := by
    refine ⟨List.nodup_nil, ?_, List.nodup_nil, ?_⟩ <;>
      simp [Connection.new, Connection.answers, Reader.hand]
  toServer := (Carries.nil gobs.msg false).writeCall fits
  toClient := Carries.nil gobs.msg false
  fits := by simp [Connection.new]
  named := by simp [Connection.new]
  clntLives := rfl
  srvLives := by simp [Connection.new]

end Sound

theorem run_sound {trace : List Connection} (run : Connection.Run gobs clnt trace)
    (fits : (Connection.initMsg gobs clnt).Fits gobs.msg) :
    ∀ σ ∈ trace, ∃ requests replies, Sound gobs clnt requests replies σ := by
  refine run.invariant ⟨[], [], .new fits⟩ ?_
  rintro _ _ _ admitted moved ⟨_, _, sound⟩
  exact sound.step admitted moved

/-- On one connection, whatever the order of the steps and wherever the connection breaks,
every request is served at most once and under the name of the client, a call that returns
without an error returns the answer to its own request, and the client never gets an
answer it has no call for. The server dies only of a connection that breaks before the
whole of its first message has arrived. -/
theorem calls_get_their_answers {trace : List Connection} (run : Connection.Run gobs clnt trace)
    (fits : (Connection.initMsg gobs clnt).Fits gobs.msg) :
    ∀ σ ∈ trace, σ.clntFatal = false ∧
      (σ.srvFatal = true →
        σ.broken = true ∧ σ.clntEnd = none ∧ readCall gobs.msg σ.toServer = .short) ∧
      (σ.executed.map Execution.tag).Nodup ∧
      (∀ execution ∈ σ.executed, execution.clnt = clnt ∧ ∃ call ∈ σ.calls,
        call.tag = execution.tag ∧ call.request = execution.request) ∧
      ∀ call ∈ σ.calls, ∀ reply, call.phase = .returned reply → reply.err = none →
        ∃ execution ∈ σ.executed, execution.tag = call.tag ∧
          execution.request = call.request ∧ execution.rep = reply.rep ∧
          execution.ok = reply.ok := by
  intro σ member
  obtain ⟨requests, replies, sound⟩ := run_sound run fits σ member
  have books := sound.books
  refine ⟨sound.clntLives, sound.srvLives, (List.nodup_append.mp sound.flow.once).2.1, ?_, ?_⟩
  · intro execution executed
    obtain ⟨named, i, call, there, tag, request, _⟩ := books.executed execution executed
    exact ⟨named, call, List.mem_of_getElem? there, tag, request⟩
  · intro call inside reply done clean
    obtain ⟨i, there⟩ := List.mem_iff_getElem?.mp inside
    obtain ⟨execution, executed, tag, rep, ok⟩ := books.returned i call reply there done clean
    obtain ⟨_, j, other, here, same, request, _⟩ := books.executed execution executed
    -- The call that has asked is the one that has the tag.
    obtain rfl : j = i := by
      have low := (List.getElem?_eq_some_iff.mp there).1
      have low' := (List.getElem?_eq_some_iff.mp here).1
      have few := books.few
      refine tagOf_injective (by omega) (by omega) ?_
      rw [← books.tags j other here, same, tag]
    obtain rfl := Option.some.inj (there.symm.trans here)
    exact ⟨execution, executed, tag.trans (books.tags j call there).symm, request.symm, rep, ok⟩

def plainGobs : Gobs where
  msg := .plain
  init := .letters

/-- The client makes two calls. The second is answered; then the connection breaks, and the
first fails. -/
def brokenOff : List Action :=
  [.sendReceive [1], .sendReceive [2], .put 0, .put 1, .write 1, .write 0, .accept, .serverRead,
    .serverRead, .serve 0 [9] true, .serve 0 [8] true, .respond 0, .read, .reply, .receive,
    .respond 0, .breaks 0 3, .read, .outstanding, .fail 0, .receive]

theorem calls_get_their_answers_broken :
    ∃ trace : List Connection, Connection.Run plainGobs "c" trace ∧ ∃ σ ∈ trace,
      σ.calls.map SendReceive.phase =
        [.returned ⟨[], false, some "reader reply fail"⟩, .returned ⟨[9], true, none⟩] ∧
      σ.executed.length = 2 ∧
      ∃ execution ∈ σ.executed, execution.request = [2] ∧ execution.rep = [9] := by
  obtain ⟨σ, past, run, checked⟩ := Runs.Run.ends (fun σ => Connection.step plainGobs σ)
    (fun σ => Connection.admitted plainGobs σ) (Connection.new plainGobs "c") brokenOff
    (fun σ => decide (σ.calls =
      [⟨1, [1], .returned ⟨[], false, some "reader reply fail"⟩⟩,
        ⟨2, [2], .returned ⟨[9], true, none⟩⟩] ∧ σ.executed.length = 2))
    (by decide +kernel)
  obtain ⟨calls, executed⟩ := of_decide_eq_true checked
  have member : σ ∈ σ :: past := List.mem_cons_self ..
  obtain ⟨_, _, _, _, answered⟩ := calls_get_their_answers run (by decide +kernel) σ member
  have second : (⟨2, [2], .returned ⟨[9], true, none⟩⟩ : SendReceive) ∈ σ.calls := by
    rw [calls]
    exact List.mem_cons_of_mem _ (List.mem_singleton_self _)
  obtain ⟨execution, there, _, request, rep, _⟩ := answered _ second _ rfl rfl
  exact ⟨_, run, σ, member, by rw [calls]; rfl, executed, execution, there, request, rep⟩

end KvStore.Demux

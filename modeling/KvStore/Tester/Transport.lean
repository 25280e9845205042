import KvStore.Lib.Frames
import KvStore.Raft.Types

set_option autoImplicit false

/-! The transport of the harness's remote calls: messages on a byte stream, each in a frame
of its own. -/

namespace KvStore.Demux

open Frames

abbrev Tag := BitVec 32

structure Msg where
  tag : Tag
  data : Bytes
  ok : Bool
  deriving DecidableEq, Repr

structure InitMsg where
  clnt : String
  deriving DecidableEq, Repr

/-- `Marshall` and `Unmarshall`: decoding undoes encoding. What cannot be decoded ends the
process. -/
structure Gob (α : Type) where
  encode : α → Bytes
  decode : Bytes → Option α
  decode_encode : ∀ value, decode (encode value) = some value

/-- What `ReadCall` finds in the bytes that have arrived: a call, too few bytes (an error
once the connection has ended), or a frame that `Unmarshall` dies of. -/
inductive ReadCall
  | call (msg : Msg) (rest : Bytes)
  | short
  | fatal
  deriving DecidableEq, Repr

def readCall (gob : Gob Msg) (stream : Bytes) : ReadCall :=
  match next stream with
  | none => .short
  | some (b, rest) =>
    match gob.decode b with
    | some msg => .call msg rest
    | none => .fatal

def writeCall (gob : Gob Msg) (msg : Msg) : Bytes := frame (gob.encode msg)

/-- The length of the encoding fits in the four bytes that are written for it. -/
def Msg.Fits (gob : Gob Msg) (msg : Msg) : Prop := (gob.encode msg).length < 2 ^ 32

instance decidableFits (gob : Gob Msg) (msg : Msg) : Decidable (msg.Fits gob) :=
  inferInstanceAs (Decidable (_ < _))

/-- The bytes of a connection in one direction: the calls that have been written to it and
not read from it yet, up to where it was cut off. -/
def Carries (gob : Gob Msg) (cut : Bool) (msgs : List Msg) (stream : Bytes) : Prop :=
  Frames.Carries cut (msgs.map gob.encode) stream

namespace Carries

variable {gob : Gob Msg} {cut : Bool} {msg : Msg} {msgs : List Msg} {stream : Bytes}

theorem nil (gob : Gob Msg) (cut : Bool) : Carries gob cut [] [] := Frames.Carries.nil cut

theorem writeCall (carries : Carries gob false msgs stream) (fits : msg.Fits gob) :
    Carries gob false (msgs ++ [msg]) (stream ++ Demux.writeCall gob msg) := by
  unfold Carries
  rw [List.map_append, List.map_singleton]
  exact Frames.Carries.append carries fits

theorem take (carries : Carries gob cut msgs stream) (k : Nat) :
    Carries gob true msgs (stream.take k) :=
  Frames.Carries.take carries k

/-- `ReadCall` gives the first call that was written, or finds that the stream was cut. -/
theorem readCall_cons (carries : Carries gob cut (msg :: msgs) stream) :
    (∃ rest, readCall gob stream = .call msg rest ∧ Carries gob cut msgs rest) ∨
      readCall gob stream = .short ∧ cut = true := by
  rcases Frames.Carries.next_cons carries with ⟨rest, found, left⟩ | ⟨none, cut⟩
  · exact Or.inl ⟨rest, by simp only [readCall, found, gob.decode_encode], left⟩
  · exact Or.inr ⟨by simp only [readCall, none], cut⟩

theorem readCall_nil (carries : Carries gob cut [] stream) : readCall gob stream = .short := by
  simp only [readCall, Frames.Carries.next_nil carries]

end Carries

theorem readCall_shorter {gob : Gob Msg} {stream rest : Bytes} {msg : Msg}
    (read : readCall gob stream = .call msg rest) : rest.length < stream.length := by
  unfold readCall at read
  split at read
  · cases read
  · rename_i b left found
    split at read
    · obtain ⟨_, rfl⟩ := ReadCall.call.inj read
      exact next_shorter found
    · cases read

/-- The calls that a reader gets from a stream that has ended, and whether it then stops
with an error and not by the death of its process. -/
def readCalls (gob : Gob Msg) (stream : Bytes) : List Msg × Bool :=
  match _found : readCall gob stream with
  | .call msg rest =>
    let (msgs, stops) := readCalls gob rest
    (msg :: msgs, stops)
  | .short => ([], true)
  | .fatal => ([], false)
termination_by stream.length
decreasing_by exact readCall_shorter ‹_›

theorem readCalls_call {gob : Gob Msg} {stream rest : Bytes} {msg : Msg}
    (read : readCall gob stream = .call msg rest) :
    readCalls gob stream = (msg :: (readCalls gob rest).1, (readCalls gob rest).2) := by
  rw [readCalls]
  split
  · rename_i found
    obtain ⟨rfl, rfl⟩ := ReadCall.call.inj (found.symm.trans read)
    rfl
  · rename_i found
    cases found.symm.trans read
  · rename_i found
    cases found.symm.trans read

theorem readCalls_short {gob : Gob Msg} {stream : Bytes} (read : readCall gob stream = .short) :
    readCalls gob stream = ([], true) := by
  rw [readCalls]
  split
  · rename_i found
    cases found.symm.trans read
  · rfl
  · rename_i found
    cases found.symm.trans read

/-- Whatever calls are written and wherever the connection then breaks, the other side
reads exactly the calls that arrived whole, and then gets an error. -/
theorem written_calls_read_back (gob : Gob Msg) (msgs : List Msg)
    (fits : ∀ msg ∈ msgs, msg.Fits gob) (k : Nat) :
    ∃ j ≤ msgs.length,
      readCalls gob ((msgs.flatMap (writeCall gob)).take k) = (msgs.take j, true) ∧
      ((msgs.take j).flatMap (writeCall gob)).length ≤ k ∧
      (j < msgs.length → k < ((msgs.take (j + 1)).flatMap (writeCall gob)).length) := by
  induction msgs generalizing k with
  | nil =>
    have nothing : readCall gob (([] : List Msg).flatMap (writeCall gob) |>.take k) = .short := by
      rw [List.flatMap_nil, List.take_nil]
      rfl
    exact ⟨0, Nat.le_refl _, readCalls_short nothing, Nat.zero_le _, by simp⟩
  | cons msg msgs ih =>
    have here := fits msg (List.mem_cons_self ..)
    rw [List.flatMap_cons]
    by_cases inside : k < (writeCall gob msg).length
    · refine ⟨0, Nat.zero_le _, readCalls_short ?_, Nat.zero_le _, fun _ => ?_⟩
      · have short : ((writeCall gob msg).take k).length < (writeCall gob msg).length := by
          rw [List.length_take]
          omega
        rw [List.take_append_of_le_length (Nat.le_of_lt inside), readCall,
          show next ((writeCall gob msg).take k) = none from
            next_inside here (List.take_prefix _ _) short]
      · rw [List.take_succ_cons, List.take_zero, List.flatMap_singleton]
        exact inside
    · obtain ⟨j, low, read, arrived, missing⟩ :=
        ih (fun other member => fits other (List.mem_cons_of_mem _ member))
          (k - (writeCall gob msg).length)
      have found : readCall gob ((writeCall gob msg ++ msgs.flatMap (writeCall gob)).take k) =
          .call msg ((msgs.flatMap (writeCall gob)).take (k - (writeCall gob msg).length)) := by
        rw [List.take_append, List.take_of_length_le (Nat.le_of_not_lt inside), readCall, writeCall,
          next_frame here]
        simp only [gob.decode_encode]
      refine ⟨j + 1, Nat.succ_le_succ low, ?_, ?_, fun more => ?_⟩
      · rw [readCalls_call found, read, List.take_succ_cons]
      · rw [List.take_succ_cons, List.flatMap_cons, List.length_append]
        omega
      · have later := missing (Nat.lt_of_succ_lt_succ more)
        rw [List.take_succ_cons, List.flatMap_cons, List.length_append]
        omega

/-- An encoding that puts the tag and the flag before the data. -/
def Gob.plain : Gob Msg where
  encode msg := le32 msg.tag.toNat ++ (if msg.ok then 1 else 0) :: msg.data
  decode bytes :=
    match ofLe32 bytes with
    | some (tag, flag :: data) => some ⟨BitVec.ofNat 32 tag, data, flag == 1⟩
    | _ => none
  decode_encode msg := by
    simp only [ofLe32_le32 msg.tag.isLt]
    cases msg with
    | mk tag data ok => cases ok <;> simp

def ofLetters : Bytes → List Char
  | a :: b :: c :: d :: rest =>
    Char.ofNat (a.toNat + 256 * b.toNat + 256 ^ 2 * c.toNat + 256 ^ 3 * d.toNat) :: ofLetters rest
  | _ => []

theorem ofLetters_le32 {k : Nat} (fits : k < 2 ^ 32) (rest : Bytes) :
    ofLetters (le32 k ++ rest) = Char.ofNat k :: ofLetters rest := by
  have read := ofLe32_le32 fits rest
  simp only [le32, List.cons_append, List.nil_append, ofLe32, Option.some.injEq, Prod.mk.injEq,
    and_true] at read
  simp only [le32, List.cons_append, List.nil_append, ofLetters, read]

@[simp] theorem ofLetters_letters (letters : List Char) :
    ofLetters (letters.flatMap fun letter => le32 letter.toNat) = letters := by
  induction letters with
  | nil => rfl
  | cons letter letters ih =>
    have fits : letter.toNat < 2 ^ 32 := letter.val.toNat_lt
    rw [List.flatMap_cons, ofLetters_le32 fits, ih, Char.ofNat_toNat]

/-- An encoding of a name that spends four bytes on each letter. -/
def Gob.letters : Gob InitMsg where
  encode init := init.clnt.toList.flatMap fun letter => le32 letter.toNat
  decode bytes := some ⟨String.ofList (ofLetters bytes)⟩
  decode_encode init := by
    rw [ofLetters_letters, String.ofList_toList]

/-- The second of two calls is cut off in the middle. -/
theorem written_calls_read_back_cut :
    ∃ j ≤ 2, readCalls .plain ((([⟨1, [7], true⟩, ⟨2, [8, 9], true⟩] : List Msg).flatMap
        (writeCall .plain)).take 14) =
          (([⟨1, [7], true⟩, ⟨2, [8, 9], true⟩] : List Msg).take j, true) ∧
      j < 2 := by
  obtain ⟨j, low, read, arrived, _⟩ :=
    written_calls_read_back .plain [⟨1, [7], true⟩, ⟨2, [8, 9], true⟩] (by decide) 14
  refine ⟨j, low, read, ?_⟩
  by_contra all
  obtain rfl : j = 2 := Nat.le_antisymm low (Nat.le_of_not_lt all)
  exact absurd arrived (by decide)

end KvStore.Demux

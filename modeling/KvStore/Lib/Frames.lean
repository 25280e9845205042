import Mathlib.Algebra.Group.Nat.Defs
import Mathlib.Data.List.Basic
import Mathlib.Tactic.Common

set_option autoImplicit false

/-! Streams of frames: every payload is preceded by its length, in four bytes with the
least significant one first. A stream may be cut off anywhere. -/

namespace Frames

def le32 (k : Nat) : List UInt8 :=
  [UInt8.ofNat k, UInt8.ofNat (k / 256), UInt8.ofNat (k / 256 ^ 2), UInt8.ofNat (k / 256 ^ 3)]

/-- The number in the first four bytes, and the bytes after them. -/
def ofLe32 : List UInt8 → Option (Nat × List UInt8)
  | a :: b :: c :: d :: rest =>
    some (a.toNat + 256 * b.toNat + 256 ^ 2 * c.toNat + 256 ^ 3 * d.toNat, rest)
  | _ => none

def frame (payload : List UInt8) : List UInt8 := le32 payload.length ++ payload

/-- The first payload of a stream, if all of it is there, and the bytes after it. -/
def next (stream : List UInt8) : Option (List UInt8 × List UInt8) := do
  let (k, rest) ← ofLe32 stream
  if k ≤ rest.length then some (rest.take k, rest.drop k) else none

theorem ofLe32_le32 {k : Nat} (fits : k < 2 ^ 32) (rest : List UInt8) :
    ofLe32 (le32 k ++ rest) = some (k, rest) := by
  have digits : k % 256 + 256 * (k / 256 % 256) + 256 ^ 2 * (k / 256 ^ 2 % 256) +
      256 ^ 3 * (k / 256 ^ 3 % 256) = k := by omega
  simp only [le32, List.cons_append, List.nil_append, ofLe32, UInt8.toNat_ofNat']
  rw [show 2 ^ 8 = 256 from rfl, digits]

theorem next_frame {payload : List UInt8} (fits : payload.length < 2 ^ 32) (rest : List UInt8) :
    next (frame payload ++ rest) = some (payload, rest) := by
  simp only [next, frame, List.append_assoc, ofLe32_le32 fits, Option.bind_eq_bind,
    Option.bind_some, List.length_append, Nat.le_add_right, ↓reduceIte, List.take_left,
    List.drop_left]

@[simp] theorem length_frame (payload : List UInt8) :
    (frame payload).length = payload.length + 4 := by
  simp only [frame, le32, List.length_append, List.length_cons, List.length_nil]
  omega

theorem ofLe32_short {stream : List UInt8} (short : stream.length < 4) : ofLe32 stream = none := by
  unfold ofLe32
  split
  · simp only [List.length_cons] at short
    omega
  · rfl

theorem next_shorter {stream payload rest : List UInt8}
    (found : next stream = some (payload, rest)) :
    rest.length < stream.length := by
  unfold next ofLe32 at found
  split at found
  · simp only [Option.bind_eq_bind, Option.bind_some] at found
    split at found
    · obtain ⟨_, rfl⟩ := Prod.mk.inj (Option.some.inj found)
      simp only [List.length_drop, List.length_cons]
      omega
    · cases found
  · cases found

/-- A stream that ends inside its first frame has no payload to give. -/
theorem next_inside {payload stream : List UInt8} (fits : payload.length < 2 ^ 32)
    (inside : stream <+: frame payload) (short : stream.length < (frame payload).length) :
    next stream = none := by
  by_cases header : stream.length < 4
  · simp only [next, ofLe32_short header, Option.bind_eq_bind, Option.bind_none]
  · have start : le32 payload.length <+: stream :=
      List.prefix_of_prefix_length_le (List.prefix_append _ _) inside (by
        simp only [le32, List.length_cons, List.length_nil]
        omega)
    obtain ⟨rest, rfl⟩ := start
    rw [length_frame, List.length_append] at short
    have missing : ¬ payload.length ≤ rest.length := by
      simp only [le32, List.length_cons, List.length_nil] at short
      omega
    simp only [next, ofLe32_le32 fits, Option.bind_eq_bind, Option.bind_some, missing, ↓reduceIte]

/-- The bytes of a stream that was written frame by frame, and that is all there unless it
was `cut`. -/
structure Carries (cut : Bool) (payloads : List (List UInt8)) (stream : List UInt8) : Prop where
  fits : ∀ payload ∈ payloads, payload.length < 2 ^ 32
  within : stream <+: payloads.flatMap frame
  whole : cut = false → stream = payloads.flatMap frame

namespace Carries

variable {cut : Bool} {payload stream : List UInt8} {payloads : List (List UInt8)}

theorem nil (cut : Bool) : Carries cut [] [] :=
  ⟨fun _ absent => absurd absent List.not_mem_nil, List.prefix_refl _, fun _ => rfl⟩

theorem append (carries : Carries false payloads stream) (fits : payload.length < 2 ^ 32) :
    Carries false (payloads ++ [payload]) (stream ++ frame payload) := by
  have all : stream ++ frame payload = (payloads ++ [payload]).flatMap frame := by
    rw [List.flatMap_append, List.flatMap_singleton, carries.whole rfl]
  refine ⟨fun other member => ?_, all ▸ List.prefix_refl _, fun _ => all⟩
  rcases List.mem_append.mp member with old | new
  · exact carries.fits other old
  · rw [List.mem_singleton.mp new]
    exact fits

/-- The stream breaks off somewhere. -/
theorem take (carries : Carries cut payloads stream) (k : Nat) :
    Carries true payloads (stream.take k) :=
  ⟨carries.fits, (List.take_prefix _ _).trans carries.within, by simp⟩

/-- What is read off a stream is the first payload that was written, and the rest carries
the rest; only a stream that was cut can end before that. -/
theorem next_cons (carries : Carries cut (payload :: payloads) stream) :
    (∃ rest, next stream = some (payload, rest) ∧ Carries cut payloads rest) ∨
      next stream = none ∧ cut = true := by
  have fits := carries.fits payload (List.mem_cons_self ..)
  have within := carries.within
  rw [List.flatMap_cons] at within
  by_cases inside : stream.length < (frame payload).length
  · refine Or.inr ⟨next_inside fits
      (List.prefix_of_prefix_length_le within (List.prefix_append _ _) (Nat.le_of_lt inside))
      inside, ?_⟩
    cases cut with
    | true => rfl
    | false =>
      have whole := congrArg List.length (carries.whole rfl)
      rw [List.flatMap_cons, List.length_append] at whole
      omega
  · obtain ⟨rest, rfl⟩ := List.prefix_of_prefix_length_le (List.prefix_append _ _) within
      (Nat.le_of_not_lt inside)
    refine Or.inl ⟨rest, next_frame fits rest, fun other member =>
      carries.fits other (List.mem_cons_of_mem _ member),
      (List.prefix_append_right_inj _).mp within, fun all => ?_⟩
    have whole := carries.whole all
    rw [List.flatMap_cons] at whole
    exact List.append_cancel_left whole

theorem next_nil (carries : Carries cut [] stream) : next stream = none := by
  obtain rfl : stream = [] := List.prefix_nil.mp carries.within
  rfl

end Carries

end Frames

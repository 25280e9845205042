import Mathlib.Logic.Function.Basic

set_option autoImplicit false

/-! The errors of the key/value RPCs and the versioned map every server keeps. -/

namespace KvStore

inductive Err
  | ok
  | noKey
  | version
  | maybe
  | wrongLeader
  | wrongGroup
  | retryExhausted
  | illegalOperation
  deriving DecidableEq, Repr

structure VersionedValue (V : Type) where
  value : V
  version : Nat
  deriving DecidableEq, Repr

abbrev KvMap (K V : Type) := K → Option (VersionedValue V)

namespace KvMap

variable {K V : Type} [DecidableEq K]

def empty : KvMap K V := fun _ => none

/-- `Put` installs the value if the versions match, or if the key is new and the
version is 0. -/
def put (kvm : KvMap K V) (key : K) (value : V) (version : Nat) : KvMap K V × Err :=
  match kvm key with
  | some held =>
    if held.version = version then
      (Function.update kvm key (some { value, version := held.version + 1 }), .ok)
    else (kvm, .version)
  | none =>
    if version = 0 then (Function.update kvm key (some { value, version := 1 }), .ok)
    else (kvm, .noKey)

theorem put_other (kvm : KvMap K V) {key other : K} (value : V) (version : Nat)
    (differs : other ≠ key) : (kvm.put key value version).1 other = kvm other := by
  unfold put
  split <;> split <;> first | rfl | exact Function.update_of_ne differs ..

/-- What `Put` does depends on its key alone. -/
theorem put_congr {kvm kvm' : KvMap K V} {key : K} (same : kvm key = kvm' key) (value : V)
    (version : Nat) :
    (kvm.put key value version).1 key = (kvm'.put key value version).1 key ∧
      (kvm.put key value version).2 = (kvm'.put key value version).2 := by
  unfold put
  rw [same]
  split <;> split <;> simp [same]

theorem put_held {kvm : KvMap K V} {key : K} {held : VersionedValue V} (found : kvm key = some held)
    (value : V) (version : Nat) :
    (held.version = version ∧ kvm.put key value version =
      (Function.update kvm key (some { value, version := version + 1 }), .ok)) ∨
    (held.version ≠ version ∧ kvm.put key value version = (kvm, .version)) := by
  unfold put
  rw [found]
  by_cases same : held.version = version
  · exact Or.inl ⟨same, by simp [same]⟩
  · exact Or.inr ⟨same, by simp [same]⟩

/-- The version of a key, 0 if it is absent. -/
def versionOf (kvm : KvMap K V) (key : K) : Nat := (kvm key).elim 0 (·.version)

/-- `Put` writes exactly if its version is the version of the key. -/
theorem put_cases (kvm : KvMap K V) (key : K) (value : V) (version : Nat) :
    (kvm.versionOf key = version ∧ kvm.put key value version =
      (Function.update kvm key (some { value, version := version + 1 }), .ok)) ∨
    (kvm.versionOf key ≠ version ∧ ∃ err, err ≠ .ok ∧ kvm.put key value version = (kvm, err)) := by
  unfold versionOf
  cases found : kvm key with
  | none =>
    by_cases new : version = 0
    · exact Or.inl ⟨new.symm, by simp [put, found, new]⟩
    · exact Or.inr ⟨Ne.symm new, .noKey, by simp, by simp [put, found, new]⟩
  | some held =>
    rcases put_held found value version with ⟨same, written⟩ | ⟨differs, refused⟩
    · exact Or.inl ⟨same, written⟩
    · exact Or.inr ⟨differs, .version, by simp, refused⟩

end KvMap

end KvStore

import Std.Data.HashSet
import Rulebook.Value.Basic

/-!
# Equality

Equality of values compares types and payloads at every depth, and floats by their bits. It is the
equality of the logic, and equal values have equal hashes, so values can be counted and looked up
by it.
-/

namespace Rulebook

/-! ## Values -/

namespace Value

mutual

/-- Equality of values: of types and of payloads. -/
def beq : Value → Value → Bool
  | ⟨s, p⟩, ⟨t, q⟩ => s = t && beqPayload p q

/-- Equality of payloads: the same form with equal contents. -/
def beqPayload : Payload Value → Payload Value → Bool
  | .bool a, .bool b => a = b
  | .int m, .int n => m = n
  | .float x, .float y => x = y
  | .handle s, .handle t => s = t
  | .sequence vs, .sequence ws => beqItems vs ws
  | _, _ => false

/-- Equality of lists of values: the same length and equal members. -/
def beqItems : List Value → List Value → Bool
  | [], [] => true
  | v :: vs, w :: ws => beq v w && beqItems vs ws
  | _, _ => false

end

instance : BEq Value := ⟨beq⟩

instance : BEq (Payload Value) := ⟨beqPayload⟩

mutual

/-- A hash of a value's type and payload. -/
def hash : Value → UInt64
  | ⟨ty, payload⟩ => mixHash (Hashable.hash ty) (hashPayload payload)

/-- A hash of a payload's form and contents. -/
def hashPayload : Payload Value → UInt64
  | .bool b => mixHash 1 (Hashable.hash b)
  | .int n => mixHash 2 (Hashable.hash n)
  | .float x => mixHash 3 (Hashable.hash x)
  | .handle s => mixHash 4 (Hashable.hash s)
  | .sequence items => mixHash 5 (hashItems items)

/-- A hash of the members of a list in order. -/
def hashItems : List Value → UInt64
  | [] => 7
  | v :: vs => mixHash (hash v) (hashItems vs)

end

instance : Hashable Value := ⟨hash⟩

instance : Hashable (Payload Value) := ⟨hashPayload⟩

mutual

/-- Values that compare equal are the same. -/
theorem eq_of_beq : ∀ {v w : Value}, beq v w = true → v = w
  | ⟨_, p⟩, ⟨_, q⟩, h => by
    simp only [beq, Bool.and_eq_true, decide_eq_true_eq] at h
    rw [h.1, eq_of_beqPayload h.2]

theorem eq_of_beqPayload : ∀ {p q : Payload Value}, beqPayload p q = true → p = q
  | .bool _, .bool _, h => by simpa [beqPayload] using h
  | .int _, .int _, h => by simpa [beqPayload] using h
  | .float _, .float _, h => by simpa [beqPayload] using h
  | .handle _, .handle _, h => by simpa [beqPayload] using h
  | .sequence vs, .sequence ws, h => by
    have h : beqItems vs ws = true := by simpa [beqPayload] using h
    rw [eq_of_beqItems h]
  | .bool _, .int _, h | .bool _, .float _, h | .bool _, .handle _, h | .bool _, .sequence _, h
  | .int _, .bool _, h | .int _, .float _, h | .int _, .handle _, h | .int _, .sequence _, h
  | .float _, .bool _, h | .float _, .int _, h | .float _, .handle _, h
  | .float _, .sequence _, h
  | .handle _, .bool _, h | .handle _, .int _, h | .handle _, .float _, h
  | .handle _, .sequence _, h
  | .sequence _, .bool _, h | .sequence _, .int _, h | .sequence _, .float _, h
  | .sequence _, .handle _, h => by simp [beqPayload] at h

theorem eq_of_beqItems : ∀ {vs ws : List Value}, beqItems vs ws = true → vs = ws
  | [], [], _ => rfl
  | v :: vs, w :: ws, h => by
    simp only [beqItems, Bool.and_eq_true] at h
    rw [eq_of_beq h.1, eq_of_beqItems h.2]
  | [], _ :: _, h | _ :: _, [], h => by simp [beqItems] at h

end

mutual

/-- A value compares equal to itself. -/
theorem beq_self : ∀ v : Value, beq v v = true
  | ⟨_, p⟩ => by simp [beq, beqPayload_self p]

theorem beqPayload_self : ∀ p : Payload Value, beqPayload p p = true
  | .bool _ | .int _ | .float _ | .handle _ => by simp [beqPayload]
  | .sequence items => by simp [beqPayload, beqItems_self items]

theorem beqItems_self : ∀ vs : List Value, beqItems vs vs = true
  | [] => rfl
  | v :: vs => by simp [beqItems, beq_self v, beqItems_self vs]

end

instance : LawfulBEq Value where
  eq_of_beq := eq_of_beq
  rfl := beq_self _

instance : LawfulBEq (Payload Value) where
  eq_of_beq := eq_of_beqPayload
  rfl := beqPayload_self _

instance : DecidableEq Value := fun v w => decidable_of_iff (v == w) beq_iff_eq

instance : DecidableEq (Payload Value) := fun p q => decidable_of_iff (p == q) beq_iff_eq

end Value

/-! ## Members of a list

Which members of a list are equal to which, and how many different ones there are. -/

/-- One row for each member, with its equality to each member in order. -/
def equalityTable {α : Type} [BEq α] (xs : List α) : List (List Bool) :=
  xs.map fun x => xs.map fun y => x == y

/-- The number of different members. -/
def distinctCount {α : Type} [BEq α] [Hashable α] (xs : List α) : Nat :=
  (Std.HashSet.ofList xs).size

end Rulebook

import Rulebook.Program.Line
import Rulebook.Value.Access

/-!
# Values that fit their types

A value fits a type if it is marked with it and its payload agrees with the mark at every depth. A
failed computation answers an error in the place of a value that fits, which is what
`Value.FitsOrError` allows.
-/

namespace Rulebook.Value

/-- A value is marked with a type and has a payload of that type. -/
inductive Fits : Value → Ty → Prop where
  | bool (b : Bool) : Fits ⟨.single .boolean, .bool b⟩ (.single .boolean)
  | int (n : Int64) : Fits ⟨.single .number, .int n⟩ (.single .number)
  | float (x : Binary64) : Fits ⟨.single .number, .float x⟩ (.single .number)
  | handle {kind : Kind} (hkind : kind.isHandle = true) (text : String) :
      Fits ⟨.single kind, .handle text⟩ (.single kind)
  | error (message : String) : Fits ⟨.single .error, .handle message⟩ (.single .error)
  | sequence {kind : Kind} {items : List Value} (hitems : ∀ v ∈ items, Fits v (.single kind)) :
      Fits ⟨.collection kind, .sequence items⟩ (.collection kind)

/-- A value fits a type, or it is an error with a message. -/
def FitsOrError (v : Value) (ty : Ty) : Prop := v.Fits ty ∨ v.Fits (.single .error)

variable {v : Value} {ty : Ty}

/-- A value has the type that it fits. -/
theorem Fits.ty_eq (h : v.Fits ty) : v.ty = ty := by
  cases h <;> rfl

theorem Fits.isError (h : v.Fits (.single .error)) : v.isError = true := by
  rw [Value.isError, h.ty_eq]
  rfl

/-- An empty sequence fits the collection of any kind. -/
theorem Fits.emptyOf (kind : Kind) : (emptyOf kind).Fits (.collection kind) :=
  .sequence (List.forall_mem_nil _)

/-- The contents of a value that fits Boolean can be read. -/
theorem Fits.asBool (h : v.Fits (.single .boolean)) : ∃ b, v.asBool = .ok b := by
  cases h with
  | bool b => exact ⟨b, rfl⟩
  | handle hkind =>
    -- Boolean is not a handle kind
    cases hkind

/-- A sequence can be built of items of one kind and of no others. -/
theorem sequence_eq_ok_iff {element : Ty} {items : List Value} :
    Value.sequence element items = .ok v ↔
      ∃ kind, element = .single kind ∧ (∀ w ∈ items, w.ty = .single kind) ∧
        v = ⟨.collection kind, .sequence items⟩ := by
  cases element with
  | collection kind =>
    constructor
    · intro h
      cases h
    · rintro ⟨_, ⟨⟩, _⟩
  | single kind =>
    unfold Value.sequence
    cases hfind : items.find? (fun item => item.ty ≠ .single kind) with
    | none =>
      have hitems : ∀ w ∈ items, w.ty = .single kind := by
        simpa using List.find?_eq_none.mp hfind
      constructor
      · intro h
        cases h
        exact ⟨kind, rfl, hitems, rfl⟩
      · rintro ⟨_, ⟨⟩, _, rfl⟩
        rfl
    | some item =>
      have hitem : item.ty ≠ .single kind := by simpa using List.find?_some hfind
      constructor
      · intro h
        cases h
      · rintro ⟨_, ⟨⟩, hitems, _⟩
        exact absurd (hitems item (List.mem_of_find?_eq_some hfind)) hitem

/-- A literal that is read as a number fits the numbers. -/
theorem fits_of_numberLiteral {name : String} (h : Reference.numberLiteral name = .ok v) :
    v.Fits (.single .number) := by
  rw [Reference.numberLiteral] at h
  cases hread : Numeral.read? name with
  | none =>
    rw [hread] at h
    cases h
  | some n =>
    rw [hread] at h
    cases h
    exact .int n

/-- A literal that is read as a truth value fits the truth values. -/
theorem fits_of_booleanLiteral {name : String} (h : Reference.booleanLiteral name = .ok v) :
    v.Fits (.single .boolean) := by
  rw [Reference.booleanLiteral] at h
  by_cases htrue : name = "true"
  · rw [if_pos htrue] at h
    cases h
    exact .bool true
  · rw [if_neg htrue] at h
    by_cases hfalse : name = "false"
    · rw [if_pos hfalse] at h
      cases h
      exact .bool false
    · rw [if_neg hfalse] at h
      cases h

/-- A literal's value fits the literal's type. -/
theorem fits_of_literalValue {r : Reference} (h : r.literalValue = .ok v) : v.Fits r.ty := by
  obtain ⟨name, ty, isLiteral⟩ := r
  cases isLiteral with
  | false => cases h
  | true =>
    rw [Reference.literalValue, if_pos rfl] at h
    cases ty with
    | collection kind =>
      cases h
      exact .emptyOf kind
    | single kind =>
      cases kind with
      | number => exact fits_of_numberLiteral h
      | boolean => exact fits_of_booleanLiteral h
      | error | object | position | action => cases h

namespace FitsOrError

theorem tooDeep (ty : Ty) : Value.tooDeep.FitsOrError ty := .inr (.error tooDeepMessage)

/-- An error that fits some type has a message, -/
theorem of_isError {ty' : Ty} (h : v.FitsOrError ty) (hv : v.isError = true) :
    v.FitsOrError ty' := by
  rcases h with h | h
  · rw [Value.isError, h.ty_eq, Ty.isError, decide_eq_true_eq] at hv
    subst hv
    exact .inr h
  · exact .inr h

/-- and what is no error fits. -/
theorem fits (h : v.FitsOrError ty) (hv : v.isError = false) : v.Fits ty := by
  rcases h with h | h
  · exact h
  · rw [h.isError] at hv
    cases hv

end FitsOrError

end Rulebook.Value

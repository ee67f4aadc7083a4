import Mathlib.Data.List.Induction
import Mathlib.Data.Nat.Digits.Defs
import Rulebook.Program.Line
import Rulebook.Value.Access

/-!
# Literals

The names that spell a literal are said by a grammar: a numeral is at most one sign before one or
more decimal digits and denotes their value in the decimal system (`Numeral.Denotes`). Reading finds
exactly the numerals whose value fits 64 bits (`Numeral.read?_eq_some_iff`), and so literals accept
their grammar and nothing else. Displayed numbers and truth values obey it, so a literal undoes the
display of a value (`Reference.literals_exact`).
-/

namespace Rulebook

/-! ## The grammar of numerals -/

namespace Numeral

/-- The value of digits in the decimal system. The last counts ones, the one before it tens. -/
def decimalValue (digits : List Char) : Nat := Nat.ofDigits 10 (digits.reverse.map digitValue)

/-- One or more of the ten digits of ASCII. -/
def IsDigits (digits : List Char) : Prop := digits ≠ [] ∧ ∀ c ∈ digits, '0' ≤ c ∧ c ≤ '9'

/-- A text is a numeral of a value: digits, alone or after a sign. -/
inductive Denotes : List Char → Int → Prop where
  | unsigned {digits : List Char} (h : IsDigits digits) : Denotes digits (decimalValue digits)
  | plus {digits : List Char} (h : IsDigits digits) : Denotes ('+' :: digits) (decimalValue digits)
  | minus {digits : List Char} (h : IsDigits digits) :
      Denotes ('-' :: digits) (-(decimalValue digits : Int))

theorem digitsValue_eq_decimalValue (digits : List Char) :
    digitsValue digits = decimalValue digits := by
  induction digits using List.reverseRecOn with
  | nil => rfl
  | append_singleton digits c ih =>
    unfold digitsValue decimalValue at ih ⊢
    rw [List.foldl_append, ih, List.reverse_append, List.reverse_singleton, List.singleton_append,
      List.map_cons, Nat.ofDigits_cons, Nat.add_comm]
    rfl

theorem isDigit_iff {c : Char} : c.isDigit = true ↔ '0' ≤ c ∧ c ≤ '9' := by
  unfold Char.isDigit
  rw [Bool.and_eq_true, decide_eq_true_eq, decide_eq_true_eq]
  rfl

/-- A numeral of digits is not empty and has digits only. -/
theorem isDigits_iff {digits : List Char} :
    IsDigits digits ↔ digits ≠ [] ∧ digits.all Char.isDigit = true := by
  unfold IsDigits
  simp only [List.all_eq_true, isDigit_iff]

/-- Digits are read as their value, or as what a function makes of it, and nothing else is. -/
theorem map_natural?_eq_some_iff {digits : List Char} {f : Nat → Int} {z : Int} :
    (natural? digits).map f = some z ↔ IsDigits digits ∧ z = f (decimalValue digits) := by
  unfold natural?
  rw [isDigits_iff, ← digitsValue_eq_decimalValue]
  by_cases hdigits : digits ≠ [] ∧ digits.all Char.isDigit = true
  · rw [if_pos hdigits, Option.map_some, Option.some.injEq]
    exact ⟨fun h => ⟨hdigits, h.symm⟩, fun h => h.2.symm⟩
  · rw [if_neg hdigits]
    exact ⟨nofun, fun h => absurd h.1 hdigits⟩

/-- Digits do not begin with a sign, so they are read as they stand. -/
theorem integer?_of_isDigits {digits : List Char} (h : IsDigits digits) :
    integer? digits = (natural? digits).map Int.ofNat := by
  cases digits with
  | nil => exact absurd rfl h.1
  | cons c cs =>
    have hc := h.2 c List.mem_cons_self
    have hplus : c ≠ '+' := by
      rintro rfl
      exact absurd hc.1 (by decide)
    have hminus : c ≠ '-' := by
      rintro rfl
      exact absurd hc.1 (by decide)
    unfold integer?
    split
    · next heq => exact absurd (List.cons.inj heq).1 hplus
    · next heq => exact absurd (List.cons.inj heq).1 hminus
    · rfl

/-- A minus sign is read only before digits, and negates them. -/
theorem integer?_minus (digits : List Char) :
    integer? ('-' :: digits) = (natural? digits).map fun n : Nat => -(n : Int) := by
  rw [integer?]
  cases natural? digits <;> rfl

/-- Reading accepts the numerals and answers their values. -/
theorem integer?_eq_some_iff {cs : List Char} {z : Int} :
    integer? cs = some z ↔ Denotes cs z := by
  constructor
  · intro h
    unfold integer? at h
    split at h
    · obtain ⟨hdigits, rfl⟩ := map_natural?_eq_some_iff.mp h
      exact .plus hdigits
    · next digits =>
      have h : integer? ('-' :: digits) = some z := h
      rw [integer?_minus] at h
      obtain ⟨hdigits, rfl⟩ := map_natural?_eq_some_iff.mp h
      exact .minus hdigits
    · obtain ⟨hdigits, rfl⟩ := map_natural?_eq_some_iff.mp h
      exact .unsigned hdigits
  · intro h
    cases h with
    | unsigned hdigits =>
      rw [integer?_of_isDigits hdigits]
      exact map_natural?_eq_some_iff.mpr ⟨hdigits, rfl⟩
    | plus hdigits =>
      rw [integer?]
      exact map_natural?_eq_some_iff.mpr ⟨hdigits, rfl⟩
    | minus hdigits =>
      rw [integer?_minus]
      exact map_natural?_eq_some_iff.mpr ⟨hdigits, rfl⟩

/-- An integer is read as a word if it is the number of the word. -/
theorem int64?_eq_some_iff {z : Int} {n : Int64} : int64? z = some n ↔ z = n.toInt := by
  have hrange := n.toInt_lt
  have hrange' := n.le_toInt
  unfold int64? int64Min int64Max
  constructor
  · intro h
    obtain ⟨hz, h⟩ := Option.ite_none_right_eq_some.mp h
    rw [← Option.some.inj h, Int64.toInt_ofInt_of_le (by omega) (by omega)]
  · rintro rfl
    rw [if_pos (by omega), Int64.ofInt_toInt]

/-- A text is read as a 64-bit integer if and only if it is a numeral of that integer, -/
theorem read?_eq_some_iff {s : String} {n : Int64} :
    read? s = some n ↔ Denotes s.toList n.toInt := by
  unfold read?
  rw [Option.bind_eq_some_iff]
  constructor
  · rintro ⟨z, hz, hn⟩
    rw [← int64?_eq_some_iff.mp hn]
    exact integer?_eq_some_iff.mp hz
  · intro h
    exact ⟨n.toInt, integer?_eq_some_iff.mpr h, int64?_eq_some_iff.mpr rfl⟩

/-- and as none if and only if it is no numeral of a value in range. -/
theorem read?_eq_none_iff {s : String} :
    read? s = none ↔ ∀ z, Denotes s.toList z → ¬ (int64Min ≤ z ∧ z ≤ int64Max) := by
  unfold read?
  rw [Option.bind_eq_none_iff]
  constructor
  · intro h z hz hrange
    have hnone := h z (integer?_eq_some_iff.mpr hz)
    unfold int64? at hnone
    rw [if_pos hrange] at hnone
    cases hnone
  · intro h z hz
    unfold int64?
    rw [if_neg (h z (integer?_eq_some_iff.mp hz))]

example : read? "-009223372036854775808" = some Int64.minValue := by decide

example : read? "+9223372036854775808" = none := by decide

/-! ## Displayed integers are numerals -/

theorem isDigits_toDigits (n : Nat) : IsDigits (Nat.toDigits 10 n) := by
  constructor
  · exact Nat.toDigits_ne_nil
  · intro c hc
    exact isDigit_iff.mp (Nat.isDigit_of_mem_toDigits (by decide) (by decide) hc)

/-- The digits of a natural number have its value. -/
theorem decimalValue_toDigits (n : Nat) : decimalValue (Nat.toDigits 10 n) = n := by
  rw [← digitsValue_eq_decimalValue]
  exact Nat.ofDigitChars_toDigits (by decide) (by decide)

/-- What is written for an integer denotes it. -/
theorem denotes_toString (z : Int) : Denotes (toString z).toList z := by
  cases z with
  | ofNat n =>
    have hdenotes := Denotes.unsigned (isDigits_toDigits n)
    rw [decimalValue_toDigits] at hdenotes
    show Denotes n.repr.toList n
    rw [Nat.toList_repr]
    exact hdenotes
  | negSucc n =>
    have hdenotes := Denotes.minus (isDigits_toDigits (n + 1))
    rw [decimalValue_toDigits] at hdenotes
    show Denotes ("-" ++ (n + 1).repr).toList (Int.negSucc n)
    rw [String.toList_append, Nat.toList_repr]
    exact hdenotes

end Numeral

/-! ## Literals -/

namespace Reference

/-- A literal is a number if its name denotes an integer of 64 bits, which is then its value. -/
theorem numberLiteral_eq_ok_iff {name : String} {v : Value} :
    numberLiteral name = .ok v ↔
      ∃ n : Int64, v = .int n ∧ Numeral.Denotes name.toList n.toInt := by
  simp only [← Numeral.read?_eq_some_iff]
  unfold numberLiteral
  cases Numeral.read? name with
  | none => exact ⟨nofun, fun ⟨n, _, hread⟩ => nomatch hread⟩
  | some m =>
    constructor
    · intro h
      cases h
      exact ⟨m, rfl, rfl⟩
    · rintro ⟨n, rfl, hread⟩
      rw [Option.some.inj hread]

/-- Any other name is refused as a number, and the error quotes it. -/
theorem numberLiteral_eq_error_iff {name : String} {e : LiteralError} :
    numberLiteral name = .error e ↔ e = .invalidNumber name ∧
      ∀ z, Numeral.Denotes name.toList z → ¬ (int64Min ≤ z ∧ z ≤ int64Max) := by
  rw [← Numeral.read?_eq_none_iff]
  unfold numberLiteral
  cases Numeral.read? name with
  | none =>
    constructor
    · intro h
      cases h
      exact ⟨rfl, rfl⟩
    · rintro ⟨rfl, _⟩
      rfl
  | some m => exact ⟨nofun, fun ⟨_, hread⟩ => nomatch hread⟩

/-- The two truth values have one name each. -/
theorem booleanLiteral_eq_ok_iff {name : String} {v : Value} :
    booleanLiteral name = .ok v ↔
      name = "true" ∧ v = .bool true ∨ name = "false" ∧ v = .bool false := by
  unfold booleanLiteral
  by_cases htrue : name = "true"
  · subst htrue
    simp [eq_comm]
  · by_cases hfalse : name = "false"
    · subst hfalse
      simp [eq_comm]
    · simp [htrue, hfalse]

/-- Any other name is refused as a truth value, and the error quotes it. -/
theorem booleanLiteral_eq_error_iff {name : String} {e : LiteralError} :
    booleanLiteral name = .error e ↔
      e = .invalidBoolean name ∧ name ≠ "true" ∧ name ≠ "false" := by
  unfold booleanLiteral
  by_cases htrue : name = "true"
  · simp [htrue]
  · by_cases hfalse : name = "false"
    · simp [hfalse]
    · simp [htrue, hfalse, eq_comm]

/-- Only numbers and truth values can be spelled as single values. -/
theorem literalValue_of_unspelled {kind : Kind} (hnumber : kind ≠ .number)
    (hboolean : kind ≠ .boolean) (name : String) :
    (literal name (.single kind)).literalValue = .error (.unsupported name (.single kind)) := by
  cases kind with
  | number => exact absurd rfl hnumber
  | boolean => exact absurd rfl hboolean
  | error | object | position | action => rfl

/-- The literal that is named as an integer is displayed denotes it, -/
theorem literalValue_display_int (n : Int64) :
    (literal (toString n.toInt) (.single .number)).literalValue = .ok (.int n) :=
  numberLiteral_eq_ok_iff.mpr ⟨n, rfl, Numeral.denotes_toString n.toInt⟩

/-- and that which is named as a truth value is displayed denotes that. -/
theorem literalValue_display_bool (b : Bool) :
    (literal (if b then "true" else "false") (.single .boolean)).literalValue = .ok (.bool b) := by
  cases b with
  | true => exact booleanLiteral_eq_ok_iff.mpr (.inl ⟨rfl, rfl⟩)
  | false => exact booleanLiteral_eq_ok_iff.mpr (.inr ⟨rfl, rfl⟩)

/-- Literals accept exactly their grammar. A literal of a collection type is the empty collection
whatever its name. One of the type of numbers is the integer that its name is a numeral of if the
integer fits 64 bits, and is refused under its name otherwise; one of the type of truth values is
spelled `true` or `false`, and is refused otherwise; no other single value can be spelled. So the
literal that is named as an integer or a truth value is displayed denotes it. -/
theorem literals_exact :
    (∀ name kind, (literal name (.collection kind)).literalValue =
      .ok ⟨.collection kind, .sequence []⟩) ∧
    (∀ name v, (literal name (.single .number)).literalValue = .ok v ↔
      ∃ n : Int64, v = .int n ∧ Numeral.Denotes name.toList n.toInt) ∧
    (∀ name e, (literal name (.single .number)).literalValue = .error e ↔
      e = .invalidNumber name ∧
        ∀ z, Numeral.Denotes name.toList z → ¬ (int64Min ≤ z ∧ z ≤ int64Max)) ∧
    (∀ name v, (literal name (.single .boolean)).literalValue = .ok v ↔
      name = "true" ∧ v = .bool true ∨ name = "false" ∧ v = .bool false) ∧
    (∀ name e, (literal name (.single .boolean)).literalValue = .error e ↔
      e = .invalidBoolean name ∧ name ≠ "true" ∧ name ≠ "false") ∧
    (∀ name kind, kind ≠ .number → kind ≠ .boolean →
      (literal name (.single kind)).literalValue = .error (.unsupported name (.single kind))) ∧
    (∀ n : Int64, ∃ text, (Value.int n).display = .ok text ∧
      (literal text (.single .number)).literalValue = .ok (.int n)) ∧
    ∀ b : Bool, ∃ text, (Value.bool b).display = .ok text ∧
      (literal text (.single .boolean)).literalValue = .ok (.bool b) := by
  refine ⟨?_, ?_, ?_, ?_, ?_, ?_, ?_, ?_⟩
  · intro name kind
    rfl
  · intro name v
    exact numberLiteral_eq_ok_iff
  · intro name e
    exact numberLiteral_eq_error_iff
  · intro name v
    exact booleanLiteral_eq_ok_iff
  · intro name e
    exact booleanLiteral_eq_error_iff
  · intro name kind hnumber hboolean
    exact literalValue_of_unspelled hnumber hboolean name
  · intro n
    exact ⟨toString n.toInt, rfl, literalValue_display_int n⟩
  · intro b
    exact ⟨if b then "true" else "false", rfl, literalValue_display_bool b⟩

end Reference

end Rulebook

import Rulebook.Equality

/-!
# References and lines

What the body of a rule is written with: references to slots and literals, and lines that assign or
return them.
-/

namespace Rulebook

/-! ## References

A reference is a named and typed slot of a rule: a parameter, a local or a literal. Slots are told
apart by their identity in the program, never by name. A literal denotes the value that its name
spells. -/

/-- The place of a reference in its program. -/
structure ReferenceId where
  index : Nat
  deriving DecidableEq, Hashable

namespace ReferenceId

/-- The text of an identity in messages. -/
def text (id : ReferenceId) : String := "ReferenceId(" ++ toString id.index ++ ")"

end ReferenceId

/-- A named and typed slot, or a literal. -/
structure Reference where
  name : String
  ty : Ty
  isLiteral : Bool
  deriving DecidableEq

/-- Why a reference denotes no value. -/
inductive LiteralError where
  | notLiteral (name : String)
  | invalidNumber (name : String)
  | invalidBoolean (name : String)
  | unsupported (name : String) (ty : Ty)
  deriving DecidableEq

namespace LiteralError

/-- What a literal error is reported as. -/
def message : LiteralError → String
  | notLiteral name => "`" ++ name ++ "` is not a literal"
  | invalidNumber name => "`" ++ name ++ "` is not a valid Number literal"
  | invalidBoolean name =>
    "`" ++ name ++ "` is not a valid Boolean literal (expected `true` or `false`)"
  | unsupported name ty => ty.text ++ " literals are not supported (`" ++ name ++ "`)"

end LiteralError

namespace Reference

/-- A parameter or local. -/
def variableSlot (name : String) (ty : Ty) : Reference := ⟨name, ty, false⟩

/-- A literal. -/
def literal (name : String) (ty : Ty) : Reference := ⟨name, ty, true⟩

/-- A reference as it is shown, type first. -/
def text (r : Reference) : String := r.ty.text ++ " " ++ r.name

/-- The number that a name spells. -/
def numberLiteral (name : String) : Except LiteralError Value :=
  match Numeral.read? name with
  | some n => .ok (.int n)
  | none => .error (.invalidNumber name)

/-- The truth value that a name spells. -/
def booleanLiteral (name : String) : Except LiteralError Value :=
  if name = "true" then .ok (.bool true)
  else if name = "false" then .ok (.bool false)
  else .error (.invalidBoolean name)

/-- The value that a literal denotes. A literal of a collection type is the empty collection
whatever its name; of single values only numbers and truth values can be spelled. -/
def literalValue (r : Reference) : Except LiteralError Value :=
  if r.isLiteral then
    match r.ty with
    | .collection kind => .ok (.emptyOf kind)
    | .single .number => numberLiteral r.name
    | .single .boolean => booleanLiteral r.name
    | .single _ => .error (.unsupported r.name r.ty)
  else .error (.notLiteral r.name)

end Reference

/-! ## Lines of a body

A body is a list of lines. Each line has a target, which it assigns or returns, and all but plain
returns call a function to do so. -/

/-- The place of a function in its program, which is what memoized results are kept under. -/
structure FunctionId where
  index : Nat
  deriving DecidableEq, Hashable

namespace FunctionId

/-- The text of an identity in messages. -/
def text (id : FunctionId) : String := "FunctionId(" ++ toString id.index ++ ")"

end FunctionId

/-- What a line does. -/
inductive LineKind where
  | assignment
  | conditionalReturn
  | unconditionalReturn
  deriving DecidableEq

namespace LineKind

/-- The name of a kind of line. -/
def name : LineKind → String
  | assignment => "Assignment"
  | conditionalReturn => "ConditionalReturn"
  | unconditionalReturn => "Return"

end LineKind

/-- One statement of a body. -/
inductive Line where
  /-- `target = callee(arguments)`. -/
  | assign (target : ReferenceId) (callee : FunctionId) (arguments : List ReferenceId)
  /-- `return target if gate(arguments)`. -/
  | returnIf (target : ReferenceId) (gate : FunctionId) (arguments : List ReferenceId)
  /-- `return target`. -/
  | ret (target : ReferenceId)
  deriving DecidableEq

namespace Line

/-- What a line does. -/
def kind : Line → LineKind
  | assign _ _ _ => .assignment
  | returnIf _ _ _ => .conditionalReturn
  | ret _ => .unconditionalReturn

/-- The slot that a line assigns or returns. -/
def target : Line → ReferenceId
  | assign target _ _ | returnIf target _ _ | ret target => target

/-- The arguments of a line's call. -/
def arguments : Line → List ReferenceId
  | assign _ _ arguments | returnIf _ _ arguments => arguments
  | ret _ => []

/-- The function that a line calls. -/
def call? : Line → Option FunctionId
  | assign _ callee _ => some callee
  | returnIf _ gate _ => some gate
  | ret _ => none

/-- Every reference of a line, the target first. -/
def inputs (line : Line) : List ReferenceId := line.target :: line.arguments

/-- Whether a line can return. -/
def isReturn (line : Line) : Bool := line.kind ≠ .assignment

/-- The slot that an assignment assigns. -/
def assigned? : Line → Option ReferenceId
  | assign target _ _ => some target
  | returnIf _ _ _ | ret _ => none

/-- A line with the name of each part. -/
def detail (line : Line) : String :=
  let inputs := String.intercalate ", " (line.inputs.map ReferenceId.text)
  let call := match line.call? with
    | some callee => "Some(" ++ callee.text ++ ")"
    | none => "None"
  "Line \x7b inputs: [" ++ inputs ++ "], call: " ++ call ++ ", is_return: " ++
    (if line.isReturn then "true" else "false") ++ " \x7d"

/-- The first of the lines that are left from an index stands at it. -/
theorem of_drop_eq_cons {lines rest : List Line} {line : Line} {n : Nat}
    (h : lines.drop n = line :: rest) : lines[n]? = some line ∧ lines.drop (n + 1) = rest := by
  constructor
  · rw [← List.head?_drop, h, List.head?_cons]
  · rw [← List.tail_drop, h, List.tail_cons]

end Line

end Rulebook

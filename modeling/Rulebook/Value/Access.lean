import Rulebook.Equality
import Rulebook.Text

/-!
# Building and reading values

Some values cannot be built and some not read as what they are not: doing so breaks a contract. The
constructors with a condition keep payload and type in agreement, and the accessors check the type
first and the form of the payload after it.
-/

namespace Rulebook

/-! ## Payloads in full detail

The text that a message shows a payload with: its form, and for the items of a sequence also the
marks they carry. It tells apart what a displayed value does not, such as `1` and `1.0`. -/

namespace Ty

/-- A type with the name of each part. -/
def detail (t : Ty) : String :=
  "FullType \x7b ty: " ++ t.kind.name ++ ", collection: " ++
    (if t.isCollection then "true" else "false") ++ " \x7d"

end Ty

namespace Value

mutual

/-- A value with the name of each part. -/
def detail : Value → String
  | ⟨ty, payload⟩ =>
    "Value \x7b ty: " ++ ty.detail ++ ", payload: " ++ payloadDetail payload ++ " \x7d"

/-- A payload's form and contents. -/
def payloadDetail : Payload Value → String
  | .bool b => "Bool(" ++ (if b then "true" else "false") ++ ")"
  | .int n => "Int(" ++ toString n.toInt ++ ")"
  | .float x => "Float(" ++ x.text Binary64.detailLayout ++ ")"
  | .handle s => "Handle(" ++ Text.quoted s ++ ")"
  | .sequence items => "Sequence([" ++ String.intercalate ", " (itemDetails items) ++ "])"

/-- The details of each member of a list. -/
def itemDetails : List Value → List String
  | [] => []
  | v :: vs => detail v :: itemDetails vs

end

end Value

/-! ## Violated contracts

Building a value that its type rules out, reading a value as what it is not, and reaching past
the end of a list break a contract. A violation says which one and with what. -/

/-- The ways to read the contents of a value. -/
inductive Accessor where
  | bool
  | int
  | float
  | handle
  | sequence
  | errorMessage
  deriving DecidableEq

namespace Accessor

/-- The name that messages use. -/
def name : Accessor → String
  | bool => "as_bool"
  | int => "as_int"
  | float => "as_float"
  | handle => "as_handle"
  | sequence => "as_sequence"
  | errorMessage => "error_message"

/-- The one type that an accessor reads. Handles and sequences are read at several. -/
def expected? : Accessor → Option Ty
  | bool => some (.single .boolean)
  | int | float => some (.single .number)
  | errorMessage => some (.single .error)
  | handle | sequence => none

/-- Whether an accessor reads values of a type. -/
def accepts (a : Accessor) (ty : Ty) : Bool :=
  match a with
  | handle => !ty.isCollection && ty.kind.isHandle
  | sequence => ty.isCollection
  | a => a.expected? = some ty

end Accessor

/-- A broken contract. -/
inductive Violation where
  /-- A handle of a kind that has none. -/
  | notHandleKind (kind : Kind)
  /-- A sequence of collections. -/
  | collectionItems (element : Ty)
  /-- A sequence with an item of another type than its element type. -/
  | itemOfOtherType (item element : Ty)
  /-- An empty collection of a type that is not a collection type. -/
  | notCollection (ty : Ty)
  /-- A value read at a type that its accessor does not read. -/
  | wrongType (accessor : Accessor) (ty : Ty)
  /-- A value of the right type whose payload has another form. -/
  | wrongPayload (accessor : Accessor) (value : Value)
  /-- An index past the end. -/
  | indexOutOfBounds
  deriving DecidableEq

namespace Violation

/-- What a violation is reported as. -/
def message : Violation → String
  | notHandleKind kind => kind.name ++ " values are not handles"
  | collectionItems element =>
    "sequence elements cannot be collections (" ++ element.text ++ ")"
  | itemOfOtherType item element =>
    item.text ++ " item in a sequence of " ++ element.collectionOf.text
  | notCollection ty => ty.text ++ " is not a collection type"
  | wrongType accessor ty =>
    accessor.name ++ " called on a " ++ ty.text ++ " value" ++
      match accessor.expected? with
      | some expected => " (expected " ++ expected.text ++ ")"
      | none => ""
  | wrongPayload accessor value =>
    accessor.name ++ " called on a " ++ value.ty.text ++ " value holding " ++
      Value.payloadDetail value.payload
  | indexOutOfBounds => "index out of bounds"

end Violation

/-! ## Constructors and accessors -/

namespace Value

/-- A handle of a handle kind. -/
def handle (kind : Kind) (text : String) : Except Violation Value :=
  if kind.isHandle then .ok ⟨.single kind, .handle text⟩ else .error (.notHandleKind kind)

/-- A sequence of items that all have the single type `element`. -/
def sequence (element : Ty) (items : List Value) : Except Violation Value :=
  match element with
  | .collection _ => .error (.collectionItems element)
  | .single kind =>
    match items.find? fun item => item.ty ≠ element with
    | some item => .error (.itemOfOtherType item.ty element)
    | none => .ok ⟨.collection kind, .sequence items⟩

/-- The empty sequence of a collection type. -/
def empty (ty : Ty) : Except Violation Value :=
  match ty with
  | .collection kind => .ok (emptyOf kind)
  | .single _ => .error (.notCollection ty)

/-- A sequence of handles of one kind. -/
def handles (kind : Kind) (texts : List String) : Except Violation Value := do
  sequence (.single kind) (← texts.mapM (handle kind))

/-- What `read` finds in the payload, if the accessor reads the value's type. -/
def access {α : Type} (v : Value) (a : Accessor) (read : Payload Value → Option α) :
    Except Violation α :=
  if a.accepts v.ty then
    match read v.payload with
    | some x => .ok x
    | none => .error (.wrongPayload a v)
  else .error (.wrongType a v.ty)

/-- The truth value of a Boolean. -/
def asBool (v : Value) : Except Violation Bool :=
  v.access .bool fun | .bool b => some b | _ => none

/-- The integer of a Number that holds one. -/
def asInt (v : Value) : Except Violation Int64 :=
  v.access .int fun | .int n => some n | _ => none

/-- The float of a Number that holds one. -/
def asFloat (v : Value) : Except Violation Binary64 :=
  v.access .float fun | .float x => some x | _ => none

/-- The text of an object, position or action. -/
def asHandle (v : Value) : Except Violation String :=
  v.access .handle fun | .handle s => some s | _ => none

/-- The items of a collection. -/
def asSequence (v : Value) : Except Violation (List Value) :=
  v.access .sequence fun | .sequence items => some items | _ => none

/-- The message of an error. -/
def errorMessage (v : Value) : Except Violation String :=
  v.access .errorMessage fun | .handle s => some s | _ => none

/-! ## Displayed values

The text a value is displayed as. An error shows its message in parentheses, and it has to have
one; every other value shows its payload, whatever its type. -/

mutual

/-- The text of a value. -/
def display : Value → Except Violation String
  | ⟨ty, payload⟩ =>
    if ty.isError then do
      return "error(" ++ (← errorMessage ⟨ty, payload⟩) ++ ")"
    else displayPayload payload

/-- The text of a payload. -/
def displayPayload : Payload Value → Except Violation String
  | .bool b => .ok (if b then "true" else "false")
  | .int n => .ok (toString n.toInt)
  | .float x => .ok (x.text Binary64.displayLayout)
  | .handle s => .ok s
  | .sequence items => do
    return "[" ++ String.intercalate ", " (← displayItems items) ++ "]"

/-- The texts of the members of a list. -/
def displayItems : List Value → Except Violation (List String)
  | [] => .ok []
  | v :: vs => do
    let text ← display v
    return text :: (← displayItems vs)

end

end Value

/-! ## Ways to fail

An operation on a program either reports an error of its own or breaks a contract on the way. -/

/-- Why an operation gave no answer: one of its errors, or a broken contract. -/
inductive Failure (ε : Type) where
  | error (e : ε)
  | violation (v : Violation)
  deriving DecidableEq

namespace Failure

/-- A step of an operation that can only report an error. -/
def ofError {ε α : Type} : Except ε α → Except (Failure ε) α
  | .ok x => .ok x
  | .error e => .error (error e)

/-- A step of an operation that can only break a contract. -/
def ofViolation {ε α : Type} : Except Violation α → Except (Failure ε) α
  | .ok x => .ok x
  | .error v => .error (violation v)

/-- A step that leaves the state of its operation as it is. -/
def liftState {ε τ α : Type} : Except ε α → EStateM ε τ α
  | .ok x => pure x
  | .error e => throw e

end Failure

end Rulebook

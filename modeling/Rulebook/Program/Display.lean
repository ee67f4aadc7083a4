import Rulebook.Program.Basic

/-!
# What programs are shown as

The texts for editors: lines, headers of functions, and the errors that refuse a signature or a
body.
-/

namespace Rulebook

/-! ## Errors in building a program

Every way in which a signature or a body can be refused, with the text it is reported as. -/

/-- Why a building step was refused. -/
inductive BuildError where
  | unknownFunction (id : FunctionId)
  | unknownReference (id : ReferenceId)
  | literalParameter (function name : String)
  | duplicateParameter (function name : String)
  | nativeBody (function : String)
  | arityMismatch (function : String) (line : Nat) (callee : String) (expected found : Nat)
  | unboundReference (function : String) (line : Nat) (name : String)
  | literalDestination (function : String) (line : Nat) (name : String)
  | invalidLiteral (function : String) (line : Nat) (cause : LiteralError)
  | typeMismatch (function : String) (line : Nat) (name : String) (expected found : Ty)
  | missingResult (function : String)
  deriving DecidableEq

namespace BuildError

/-- The start of the report of an error in a line. -/
def linePlace (function : String) (line : Nat) : String :=
  "line " ++ toString line ++ " of `" ++ function ++ "`: "

/-- What a building error is reported as. -/
def message : BuildError → String
  | unknownFunction id => "unknown function " ++ id.text
  | unknownReference id => "unknown reference " ++ id.text
  | literalParameter function name =>
    "parameter `" ++ name ++ "` of `" ++ function ++ "` is a literal"
  | duplicateParameter function name =>
    "`" ++ name ++ "` appears more than once in the signature of `" ++ function ++ "`"
  | nativeBody function => "`" ++ function ++ "` is native and cannot be given a body"
  | arityMismatch function line callee expected found =>
    linePlace function line ++ "`" ++ callee ++ "` takes " ++ toString expected ++
      " argument(s), got " ++ toString found
  | unboundReference function line name =>
    linePlace function line ++ "`" ++ name ++ "` is read before it is assigned"
  | literalDestination function line name =>
    linePlace function line ++ "cannot assign to literal `" ++ name ++ "`"
  | invalidLiteral function line cause => linePlace function line ++ cause.message
  | typeMismatch function line name expected found =>
    linePlace function line ++ "`" ++ name ++ "` is " ++ found.text ++ ", expected " ++
      expected.text
  | missingResult function => "`" ++ function ++ "` has no line producing its result"

end BuildError

/-! ## Displayed programs

How lines and function headers are shown to an editor: `next = element(1, path)`,
`return true if shorterthan(path, 2)`, `canfollow(vehicle, path) -> Boolean`. A question mark
stands for what the program does not have. -/

namespace Program

variable {σ : Type}

/-- The name of a reference. -/
def referenceName (P : Program σ) (id : ReferenceId) : String :=
  ((P.reference? id).map Reference.name).getD "?"

/-- The name of a function. -/
def functionName (P : Program σ) (id : FunctionId) : String :=
  ((P.function? id).map Function.name).getD "?"

/-- A function applied to references. -/
def displayCall (P : Program σ) (callee : FunctionId) (arguments : List ReferenceId) : String :=
  P.functionName callee ++ "(" ++
    String.intercalate ", " (arguments.map P.referenceName) ++ ")"

/-- The text of a line. -/
def displayLine (P : Program σ) : Line → String
  | .assign target callee arguments =>
    P.referenceName target ++ " = " ++ P.displayCall callee arguments
  | .returnIf target gate arguments =>
    "return " ++ P.referenceName target ++ " if " ++ P.displayCall gate arguments
  | .ret target => "return " ++ P.referenceName target

/-- The text of a function's header. -/
def displayFunction (P : Program σ) (id : FunctionId) : String :=
  match P.function? id with
  | none => "?"
  | some f =>
    P.displayCall id f.signature.parameterIds ++
      match P.reference? f.signature.result.reference with
      | some result => " -> " ++ result.ty.text
      | none => ""

end Program

end Rulebook

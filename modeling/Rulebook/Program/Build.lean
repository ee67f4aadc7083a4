import Rulebook.Program.Display

/-!
# Building programs

The operations that change a program. Each either succeeds or is refused, and a refused one leaves
the program as it was. A function is declared before its body is written, so that bodies can call
their own function and one another.
-/

namespace Rulebook

/-! ## Checking signatures and bodies

A body is checked before it is installed: a line reads only literals, parameters and slots that an
earlier line assigns; every call agrees with the callee's signature; and every way out of the body
gives a value of the function's result type. The first fault in the order of lines is reported. -/

namespace Program

variable {σ : Type}

/-- Whether the references of a signature exist, are no literals and differ from one another and
from those already seen. -/
def checkSlots (P : Program σ) (function : String) :
    List ReferenceId → List ReferenceId → Except BuildError Unit
  | _, [] => .ok ()
  | seen, id :: rest =>
    match P.reference? id with
    | none => .error (.unknownReference id)
    | some r =>
      if r.isLiteral then .error (.literalParameter function r.name)
      else if id ∈ seen then .error (.duplicateParameter function r.name)
      else checkSlots P function (id :: seen) rest

/-- The answer of a check. A signature that names what the program does not have would break a
contract of the program. -/
abbrev Checked (α : Type) : Type := Except (Failure BuildError) α

/-- What stays the same while a body is checked. -/
structure BodyCheck (σ : Type) where
  program : Program σ
  /-- The name of the function that the body is for. -/
  function : String
  /-- The type that every way out of the body has to give. -/
  resultTy : Ty

namespace BodyCheck

/-- Refuses a type other than the expected one. -/
def expectType (c : BodyCheck σ) (line : Nat) (name : String) (expected found : Ty) :
    Checked Unit :=
  if expected = found then .ok ()
  else .error (.error (.typeMismatch c.function line name expected found))

/-- Refuses to read a misspelt literal or a slot that is not bound. -/
def checkRead (c : BodyCheck σ) (line : Nat) (bound : List ReferenceId) (id : ReferenceId) :
    Checked Unit := do
  let r ← Failure.ofViolation (c.program.reference id)
  if r.isLiteral then
    match r.literalValue with
    | .ok _ => .ok ()
    | .error cause => .error (.error (.invalidLiteral c.function line cause))
  else if id ∈ bound then .ok ()
  else .error (.error (.unboundReference c.function line r.name))

/-- Refuses an argument that cannot be read or has another type than its parameter. -/
def checkArgument (c : BodyCheck σ) (line : Nat) (bound : List ReferenceId)
    (argument parameter : ReferenceId) : Checked Unit := do
  c.checkRead line bound argument
  let given ← Failure.ofViolation (c.program.reference argument)
  let wanted ← Failure.ofViolation (c.program.reference parameter)
  c.expectType line given.name wanted.ty given.ty

/-- Checks arguments against the parameters they are for, in order. -/
def checkArguments (c : BodyCheck σ) (line : Nat) (bound : List ReferenceId) :
    List ReferenceId → List ReferenceId → Checked Unit
  | argument :: arguments, parameter :: parameters => do
    c.checkArgument line bound argument parameter
    checkArguments c line bound arguments parameters
  | _, _ => .ok ()

/-- Checks a call and gives the callee and its result type. -/
def checkCall (c : BodyCheck σ) (line : Nat) (bound : List ReferenceId) (id : FunctionId)
    (arguments : List ReferenceId) : Checked (Function σ × Ty) :=
  match c.program.function? id with
  | none => .error (.error (.unknownFunction id))
  | some callee =>
    if arguments.length = callee.arity then do
      c.checkArguments line bound arguments callee.signature.parameterIds
      let result ← Failure.ofViolation (c.program.reference callee.signature.result.reference)
      return (callee, result.ty)
    else
      .error (.error
        (.arityMismatch c.function line callee.name callee.arity arguments.length))

/-- Refuses to return what cannot be read or has another type than the function's result. -/
def checkReturned (c : BodyCheck σ) (line : Nat) (bound : List ReferenceId) (id : ReferenceId) :
    Checked Unit := do
  c.checkRead line bound id
  let r ← Failure.ofViolation (c.program.reference id)
  c.expectType line r.name c.resultTy r.ty

/-- Refuses to assign a literal, or a slot of another type than the assigned result. -/
def checkDestination (c : BodyCheck σ) (line : Nat) (target : ReferenceId) (ty : Ty) :
    Checked Unit := do
  let r ← Failure.ofViolation (c.program.reference target)
  if r.isLiteral then .error (.error (.literalDestination c.function line r.name))
  else c.expectType line r.name ty r.ty

/-- Refuses references that the program does not have. -/
def checkInputs (c : BodyCheck σ) : List ReferenceId → Checked Unit
  | [] => .ok ()
  | id :: rest =>
    match c.program.reference? id with
    | none => .error (.error (.unknownReference id))
    | some _ => checkInputs c rest

/-- Checks one line, given the slots bound before it, and gives those bound after it. -/
def checkLine (c : BodyCheck σ) (index : Nat) (bound : List ReferenceId) (line : Line) :
    Checked (List ReferenceId) := do
  c.checkInputs line.inputs
  match line with
  | .assign target callee arguments =>
    let (_, ty) ← c.checkCall index bound callee arguments
    c.checkDestination index target ty
    return target :: bound
  | .returnIf target gate arguments =>
    let (callee, ty) ← c.checkCall index bound gate arguments
    c.expectType index callee.name (.single .boolean) ty
    c.checkReturned index bound target
    return bound
  | .ret target =>
    c.checkReturned index bound target
    return bound

/-- Checks lines in order, the first of them at a given index, and gives the slots bound after the
last. -/
def checkLines (c : BodyCheck σ) : Nat → List ReferenceId → List Line →
    Checked (List ReferenceId)
  | _, bound, [] => .ok bound
  | index, bound, line :: rest => do
    let bound ← c.checkLine index bound line
    checkLines c (index + 1) bound rest

/-- The index and target of the last assignment. -/
def lastAssignment? (lines : List Line) : Option (Nat × ReferenceId) :=
  lines.zipIdx.reverse.findSome? fun (line, index) =>
    line.assigned?.map fun target => (index, target)

/-- Checks the end of a body. It is out of reach behind an unconditional return; otherwise it
gives the value of the last assignment. -/
def checkEnd (c : BodyCheck σ) (lines : List Line) : Checked Unit :=
  if lines.any fun line => line.kind = .unconditionalReturn then .ok ()
  else
    match lastAssignment? lines with
    | none => .error (.error (.missingResult c.function))
    | some (index, target) => do
      let r ← Failure.ofViolation (c.program.reference target)
      c.expectType index r.name c.resultTy r.ty

end BodyCheck

/-- Checks lines as the body of a function. -/
def checkBody (P : Program σ) (f : Function σ) (lines : List Line) : Checked Unit := do
  let result ← Failure.ofViolation (P.reference f.signature.result.reference)
  let c : BodyCheck σ := ⟨P, f.name, result.ty⟩
  let _ ← c.checkLines 0 f.signature.parameterIds lines
  c.checkEnd lines

end Program

/-! ## Operations -/

/-- An operation on a program under construction. -/
abbrev Build (σ : Type) : Type → Type := EStateM (Failure BuildError) (Program σ)

namespace Build

variable {σ : Type}

/-- Adds a reference. -/
def addReference (r : Reference) : Build σ ReferenceId :=
  modifyGet fun P => (⟨P.references.size⟩, { P with references := P.references.push r })

/-- Adds a parameter or local. -/
def addVariable (name : String) (ty : Ty) : Build σ ReferenceId :=
  addReference (.variableSlot name ty)

/-- Adds a literal. -/
def addLiteral (name : String) (ty : Ty) : Build σ ReferenceId :=
  addReference (.literal name ty)

/-- Adds a function whose signature passes the check. -/
def addFunction (name : String) (signature : Signature) (body : Body σ) : Build σ FunctionId := do
  let P ← get
  Failure.liftState (Failure.ofError (P.checkSlots name [] signature.references))
  set { P with functions := P.functions.push ⟨name, signature, body, false⟩ }
  return ⟨P.functions.size⟩

/-- Declares a function that is still without lines. -/
def declare (name : String) (signature : Signature) : Build σ FunctionId :=
  addFunction name signature (.lines [])

/-- Defines a function of the host. -/
def defineNative (name : String) (signature : Signature) (run : Native σ) : Build σ FunctionId :=
  addFunction name signature (.native run)

/-- Puts another function in the place of one. -/
def replaceFunction (id : FunctionId) (f : Function σ) : Build σ Unit :=
  modify fun P => { P with functions := P.functions.setIfInBounds id.index f }

/-- Gives a declared function lines that pass the check. -/
def setBody (id : FunctionId) (lines : List Line) : Build σ Unit := do
  let P ← get
  match P.function? id with
  | none => throw (.error (.unknownFunction id))
  | some f =>
    if f.isNative then throw (.error (.nativeBody f.name))
    else do
      Failure.liftState (P.checkBody f lines)
      replaceFunction id { f with body := .lines lines }

/-- Says whether results of a function are kept out of the memo. -/
def setUncacheable (id : FunctionId) (isUncacheable : Bool) : Build σ Unit := do
  let P ← get
  match P.function? id with
  | none => throw (.error (.unknownFunction id))
  | some f => replaceFunction id { f with isUncacheable }

end Build

end Rulebook

import Rulebook.Program.Line
import Rulebook.Value.Access

/-!
# Functions and programs

A program owns the references and functions of a set of rules and gives each an index in order
of creation.
-/

namespace Rulebook

/-! ## Functions

A function has a name, a signature and a body, which is either a list of lines or supplied by the
host. Host functions may keep a state `σ` of their own and change it with every run. -/

/-- A place in a signature with the comment that editors show beside it. -/
structure Slot where
  reference : ReferenceId
  comment : String
  deriving DecidableEq

/-- The result and the parameters of a function. The result slot carries a type only and is never
bound. -/
structure Signature where
  result : Slot
  parameters : List Slot
  deriving DecidableEq

namespace Signature

/-- Every slot, the result first. -/
def slots (s : Signature) : List Slot := s.result :: s.parameters

/-- The references of all slots. -/
def references (s : Signature) : List ReferenceId := s.slots.map Slot.reference

/-- The comments of all slots. -/
def comments (s : Signature) : List String := s.slots.map Slot.comment

/-- The references of the parameters. -/
def parameterIds (s : Signature) : List ReferenceId := s.parameters.map Slot.reference

end Signature

/-- A function of the host: from its arguments and the host's state to its result, which may be a
broken contract, and the state after it. -/
def Native (σ : Type) : Type := List Value → σ → Except Violation Value × σ

namespace Native

/-- A function of the host that neither reads nor changes the host's state. -/
def ofPure {σ : Type} (f : List Value → Except Violation Value) : Native σ :=
  fun arguments host => (f arguments, host)

end Native

/-- How a function finds its result. -/
inductive Body (σ : Type) where
  | lines (lines : List Line)
  | native (run : Native σ)

namespace Body

/-- What supplies a body. -/
def kindName {σ : Type} : Body σ → String
  | lines _ => "Interpreted"
  | native _ => "Native"

/-- A body with the name of each part. -/
def detail {σ : Type} : Body σ → String
  | lines ls => "Interpreted([" ++ String.intercalate ", " (ls.map Line.detail) ++ "])"
  | native _ => "Native(..)"

end Body

/-- A named function. Results of an uncacheable one are never memoized. -/
structure Function (σ : Type) where
  name : String
  signature : Signature
  body : Body σ
  isUncacheable : Bool

namespace Function

variable {σ : Type}

/-- The number of arguments that a call has to supply. -/
def arity (f : Function σ) : Nat := f.signature.parameters.length

@[simp] theorem length_parameterIds (f : Function σ) : f.signature.parameterIds.length = f.arity :=
  List.length_map _

/-- Whether the host supplies the body. -/
def isNative (f : Function σ) : Bool :=
  match f.body with
  | .lines _ => false
  | .native _ => true

/-- The lines of the body, unless the host supplies it. -/
def lines? (f : Function σ) : Option (List Line) :=
  match f.body with
  | .lines ls => some ls
  | .native _ => none

end Function

/-! ## Programs -/

/-- The references and functions of a set of rules. -/
structure Program (σ : Type) where
  references : Array Reference
  functions : Array (Function σ)

namespace Program

variable {σ : Type}

/-- The program without references and functions. -/
def empty : Program σ := ⟨#[], #[]⟩

/-- The reference with an identity, if the program has it. -/
def reference? (P : Program σ) (id : ReferenceId) : Option Reference := P.references[id.index]?

/-- The reference with an identity that the program has to have. -/
def reference (P : Program σ) (id : ReferenceId) : Except Violation Reference :=
  match P.reference? id with
  | some r => .ok r
  | none => .error .indexOutOfBounds

/-- The function with an identity, if the program has it. -/
def function? (P : Program σ) (id : FunctionId) : Option (Function σ) := P.functions[id.index]?

/-- The function with an identity that the program has to have. -/
def function (P : Program σ) (id : FunctionId) : Except Violation (Function σ) :=
  match P.function? id with
  | some f => .ok f
  | none => .error .indexOutOfBounds

/-- Every function's identity and name, in order of creation. -/
def functionNames (P : Program σ) : List (FunctionId × String) :=
  P.functions.toList.mapIdx fun index f => (⟨index⟩, f.name)

/-- The first function with a name. -/
def findFunction? (P : Program σ) (name : String) : Option FunctionId :=
  (P.functions.toList.findIdx? fun f => f.name = name).map FunctionId.mk

/-- The slots that lines assign, each once, in order of first assignment. -/
def assignedSlots (lines : List Line) : List ReferenceId :=
  (lines.filterMap Line.assigned?).foldl
    (fun slots target => if target ∈ slots then slots else slots ++ [target]) []

/-- The slots assigned before a line of a function's body: what that line may read besides the
parameters. -/
def localsFor (P : Program σ) (id : FunctionId) (line : Nat) : List ReferenceId :=
  match (P.function? id).bind Function.lines? with
  | some lines => assignedSlots (lines.take line)
  | none => []

end Program

end Rulebook

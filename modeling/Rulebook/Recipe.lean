import Rulebook.Library.Standard

/-!
# Hosts that keep their functions as data

Such a host describes each of its functions by a recipe and counts how often it runs, and asks
questions about values by name.
-/

namespace Rulebook

/-! ## Queries

Questions about a value whose answers are values again, so that hosts can ask them by name and
functions of the host can answer them. -/

/-- A question about a value: what an accessor reads, whether it is an error, or its text. -/
inductive Query where
  | access (accessor : Accessor)
  | isError
  | display
  deriving DecidableEq

namespace Query

/-- Every query. -/
def all : List Query :=
  [access .bool, access .int, access .float, access .handle, access .sequence,
    access .errorMessage, isError, display]

/-- The name of a query. -/
def name : Query → String
  | access a => a.name
  | isError => "is_error"
  | display => "display"

/-- The query with a name. -/
def ofName? (s : String) : Option Query := all.find? fun q => q.name = s

/-- A text as a value. -/
def textValue (s : String) : Value := ⟨.single .action, .handle s⟩

/-- The answer of a query, texts as actions and a sequence as its length. -/
def answer (v : Value) : Query → Except Violation Value
  | access .bool => do return .bool (← v.asBool)
  | access .int => do return .int (← v.asInt)
  | access .float => do return .float (← v.asFloat)
  | access .handle => do return textValue (← v.asHandle)
  | access .sequence => do return .int (Int64.ofNat (← v.asSequence).length)
  | access .errorMessage => do return textValue (← v.errorMessage)
  | isError => .ok (.bool v.isError)
  | display => do return textValue (← v.display)

end Query

/-! ## Functions of the host by recipe

A host that keeps its functions as data describes each by a recipe and counts how often it runs.
The count goes up before the function runs, so a run that breaks a contract is counted too. -/

/-- How often each function of the host has run, in order of definition. -/
structure RunCounts where
  counts : Array Nat

namespace RunCounts

/-- No functions. -/
def empty : RunCounts := ⟨#[]⟩

/-- The number of functions. -/
def size (c : RunCounts) : Nat := c.counts.size

/-- Takes in a function that has not run. -/
def addFunction (c : RunCounts) : RunCounts := ⟨c.counts.push 0⟩

/-- How often a function has run. -/
def get (c : RunCounts) (index : Nat) : Nat := c.counts[index]?.getD 0

/-- Counts a run. -/
def count (c : RunCounts) (index : Nat) : RunCounts := ⟨c.counts.modify index (· + 1)⟩

end RunCounts

/-- What a function of the host does with its arguments. -/
inductive Recipe where
  /-- Always the same value. -/
  | constant (value : Value)
  /-- The argument at an index. -/
  | argument (index : Nat)
  /-- An integer plus the number of runs, this one included. -/
  | counter (start : Int64)
  /-- The value of the first row with these arguments, else a default. -/
  | table (rows : List (List Value × Value)) (default : Value)
  /-- The answer to a query about the first argument. -/
  | query (q : Query)
  /-- The sequence of all arguments. -/
  | collect (element : Ty)
  /-- The first argument, a sequence, with the second added at its end. -/
  | append

namespace Recipe

/-- The result of a run, given its number. -/
def result (run : Nat) (arguments : List Value) : Recipe → Except Violation Value
  | constant value => .ok value
  | argument index => Library.argument arguments index
  | counter start => .ok (.int (start + Int64.ofNat run))
  | table rows default => .ok ((rows.lookup arguments).getD default)
  | query q => do q.answer (← Library.argument arguments 0)
  | collect element => Value.sequence element arguments
  | append => do
    let sequence ← Library.argument arguments 0
    let items ← sequence.asSequence
    let item ← Library.argument arguments 1
    Value.sequence sequence.ty.element (items ++ [item])

/-- The function that a recipe describes, counted at an index. -/
def toNative (r : Recipe) (index : Nat) : Native RunCounts := fun arguments counts =>
  let counts := counts.count index
  (r.result (counts.get index) arguments, counts)

end Recipe

end Rulebook

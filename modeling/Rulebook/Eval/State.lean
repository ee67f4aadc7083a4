import Rulebook.Program.Basic

/-!
# What evaluations work on

Invocations, the bindings of a body that runs, the memoized results, the events of a trace, and the
errors that end an evaluation.
-/

namespace Rulebook

/-! ## Invocations

A function applied to argument values. Memoized results are kept under invocations, so equality of
invocations is equality of the function's identity and of the arguments. -/

/-- A function applied to values. -/
structure Invocation where
  function : FunctionId
  arguments : List Value
  deriving DecidableEq, Hashable

namespace Invocation

/-- Whether the program has the function and it takes this many arguments. -/
def isValid {σ : Type} (i : Invocation) (P : Program σ) : Bool :=
  match P.function? i.function with
  | some f => f.arity = i.arguments.length
  | none => false

theorem isValid_of_function? {σ : Type} {P : Program σ} {i : Invocation} {f : Function σ}
    (hf : P.function? i.function = some f) :
    i.isValid P = decide (f.arity = i.arguments.length) := by
  rw [isValid, hf]

end Invocation

/-! ## Frames

The slots bound in one run of a body, with their values. Binding a slot again hides its earlier
value. -/

/-- The values of bound slots, the latest binding first. -/
structure Frame where
  bindings : List (ReferenceId × Value)
  deriving DecidableEq

namespace Frame

/-- The frame that binds parameters to arguments in order. -/
def ofArguments (parameters : List ReferenceId) (arguments : List Value) : Frame :=
  ⟨(parameters.zip arguments).reverse⟩

/-- Binds a slot to a value. -/
def bind (f : Frame) (id : ReferenceId) (v : Value) : Frame := ⟨(id, v) :: f.bindings⟩

/-- The value of a slot. -/
def lookup (f : Frame) (id : ReferenceId) : Option Value := f.bindings.lookup id

/-- The slots that have a value, some perhaps more than once. -/
def boundSlots (f : Frame) : List ReferenceId := f.bindings.map Prod.fst

/-- A frame after a binding answers it for its slot, and the others as before. -/
theorem lookup_bind (f : Frame) (id slot : ReferenceId) (v : Value) :
    (f.bind id v).lookup slot = if slot = id then some v else f.lookup slot := by
  by_cases h : slot = id
  · simp [lookup, bind, h]
  · simp [lookup, bind, List.lookup_cons, beq_false_of_ne h, h]

end Frame

/-! ## Memoized results

A memo keeps at most one result for each invocation. A later result for the same invocation takes
the place of the earlier one. -/

/-- Results by invocation. -/
structure Memo where
  entries : List (Invocation × Value)
  deriving DecidableEq

namespace Memo

/-- The memo without results. -/
def empty : Memo := ⟨[]⟩

/-- The result kept for an invocation. -/
def find? (m : Memo) (i : Invocation) : Option Value := m.entries.lookup i

/-- Keeps a result for an invocation. -/
def insert (m : Memo) (i : Invocation) (v : Value) : Memo :=
  ⟨(i, v) :: m.entries.filter fun entry => entry.1 ≠ i⟩

/-- The number of invocations with a result. -/
def size (m : Memo) : Nat := m.entries.length

@[simp] theorem find?_empty (i : Invocation) : empty.find? i = none := rfl

/-- Looking up passes over entries of other invocations. -/
theorem lookup_filter_ne {i j : Invocation} (h : j ≠ i) (entries : List (Invocation × Value)) :
    (entries.filter fun entry => entry.1 ≠ i).lookup j = entries.lookup j := by
  induction entries with
  | nil => rfl
  | cons entry rest ih =>
    obtain ⟨k, v⟩ := entry
    simp only [ne_eq, decide_not] at ih
    by_cases hk : k = i
    · subst hk
      simp [List.lookup_cons, beq_false_of_ne h, ih]
    · simp [hk, List.lookup_cons, ih]

/-- A memo after keeping a result answers it for its invocation, and the others as before. -/
theorem find?_insert (m : Memo) (i j : Invocation) (v : Value) :
    (m.insert i v).find? j = if j = i then some v else m.find? j := by
  by_cases h : j = i
  · simp [find?, insert, h]
  · simp only [find?, insert, List.lookup_cons, beq_false_of_ne h, h, if_false]
    exact lookup_filter_ne h m.entries

end Memo

/-! ## Traces

What happened during an evaluation, as far as the answer does not tell it: which bodies and lines
ran, which host functions ran on what, where the depth limit cut in, and what the memo was given. -/

/-- One step of an evaluation, with the depth it took place at. -/
inductive Event where
  /-- An invocation was past the depth limit. -/
  | cutOff (depth : Nat) (invocation : Invocation)
  /-- The lines of a function's body started to run. -/
  | enter (depth : Nat) (invocation : Invocation)
  /-- A line was reached with these bindings. -/
  | line (depth : Nat) (function : FunctionId) (index : Nat) (frame : Frame)
  /-- A gate answered. -/
  | verdict (depth : Nat) (gate : FunctionId) (value : Value)
  /-- The lines of a function's body gave a result. -/
  | leave (depth : Nat) (invocation : Invocation) (value : Value)
  /-- A function of the host ran. -/
  | native (depth : Nat) (invocation : Invocation) (outcome : Except Violation Value)
  /-- The memo was given a result. -/
  | keep (depth : Nat) (invocation : Invocation) (value : Value)

/-- The events of an evaluation in order. -/
abbrev Trace : Type := List Event

/-! ## Errors in evaluation

The errors that end an evaluation: the program or the root invocation was built wrong. Nesting too
deep is not one of them, it gives an error value. -/

/-- Why an evaluation was given up. -/
inductive EvalError where
  | unknownFunction (id : FunctionId)
  | arityMismatch (function : String) (expected found : Nat)
  | unboundReference (function name : String)
  | invalidLiteral (function : String) (cause : LiteralError)
  | gateNotBoolean (function gate : String) (found : Ty)
  | missingResult (function : String)
  deriving DecidableEq

namespace EvalError

/-- What an evaluation error is reported as. -/
def message : EvalError → String
  | unknownFunction id => "unknown function " ++ id.text
  | arityMismatch function expected found =>
    "`" ++ function ++ "` takes " ++ toString expected ++ " argument(s), got " ++ toString found
  | unboundReference function name =>
    "`" ++ function ++ "` read `" ++ name ++ "` before assigning it"
  | invalidLiteral function cause => "in `" ++ function ++ "`: " ++ cause.message
  | gateNotBoolean function gate found =>
    "gate `" ++ gate ++ "` in `" ++ function ++ "` produced " ++ found.text ++
      ", expected Boolean"
  | missingResult function => "`" ++ function ++ "` finished without producing a result"

end EvalError

end Rulebook

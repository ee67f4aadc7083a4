import Rulebook.Program.Build

/-!
# The standard library

Logic, numbers, and sequences of one kind of items. All functions are pure, so their results may be
memoized. A program that needs collections of several kinds registers the sequence functions again
for each.
-/

namespace Rulebook

/-! ## Library entries

A library function is described by an entry: its name, its signature with the comments shown around
the slots, and what it computes. Each registration adds slots of its own, the result slot first. -/

namespace Library

variable {σ : Type}

/-- A parameter of a library function, with the comment shown after it. -/
structure Parameter where
  name : String
  ty : Ty
  comment : String

/-- A library function. -/
structure Entry where
  name : String
  resultTy : Ty
  /-- The comment shown before the first parameter. -/
  comment : String
  parameters : List Parameter
  apply : List Value → Except Violation Value

/-- The name of every result slot. -/
def resultName : String := "result"

/-- Adds a slot for each parameter. -/
def addParameters : List Parameter → Build σ (List Slot)
  | [] => return []
  | p :: rest => do
    let reference ← Build.addVariable p.name p.ty
    let slots ← addParameters rest
    return ⟨reference, p.comment⟩ :: slots

/-- Registers a library function. -/
def define (e : Entry) : Build σ FunctionId := do
  let result ← Build.addVariable resultName e.resultTy
  let slots ← addParameters e.parameters
  Build.defineNative e.name ⟨⟨result, e.comment⟩, slots⟩ (.ofPure e.apply)

/-- The argument at an index. -/
def argument (arguments : List Value) (index : Nat) : Except Violation Value :=
  match arguments[index]? with
  | some v => .ok v
  | none => .error .indexOutOfBounds

/-! ## Logic

`and`, `or` and `not`. The first two look at their second argument only if the first does not
settle the answer. -/

/-- Whether both arguments are true. -/
def both (arguments : List Value) : Except Violation Value := do
  if ← (← argument arguments 0).asBool then
    return .bool (← (← argument arguments 1).asBool)
  else return .bool false

/-- Whether one of the arguments is true. -/
def either (arguments : List Value) : Except Violation Value := do
  if ← (← argument arguments 0).asBool then return .bool true
  else return .bool (← (← argument arguments 1).asBool)

/-- Whether the argument is false. -/
def negation (arguments : List Value) : Except Violation Value := do
  return .bool !(← (← argument arguments 0).asBool)

namespace Entry

/-- `and(a, b)`: whether a and b. -/
def and : Entry :=
  ⟨"and", .single .boolean, "whether",
    [⟨"a", .single .boolean, "and"⟩, ⟨"b", .single .boolean, ""⟩], both⟩

/-- `or(a, b)`: whether a or b. -/
def or : Entry :=
  ⟨"or", .single .boolean, "whether",
    [⟨"a", .single .boolean, "or"⟩, ⟨"b", .single .boolean, ""⟩], either⟩

/-- `not(a)`: whether not a. -/
def not : Entry :=
  ⟨"not", .single .boolean, "whether not", [⟨"a", .single .boolean, ""⟩], negation⟩

/-- The logic functions in order of registration. -/
def logic : List Entry := [and, or, not]

end Entry

/-- The registered logic functions. -/
structure LogicIds where
  and : FunctionId
  or : FunctionId
  not : FunctionId

/-- Registers the logic functions. -/
def registerLogic : Build σ LogicIds := do
  return ⟨← define .and, ← define .or, ← define .not⟩

/-! ## Numbers

`add`, `subtract`, `lessthan` and `equal`. Integers wrap around at 64 bits. If one of two numbers
is a float, the other is taken as the nearest float. -/

/-- What a Number holds. -/
inductive Numeric where
  | int (n : Int64)
  | float (x : Binary64)
  deriving DecidableEq

namespace Numeric

/-- The number in a value's payload, whatever its type. A value without one is read as an
integer, which it is not. -/
def ofValue (v : Value) : Except Violation Numeric :=
  match v.payload with
  | .int n => .ok (int n)
  | .float x => .ok (float x)
  | _ => do return int (← v.asInt)

/-- The value that holds a number. -/
def toValue : Numeric → Value
  | int n => .int n
  | float x => .float x

/-- The nearest float. -/
def toFloat : Numeric → Binary64
  | int n => .ofInt n.toInt
  | float x => x

/-- The integer that a number is exactly equal to. -/
def whole? : Numeric → Option Int64
  | int n => some n
  | float x => x.whole?

/-- The integer nearest toward zero. -/
def truncate : Numeric → Int64
  | int n => n
  | float x => x.truncate

/-- The sum. -/
def add : Numeric → Numeric → Numeric
  | int m, int n => int (m + n)
  | a, b => float (a.toFloat.add b.toFloat)

/-- The difference. -/
def sub : Numeric → Numeric → Numeric
  | int m, int n => int (m - n)
  | a, b => float (a.toFloat.sub b.toFloat)

/-- Whether one number is less than another. -/
def lt : Numeric → Numeric → Bool
  | int m, int n => m < n
  | a, b => a.toFloat.lt b.toFloat

/-- Whether two numbers are equal, integers as integers and others as floats. -/
def eq : Numeric → Numeric → Bool
  | int m, int n => m = n
  | a, b => a.toFloat.eq b.toFloat

end Numeric

/-- The numbers in the first two arguments. -/
def numericPair (arguments : List Value) : Except Violation (Numeric × Numeric) := do
  let a ← Numeric.ofValue (← argument arguments 0)
  let b ← Numeric.ofValue (← argument arguments 1)
  return (a, b)

/-- The sum of two numbers. -/
def sum (arguments : List Value) : Except Violation Value := do
  let (a, b) ← numericPair arguments
  return (a.add b).toValue

/-- The difference of two numbers. -/
def difference (arguments : List Value) : Except Violation Value := do
  let (a, b) ← numericPair arguments
  return (a.sub b).toValue

/-- Whether the first number is less than the second. -/
def lessThan (arguments : List Value) : Except Violation Value := do
  let (a, b) ← numericPair arguments
  return .bool (a.lt b)

/-- Whether two numbers are equal. -/
def equal (arguments : List Value) : Except Violation Value := do
  let (a, b) ← numericPair arguments
  return .bool (a.eq b)

namespace Entry

/-- A numeric function of two numbers. -/
def ofNumbers (name : String) (resultTy : Ty) (comment between : String)
    (apply : List Value → Except Violation Value) : Entry :=
  ⟨name, resultTy, comment,
    [⟨"a", .single .number, between⟩, ⟨"b", .single .number, ""⟩], apply⟩

/-- `add(a, b)`: the sum of a and b. -/
def add : Entry := ofNumbers "add" (.single .number) "the sum of" "and" sum

/-- `subtract(a, b)`: a minus b. -/
def subtract : Entry := ofNumbers "subtract" (.single .number) "" "minus" difference

/-- `lessthan(a, b)`: whether a is less than b. -/
def lessThan : Entry :=
  ofNumbers "lessthan" (.single .boolean) "whether" "is less than" Library.lessThan

/-- `equal(a, b)`: whether a equals b. -/
def equal : Entry := ofNumbers "equal" (.single .boolean) "whether" "equals" Library.equal

/-- The number functions in order of registration. -/
def numbers : List Entry := [add, subtract, lessThan, equal]

end Entry

/-- The registered number functions. -/
structure NumberIds where
  add : FunctionId
  subtract : FunctionId
  lessThan : FunctionId
  equal : FunctionId

/-- Registers the number functions. -/
def registerNumbers : Build σ NumberIds := do
  return ⟨← define .add, ← define .subtract, ← define .lessThan, ← define .equal⟩

/-! ## Sequences

`length`, `shorterthan`, `element`, `first` and `skip` on collections of one kind. Items are
counted from 1, and reading past either end answers the out-of-range error. -/

/-- The number of items of a sequence. -/
def length (arguments : List Value) : Except Violation Value := do
  let items ← (← argument arguments 0).asSequence
  return .int (Int64.ofNat items.length)

/-- Whether a sequence has fewer items than a number says. -/
def shorterThan (arguments : List Value) : Except Violation Value := do
  let items ← (← argument arguments 0).asSequence
  match ← Numeric.ofValue (← argument arguments 1) with
  | .int count => return .bool (Int64.ofNat items.length < count)
  | .float count => return .bool ((Binary64.ofInt items.length).lt count)

/-- The item of a sequence at an offset. An offset that is not positive is out of range without a
look at the sequence. -/
def itemAt (sequence : Value) (offset : Int64) : Except Violation Value :=
  match offset.toInt.toNat with
  | 0 => .ok .outOfRange
  | index + 1 => do
    let items ← sequence.asSequence
    return items[index]?.getD .outOfRange

/-- The item at a given offset. An offset with a fraction is out of range. -/
def element (arguments : List Value) : Except Violation Value := do
  let offset ← Numeric.ofValue (← argument arguments 0)
  match offset.whole? with
  | some offset => itemAt (← argument arguments 1) offset
  | none => return .outOfRange

/-- The item at offset 1. -/
def first (arguments : List Value) : Except Violation Value := do
  itemAt (← argument arguments 0) 1

/-- What is left of a sequence without its first items. A negative count leaves out none, and a
count with a fraction is rounded toward zero. -/
def skip (arguments : List Value) : Except Violation Value := do
  let sequence ← argument arguments 0
  let count ← Numeric.ofValue (← argument arguments 1)
  let items ← sequence.asSequence
  Value.sequence sequence.ty.element (items.drop count.truncate.toInt.toNat)

namespace Entry

/-- `length(sequence)`: the number of items in sequence. -/
def length (kind : Kind) : Entry :=
  ⟨"length", .single .number, "the number of items in",
    [⟨"sequence", .collection kind, ""⟩], Library.length⟩

/-- `shorterthan(sequence, count)`: whether sequence has fewer than count items. -/
def shorterThan (kind : Kind) : Entry :=
  ⟨"shorterthan", .single .boolean, "whether",
    [⟨"sequence", .collection kind, "has fewer than"⟩, ⟨"count", .single .number, "items"⟩],
    Library.shorterThan⟩

/-- `element(offset, sequence)`: item number offset in sequence. -/
def element (kind : Kind) : Entry :=
  ⟨"element", .single kind, "item number",
    [⟨"offset", .single .number, "in"⟩, ⟨"sequence", .collection kind, ""⟩], Library.element⟩

/-- `first(sequence)`: the first item in sequence. -/
def first (kind : Kind) : Entry :=
  ⟨"first", .single kind, "the first item in", [⟨"sequence", .collection kind, ""⟩],
    Library.first⟩

/-- `skip(sequence, count)`: sequence after skipping count items. -/
def skip (kind : Kind) : Entry :=
  ⟨"skip", .collection kind, "",
    [⟨"sequence", .collection kind, "after skipping"⟩, ⟨"count", .single .number, "items"⟩],
    Library.skip⟩

/-- The sequence functions in order of registration. -/
def sequences (kind : Kind) : List Entry :=
  [length kind, shorterThan kind, element kind, first kind, skip kind]

end Entry

/-- The registered sequence functions. -/
structure SequenceIds where
  length : FunctionId
  shorterThan : FunctionId
  element : FunctionId
  first : FunctionId
  skip : FunctionId

/-- Registers the sequence functions for items of a kind. -/
def registerSequences (kind : Kind) : Build σ SequenceIds := do
  return ⟨← define (.length kind), ← define (.shorterThan kind), ← define (.element kind),
    ← define (.first kind), ← define (.skip kind)⟩

/-! ## The whole library -/

/-- Every library function, in order of registration. -/
def Entry.standard (kind : Kind) : List Entry :=
  Entry.logic ++ Entry.numbers ++ Entry.sequences kind

/-- The registered functions of the library. -/
structure StandardIds where
  logic : LogicIds
  numbers : NumberIds
  sequences : SequenceIds

/-- Registers all functions of the library. -/
def registerStandard {σ : Type} (kind : Kind) : Build σ StandardIds := do
  return ⟨← registerLogic, ← registerNumbers, ← registerSequences kind⟩

end Library

end Rulebook

import Rulebook.Binary64

/-!
# Rule values and their types

Every reference and every value of a rulebook carries a type: a kind, either of single values or
of collections of them. A value is a payload marked with a type. The two usually agree, but the mark
can be overwritten, so neither is derived from the other.
-/

namespace Rulebook

/-! ## Types

Collections do not nest, so the two cases cover all types. -/

/-- The kinds of values, in their order of comparison. -/
inductive Kind where
  | error
  | boolean
  | number
  | object
  | position
  | action
  deriving DecidableEq, Hashable, Ord

namespace Kind

/-- The name a kind is written with. -/
def name : Kind → String
  | error => "Error"
  | boolean => "Boolean"
  | number => "Number"
  | object => "Object"
  | position => "Position"
  | action => "Action"

/-- Objects, positions and actions are opaque handles. -/
def isHandle : Kind → Bool
  | object | position | action => true
  | error | boolean | number => false

end Kind

/-- A type: one value of a kind, or a collection of values of that kind. -/
inductive Ty where
  | single (kind : Kind)
  | collection (kind : Kind)
  deriving DecidableEq, Hashable

namespace Ty

/-- The kind of a type's values or of its items. -/
def kind : Ty → Kind
  | single k | collection k => k

/-- Whether a type is a collection type. -/
def isCollection : Ty → Bool
  | single _ => false
  | collection _ => true

/-- The type of a collection's items; a single type is its own element type. -/
def element (t : Ty) : Ty := single t.kind

/-- The collection type over a type's kind. -/
def collectionOf (t : Ty) : Ty := collection t.kind

/-- The type of error values. -/
def isError (t : Ty) : Bool := t = single .error

/-- The type as it is shown: the kind's name, in the plural for collections. -/
def text : Ty → String
  | single k => k.name
  | collection k => k.name ++ "s"

/-- Types are ordered by kind, and a single type comes before its collection type. -/
instance : Ord Ty where
  compare s t := (compare s.kind t.kind).then (compare s.isCollection t.isCollection)

/-- The types of a list in ascending order. -/
def sort (types : List Ty) : List Ty :=
  types.mergeSort fun s t => (compare s t).isLE

@[simp] theorem kind_single (k : Kind) : (single k).kind = k := rfl

@[simp] theorem kind_collection (k : Kind) : (collection k).kind = k := rfl

@[simp] theorem element_collectionOf (t : Ty) : t.collectionOf.element = t.element := rfl

end Ty

/-! ## Values -/

/-- The data of a value whose items, if it is a sequence, are of type `α`. The text of a handle
is also where error values keep their message. -/
inductive Payload (α : Type) where
  | bool (b : Bool)
  | int (n : Int64)
  | float (x : Binary64)
  | handle (text : String)
  | sequence (items : List α)

/-- A typed value. -/
structure Value where
  ty : Ty
  payload : Payload Value

namespace Value

/-- The message of the value that stands for a call nested too deep. -/
def tooDeepMessage : String := "TOO DEEP"

/-- The message of the value that stands for an item that a sequence does not have. -/
def outOfRangeMessage : String := "OUT OF RANGE"

/-- A truth value. -/
def bool (b : Bool) : Value := ⟨.single .boolean, .bool b⟩

/-- A whole number. -/
def int (n : Int64) : Value := ⟨.single .number, .int n⟩

/-- A number with a fraction. -/
def float (x : Binary64) : Value := ⟨.single .number, .float x⟩

/-- A failure carried as data. -/
def error (message : String) : Value := ⟨.single .error, .handle message⟩

/-- The answer to a call nested too deep. -/
def tooDeep : Value := error tooDeepMessage

/-- The answer to reading past either end of a sequence. -/
def outOfRange : Value := error outOfRangeMessage

/-- The empty collection of a kind. -/
def emptyOf (kind : Kind) : Value := ⟨.collection kind, .sequence []⟩

/-- Whether a value is marked as an error. -/
def isError (v : Value) : Bool := v.ty.isError

/-- The same payload under another type. -/
def retype (v : Value) (ty : Ty) : Value := { v with ty }

end Value

end Rulebook

import Rulebook.Eval.State
import Rulebook.Proofs.Program.Operation

/-!
# Names

Renaming changes the names of functions and of slots, and the comments of signatures. It leaves
literals alone, whose names are what they denote. Names make no difference to the check of a body
but for those that its errors report (`Program.nameless_checkBody`).

The program without names is that with the empty name everywhere. Two programs that are the same
without names differ in names only.
-/

namespace Rulebook

variable {σ ε α β γ : Type}

/-! ## Renaming -/

section Rename

variable (φ : String → String)

/-- A reference under another name, unless it is a literal. -/
def Reference.rename (r : Reference) : Reference :=
  if r.isLiteral then r else { r with name := φ r.name }

/-- A slot with another comment. -/
def Slot.rename (s : Slot) : Slot := { s with comment := φ s.comment }

/-- A signature with other comments. -/
def Signature.rename (s : Signature) : Signature :=
  ⟨s.result.rename φ, s.parameters.map (Slot.rename φ)⟩

/-- A function under another name, with other comments. -/
def Function.rename (f : Function σ) : Function σ :=
  { f with name := φ f.name, signature := f.signature.rename φ }

/-- A program with other names of slots and functions, and other comments. -/
def Program.rename (P : Program σ) : Program σ :=
  ⟨P.references.map (Reference.rename φ), P.functions.map (Function.rename φ)⟩

/-- A failure that reports another error. -/
def Failure.map {δ : Type} (g : ε → δ) : Failure ε → Failure δ
  | .error e => .error (g e)
  | .violation v => .violation v

/-- A building error about other names. -/
def BuildError.rename : BuildError → BuildError
  | .unknownFunction id => .unknownFunction id
  | .unknownReference id => .unknownReference id
  | .literalParameter function name => .literalParameter (φ function) (φ name)
  | .duplicateParameter function name => .duplicateParameter (φ function) (φ name)
  | .nativeBody function => .nativeBody (φ function)
  | .arityMismatch function line callee expected found =>
    .arityMismatch (φ function) line (φ callee) expected found
  | .unboundReference function line name => .unboundReference (φ function) line (φ name)
  | .literalDestination function line name => .literalDestination (φ function) line (φ name)
  | .invalidLiteral function line cause => .invalidLiteral (φ function) line cause
  | .typeMismatch function line name expected found =>
    .typeMismatch (φ function) line (φ name) expected found
  | .missingResult function => .missingResult (φ function)

/-- An evaluation error about other names. -/
def EvalError.rename : EvalError → EvalError
  | .unknownFunction id => .unknownFunction id
  | .arityMismatch function expected found => .arityMismatch (φ function) expected found
  | .unboundReference function name => .unboundReference (φ function) (φ name)
  | .invalidLiteral function cause => .invalidLiteral (φ function) cause
  | .gateNotBoolean function gate found => .gateNotBoolean (φ function) (φ gate) found
  | .missingResult function => .missingResult (φ function)

end Rename

/-! ## What renaming leaves alone -/

section Unchanged

variable {φ : String → String}

namespace Reference

/-- A literal keeps its name, which is its value. -/
theorem rename_of_isLiteral {r : Reference} (hr : r.isLiteral = true) : r.rename φ = r := if_pos hr

/-- Renaming leaves the type of a slot alone. -/
@[simp] theorem ty_rename (r : Reference) : (r.rename φ).ty = r.ty := by
  rw [rename]
  split <;> rfl

/-- Renaming makes no literal of a variable and no variable of a literal. -/
@[simp] theorem isLiteral_rename (r : Reference) : (r.rename φ).isLiteral = r.isLiteral := by
  rw [rename]
  split <;> rfl

/-- A variable gets the new name. -/
theorem name_rename {r : Reference} (hr : r.isLiteral = false) :
    (r.rename φ).name = φ r.name := by
  rw [rename, hr]
  rfl

/-- Renaming a slot twice is renaming it once, by the two in sequence. -/
theorem rename_rename (ψ : String → String) (r : Reference) :
    (r.rename φ).rename ψ = r.rename (ψ ∘ φ) := by
  cases hr : r.isLiteral <;> simp [rename, hr]

@[simp] theorem rename_id (r : Reference) : r.rename id = r := by
  rw [rename]
  split <;> rfl

end Reference

namespace Function

/-- Renaming leaves the slots of a signature alone. -/
@[simp] theorem parameterIds_rename (f : Function σ) :
    (f.rename φ).signature.parameterIds = f.signature.parameterIds := by
  simp [rename, Signature.rename, Signature.parameterIds, Function.comp_def, Slot.rename]

/-- Renaming leaves the number of arguments alone. -/
@[simp] theorem arity_rename (f : Function σ) : (f.rename φ).arity = f.arity := by
  rw [← length_parameterIds, parameterIds_rename, length_parameterIds]

theorem rename_rename (ψ : String → String) (f : Function σ) :
    (f.rename φ).rename ψ = f.rename (ψ ∘ φ) := by
  simp [rename, Signature.rename, Slot.rename, Function.comp_def]

@[simp] theorem rename_id (f : Function σ) : f.rename id = f := by
  have hslot : Slot.rename id = id := rfl
  simp [rename, Signature.rename, hslot]

end Function

namespace Program

variable {P : Program σ}

/-- The renamed program has the same slots, renamed. -/
theorem reference?_rename (id : ReferenceId) :
    (P.rename φ).reference? id = (P.reference? id).map (Reference.rename φ) := Array.getElem?_map

/-- The renamed program has the same functions, renamed. -/
theorem function?_rename (id : FunctionId) :
    (P.rename φ).function? id = (P.function? id).map (Function.rename φ) := Array.getElem?_map

/-- A lookup of a slot that has to exist fails in both programs or in neither. -/
theorem reference_rename (id : ReferenceId) :
    (P.rename φ).reference id = (P.reference id).map (Reference.rename φ) := by
  rw [reference, reference, reference?_rename]
  cases P.reference? id <;> rfl

end Program

end Unchanged

/-! ## Programs and errors without names -/

/-- The program without names, apart from those of literals. -/
def Program.nameless (P : Program σ) : Program σ := P.rename fun _ => ""

/-- Renaming makes no difference to a program without names. -/
theorem Program.nameless_rename (φ : String → String) (P : Program σ) :
    (P.rename φ).nameless = P.nameless := by
  simp [nameless, rename, Reference.rename_rename, Function.rename_rename, Function.comp_def]

/-- A building error without the names in it, apart from the literal that a cause is about. -/
def BuildError.nameless (e : BuildError) : BuildError := e.rename fun _ => ""

/-- An evaluation error without the names in it, apart from the literal that a cause is about. -/
def EvalError.nameless (e : EvalError) : EvalError := e.rename fun _ => ""

/-! ## The check of a body -/

namespace Program

/-- The answer of a check without the names in its error. -/
def Checked.nameless (x : Checked α) : Checked α := x.mapError (Failure.map BuildError.nameless)

namespace Checked

/-- Names in errors can be dropped step by step. -/
theorem nameless_bind (x : Checked α) (f : α → Checked β) :
    (x >>= f).nameless = x.nameless >>= fun a => (f a).nameless := by
  cases x <;> rfl

theorem nameless_map_bind (h : β → γ) (x : Checked α) (f : α → Checked β) :
    Checked.nameless ((x >>= f).map h) = (x >>= fun a => (f a).map h : Checked γ).nameless := by
  cases x <;> rfl

/-- Checks in sequence answer alike if the first answers alike up to `h`, and the rest does from
what it gives. -/
theorem nameless_bind_map {h : α → β} {x : Checked α} {y : Checked β} {f : α → Checked γ}
    {g : β → Checked γ} (hxy : y.nameless = Checked.nameless (x.map h))
    (hfg : ∀ a, (g (h a)).nameless = (f a).nameless) : (y >>= g).nameless = (x >>= f).nameless := by
  rw [nameless_bind, hxy]
  cases x with
  | ok a => exact hfg a
  | error e => rfl

/-- Checks agree up to names if each of their steps does. -/
theorem nameless_bind_congr {x y : Checked α} {f g : α → Checked β} (hxy : y.nameless = x.nameless)
    (hfg : ∀ a, (g a).nameless = (f a).nameless) : (y >>= g).nameless = (x >>= f).nameless := by
  have hid : x.map id = x := by cases x <;> rfl
  exact nameless_bind_map (h := id) (by rw [hid, hxy]) hfg

end Checked

variable {P : Program σ} {φ : String → String}

/-- A check that looks a reference up answers alike under other names if its rest does. -/
theorem nameless_reference_bind {id : ReferenceId} {f g : Reference → Checked α}
    (hfg : ∀ r : Reference, (g (r.rename φ)).nameless = (f r).nameless) :
    (Failure.ofViolation ((P.rename φ).reference id) >>= g : Checked α).nameless =
      (Failure.ofViolation (P.reference id) >>= f : Checked α).nameless := by
  refine Checked.nameless_bind_map ?_ hfg
  rw [reference_rename]
  cases P.reference id <;> rfl

namespace BodyCheck

/-- The same check in the program with other names. -/
def rename (φ : String → String) (c : BodyCheck σ) : BodyCheck σ :=
  ⟨c.program.rename φ, φ c.function, c.resultTy⟩

variable (c : BodyCheck σ) {index : Nat} {bound : List ReferenceId}

/-- Expected types are compared without the name that they belong to. -/
theorem nameless_expectType (name name' : String) (expected found : Ty) :
    ((c.rename φ).expectType index name' expected found).nameless =
      (c.expectType index name expected found).nameless := by
  rw [expectType, expectType]
  split <;> rfl

/-- The check of a read does not depend on names. -/
theorem nameless_checkRead (id : ReferenceId) :
    ((c.rename φ).checkRead index bound id).nameless = (c.checkRead index bound id).nameless := by
  refine nameless_reference_bind fun r => ?_
  cases hr : r.isLiteral with
  | true =>
    -- a literal keeps its name, and so denotes the same value
    rw [r.rename_of_isLiteral hr, hr, if_pos rfl, if_pos rfl]
    cases r.literalValue <;> rfl
  | false =>
    rw [r.isLiteral_rename, hr, if_neg Bool.false_ne_true, if_neg Bool.false_ne_true]
    split <;> rfl

theorem nameless_checkArgument (argument parameter : ReferenceId) :
    ((c.rename φ).checkArgument index bound argument parameter).nameless =
      (c.checkArgument index bound argument parameter).nameless := by
  refine Checked.nameless_bind_congr (c.nameless_checkRead argument) fun _ => ?_
  refine nameless_reference_bind fun given => nameless_reference_bind fun wanted => ?_
  rw [given.ty_rename, wanted.ty_rename]
  exact c.nameless_expectType _ _ _ _

theorem nameless_checkArguments (arguments parameters : List ReferenceId) :
    ((c.rename φ).checkArguments index bound arguments parameters).nameless =
      (c.checkArguments index bound arguments parameters).nameless := by
  induction arguments generalizing parameters with
  | nil => rfl
  | cons argument arguments ih =>
    cases parameters with
    | nil => rfl
    | cons parameter parameters =>
      exact Checked.nameless_bind_congr (c.nameless_checkArgument argument parameter)
        fun _ => ih parameters

/-- A call is checked alike, and the callee it gives is the renamed one. -/
theorem nameless_checkCall (id : FunctionId) (arguments : List ReferenceId) :
    ((c.rename φ).checkCall index bound id arguments).nameless =
      Checked.nameless ((c.checkCall index bound id arguments).map fun (callee, ty) =>
        (callee.rename φ, ty)) := by
  have hfunction : (c.rename φ).program.function? id =
      (c.program.function? id).map (Function.rename φ) := function?_rename id
  rw [checkCall, checkCall, hfunction]
  cases c.program.function? id with
  | none => rfl
  | some callee =>
    dsimp only [Option.map_some]
    rw [callee.arity_rename, callee.parameterIds_rename]
    split
    · rw [Checked.nameless_map_bind]
      refine Checked.nameless_bind_congr (c.nameless_checkArguments _ _) fun _ => ?_
      rw [Checked.nameless_map_bind]
      refine nameless_reference_bind fun result => ?_
      rw [result.ty_rename]
      rfl
    · rfl

theorem nameless_checkReturned (id : ReferenceId) :
    ((c.rename φ).checkReturned index bound id).nameless =
      (c.checkReturned index bound id).nameless := by
  refine Checked.nameless_bind_congr (c.nameless_checkRead id) fun _ => ?_
  refine nameless_reference_bind fun r => ?_
  rw [r.ty_rename]
  exact c.nameless_expectType _ _ _ _

theorem nameless_checkDestination (target : ReferenceId) (ty : Ty) :
    ((c.rename φ).checkDestination index target ty).nameless =
      (c.checkDestination index target ty).nameless := by
  refine nameless_reference_bind fun r => ?_
  rw [r.isLiteral_rename, r.ty_rename]
  split
  · rfl
  · exact c.nameless_expectType _ _ _ _

theorem nameless_checkInputs (ids : List ReferenceId) :
    ((c.rename φ).checkInputs ids).nameless = (c.checkInputs ids).nameless := by
  induction ids with
  | nil => rfl
  | cons id ids ih =>
    rw [checkInputs, checkInputs, rename, reference?_rename]
    cases c.program.reference? id with
    | none => rfl
    | some r => exact ih

/-- The check of a line does not depend on names. -/
theorem nameless_checkLine (line : Line) :
    ((c.rename φ).checkLine index bound line).nameless =
      (c.checkLine index bound line).nameless := by
  refine Checked.nameless_bind_congr (c.nameless_checkInputs line.inputs) fun _ => ?_
  cases line with
  | assign target callee arguments =>
    refine Checked.nameless_bind_map (c.nameless_checkCall callee arguments) ?_
    rintro ⟨_, ty⟩
    exact Checked.nameless_bind_congr (c.nameless_checkDestination target ty) fun _ => rfl
  | returnIf target gate arguments =>
    refine Checked.nameless_bind_map (c.nameless_checkCall gate arguments) ?_
    rintro ⟨_, ty⟩
    refine Checked.nameless_bind_congr (c.nameless_expectType _ _ _ ty) fun _ => ?_
    exact Checked.nameless_bind_congr (c.nameless_checkReturned target) fun _ => rfl
  | ret target => exact Checked.nameless_bind_congr (c.nameless_checkReturned target) fun _ => rfl

/-- The check of all lines does not depend on names. -/
theorem nameless_checkLines (lines : List Line) :
    ((c.rename φ).checkLines index bound lines).nameless =
      (c.checkLines index bound lines).nameless := by
  induction lines generalizing index bound with
  | nil => rfl
  | cons line lines ih => exact Checked.nameless_bind_congr (c.nameless_checkLine line) fun _ => ih

/-- The check of the end of a body does not depend on names. -/
theorem nameless_checkEnd (lines : List Line) :
    ((c.rename φ).checkEnd lines).nameless = (c.checkEnd lines).nameless := by
  rw [checkEnd, checkEnd]
  split
  · rfl
  · cases lastAssignment? lines with
    | none => rfl
    | some last =>
      refine nameless_reference_bind fun r => ?_
      rw [r.ty_rename]
      exact c.nameless_expectType _ _ _ _

end BodyCheck

/-- A body is checked alike under other names. -/
theorem nameless_checkBody (f : Function σ) (lines : List Line) :
    ((P.rename φ).checkBody (f.rename φ) lines).nameless = (P.checkBody f lines).nameless := by
  refine nameless_reference_bind fun result => ?_
  rw [f.parameterIds_rename, result.ty_rename]
  let c : BodyCheck σ := ⟨P, f.name, result.ty⟩
  refine Checked.nameless_bind_congr (c.nameless_checkLines lines) fun _ => ?_
  exact c.nameless_checkEnd lines

/-- Lines get the same verdict under other names. -/
theorem nameless_setBody_rename (φ : String → String) (P : Program σ) (id : FunctionId)
    (lines : List Line) :
    Checked.nameless ((Build.setBody id lines).outcome (P.rename φ)) =
      Checked.nameless ((Build.setBody id lines).outcome P) := by
  cases hf : P.function? id with
  | none =>
    have hf' : (P.rename φ).function? id = none := by
      rw [function?_rename, hf]
      rfl
    rw [Build.outcome, Build.outcome, Edit.setBody_of_none lines hf, Edit.setBody_of_none lines hf']
  | some f =>
    have hf' : (P.rename φ).function? id = some (f.rename φ) := by
      rw [function?_rename, hf]
      rfl
    cases hnative : f.isNative with
    | true =>
      rw [Build.outcome, Build.outcome, Edit.setBody_of_native lines hf hnative,
        Edit.setBody_of_native lines hf' hnative]
      rfl
    | false =>
      rw [Edit.outcome_of_guarded (Edit.setBody_eq lines hf hnative),
        Edit.outcome_of_guarded (Edit.setBody_eq lines hf' hnative)]
      exact nameless_checkBody f lines

end Program

end Rulebook

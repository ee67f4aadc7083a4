import Mathlib.Data.List.Induction
import Rulebook.Library.Standard
import Rulebook.Program.Build
import Rulebook.Proofs.Outcome

/-!
# Programs by edits

An edit is one building operation with any arguments, and `Program.ofEdits` the program that a list
of edits makes out of nothing. An edit that is refused leaves the program as it was, so every
program that can be built is the program of some list of edits.

What an edit can do to a program is said once, by `Edit.Changes`; invariants of programs are proved
by cases on it.
-/

namespace Rulebook

variable {σ : Type}

/-! ## Putting a function in the place of another -/

namespace Program

/-- The program with another function in the place of one. -/
def setFunction (P : Program σ) (id : FunctionId) (f : Function σ) : Program σ :=
  { P with functions := P.functions.setIfInBounds id.index f }

/-- The program with one more function. -/
def pushFunction (P : Program σ) (f : Function σ) : Program σ :=
  { P with functions := P.functions.push f }

/-- The program with one more reference. -/
def pushReference (P : Program σ) (r : Reference) : Program σ :=
  { P with references := P.references.push r }

/-- Replacing a function changes what is found under its id only. -/
theorem function?_setFunction {P : Program σ} {id j : FunctionId} {f g : Function σ}
    (hf : P.function? id = some f) :
    (P.setFunction id g).function? j = if j = id then some g else P.function? j := by
  have hid : id.index < P.functions.size := (Array.getElem?_eq_some_iff.mp hf).1
  by_cases h : j = id
  · rw [if_pos h, h]
    exact Array.getElem?_setIfInBounds_self_of_lt hid
  · -- other identities have other indices
    have hne : id.index ≠ j.index := fun heq => h (by cases j; cases id; exact congrArg _ heq.symm)
    rw [if_neg h]
    exact Array.getElem?_setIfInBounds_ne hne

/-- A new function stands behind those that the program has. -/
theorem function?_pushFunction {P : Program σ} {j : FunctionId} {f g : Function σ}
    (h : (P.pushFunction f).function? j = some g) :
    P.function? j = some g ∨ P.function? j = none ∧ j.index = P.functions.size ∧ g = f := by
  rw [function?, pushFunction, Array.getElem?_push] at h
  by_cases hj : j.index = P.functions.size
  · rw [if_pos hj, Option.some.injEq] at h
    exact .inr ⟨Array.getElem?_eq_none (Nat.le_of_eq hj.symm), hj, h.symm⟩
  · rw [if_neg hj] at h
    exact .inl h

theorem function?_pushFunction_of_some {P : Program σ} {j : FunctionId} {f g : Function σ}
    (h : P.function? j = some g) : (P.pushFunction f).function? j = some g := by
  have hj : j.index < P.functions.size := (Array.getElem?_eq_some_iff.mp h).1
  rw [function?, pushFunction, Array.getElem?_push_lt hj]
  exact (Array.getElem?_eq_getElem hj).symm.trans h

theorem reference?_pushReference_of_some {P : Program σ} {id : ReferenceId} {r s : Reference}
    (h : P.reference? id = some s) : (P.pushReference r).reference? id = some s := by
  have hid : id.index < P.references.size := (Array.getElem?_eq_some_iff.mp h).1
  rw [reference?, pushReference, Array.getElem?_push_lt hid]
  exact (Array.getElem?_eq_getElem hid).symm.trans h

end Program

/-! ## Edits -/

/-- A building operation with its arguments. -/
inductive Edit (σ : Type) where
  | addReference (r : Reference)
  | declare (name : String) (signature : Signature)
  | defineNative (name : String) (signature : Signature) (run : Native σ)
  | setBody (id : FunctionId) (lines : List Line)
  | setUncacheable (id : FunctionId) (isUncacheable : Bool)

namespace Edit

/-- The operation of an edit. -/
def build : Edit σ → Build σ Unit
  | addReference r => discard (Build.addReference r)
  | declare name signature => discard (Build.declare name signature)
  | defineNative name signature run => discard (Build.defineNative name signature run)
  | setBody id lines => Build.setBody id lines
  | setUncacheable id isUncacheable => Build.setUncacheable id isUncacheable

/-- The program after an edit. -/
def apply (P : Program σ) (e : Edit σ) : Program σ :=
  match e.build P with
  | .ok _ P' => P'
  | .error _ P' => P'

/-- Whether a program accepts an edit. -/
def IsAccepted (P : Program σ) (e : Edit σ) : Prop := ∃ P', e.build P = .ok () P'

/-- What an edit can do to a program. -/
inductive Changes (P : Program σ) : Edit σ → Program σ → Prop where
  | refused {e} (he : ¬ e.IsAccepted P) : Changes P e P
  | reference {r} : Changes P (.addReference r) (P.pushReference r)
  | declared {name signature} (hslots : P.checkSlots name [] signature.references = .ok ()) :
      Changes P (.declare name signature) (P.pushFunction ⟨name, signature, .lines [], false⟩)
  | native {name signature run} (hslots : P.checkSlots name [] signature.references = .ok ()) :
      Changes P (.defineNative name signature run)
        (P.pushFunction ⟨name, signature, .native run, false⟩)
  | body {id f lines} (hf : P.function? id = some f) (hnative : f.isNative = false)
      (hcheck : P.checkBody f lines = .ok ()) :
      Changes P (.setBody id lines) (P.setFunction id { f with body := .lines lines })
  | flag {id f isUncacheable} (hf : P.function? id = some f) :
      Changes P (.setUncacheable id isUncacheable) (P.setFunction id { f with isUncacheable })

/-- The end of an operation that changes a program if a check lets it. -/
def guarded (P P' : Program σ) : Program.Checked Unit →
    EStateM.Result (Failure BuildError) (Program σ) Unit
  | .ok _ => .ok () P'
  | .error e => .error e P

/-- A function is added if the slots of its signature are declared variables, each used once, and
otherwise nothing changes. -/
theorem addFunction_eq (P : Program σ) (name : String) (signature : Signature) (body : Body σ) :
    (discard (Build.addFunction name signature body) : Build σ Unit) P =
      guarded P (P.pushFunction ⟨name, signature, body, false⟩)
        (Failure.ofError (P.checkSlots name [] signature.references)) := by
  show EStateM.map _ (EStateM.bind (Failure.liftState (Failure.ofError _)) _) P = _
  rw [EStateM.map, EStateM.bind]
  cases P.checkSlots name [] signature.references <;> rfl

/-- What setting a body does, once the program is known. -/
theorem setBody_apply (P : Program σ) (id : FunctionId) (lines : List Line) :
    Build.setBody id lines P =
      (match P.function? id with
      | none => throw (.error (.unknownFunction id))
      | some f =>
        if f.isNative then throw (.error (.nativeBody f.name))
        else do
          Failure.liftState (P.checkBody f lines)
          Build.replaceFunction id { f with body := .lines lines } : Build σ Unit) P := rfl

/-- A body for a function that does not exist is refused. -/
theorem setBody_of_none {P : Program σ} {id : FunctionId} (lines : List Line)
    (hf : P.function? id = none) :
    Build.setBody id lines P = .error (.error (.unknownFunction id)) P := by
  rw [setBody_apply, hf]
  rfl

/-- A body for a native function is refused. -/
theorem setBody_of_native {P : Program σ} {id : FunctionId} {f : Function σ} (lines : List Line)
    (hf : P.function? id = some f) (hnative : f.isNative = true) :
    Build.setBody id lines P = .error (.error (.nativeBody f.name)) P := by
  rw [setBody_apply, hf]
  dsimp only
  rw [if_pos hnative]
  rfl

/-- A body is installed if it passes the check, and otherwise nothing changes. -/
theorem setBody_eq {P : Program σ} {id : FunctionId} {f : Function σ} (lines : List Line)
    (hf : P.function? id = some f) (hnative : f.isNative = false) :
    Build.setBody id lines P =
      guarded P (P.setFunction id { f with body := .lines lines }) (P.checkBody f lines) := by
  rw [setBody_apply, hf]
  dsimp only
  rw [hnative, if_neg Bool.false_ne_true]
  show EStateM.bind (Failure.liftState _) _ P = _
  rw [EStateM.bind]
  cases P.checkBody f lines <;> rfl

theorem setUncacheable_apply (P : Program σ) (id : FunctionId) (isUncacheable : Bool) :
    Build.setUncacheable id isUncacheable P =
      (match P.function? id with
      | none => throw (.error (.unknownFunction id))
      | some f => Build.replaceFunction id { f with isUncacheable } : Build σ Unit) P := rfl

/-- A mark for a function that does not exist is refused. -/
theorem setUncacheable_of_none {P : Program σ} {id : FunctionId} (isUncacheable : Bool)
    (hf : P.function? id = none) :
    Build.setUncacheable id isUncacheable P = .error (.error (.unknownFunction id)) P := by
  rw [setUncacheable_apply, hf]
  rfl

/-- Marking a function that exists always succeeds. -/
theorem setUncacheable_eq {P : Program σ} {id : FunctionId} {f : Function σ}
    (isUncacheable : Bool) (hf : P.function? id = some f) :
    Build.setUncacheable id isUncacheable P =
      guarded P (P.setFunction id { f with isUncacheable }) (.ok ()) := by
  rw [setUncacheable_apply, hf]
  rfl

/-- An edit that is refused leaves the program as it was. -/
theorem changes_of_error {P : Program σ} {e : Edit σ} {x : Failure BuildError}
    (h : e.build P = .error x P) : e.Changes P (e.apply P) := by
  rw [apply, h]
  refine .refused ?_
  rintro ⟨P', h'⟩
  rw [h] at h'
  cases h'

/-- An operation behind a check changes the program if the check lets it. -/
theorem changes_of_guarded {P P' : Program σ} {e : Edit σ} {check : Program.Checked Unit}
    (h : e.build P = guarded P P' check) (hP' : check = .ok () → e.Changes P P') :
    e.Changes P (e.apply P) := by
  cases check with
  | ok u =>
    have happly : e.apply P = P' := by
      rw [apply, h]
      rfl
    rw [happly]
    exact hP' rfl
  | error x => exact changes_of_error h

/-- An edit changes the program as `Changes` says. -/
theorem changes_apply (P : Program σ) (e : Edit σ) : e.Changes P (e.apply P) := by
  cases e with
  | addReference r => exact .reference
  | declare name signature =>
    refine changes_of_guarded (addFunction_eq P name signature (.lines [])) fun hslots => ?_
    exact .declared (Failure.ofError_eq_ok.mp hslots)
  | defineNative name signature run =>
    refine changes_of_guarded (addFunction_eq P name signature (.native run)) fun hslots => ?_
    exact .native (Failure.ofError_eq_ok.mp hslots)
  | setBody id lines =>
    cases hf : P.function? id with
    | none => exact changes_of_error (setBody_of_none lines hf)
    | some f =>
      cases hnative : f.isNative with
      | true => exact changes_of_error (setBody_of_native lines hf hnative)
      | false => exact changes_of_guarded (setBody_eq lines hf hnative) (.body hf hnative)
  | setUncacheable id isUncacheable =>
    cases hf : P.function? id with
    | none => exact changes_of_error (setUncacheable_of_none isUncacheable hf)
    | some f => exact changes_of_guarded (setUncacheable_eq isUncacheable hf) fun _ => .flag hf

end Edit

/-! ## Programs -/

namespace Program

/-- The program that edits make out of the empty one. -/
def ofEdits (edits : List (Edit σ)) : Program σ := edits.foldl Edit.apply empty

/-- The last edit applies to the program that the edits before it made. -/
theorem ofEdits_append_singleton (edits : List (Edit σ)) (e : Edit σ) :
    ofEdits (edits ++ [e]) = e.apply (ofEdits edits) := by
  rw [ofEdits, List.foldl_append]
  rfl

/-- What the empty program has and every edit keeps, every program has. -/
theorem ofEdits_induction {I : Program σ → Prop} (hempty : I empty)
    (hstep : ∀ P P' e, I P → Edit.Changes P e P' → I P') (edits : List (Edit σ)) :
    I (ofEdits edits) := by
  induction edits using List.reverseRecOn with
  | nil => exact hempty
  | append_singleton edits e ih =>
    rw [ofEdits_append_singleton]
    exact hstep _ _ e ih (e.changes_apply _)

/-- Some lines have been accepted as the body of a function. -/
def BodyAccepted (edits : List (Edit σ)) (id : FunctionId) : Prop :=
  ∃ earlier lines later, edits = earlier ++ .setBody id lines :: later ∧
    Edit.IsAccepted (ofEdits earlier) (.setBody id lines)

/-- A body that was accepted by the last edit or before was accepted before, or is the one that the
last edit set. -/
theorem bodyAccepted_append_singleton {edits : List (Edit σ)} {e : Edit σ} {id : FunctionId}
    (h : BodyAccepted (edits ++ [e]) id) :
    BodyAccepted edits id ∨
      ∃ lines, e = .setBody id lines ∧ Edit.IsAccepted (ofEdits edits) (.setBody id lines) := by
  obtain ⟨earlier, lines, later, hedits, haccepted⟩ := h
  -- the accepted edit is the last one if nothing came later, else it is among the others
  rcases List.eq_nil_or_concat later with rfl | ⟨later, e', rfl⟩
  · obtain ⟨rfl, he⟩ := List.append_inj' hedits rfl
    rw [List.cons.injEq] at he
    exact .inr ⟨lines, he.1, haccepted⟩
  · rw [List.concat_eq_append, ← List.cons_append, ← List.append_assoc] at hedits
    obtain ⟨rfl, -⟩ := List.append_inj' hedits rfl
    exact .inl ⟨earlier, lines, later, rfl, haccepted⟩

end Program

/-! ## A program that calls itself

`settle(a)` is `return a if not(a)`, `b = not(a)`, `c = settle(b)`: a false argument is returned,
and a true one is settled by a call with its negation. -/

namespace Settle

/-- The references of the program. -/
def references : List Reference :=
  ["result", "a", "b", "c"].map (Reference.variableSlot · (.single .boolean))

/-- The result slot and the one parameter of both functions. -/
def signature : Signature := ⟨⟨⟨0⟩, ""⟩, [⟨⟨1⟩, ""⟩]⟩

/-- The body of `settle`. -/
def lines : List Line :=
  [.returnIf ⟨1⟩ ⟨0⟩ [⟨1⟩], .assign ⟨2⟩ ⟨0⟩ [⟨1⟩], .assign ⟨3⟩ ⟨1⟩ [⟨2⟩]]

/-- The program with given lines for `settle`. -/
def programWith (lines : List Line) : Program σ :=
  ⟨references.toArray, #[⟨"not", signature, .native (.ofPure Library.negation), false⟩,
    ⟨"settle", signature, .lines lines, false⟩]⟩

/-- The edits that declare both functions. -/
def declarations : List (Edit σ) :=
  references.map .addReference ++
    [.defineNative "not" signature (.ofPure Library.negation), .declare "settle" signature]

/-- The edits that build the program. -/
def edits : List (Edit σ) := declarations ++ [.setBody ⟨1⟩ lines]

/-- The program. -/
def program : Program σ := programWith lines

theorem ofEdits_declarations :
    Program.ofEdits (declarations : List (Edit σ)) = programWith [] := rfl

theorem ofEdits_edits : Program.ofEdits (edits : List (Edit σ)) = program := by
  -- the check of the body runs on the program that the declarations made, not on the edits
  rw [edits, Program.ofEdits_append_singleton, ofEdits_declarations, Edit.apply, Edit.build,
    Edit.setBody_eq (f := ⟨"settle", signature, .lines [], false⟩) lines rfl rfl]
  rfl

theorem function?_program {id : FunctionId} {f : Function σ}
    (h : program.function? id = some f) :
    f = ⟨"not", signature, .native (.ofPure Library.negation), false⟩ ∨
      f = ⟨"settle", signature, .lines lines, false⟩ := by
  obtain ⟨index⟩ := id
  -- the program has two functions
  match index with
  | 0 => exact .inl (Option.some.inj h).symm
  | 1 => exact .inr (Option.some.inj h).symm
  | _ + 2 => cases h

end Settle

end Rulebook

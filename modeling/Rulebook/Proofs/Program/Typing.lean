import Mathlib.Data.List.Forall2
import Rulebook.Program.Build
import Rulebook.Proofs.Outcome

/-!
# Typed bodies

What the check of a body establishes, as rules on lines. `Program.LinesTyped P ty bound last lines`
says that the lines are well typed as far as they can run: `bound` are the slots that have a value
before them, `last` is the slot that was assigned last, and `ty` is the type that every way out
gives. Nothing is asked of lines behind an unconditional return.

The small checks are equivalent to their rules, and a body that passes the whole check is well
typed (`linesTyped_of_checkBody`).
-/

namespace Rulebook.Program

variable {σ : Type}

/-! ## The rules -/

/-- The type of a reference, if the program has it. -/
def ty? (P : Program σ) (id : ReferenceId) : Option Ty := (P.reference? id).map Reference.ty

/-- Whether a reference is a literal that denotes a value, or a bound slot. -/
def Readable (P : Program σ) (bound : List ReferenceId) (id : ReferenceId) : Prop :=
  ∃ r, P.reference? id = some r ∧
    (r.isLiteral = true ∧ (∃ v, r.literalValue = .ok v) ∨ r.isLiteral = false ∧ id ∈ bound)

/-- Whether an argument can be read and has the type of its parameter. -/
def ArgumentTyped (P : Program σ) (bound : List ReferenceId) (argument parameter : ReferenceId) :
    Prop :=
  P.Readable bound argument ∧ ∃ ty, P.ty? argument = some ty ∧ P.ty? parameter = some ty

/-- Whether a call agrees with the callee's signature and gives a type. -/
def CallTyped (P : Program σ) (bound : List ReferenceId) (callee : FunctionId)
    (arguments : List ReferenceId) (ty : Ty) : Prop :=
  ∃ g, P.function? callee = some g ∧
    List.Forall₂ (P.ArgumentTyped bound) arguments g.signature.parameterIds ∧
    P.ty? g.signature.result.reference = some ty

/-- Lines are well typed as far as they can run. -/
inductive LinesTyped (P : Program σ) (ty : Ty) :
    List ReferenceId → Option ReferenceId → List Line → Prop where
  | last {bound target} (htarget : P.ty? target = some ty) :
      LinesTyped P ty bound (some target) []
  | assign {bound last target callee arguments rest r}
      (hcall : P.CallTyped bound callee arguments r.ty) (htarget : P.reference? target = some r)
      (hslot : r.isLiteral = false) (hrest : LinesTyped P ty (target :: bound) (some target) rest) :
      LinesTyped P ty bound last (.assign target callee arguments :: rest)
  | returnIf {bound last target gate arguments rest}
      (hcall : P.CallTyped bound gate arguments (.single .boolean))
      (hread : P.Readable bound target) (htarget : P.ty? target = some ty)
      (hrest : LinesTyped P ty bound last rest) :
      LinesTyped P ty bound last (.returnIf target gate arguments :: rest)
  | ret {bound last target rest} (hread : P.Readable bound target)
      (htarget : P.ty? target = some ty) : LinesTyped P ty bound last (.ret target :: rest)

/-- The slot that lines assign last, if they assign any, else the one assigned before them. -/
def lastAssigned? : Option ReferenceId → List Line → Option ReferenceId
  | last, [] => last
  | last, line :: rest => lastAssigned? (line.assigned?.or last) rest

/-! ## What the checks establish -/

section Checks

variable {P : Program σ}

/-- A slot that has to exist is looked up with success if it does. -/
theorem reference_eq_ok {id : ReferenceId} {r : Reference} :
    P.reference id = .ok r ↔ P.reference? id = some r := by
  rw [reference]
  cases P.reference? id with
  | some s => rw [Except.ok.injEq, Option.some.injEq]
  | none => exact ⟨nofun, nofun⟩

/-- Looking up a reference that the program has never fails. -/
theorem reference_bind {α : Type} {id : ReferenceId} {r : Reference} (hr : P.reference? id = some r)
    (k : Reference → Checked α) : (Failure.ofViolation (P.reference id) >>= k) = k r := by
  rw [reference_eq_ok.mpr hr]
  rfl

/-- The type of a slot is that of its declaration. -/
theorem ty?_eq_some {id : ReferenceId} {ty : Ty} :
    P.ty? id = some ty ↔ ∃ r, P.reference? id = some r ∧ r.ty = ty :=
  Option.map_eq_some_iff

namespace BodyCheck

variable {c : BodyCheck σ} {line : Nat} {bound : List ReferenceId}

theorem expectType_eq_ok {name : String} {expected found : Ty} :
    c.expectType line name expected found = .ok () ↔ expected = found := by
  rw [expectType]
  by_cases h : expected = found
  · rw [if_pos h]
    exact ⟨fun _ => h, fun _ => rfl⟩
  · rw [if_neg h]
    exact ⟨nofun, fun h' => absurd h' h⟩

/-- A read passes the check if the slot is readable. -/
theorem checkRead_eq_ok {id : ReferenceId} :
    c.checkRead line bound id = .ok () ↔ c.program.Readable bound id := by
  rw [checkRead, bind_eq_ok]
  refine exists_congr fun r => ?_
  rw [Failure.ofViolation_eq_ok, reference_eq_ok]
  refine and_congr_right fun _ => ?_
  cases r.isLiteral with
  | true =>
    cases r.literalValue with
    | ok v => simp
    | error e => simp
  | false => simp

theorem checkArgument_eq_ok {argument parameter : ReferenceId} :
    c.checkArgument line bound argument parameter = .ok () ↔
      c.program.ArgumentTyped bound argument parameter := by
  rw [checkArgument, check_bind_eq_ok, checkRead_eq_ok, ArgumentTyped]
  refine and_congr_right fun _ => ?_
  simp only [bind_eq_ok, Failure.ofViolation_eq_ok, reference_eq_ok, expectType_eq_ok,
    ty?_eq_some]
  constructor
  · rintro ⟨given, hgiven, wanted, hwanted, hty⟩
    exact ⟨given.ty, ⟨given, hgiven, rfl⟩, wanted, hwanted, hty⟩
  · rintro ⟨_, ⟨given, hgiven, rfl⟩, wanted, hwanted, hty⟩
    exact ⟨given, hgiven, wanted, hwanted, hty⟩

/-- Arguments pass the check if each passes for its parameter. -/
theorem checkArguments_eq_ok {arguments parameters : List ReferenceId}
    (hlength : arguments.length = parameters.length) :
    c.checkArguments line bound arguments parameters = .ok () ↔
      List.Forall₂ (c.program.ArgumentTyped bound) arguments parameters := by
  induction arguments generalizing parameters with
  | nil =>
    obtain rfl := List.eq_nil_of_length_eq_zero hlength.symm
    exact ⟨fun _ => .nil, fun _ => rfl⟩
  | cons argument arguments ih =>
    cases parameters with
    | nil => cases hlength
    | cons parameter parameters =>
      rw [checkArguments, check_bind_eq_ok, checkArgument_eq_ok,
        ih (Nat.succ.inj hlength), List.forall₂_cons]

/-- A call passes the check if its function exists and takes the arguments, and then has the type of
its result. -/
theorem checkCall_eq_ok {id : FunctionId} {arguments : List ReferenceId} {g : Function σ}
    {ty : Ty} :
    c.checkCall line bound id arguments = .ok (g, ty) ↔ c.program.function? id = some g ∧
      List.Forall₂ (c.program.ArgumentTyped bound) arguments g.signature.parameterIds ∧
      c.program.ty? g.signature.result.reference = some ty := by
  rw [checkCall]
  cases c.program.function? id with
  | none => exact ⟨nofun, nofun⟩
  | some callee =>
    dsimp only
    by_cases harity : arguments.length = callee.arity
    · rw [if_pos harity, check_bind_eq_ok,
        checkArguments_eq_ok (harity.trans callee.length_parameterIds.symm)]
      simp only [bind_eq_ok, Failure.ofViolation_eq_ok, reference_eq_ok, ty?_eq_some]
      constructor
      · rintro ⟨harguments, r, hr, ⟨⟩⟩
        exact ⟨rfl, harguments, r, hr, rfl⟩
      · rintro ⟨⟨⟩, harguments, r, hr, rfl⟩
        exact ⟨harguments, r, hr, rfl⟩
    · rw [if_neg harity]
      refine ⟨nofun, ?_⟩
      rintro ⟨⟨⟩, harguments, _⟩
      -- related lists have the same length
      exact absurd (harguments.length_eq.trans g.length_parameterIds) harity

/-- A returned slot passes the check if it is readable and has the type of the result. -/
theorem checkReturned_eq_ok {id : ReferenceId} :
    c.checkReturned line bound id = .ok () ↔
      c.program.Readable bound id ∧ c.program.ty? id = some c.resultTy := by
  rw [checkReturned, check_bind_eq_ok, checkRead_eq_ok, bind_eq_ok, ty?_eq_some]
  refine and_congr_right fun _ => exists_congr fun r => ?_
  rw [Failure.ofViolation_eq_ok, reference_eq_ok, expectType_eq_ok, eq_comm (a := r.ty)]

/-- A slot may be assigned if it is a variable, and the line then has to give its type. -/
theorem checkDestination_eq_ok {target : ReferenceId} {ty : Ty} :
    c.checkDestination line target ty = .ok () ↔
      ∃ r, c.program.reference? target = some r ∧ r.isLiteral = false ∧ ty = r.ty := by
  rw [checkDestination, bind_eq_ok]
  refine exists_congr fun r => ?_
  rw [Failure.ofViolation_eq_ok, reference_eq_ok]
  refine and_congr_right fun _ => ?_
  cases r.isLiteral with
  | true => simp
  | false => simp [expectType_eq_ok]

/-- Lines that pass the check are well typed if the slot that they assign last has the type of the
result, or if they never reach their end. -/
theorem linesTyped_of_checkLines {lines : List Line} {index : Nat} {bound' : List ReferenceId}
    {last : Option ReferenceId} (hlines : c.checkLines index bound lines = .ok bound')
    (hend : (lines.any fun line => line.kind = .unconditionalReturn) = true ∨
      ∃ target, lastAssigned? last lines = some target ∧
        c.program.ty? target = some c.resultTy) :
    c.program.LinesTyped c.resultTy bound last lines := by
  induction lines generalizing index bound last with
  | nil =>
    obtain h | ⟨target, ⟨rfl⟩, htarget⟩ := hend
    · cases h
    · exact .last htarget
  | cons line rest ih =>
    rw [checkLines, bind_eq_ok] at hlines
    obtain ⟨bound'', hline, hrest⟩ := hlines
    cases line with
    | assign target callee arguments =>
      rw [checkLine, check_bind_eq_ok, bind_eq_ok] at hline
      obtain ⟨-, ⟨g, ty⟩, hcall, hline⟩ := hline
      rw [check_bind_eq_ok] at hline
      obtain ⟨hdestination, ⟨⟩⟩ := hline
      obtain ⟨r, hr, hslot, rfl⟩ := checkDestination_eq_ok.mp hdestination
      exact .assign ⟨g, checkCall_eq_ok.mp hcall⟩ hr hslot (ih hrest hend)
    | returnIf target gate arguments =>
      rw [checkLine, check_bind_eq_ok, bind_eq_ok] at hline
      obtain ⟨-, ⟨g, ty⟩, hcall, hline⟩ := hline
      rw [check_bind_eq_ok, expectType_eq_ok, check_bind_eq_ok, checkReturned_eq_ok] at hline
      obtain ⟨rfl, ⟨hread, htarget⟩, ⟨⟩⟩ := hline
      exact .returnIf ⟨g, checkCall_eq_ok.mp hcall⟩ hread htarget (ih hrest hend)
    | ret target =>
      rw [checkLine, check_bind_eq_ok, check_bind_eq_ok, checkReturned_eq_ok] at hline
      obtain ⟨-, ⟨hread, htarget⟩, -⟩ := hline
      -- the lines behind were checked too, but they never run
      exact .ret hread htarget

/-- The last assignment is found from the back; `lastAssigned?` runs from the front. -/
theorem findSome?_reverse_zipIdx (lines : List Line) (index : Nat) (last : Option ReferenceId) :
    (((lines.zipIdx index).reverse.findSome? fun (line, index) =>
      line.assigned?.map fun target => (index, target)).map Prod.snd).or last =
        lastAssigned? last lines := by
  induction lines generalizing index last with
  | nil => rfl
  | cons line rest ih =>
    -- the first line stands last in the reversed list, so it counts only if no other assigns
    rw [lastAssigned?, ← ih (index + 1), List.zipIdx_cons, List.reverse_cons,
      List.findSome?_append, Option.map_or, Option.or_assoc]
    cases line <;> rfl

/-- A body that passes ends with a return, or with an assignment of the type of the result. -/
theorem checkEnd_eq_ok {lines : List Line} (h : c.checkEnd lines = .ok ()) :
    (lines.any fun line => line.kind = .unconditionalReturn) = true ∨
      ∃ target, lastAssigned? none lines = some target ∧
        c.program.ty? target = some c.resultTy := by
  rw [checkEnd] at h
  by_cases hreturn : (lines.any fun line => line.kind = .unconditionalReturn) = true
  · exact .inl hreturn
  · rw [if_neg hreturn] at h
    have hlast : (lastAssignment? lines).map Prod.snd = lastAssigned? none lines := by
      rw [← findSome?_reverse_zipIdx lines 0 none, Option.or_none]
      rfl
    cases hassignment : lastAssignment? lines with
    | none =>
      rw [hassignment] at h
      cases h
    | some assignment =>
      rw [hassignment] at h hlast
      obtain ⟨r, hr, hty⟩ := bind_eq_ok.mp h
      rw [Failure.ofViolation_eq_ok, reference_eq_ok] at hr
      exact .inr ⟨assignment.2, hlast.symm, ty?_eq_some.mpr ⟨r, hr, (expectType_eq_ok.mp hty).symm⟩⟩

end BodyCheck

/-- A body that passes the check is well typed from its parameters to the type of its result. -/
theorem linesTyped_of_checkBody {f : Function σ} {lines : List Line}
    (h : P.checkBody f lines = .ok ()) :
    ∃ ty, P.ty? f.signature.result.reference = some ty ∧
      P.LinesTyped ty f.signature.parameterIds none lines := by
  rw [checkBody, bind_eq_ok] at h
  obtain ⟨result, hresult, h⟩ := h
  obtain ⟨bound', hlines, hend⟩ := bind_eq_ok.mp h
  rw [Failure.ofViolation_eq_ok, reference_eq_ok] at hresult
  exact ⟨result.ty, ty?_eq_some.mpr ⟨result, hresult, rfl⟩,
    BodyCheck.linesTyped_of_checkLines hlines (BodyCheck.checkEnd_eq_ok hend)⟩

end Checks

end Rulebook.Program

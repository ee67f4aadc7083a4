import Rulebook.Proofs.Program.WellFormed

/-!
# Accepted bodies

Which lists of lines are accepted as a body, said by index: a line may read a literal that denotes a
value, a parameter, or a slot that a line of smaller index assigns. `Program.LineObeys` are the
rules for one line and `Program.EndObeys` is the rule for the end of the body.

The check passes lines that obey their rules and blames the first that does not
(`checkLines_passes_or_blames`); `BuildError.Blames` says which error goes with which broken rule.
So a body is accepted if and only if it obeys the rules, and a refusal names the first line that
breaks one (`setBody_accepts_iff`).
-/

namespace Rulebook

variable {σ : Type}

/-! ## The rules -/

/-- The references that a line reads: the arguments of its call, and what it returns. -/
def Line.reads : Line → List ReferenceId
  | .assign _ _ arguments => arguments
  | .returnIf target _ arguments => arguments ++ [target]
  | .ret target => [target]

namespace Program

/-- Whether some line before an index assigns a slot. -/
def AssignedBefore (lines : List Line) (index : Nat) (id : ReferenceId) : Prop :=
  ∃ j line, j < index ∧ lines[j]? = some line ∧ line.assigned? = some id

/-- Whether the line at an index of a function's body may read a reference: a literal that denotes a
value, a parameter, or a slot assigned before. -/
def MayRead (P : Program σ) (f : Function σ) (lines : List Line) (index : Nat) (id : ReferenceId) :
    Prop :=
  (∃ r v, P.reference? id = some r ∧ r.literalValue = .ok v) ∨
    id ∈ f.signature.parameterIds ∨ AssignedBefore lines index id

/-- The result type of a function, if the program has it. -/
def resultTy? (P : Program σ) (id : FunctionId) : Option Ty :=
  (P.function? id).bind fun g => P.ty? g.signature.result.reference

/-- The rules for the line at an index of a function's body. -/
structure LineObeys (P : Program σ) (f : Function σ) (lines : List Line) (index : Nat)
    (line : Line) : Prop where
  inputs : ∀ id ∈ line.inputs, ∃ r, P.reference? id = some r
  reads : ∀ id ∈ line.reads, P.MayRead f lines index id
  call : ∀ callee, line.call? = some callee → ∃ g, P.function? callee = some g ∧
    line.arguments.length = g.arity ∧
    line.arguments.map P.ty? = g.signature.parameterIds.map P.ty?
  assignment : line.kind = .assignment → ∃ r, P.reference? line.target = some r ∧
    r.isLiteral = false ∧ line.call?.bind P.resultTy? = some r.ty
  gate : line.kind = .conditionalReturn →
    line.call?.bind P.resultTy? = some (.single .boolean)
  result : line.isReturn = true → P.ty? line.target = P.ty? f.signature.result.reference

/-- The assignment at an index is the last one, and it assigns a slot. -/
def LastAssignment (lines : List Line) (index : Nat) (target : ReferenceId) : Prop :=
  (∃ line, lines[index]? = some line ∧ line.assigned? = some target) ∧
    ∀ (j : Nat) later, index < j → lines[j]? = some later → later.assigned? = none

/-- The rule for the end of a function's body: there is an unconditional return, or the slot that is
assigned last has the type of the result. -/
def EndObeys (P : Program σ) (f : Function σ) (lines : List Line) : Prop :=
  (∃ target, .ret target ∈ lines) ∨
    ∃ index target, LastAssignment lines index target ∧
      P.ty? target = P.ty? f.signature.result.reference

/-- The rules for a function's body. -/
structure BodyObeys (P : Program σ) (f : Function σ) (lines : List Line) : Prop where
  line : ∀ (index : Nat) line, lines[index]? = some line → P.LineObeys f lines index line
  ending : P.EndObeys f lines

end Program

/-- The errors that go with the rules a line breaks: each names the rule's subject as the program
has it and, unless it is a name that the program does not have, the function and the line. -/
inductive BuildError.Blames (P : Program σ) (f : Function σ) (lines : List Line) (index : Nat)
    (line : Line) : BuildError → Prop where
  | unknownReference {id} (hid : id ∈ line.inputs) (hr : P.reference? id = none) :
      Blames P f lines index line (.unknownReference id)
  | unknownFunction {callee} (hcall : line.call? = some callee) (hg : P.function? callee = none) :
      Blames P f lines index line (.unknownFunction callee)
  | arity {callee g} (hcall : line.call? = some callee) (hg : P.function? callee = some g)
      (harity : line.arguments.length ≠ g.arity) :
      Blames P f lines index line
        (.arityMismatch f.name index g.name g.arity line.arguments.length)
  | literal {id r cause} (hid : id ∈ line.reads) (hr : P.reference? id = some r)
      (hliteral : r.isLiteral = true) (hcause : r.literalValue = .error cause) :
      Blames P f lines index line (.invalidLiteral f.name index cause)
  | unbound {id r} (hid : id ∈ line.reads) (hr : P.reference? id = some r)
      (hread : ¬ P.MayRead f lines index id) :
      Blames P f lines index line (.unboundReference f.name index r.name)
  | argument {callee g given wanted} {n : Nat} {argument parameter : ReferenceId}
      (hcall : line.call? = some callee) (hg : P.function? callee = some g)
      (hargument : line.arguments[n]? = some argument)
      (hparameter : g.signature.parameterIds[n]? = some parameter)
      (hgiven : P.reference? argument = some given) (hwanted : P.ty? parameter = some wanted)
      (hty : wanted ≠ given.ty) :
      Blames P f lines index line (.typeMismatch f.name index given.name wanted given.ty)
  | destination {r} (hkind : line.kind = .assignment) (hr : P.reference? line.target = some r)
      (hliteral : r.isLiteral = true) :
      Blames P f lines index line (.literalDestination f.name index r.name)
  | assigned {r ty} (hkind : line.kind = .assignment) (hty : line.call?.bind P.resultTy? = some ty)
      (hr : P.reference? line.target = some r) (hne : ty ≠ r.ty) :
      Blames P f lines index line (.typeMismatch f.name index r.name ty r.ty)
  | gate {gate g ty} (hkind : line.kind = .conditionalReturn) (hcall : line.call? = some gate)
      (hg : P.function? gate = some g) (hty : P.resultTy? gate = some ty)
      (hne : .single .boolean ≠ ty) :
      Blames P f lines index line (.typeMismatch f.name index g.name (.single .boolean) ty)
  | returned {r ty} (hreturn : line.isReturn = true) (hr : P.reference? line.target = some r)
      (hty : P.ty? f.signature.result.reference = some ty) (hne : ty ≠ r.ty) :
      Blames P f lines index line (.typeMismatch f.name index r.name ty r.ty)

/-- The errors of a body that breaks the rule for its end. -/
inductive BuildError.BlamesEnd (P : Program σ) (f : Function σ) (lines : List Line) :
    BuildError → Prop where
  | missing (hreturn : ∀ target, .ret target ∉ lines)
      (hlines : ∀ line ∈ lines, line.assigned? = none) :
      BlamesEnd P f lines (.missingResult f.name)
  | last {index target r ty} (hreturn : ∀ target, .ret target ∉ lines)
      (hlast : Program.LastAssignment lines index target) (hr : P.reference? target = some r)
      (hty : P.ty? f.signature.result.reference = some ty) (hne : ty ≠ r.ty) :
      BlamesEnd P f lines (.typeMismatch f.name index r.name ty r.ty)

namespace Program

variable {P : Program σ} {f : Function σ} {lines : List Line} {index : Nat} {line : Line}

/-! ## The slots that are bound before a line -/

/-- The slots that the check takes to be bound before a line are those that it may read. -/
structure Bound (P : Program σ) (f : Function σ) (lines : List Line) (index : Nat)
    (bound : List ReferenceId) : Prop where
  mem_iff : ∀ id, id ∈ bound ↔ id ∈ f.signature.parameterIds ∨ AssignedBefore lines index id
  slot : ∀ id ∈ bound, ∃ r, P.reference? id = some r ∧ r.isLiteral = false

/-- A slot is assigned before the next line if this line assigns it or an earlier one does. -/
theorem assignedBefore_succ {id : ReferenceId} (hline : lines[index]? = some line) :
    AssignedBefore lines (index + 1) id ↔
      line.assigned? = some id ∨ AssignedBefore lines index id := by
  constructor
  · rintro ⟨j, earlier, hj, hearlier, hid⟩
    rcases Nat.lt_succ_iff_lt_or_eq.mp hj with hlt | rfl
    · exact .inr ⟨j, earlier, hlt, hearlier, hid⟩
    · obtain rfl := Option.some.inj (hline.symm.trans hearlier)
      exact .inl hid
  · rintro (hid | ⟨j, earlier, hj, hearlier, hid⟩)
    · exact ⟨index, line, index.lt_succ_self, hline, hid⟩
    · exact ⟨j, earlier, Nat.lt_succ_of_lt hj, hearlier, hid⟩

/-- Only a literal has a literal value. -/
theorem isLiteral_of_literalValue {r : Reference} {v : Value} (h : r.literalValue = .ok v) :
    r.isLiteral = true := by
  by_contra hliteral
  rw [Reference.literalValue, if_neg hliteral] at h
  cases h

namespace Bound

variable {bound : List ReferenceId}

/-- Before the first line, the parameters are bound. -/
theorem zero (hf : f.WellFormed P) (lines : List Line) :
    Bound P f lines 0 f.signature.parameterIds where
  mem_iff id := by simp [AssignedBefore]
  slot id hid := hf.slots id (List.mem_cons_of_mem _ hid)

/-- A line adds the slot it assigns to those that are bound. -/
theorem succ (h : Bound P f lines index bound) (hline : lines[index]? = some line)
    (hobeys : P.LineObeys f lines index line) :
    Bound P f lines (index + 1) (line.assigned?.toList ++ bound) where
  mem_iff id := by
    rw [List.mem_append, Option.mem_toList, h.mem_iff, assignedBefore_succ hline]
    exact or_left_comm
  slot id hid := by
    rcases List.mem_append.mp hid with hnew | hold
    · -- what a line assigns is no literal
      cases line with
      | assign target callee arguments =>
        obtain ⟨r, hr, hslot, -⟩ := hobeys.assignment rfl
        obtain rfl := Option.some.inj (Option.mem_toList.mp hnew)
        exact ⟨r, hr, hslot⟩
      | returnIf | ret => simp [Line.assigned?] at hnew
    · exact h.slot id hold

/-- What the check takes for readable is what the rules let a line read. -/
theorem readable_iff (h : Bound P f lines index bound) {id : ReferenceId} :
    P.Readable bound id ↔ P.MayRead f lines index id := by
  rw [MayRead, ← h.mem_iff]
  constructor
  · rintro ⟨r, hr, ⟨-, v, hv⟩ | ⟨-, hid⟩⟩
    · exact .inl ⟨r, v, hr, hv⟩
    · exact .inr hid
  · rintro (⟨r, v, hr, hv⟩ | hid)
    · exact ⟨r, hr, .inl ⟨isLiteral_of_literalValue hv, v, hv⟩⟩
    · obtain ⟨r, hr, hslot⟩ := h.slot id hid
      exact ⟨r, hr, .inr ⟨hslot, hid⟩⟩

end Bound

/-! ## A line that passes the check obeys the rules -/

namespace BodyCheck

variable {c : BodyCheck σ} {bound bound' : List ReferenceId} {ty : Ty}

/-- The check of the inputs passes if all of them are declared. -/
theorem checkInputs_eq_ok {ids : List ReferenceId} :
    c.checkInputs ids = .ok () ↔ ∀ id ∈ ids, ∃ r, c.program.reference? id = some r := by
  induction ids with
  | nil => simp [checkInputs]
  | cons id ids ih =>
    rw [checkInputs, List.forall_mem_cons]
    cases c.program.reference? id with
    | none => simp
    | some r => simpa using ih

/-- Arguments that pass have the types of the parameters, in order. -/
theorem map_ty?_of_argumentTyped {arguments parameters : List ReferenceId}
    (h : List.Forall₂ (P.ArgumentTyped bound) arguments parameters) :
    arguments.map P.ty? = parameters.map P.ty? := by
  induction h with
  | nil => rfl
  | cons hargument _ ih =>
    obtain ⟨-, ty, hty, hparameter⟩ := hargument
    rw [List.map_cons, List.map_cons, hty, hparameter, ih]

/-- Arguments that pass are readable. -/
theorem readable_of_argumentTyped {arguments parameters : List ReferenceId}
    (h : List.Forall₂ (P.ArgumentTyped bound) arguments parameters) :
    ∀ id ∈ arguments, P.Readable bound id := by
  induction h with
  | nil => exact List.forall_mem_nil _
  | cons hargument _ ih => exact List.forall_mem_cons.mpr ⟨hargument.1, ih⟩

/-- What a call that passes the check says about a line with this call. -/
theorem call_of_checkCall (hb : Bound P f lines index bound) {callee : FunctionId}
    {arguments : List ReferenceId} {g : Function σ} {given : Ty}
    (h : checkCall ⟨P, f.name, ty⟩ index bound callee arguments = .ok (g, given)) :
    (∀ id ∈ arguments, P.MayRead f lines index id) ∧ P.resultTy? callee = some given ∧
      ∃ g, P.function? callee = some g ∧ arguments.length = g.arity ∧
        arguments.map P.ty? = g.signature.parameterIds.map P.ty? := by
  obtain ⟨hg, harguments, hresult⟩ := checkCall_eq_ok.mp h
  refine ⟨fun id hid => hb.readable_iff.mp (readable_of_argumentTyped harguments id hid), ?_,
    g, hg, ?_, map_ty?_of_argumentTyped harguments⟩
  · rw [resultTy?, show P.function? callee = some g from hg]
    exact hresult
  · exact harguments.length_eq.trans g.length_parameterIds

/-- A target that passes the check of a return may be read and has the type of the result. -/
theorem returned_of_checkReturned (hb : Bound P f lines index bound)
    (hty : P.ty? f.signature.result.reference = some ty) {id : ReferenceId}
    (h : checkReturned ⟨P, f.name, ty⟩ index bound id = .ok ()) :
    P.MayRead f lines index id ∧ P.ty? id = P.ty? f.signature.result.reference := by
  obtain ⟨hread, hid⟩ := checkReturned_eq_ok.mp h
  exact ⟨hb.readable_iff.mp hread, Eq.trans hid hty.symm⟩

/-- A line that passes the check obeys the rules, and the check goes on with what it assigned. -/
theorem lineObeys_of_checkLine (hb : Bound P f lines index bound)
    (hty : P.ty? f.signature.result.reference = some ty)
    (h : checkLine ⟨P, f.name, ty⟩ index bound line = .ok bound') :
    P.LineObeys f lines index line ∧ bound' = line.assigned?.toList ++ bound := by
  cases line with
  | assign target callee arguments =>
    rw [checkLine, check_bind_eq_ok, checkInputs_eq_ok, bind_eq_ok] at h
    obtain ⟨hinputs, ⟨g, given⟩, hcall, h⟩ := h
    rw [check_bind_eq_ok, checkDestination_eq_ok] at h
    obtain ⟨⟨r, hr, hslot, rfl⟩, ⟨⟩⟩ := h
    obtain ⟨hreads, hresult, hagrees⟩ := call_of_checkCall hb hcall
    exact ⟨{
      inputs := hinputs
      reads := hreads
      call := by
        rintro _ ⟨⟩
        exact hagrees
      assignment := fun _ => ⟨r, hr, hslot, hresult⟩
      gate := by rintro ⟨⟩
      result := by rintro ⟨⟩ }, rfl⟩
  | returnIf target gate arguments =>
    rw [checkLine, check_bind_eq_ok, checkInputs_eq_ok, bind_eq_ok] at h
    obtain ⟨hinputs, ⟨g, given⟩, hcall, h⟩ := h
    rw [check_bind_eq_ok, expectType_eq_ok, check_bind_eq_ok] at h
    obtain ⟨rfl, hreturned, ⟨⟩⟩ := h
    obtain ⟨hreads, hresult, hagrees⟩ := call_of_checkCall hb hcall
    obtain ⟨hread, htarget⟩ := returned_of_checkReturned hb hty hreturned
    exact ⟨{
      inputs := hinputs
      reads := List.forall_mem_append.mpr ⟨hreads, List.forall_mem_singleton.mpr hread⟩
      call := by
        rintro _ ⟨⟩
        exact hagrees
      assignment := by rintro ⟨⟩
      gate := fun _ => hresult
      result := fun _ => htarget }, rfl⟩
  | ret target =>
    rw [checkLine, check_bind_eq_ok, checkInputs_eq_ok, check_bind_eq_ok] at h
    obtain ⟨hinputs, hreturned, ⟨⟩⟩ := h
    obtain ⟨hread, htarget⟩ := returned_of_checkReturned hb hty hreturned
    exact ⟨{
      inputs := hinputs
      reads := List.forall_mem_singleton.mpr hread
      call := by rintro _ ⟨⟩
      assignment := by rintro ⟨⟩
      gate := by rintro ⟨⟩
      result := fun _ => htarget }, rfl⟩

/-! ## A line that does not pass breaks a rule -/

/-- An expected type is refused only if another one was found. -/
theorem expectType_eq_error {name : String} {expected found : Ty} {e : Failure BuildError}
    (h : c.expectType index name expected found = .error e) :
    expected ≠ found ∧ e = .error (.typeMismatch c.function index name expected found) := by
  rw [expectType] at h
  by_cases heq : expected = found
  · rw [if_pos heq] at h
    cases h
  · rw [if_neg heq, Except.error.injEq] at h
    exact ⟨heq, h.symm⟩

/-- The check of the inputs fails at an input that is not declared. -/
theorem checkInputs_eq_error {ids : List ReferenceId} {e : Failure BuildError}
    (h : c.checkInputs ids = .error e) :
    ∃ id ∈ ids, c.program.reference? id = none ∧ e = .error (.unknownReference id) := by
  induction ids with
  | nil => cases h
  | cons id ids ih =>
    rw [checkInputs] at h
    cases hr : c.program.reference? id with
    | none =>
      rw [hr, Except.error.injEq] at h
      exact ⟨id, List.mem_cons_self, hr, h.symm⟩
    | some r =>
      rw [hr] at h
      obtain ⟨id', hid', hfound⟩ := ih h
      exact ⟨id', List.mem_cons_of_mem _ hid', hfound⟩

/-- The check of the arguments fails as it does at one of them. -/
theorem checkArguments_eq_error {arguments parameters : List ReferenceId} {e : Failure BuildError}
    (h : c.checkArguments index bound arguments parameters = .error e) :
    ∃ (n : Nat) (argument parameter : ReferenceId), arguments[n]? = some argument ∧
      parameters[n]? = some parameter ∧
      c.checkArgument index bound argument parameter = .error e := by
  induction arguments generalizing parameters with
  | nil => cases h
  | cons argument arguments ih =>
    cases parameters with
    | nil => cases h
    | cons parameter parameters =>
      rw [checkArguments, bind_eq_error] at h
      rcases h with h | ⟨-, -, h⟩
      · exact ⟨0, argument, parameter, rfl, rfl, h⟩
      · obtain ⟨n, argument', parameter', hargument, hparameter, h⟩ := ih h
        exact ⟨n + 1, argument', parameter', hargument, hparameter, h⟩

/-- A refused read is blamed on the line with a rule that the line breaks. -/
theorem blames_of_checkRead (hb : Bound P f lines index bound) {id : ReferenceId}
    (hid : id ∈ line.reads) {r : Reference} (hr : P.reference? id = some r) {e : Failure BuildError}
    (h : checkRead ⟨P, f.name, ty⟩ index bound id = .error e) :
    ∃ x, e = .error x ∧ x.Blames P f lines index line := by
  rw [checkRead, reference_bind hr] at h
  cases hliteral : r.isLiteral with
  | true =>
    rw [hliteral, if_pos rfl] at h
    cases hvalue : r.literalValue with
    | ok v =>
      rw [hvalue] at h
      cases h
    | error cause =>
      rw [hvalue] at h
      cases h
      exact ⟨_, rfl, .literal hid hr hliteral hvalue⟩
  | false =>
    rw [hliteral, if_neg Bool.false_ne_true] at h
    by_cases hbound : id ∈ bound
    · rw [if_pos hbound] at h
      cases h
    · rw [if_neg hbound] at h
      cases h
      refine ⟨_, rfl, .unbound hid hr fun hread => hbound ?_⟩
      -- what may be read and is no literal is bound
      obtain ⟨r', hr', ⟨hliteral', -⟩ | ⟨-, hid⟩⟩ := hb.readable_iff.mpr hread
      · obtain rfl := Option.some.inj (hr.symm.trans hr')
        rw [hliteral] at hliteral'
        cases hliteral'
      · exact hid

/-- A refused return is blamed on the line with a rule that the line breaks. -/
theorem blames_of_checkReturned (line : Line) (hb : Bound P f lines index bound)
    (hty : P.ty? f.signature.result.reference = some ty) (hreturn : line.isReturn = true)
    (hid : line.target ∈ line.reads) (hinputs : ∀ id ∈ line.inputs, ∃ r, P.reference? id = some r)
    {e : Failure BuildError}
    (h : checkReturned ⟨P, f.name, ty⟩ index bound line.target = .error e) :
    ∃ x, e = .error x ∧ x.Blames P f lines index line := by
  obtain ⟨r, hr⟩ := hinputs line.target List.mem_cons_self
  rw [checkReturned, bind_eq_error] at h
  rcases h with h | ⟨-, -, h⟩
  · exact blames_of_checkRead hb hid hr h
  · rw [reference_bind hr] at h
    obtain ⟨hne, rfl⟩ := expectType_eq_error h
    exact ⟨_, rfl, .returned hreturn hr hty hne⟩

/-- A refused call is blamed on the line with a rule that the line breaks. -/
theorem blames_of_checkCall (hP : P.WellFormed) (line : Line) (hb : Bound P f lines index bound)
    {callee : FunctionId} (hcall : line.call? = some callee)
    (hreads : ∀ id ∈ line.arguments, id ∈ line.reads)
    (hinputs : ∀ id ∈ line.inputs, ∃ r, P.reference? id = some r) {e : Failure BuildError}
    (h : checkCall ⟨P, f.name, ty⟩ index bound callee line.arguments = .error e) :
    ∃ x, e = .error x ∧ x.Blames P f lines index line := by
  rw [checkCall] at h
  cases hg : P.function? callee with
  | none =>
    rw [hg] at h
    cases h
    exact ⟨_, rfl, .unknownFunction hcall hg⟩
  | some g =>
    rw [hg] at h
    dsimp only at h
    by_cases harity : line.arguments.length = g.arity
    · rw [if_pos harity, bind_eq_error] at h
      rcases h with h | ⟨-, -, h⟩
      · obtain ⟨n, argument, parameter, hargument, hparameter, h⟩ := checkArguments_eq_error h
        have hmem : argument ∈ line.arguments := List.mem_of_getElem? hargument
        have hslot : parameter ∈ g.signature.references :=
          List.mem_cons_of_mem _ (List.mem_of_getElem? hparameter)
        obtain ⟨given, hgiven⟩ := hinputs argument (List.mem_cons_of_mem _ hmem)
        obtain ⟨wanted, hwanted, -⟩ := (hP callee g hg).slots parameter hslot
        rw [checkArgument, bind_eq_error] at h
        rcases h with h | ⟨-, -, h⟩
        · exact blames_of_checkRead hb (hreads argument hmem) hgiven h
        · rw [reference_bind hgiven, reference_bind hwanted] at h
          obtain ⟨hne, rfl⟩ := expectType_eq_error h
          have hwantedTy : P.ty? parameter = some wanted.ty :=
            ty?_eq_some.mpr ⟨wanted, hwanted, rfl⟩
          exact ⟨_, rfl, .argument hcall hg hargument hparameter hgiven hwantedTy hne⟩
      · -- the result slot of a function is there
        obtain ⟨r, hr, -⟩ := (hP callee g hg).slots _ List.mem_cons_self
        rw [reference_bind hr] at h
        cases h
    · rw [if_neg harity] at h
      cases h
      exact ⟨_, rfl, .arity hcall hg harity⟩

/-- A line that does not pass the check breaks a rule, and the error says which. -/
theorem blames_of_checkLine (hP : P.WellFormed) (hb : Bound P f lines index bound)
    (hty : P.ty? f.signature.result.reference = some ty) {e : Failure BuildError}
    (h : checkLine ⟨P, f.name, ty⟩ index bound line = .error e) :
    ∃ x, e = .error x ∧ x.Blames P f lines index line := by
  rw [checkLine.eq_def, bind_eq_error] at h
  rcases h with h | ⟨⟨⟩, hinputs, h⟩
  · obtain ⟨id, hid, hr, rfl⟩ := checkInputs_eq_error h
    exact ⟨_, rfl, .unknownReference hid hr⟩
  rw [checkInputs_eq_ok] at hinputs
  cases line with
  | assign target callee arguments =>
    rw [bind_eq_error] at h
    rcases h with h | ⟨⟨g, given⟩, hcall, h⟩
    · exact blames_of_checkCall hP (.assign target callee arguments) hb rfl
        (fun _ hid => hid) hinputs h
    · obtain ⟨-, hresult, -⟩ := call_of_checkCall hb hcall
      obtain ⟨r, hr⟩ := hinputs target List.mem_cons_self
      rw [bind_eq_error] at h
      rcases h with h | ⟨-, -, h⟩
      · rw [checkDestination, reference_bind hr] at h
        cases hliteral : r.isLiteral with
        | true =>
          rw [hliteral, if_pos rfl] at h
          cases h
          exact ⟨_, rfl, .destination rfl hr hliteral⟩
        | false =>
          rw [hliteral, if_neg Bool.false_ne_true] at h
          obtain ⟨hne, rfl⟩ := expectType_eq_error h
          exact ⟨_, rfl, .assigned rfl hresult hr hne⟩
      · cases h
  | returnIf target gate arguments =>
    rw [bind_eq_error] at h
    rcases h with h | ⟨⟨g, given⟩, hcall, h⟩
    · exact blames_of_checkCall hP (.returnIf target gate arguments) hb rfl
        (fun _ hid => List.mem_append_left _ hid) hinputs h
    · obtain ⟨-, hresult, -⟩ := call_of_checkCall hb hcall
      obtain ⟨hg, -⟩ := checkCall_eq_ok.mp hcall
      rw [bind_eq_error] at h
      rcases h with h | ⟨-, -, h⟩
      · obtain ⟨hne, rfl⟩ := expectType_eq_error h
        exact ⟨_, rfl, .gate rfl rfl hg hresult hne⟩
      · rw [bind_eq_error] at h
        rcases h with h | ⟨-, -, h⟩
        · exact blames_of_checkReturned (.returnIf target gate arguments) hb hty rfl
            (List.mem_append_right _ (List.mem_singleton_self target)) hinputs h
        · cases h
  | ret target =>
    rw [bind_eq_error] at h
    rcases h with h | ⟨-, -, h⟩
    · exact blames_of_checkReturned (.ret target) hb hty rfl
        (List.mem_singleton_self target) hinputs h
    · cases h

end BodyCheck

/-- What an error blames a line for is a rule that the line breaks. -/
theorem not_lineObeys_of_blames {bound : List ReferenceId} (hb : Bound P f lines index bound)
    {x : BuildError} (hx : x.Blames P f lines index line) : ¬ P.LineObeys f lines index line := by
  intro h
  cases hx with
  | unknownReference hid hr =>
    obtain ⟨r, hr'⟩ := h.inputs _ hid
    cases hr.symm.trans hr'
  | unknownFunction hcall hg =>
    obtain ⟨g, hg', -⟩ := h.call _ hcall
    cases hg.symm.trans hg'
  | arity hcall hg harity =>
    obtain ⟨g, hg', hlength, -⟩ := h.call _ hcall
    obtain rfl := Option.some.inj (hg.symm.trans hg')
    exact harity hlength
  | literal hid hr hliteral hcause =>
    obtain ⟨r, hr', hread⟩ := hb.readable_iff.mpr (h.reads _ hid)
    obtain rfl := Option.some.inj (hr.symm.trans hr')
    rcases hread with ⟨-, v, hv⟩ | ⟨hslot, -⟩
    · cases hcause.symm.trans hv
    · cases hliteral.symm.trans hslot
  | unbound hid hr hread => exact hread (h.reads _ hid)
  | @argument _ _ _ _ n _ _ hcall hg hargument hparameter hgiven hwanted hty =>
    obtain ⟨g, hg', -, hmap⟩ := h.call _ hcall
    obtain rfl := Option.some.inj (hg.symm.trans hg')
    -- the types of the argument and of the parameter stand at the same place of the same list
    have htypes := congrArg (fun types => types[n]?) hmap
    have hgivenTy := ty?_eq_some.mpr ⟨_, hgiven, rfl⟩
    simp only [List.getElem?_map, hargument, hparameter, Option.map_some, hgivenTy, hwanted,
      Option.some.injEq] at htypes
    exact hty htypes.symm
  | destination hkind hr hliteral =>
    obtain ⟨r, hr', hslot, -⟩ := h.assignment hkind
    obtain rfl := Option.some.inj (hr.symm.trans hr')
    cases hliteral.symm.trans hslot
  | assigned hkind hty hr hne =>
    obtain ⟨r, hr', -, hty'⟩ := h.assignment hkind
    obtain rfl := Option.some.inj (hr.symm.trans hr')
    exact hne (Option.some.inj (hty.symm.trans hty'))
  | gate hkind hcall hg hty hne =>
    have hgate := h.gate hkind
    rw [hcall, Option.bind_some, hty] at hgate
    exact hne (Option.some.inj hgate).symm
  | returned hreturn hr hty hne =>
    have hresult := h.result hreturn
    rw [hty, ty?_eq_some] at hresult
    obtain ⟨r, hr', hty'⟩ := hresult
    obtain rfl := Option.some.inj (hr.symm.trans hr')
    exact hne hty'.symm

/-! ## The lines of a body -/

/-- From an index on, either every line obeys the rules and passes, or the first line that does not
is blamed. -/
theorem checkLines_passes_or_blames (hP : P.WellFormed) {ty : Ty}
    (hty : P.ty? f.signature.result.reference = some ty) {rest : List Line}
    (hrest : lines.drop index = rest) {bound : List ReferenceId}
    (hb : Bound P f lines index bound) :
    (∃ bound', BodyCheck.checkLines ⟨P, f.name, ty⟩ index bound rest = .ok bound' ∧
      ∀ (n : Nat) line, index ≤ n → lines[n]? = some line → P.LineObeys f lines n line) ∨
    ∃ (n : Nat) (line : Line) (x : BuildError), lines[n]? = some line ∧
      BodyCheck.checkLines ⟨P, f.name, ty⟩ index bound rest = .error (.error x) ∧
      x.Blames P f lines n line ∧ ¬ P.LineObeys f lines n line ∧
      ∀ (j : Nat) earlier, index ≤ j → j < n → lines[j]? = some earlier →
        P.LineObeys f lines j earlier := by
  induction rest generalizing index bound with
  | nil =>
    refine .inl ⟨bound, rfl, fun n line hn hline => ?_⟩
    -- no line is left from the index on
    have hlength : lines.length ≤ index := List.drop_eq_nil_iff.mp hrest
    have hlt : n < lines.length := (List.getElem?_eq_some_iff.mp hline).1
    omega
  | cons line rest ih =>
    obtain ⟨hline, hdrop⟩ := Line.of_drop_eq_cons hrest
    rw [BodyCheck.checkLines]
    cases hcheck : BodyCheck.checkLine ⟨P, f.name, ty⟩ index bound line with
    | error e =>
      obtain ⟨x, rfl, hx⟩ := BodyCheck.blames_of_checkLine hP hb hty hcheck
      refine .inr ⟨index, line, x, hline, rfl, hx, not_lineObeys_of_blames hb hx, ?_⟩
      intro j _ hj hlt
      omega
    | ok bound' =>
      obtain ⟨hobeys, rfl⟩ := BodyCheck.lineObeys_of_checkLine hb hty hcheck
      -- the line itself obeys, and the rest goes on from the slots bound after it
      have hfirst : ∀ (j : Nat) earlier, (index + 1 ≤ j → P.LineObeys f lines j earlier) →
          index ≤ j → lines[j]? = some earlier → P.LineObeys f lines j earlier := by
        intro j earlier hlater hj hearlier
        rcases Nat.eq_or_lt_of_le hj with rfl | hlt
        · rw [hline, Option.some.injEq] at hearlier
          exact hearlier ▸ hobeys
        · exact hlater hlt
      rcases ih hdrop (hb.succ hline hobeys) with ⟨bound', hpass, hall⟩ |
        ⟨n, l, x, hl, hfail, hx, hnot, hall⟩
      · exact .inl ⟨bound', hpass, fun n l hn hl => hfirst n l (fun hlt => hall n l hlt hl) hn hl⟩
      · refine .inr ⟨n, l, x, hl, hfail, hx, hnot, fun j earlier hj hlt hearlier => ?_⟩
        exact hfirst j earlier (fun hle => hall j earlier hle hlt hearlier) hj hearlier

/-! ## The end of a body -/

/-- There is at most one last assignment. -/
theorem LastAssignment.unique {i j : Nat} {s t : ReferenceId} (h : LastAssignment lines i s)
    (h' : LastAssignment lines j t) : i = j ∧ s = t := by
  obtain ⟨⟨line, hline, hs⟩, hlast⟩ := h
  obtain ⟨⟨line', hline', ht⟩, hlast'⟩ := h'
  -- neither of the two lines is behind the other
  rcases Nat.lt_trichotomy i j with hlt | rfl | hlt
  · cases (hlast j line' hlt hline').symm.trans ht
  · obtain rfl := Option.some.inj (hline.symm.trans hline')
    exact ⟨rfl, Option.some.inj (hs.symm.trans ht)⟩
  · cases (hlast' i line hlt hline).symm.trans hs

/-- The last assignment is the last line if that assigns, and is among those before otherwise. -/
theorem lastAssignment?_append_singleton (lines : List Line) (line : Line) :
    BodyCheck.lastAssignment? (lines ++ [line]) =
      (line.assigned?.map fun target => (lines.length, target)).or
        (BodyCheck.lastAssignment? lines) := by
  rw [BodyCheck.lastAssignment?, List.zipIdx_append, List.reverse_append, List.findSome?_append,
    Nat.zero_add]
  cases line <;> rfl

/-- The search for the last assignment finds it, or there is none. -/
theorem lastAssignment?_spec (lines : List Line) :
    (∃ index target, BodyCheck.lastAssignment? lines = some (index, target) ∧
      LastAssignment lines index target) ∨
    BodyCheck.lastAssignment? lines = none ∧ ∀ line ∈ lines, line.assigned? = none := by
  induction lines using List.reverseRecOn with
  | nil => exact .inr ⟨rfl, List.forall_mem_nil _⟩
  | append_singleton lines line ih =>
    rw [lastAssignment?_append_singleton]
    cases hline : line.assigned? with
    | some target =>
      refine .inl ⟨lines.length, target, rfl, ⟨line, List.getElem?_concat_length, hline⟩, ?_⟩
      intro j later hj hlater
      have hlt := (List.getElem?_eq_some_iff.mp hlater).1
      rw [List.length_append, List.length_singleton] at hlt
      omega
    | none =>
      rw [Option.map_none, Option.none_or]
      rcases ih with ⟨index, target, hfind, ⟨l, hl, htarget⟩, hlast⟩ | ⟨hfind, hnone⟩
      · have hindex : index < lines.length := (List.getElem?_eq_some_iff.mp hl).1
        refine .inl ⟨index, target, hfind, ⟨l, ?_, htarget⟩, fun j later hj hlater => ?_⟩
        · rw [List.getElem?_append_left hindex, hl]
        · rcases Nat.lt_or_ge j lines.length with hlt | hge
          · rw [List.getElem?_append_left hlt] at hlater
            exact hlast j later hj hlater
          · -- behind the other lines there is the last one only
            rw [List.getElem?_append_right hge] at hlater
            have hmem := List.mem_of_getElem? hlater
            rw [List.mem_singleton] at hmem
            rw [hmem, hline]
      · refine .inr ⟨hfind, List.forall_mem_append.mpr ⟨hnone, ?_⟩⟩
        exact List.forall_mem_singleton.mpr hline

/-- Some line is an unconditional return if the lines have a plain one. -/
theorem any_unconditionalReturn (lines : List Line) :
    (lines.any fun line => line.kind = .unconditionalReturn) = true ↔
      ∃ target, .ret target ∈ lines := by
  rw [List.any_eq_true]
  constructor
  · rintro ⟨line, hline, hkind⟩
    cases line with
    | ret target => exact ⟨target, hline⟩
    | assign | returnIf => simp [Line.kind] at hkind
  · rintro ⟨target, htarget⟩
    exact ⟨.ret target, htarget, rfl⟩

/-- A body whose end is blamed breaks the rules for the end. -/
theorem not_endObeys_of_blamesEnd {x : BuildError} (hx : x.BlamesEnd P f lines) :
    ¬ P.EndObeys f lines := by
  rintro (⟨target, htarget⟩ | ⟨index, target, hlast, htarget⟩)
  · cases hx with
    | missing hreturn | last hreturn => exact hreturn target htarget
  · cases hx with
    | missing _ hnone =>
      obtain ⟨⟨line, hline, hassigned⟩, -⟩ := hlast
      cases (hnone line (List.mem_of_getElem? hline)).symm.trans hassigned
    | last _ hlast' hr hty hne =>
      obtain ⟨rfl, rfl⟩ := hlast.unique hlast'
      rw [hty, ty?_eq_some] at htarget
      obtain ⟨r, hr', hty'⟩ := htarget
      obtain rfl := Option.some.inj (hr.symm.trans hr')
      exact hne hty'.symm

/-- If every line obeys the rules, the end does so and passes, or it is blamed. -/
theorem checkEnd_passes_or_blames {ty : Ty} (hty : P.ty? f.signature.result.reference = some ty)
    (hlines : ∀ (index : Nat) line, lines[index]? = some line → P.LineObeys f lines index line) :
    BodyCheck.checkEnd ⟨P, f.name, ty⟩ lines = .ok () ∧ P.EndObeys f lines ∨
    ∃ x : BuildError, BodyCheck.checkEnd ⟨P, f.name, ty⟩ lines = .error (.error x) ∧
      x.BlamesEnd P f lines := by
  rw [BodyCheck.checkEnd]
  by_cases hreturn : (lines.any fun line => line.kind = .unconditionalReturn) = true
  · rw [if_pos hreturn]
    exact .inl ⟨rfl, .inl ((any_unconditionalReturn lines).mp hreturn)⟩
  rw [if_neg hreturn]
  rw [any_unconditionalReturn, not_exists] at hreturn
  rcases lastAssignment?_spec lines with ⟨index, target, hfind, hlast⟩ | ⟨hfind, hnone⟩
  · -- the slot is there, since the line that assigns it obeys the rules
    obtain ⟨⟨line, hline, htarget⟩, -⟩ := id hlast
    have hassignment : line.kind = .assignment ∧ line.target = target := by
      cases line with
      | assign => exact ⟨rfl, Option.some.inj htarget⟩
      | returnIf | ret => cases htarget
    obtain ⟨r, hr, -⟩ := (hlines index line hline).assignment hassignment.1
    rw [hassignment.2] at hr
    rw [hfind]
    dsimp only
    rw [reference_bind hr, BodyCheck.expectType]
    by_cases hne : ty = r.ty
    · rw [if_pos hne]
      refine .inl ⟨rfl, .inr ⟨index, target, hlast, ?_⟩⟩
      rw [hty, hne, ty?_eq_some]
      exact ⟨r, hr, rfl⟩
    · rw [if_neg hne]
      exact .inr ⟨_, rfl, .last hreturn hlast hr hty hne⟩
  · rw [hfind]
    exact .inr ⟨_, rfl, .missing hreturn hnone⟩

/-! ## The whole body -/

/-- A refusal is about the first line that breaks a rule, or about the end of a body whose lines all
obey. -/
def Refuses (P : Program σ) (f : Function σ) (lines : List Line) (x : BuildError) : Prop :=
  (∃ (index : Nat) (line : Line), lines[index]? = some line ∧ x.Blames P f lines index line ∧
    ¬ P.LineObeys f lines index line ∧
    ∀ (j : Nat) earlier, j < index → lines[j]? = some earlier → P.LineObeys f lines j earlier) ∨
  (∀ (index : Nat) line, lines[index]? = some line → P.LineObeys f lines index line) ∧
    x.BlamesEnd P f lines ∧ ¬ P.EndObeys f lines

/-- A body that is refused breaks the rules. -/
theorem Refuses.not_bodyObeys {x : BuildError} (h : P.Refuses f lines x) :
    ¬ P.BodyObeys f lines := by
  rintro ⟨hlines, hend⟩
  rcases h with ⟨index, line, hline, -, hnot, -⟩ | ⟨-, -, hnot⟩
  · exact hnot (hlines index line hline)
  · exact hnot hend

/-- The check of a body either passes, and the body obeys the rules, or refuses it with the first
rule that it breaks. -/
theorem checkBody_passes_or_refuses (hP : P.WellFormed) {id : FunctionId}
    (hf : P.function? id = some f) (lines : List Line) :
    P.checkBody f lines = .ok () ∧ P.BodyObeys f lines ∨
    ∃ x, P.checkBody f lines = .error (.error x) ∧ P.Refuses f lines x := by
  obtain ⟨result, hresult, -⟩ := (hP id f hf).slots _ List.mem_cons_self
  have hty : P.ty? f.signature.result.reference = some result.ty :=
    ty?_eq_some.mpr ⟨result, hresult, rfl⟩
  rw [checkBody, reference_bind hresult]
  rcases checkLines_passes_or_blames hP hty lines.drop_zero (Bound.zero (hP id f hf) lines) with
    ⟨bound', hpass, hlines⟩ | ⟨index, line, x, hline, hfail, hx, hnot, hearlier⟩
  · have hlines : ∀ (n : Nat) line, lines[n]? = some line → P.LineObeys f lines n line :=
      fun n line hline => hlines n line n.zero_le hline
    dsimp only
    rw [hpass]
    rcases checkEnd_passes_or_blames hty hlines with ⟨hpass, hend⟩ | ⟨x, hfail, hx⟩
    · exact .inl ⟨hpass, hlines, hend⟩
    · exact .inr ⟨x, hfail, .inr ⟨hlines, hx, not_endObeys_of_blamesEnd hx⟩⟩
  · dsimp only
    rw [hfail]
    refine .inr ⟨x, rfl, .inl ⟨index, line, hline, hx, hnot, fun j earlier hj => ?_⟩⟩
    exact hearlier j earlier j.zero_le hj

/-- A body is accepted for a declared function of a built program if and only if every line obeys
the rules for lines, and the body the rule for its end. One that is not is refused with an error and
changes nothing, and the error is about the first line that breaks a rule, if there is one. -/
theorem setBody_accepts_iff (edits : List (Edit σ)) (id : FunctionId) (f : Function σ)
    (lines : List Line) (hf : (ofEdits edits).function? id = some f)
    (hnative : f.isNative = false) :
    let P := ofEdits edits
    ((∃ P', Build.setBody id lines P = .ok () P') ↔ P.BodyObeys f lines) ∧
    (¬ P.BodyObeys f lines →
      ∃ x, Build.setBody id lines P = .error (.error x) P ∧ P.Refuses f lines x) := by
  intro P
  have hset : Build.setBody id lines P = _ := Edit.setBody_eq lines hf hnative
  rw [hset]
  rcases checkBody_passes_or_refuses (ofEdits_wellFormed edits) hf lines with
    ⟨hpass, hobeys⟩ | ⟨x, hfail, hrefuses⟩
  · rw [hpass]
    exact ⟨⟨fun _ => hobeys, fun _ => ⟨_, rfl⟩⟩, fun hnot => absurd hobeys hnot⟩
  · rw [hfail]
    refine ⟨⟨?_, fun hobeys => absurd hobeys hrefuses.not_bodyObeys⟩, fun _ => ⟨x, rfl, hrefuses⟩⟩
    rintro ⟨P', ⟨⟩⟩

end Program

namespace Settle

/-- The lines of `settle` are accepted once both functions are declared, so they obey the rules. -/
theorem lines_obey :
    let P := Program.ofEdits (declarations : List (Edit Unit))
    let f : Function Unit := ⟨"settle", signature, .lines [], false⟩
    P.function? ⟨1⟩ = some f ∧ f.isNative = false ∧
    Build.setBody ⟨1⟩ lines P = .ok () program ∧ P.BodyObeys f lines := by
  have hf : (Program.ofEdits (declarations : List (Edit Unit))).function? ⟨1⟩ =
      some ⟨"settle", signature, .lines [], false⟩ := rfl
  have hset : Build.setBody ⟨1⟩ lines (Program.ofEdits (declarations : List (Edit Unit))) =
      .ok () program := by
    rw [Edit.setBody_eq lines hf rfl]
    rfl
  exact ⟨hf, rfl, hset,
    (Program.setBody_accepts_iff declarations ⟨1⟩ _ lines hf rfl).1.mp ⟨_, hset⟩⟩

example : Build.setBody ⟨1⟩ [.ret ⟨1⟩, .ret ⟨2⟩] (programWith [] : Program Unit) =
    .error (.error (.unboundReference "settle" 1 "b")) (programWith []) := rfl

end Settle

end Rulebook

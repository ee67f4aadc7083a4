import Rulebook.Proofs.Eval.Ensures

/-!
# Plain evaluation

What an invocation means without a memo and without a depth limit: `PlainEval P i n o` says that
the evaluation of `i` by the rules of the lines alone ends with the outcome `o`, and that its calls
are nested `n` deep. Evaluations that never end have no outcome.

If the functions of the host are pure, an invocation has at most one outcome and one height
(`PlainEval.unique`).
-/

namespace Rulebook

variable {σ : Type}

/-! ## Pure functions of the host -/

/-- A function of the host is pure if its outcome depends on its arguments only. -/
def Native.IsPure (run : Native σ) : Prop :=
  ∀ arguments host host', (run arguments host).1 = (run arguments host').1

/-- Every function that the host supplies to a program is pure. -/
def Program.NativesPure (P : Program σ) : Prop :=
  ∀ id f run, P.function? id = some f → f.body = .native run → run.IsPure

/-! ## The rules -/

open Eval

mutual

/-- The plain evaluation of an invocation ends with an outcome and has a height. The height of a
function of the host is 0, and so is that of a body that calls nothing. -/
inductive PlainEval (P : Program σ) :
    Invocation → Nat → Except (Failure EvalError) Value → Prop where
  | unknown {i : Invocation} (hf : P.function? i.function = none) :
      PlainEval P i 0 (.error (.error (.unknownFunction i.function)))
  | arity {i : Invocation} {f} (hf : P.function? i.function = some f)
      (hi : f.arity ≠ i.arguments.length) :
      PlainEval P i 0 (.error (.error (.arityMismatch f.name f.arity i.arguments.length)))
  | native {i : Invocation} {f run} (hf : P.function? i.function = some f)
      (hi : f.arity = i.arguments.length) (hbody : f.body = .native run) (host : σ) :
      PlainEval P i 0 (Failure.ofViolation (run i.arguments host).1)
  | lines {i : Invocation} {f lines n o} (hf : P.function? i.function = some f)
      (hi : f.arity = i.arguments.length) (hbody : f.body = .lines lines)
      (hlines : PlainLines P f lines (Frame.ofArguments f.signature.parameterIds i.arguments)
        none n o) :
      PlainEval P i n o

/-- The call of a line, with the height that it gives the body: one more than its own if there is
an evaluation at all, else 0. -/
inductive PlainCall (P : Program σ) :
    Function σ → Frame → FunctionId → List ReferenceId → Nat →
      Except (Failure EvalError) Value → Prop where
  | unreadable {f frame callee arguments e}
      (hread : resolveAll P f frame arguments = .error e) :
      PlainCall P f frame callee arguments 0 (.error e)
  | error {f frame callee arguments values v}
      (hread : resolveAll P f frame arguments = .ok values)
      (hfind : values.find? Value.isError = some v) :
      PlainCall P f frame callee arguments 0 (.ok v)
  | call {f frame callee arguments values n o}
      (hread : resolveAll P f frame arguments = .ok values)
      (hfind : values.find? Value.isError = none) (hcall : PlainEval P ⟨callee, values⟩ n o) :
      PlainCall P f frame callee arguments (n + 1) o

/-- The lines that are left of a body, run in a frame after an assignment of `last`. -/
inductive PlainLines (P : Program σ) :
    Function σ → List Line → Frame → Option Value → Nat →
      Except (Failure EvalError) Value → Prop where
  | last {f frame v} : PlainLines P f [] frame (some v) 0 (.ok v)
  | missing {f frame} : PlainLines P f [] frame none 0 (.error (.error (.missingResult f.name)))
  | assign {f target callee arguments rest frame last v m n o}
      (hcall : PlainCall P f frame callee arguments m (.ok v))
      (hrest : PlainLines P f rest (frame.bind target v) (some v) n o) :
      PlainLines P f (.assign target callee arguments :: rest) frame last (max m n) o
  | assignError {f target callee arguments rest frame last m e}
      (hcall : PlainCall P f frame callee arguments m (.error e)) :
      PlainLines P f (.assign target callee arguments :: rest) frame last m (.error e)
  | gateError {f target gate arguments rest frame last m e}
      (hcall : PlainCall P f frame gate arguments m (.error e)) :
      PlainLines P f (.returnIf target gate arguments :: rest) frame last m (.error e)
  | gateAnswersError {f target gate arguments rest frame last m v}
      (hcall : PlainCall P f frame gate arguments m (.ok v)) (hv : v.isError = true) :
      PlainLines P f (.returnIf target gate arguments :: rest) frame last m (.ok v)
  | gateStuck {f target gate arguments rest frame last m v e}
      (hcall : PlainCall P f frame gate arguments m (.ok v)) (hv : v.isError = false)
      (hgate : isOpen P f gate v = .error e) :
      PlainLines P f (.returnIf target gate arguments :: rest) frame last m (.error e)
  | gateOpen {f target gate arguments rest frame last m v}
      (hcall : PlainCall P f frame gate arguments m (.ok v)) (hv : v.isError = false)
      (hgate : isOpen P f gate v = .ok true) :
      PlainLines P f (.returnIf target gate arguments :: rest) frame last m
        (resolve P f frame target)
  | gateClosed {f target gate arguments rest frame last m n v o}
      (hcall : PlainCall P f frame gate arguments m (.ok v)) (hv : v.isError = false)
      (hgate : isOpen P f gate v = .ok false) (hrest : PlainLines P f rest frame last n o) :
      PlainLines P f (.returnIf target gate arguments :: rest) frame last (max m n) o
  | ret {f target rest frame last} :
      PlainLines P f (.ret target :: rest) frame last 0 (resolve P f frame target)

end

/-! ## Reading the rules backwards -/

section Inversion

variable {P : Program σ} {i : Invocation} {f : Function σ} {frame : Frame} {callee : FunctionId}
variable {arguments : List ReferenceId} {values : List Value} {n : Nat}
variable {o : Except (Failure EvalError) Value}

/-- The plain outcome of an invocation without a function is that the function is unknown. -/
theorem PlainEval.of_unknown (h : PlainEval P i n o) (hf : P.function? i.function = none) :
    n = 0 ∧ o = .error (.error (.unknownFunction i.function)) := by
  cases h <;> simp_all

/-- The plain outcome of an invocation with too many or too few arguments is the mismatch. -/
theorem PlainEval.of_arity (h : PlainEval P i n o) (hf : P.function? i.function = some f)
    (hi : f.arity ≠ i.arguments.length) :
    n = 0 ∧ o = .error (.error (.arityMismatch f.name f.arity i.arguments.length)) := by
  cases h <;> simp_all

/-- The plain outcome of a native body is its result in some state of the host, at height 0. -/
theorem PlainEval.of_native {run : Native σ} (h : PlainEval P i n o)
    (hf : P.function? i.function = some f) (hi : f.arity = i.arguments.length)
    (hbody : f.body = .native run) :
    n = 0 ∧ ∃ host, o = Failure.ofViolation (run i.arguments host).1 := by
  cases h with
  | native hf' _ hbody' host =>
    obtain rfl := Option.some.inj (hf.symm.trans hf')
    obtain rfl := Body.native.inj (hbody.symm.trans hbody')
    exact ⟨rfl, host, rfl⟩
  | unknown | arity | lines => simp_all

/-- The plain outcome of a body of lines is that of its lines, from the first on. -/
theorem PlainEval.of_lines {lines : List Line} (h : PlainEval P i n o)
    (hf : P.function? i.function = some f) (hi : f.arity = i.arguments.length)
    (hbody : f.body = .lines lines) :
    PlainLines P f lines (Frame.ofArguments f.signature.parameterIds i.arguments) none n o := by
  cases h with
  | lines hf' _ hbody' hlines =>
    obtain rfl := Option.some.inj (hf.symm.trans hf')
    obtain rfl := Body.lines.inj (hbody.symm.trans hbody')
    exact hlines
  | unknown | arity | native => simp_all

/-- A call whose arguments cannot be read fails before anything runs. -/
theorem PlainCall.of_unreadable {e : Failure EvalError}
    (h : PlainCall P f frame callee arguments n o)
    (hread : resolveAll P f frame arguments = .error e) : n = 0 ∧ o = .error e := by
  cases h <;> simp_all

/-- A call with an error among its arguments answers the first of them and runs nothing. -/
theorem PlainCall.of_error {v : Value} (h : PlainCall P f frame callee arguments n o)
    (hread : resolveAll P f frame arguments = .ok values)
    (hfind : values.find? Value.isError = some v) : n = 0 ∧ o = .ok v := by
  cases h <;> simp_all

/-- A call with readable arguments and no error among them is one level above its invocation. -/
theorem PlainCall.of_call (h : PlainCall P f frame callee arguments n o)
    (hread : resolveAll P f frame arguments = .ok values)
    (hfind : values.find? Value.isError = none) :
    ∃ k, n = k + 1 ∧ PlainEval P ⟨callee, values⟩ k o := by
  cases h with
  | unreadable hread' => simp_all
  | error hread' hfind' =>
    obtain rfl := Except.ok.inj (hread.symm.trans hread')
    cases hfind.symm.trans hfind'
  | call hread' _ hcall =>
    obtain rfl := Except.ok.inj (hread.symm.trans hread')
    exact ⟨_, rfl, hcall⟩

end Inversion

/-! ## Plain evaluation is unique -/

section Unique

variable {P : Program σ}

mutual

/-- An invocation has at most one plain outcome and one height. -/
theorem PlainEval.unique (hP : P.NativesPure) {i : Invocation} {n n' : Nat}
    {o o' : Except (Failure EvalError) Value} :
    PlainEval P i n o → PlainEval P i n' o' → n = n' ∧ o = o'
  | .unknown hf, h => by
    obtain ⟨rfl, rfl⟩ := h.of_unknown hf
    exact ⟨rfl, rfl⟩
  | .arity hf hi, h => by
    obtain ⟨rfl, rfl⟩ := h.of_arity hf hi
    exact ⟨rfl, rfl⟩
  | .native hf hi hbody host, h => by
    obtain ⟨rfl, host', rfl⟩ := h.of_native hf hi hbody
    -- the two evaluations may have met the host in different states
    rw [hP _ _ _ hf hbody i.arguments host host']
    exact ⟨rfl, rfl⟩
  | .lines hf hi hbody hlines, h => hlines.unique hP (h.of_lines hf hi hbody)

theorem PlainCall.unique (hP : P.NativesPure) {f : Function σ} {frame : Frame}
    {callee : FunctionId} {arguments : List ReferenceId} {n n' : Nat}
    {o o' : Except (Failure EvalError) Value} :
    PlainCall P f frame callee arguments n o → PlainCall P f frame callee arguments n' o' →
      n = n' ∧ o = o'
  | .unreadable hread, h => by
    obtain ⟨rfl, rfl⟩ := h.of_unreadable hread
    exact ⟨rfl, rfl⟩
  | .error hread hfind, h => by
    obtain ⟨rfl, rfl⟩ := h.of_error hread hfind
    exact ⟨rfl, rfl⟩
  | .call hread hfind hcall, h => by
    obtain ⟨k, rfl, hcall'⟩ := h.of_call hread hfind
    obtain ⟨rfl, rfl⟩ := hcall.unique hP hcall'
    exact ⟨rfl, rfl⟩

/-- The plain outcome of lines and its height are unique if natives are pure. -/
theorem PlainLines.unique (hP : P.NativesPure) {f : Function σ} {lines : List Line}
    {frame : Frame} {last : Option Value} {n n' : Nat}
    {o o' : Except (Failure EvalError) Value} :
    PlainLines P f lines frame last n o → PlainLines P f lines frame last n' o' →
      n = n' ∧ o = o'
  | .last, h | .missing, h | .ret, h => by
    cases h
    exact ⟨rfl, rfl⟩
  | .assign hcall hrest, h => by
    -- both runs give the call the same result, so they go on from the same frame
    cases h with
    | assign hcall' hrest' =>
      obtain ⟨rfl, hv⟩ := hcall.unique hP hcall'
      cases hv
      obtain ⟨rfl, rfl⟩ := hrest.unique hP hrest'
      exact ⟨rfl, rfl⟩
    | assignError hcall' => cases (hcall.unique hP hcall').2
  | .assignError hcall, h => by
    cases h with
    | assign hcall' _ => cases (hcall.unique hP hcall').2
    | assignError hcall' => exact hcall.unique hP hcall'
  | .gateError hcall, h => by
    cases h with
    | gateError hcall' => exact hcall.unique hP hcall'
    | gateAnswersError hcall' _ | gateStuck hcall' _ _ | gateOpen hcall' _ _
    | gateClosed hcall' _ _ _ => cases (hcall.unique hP hcall').2
  | .gateAnswersError hcall hv, h => by
    cases h with
    | gateError hcall' => cases (hcall.unique hP hcall').2
    | gateAnswersError hcall' _ => exact hcall.unique hP hcall'
    | gateStuck hcall' hv' _ | gateOpen hcall' hv' _ | gateClosed hcall' hv' _ _ =>
      cases (hcall.unique hP hcall').2
      rw [hv] at hv'
      cases hv'
  | .gateStuck hcall hv hgate, h => by
    -- from here on the verdict is no error, and what the gate makes of it tells the rules apart
    cases h with
    | gateError hcall' => cases (hcall.unique hP hcall').2
    | gateAnswersError hcall' hv' =>
      cases (hcall.unique hP hcall').2
      rw [hv] at hv'
      cases hv'
    | gateStuck hcall' _ hgate' =>
      obtain ⟨rfl, hv'⟩ := hcall.unique hP hcall'
      cases hv'
      rw [hgate] at hgate'
      cases hgate'
      exact ⟨rfl, rfl⟩
    | gateOpen hcall' _ hgate' | gateClosed hcall' _ hgate' _ =>
      cases (hcall.unique hP hcall').2
      rw [hgate] at hgate'
      cases hgate'
  | .gateOpen hcall hv hgate, h => by
    cases h with
    | gateError hcall' => cases (hcall.unique hP hcall').2
    | gateAnswersError hcall' hv' =>
      cases (hcall.unique hP hcall').2
      rw [hv] at hv'
      cases hv'
    | gateOpen hcall' _ _ =>
      obtain ⟨rfl, hv'⟩ := hcall.unique hP hcall'
      exact ⟨rfl, rfl⟩
    | gateStuck hcall' _ hgate' | gateClosed hcall' _ hgate' _ =>
      cases (hcall.unique hP hcall').2
      rw [hgate] at hgate'
      cases hgate'
  | .gateClosed hcall hv hgate hrest, h => by
    cases h with
    | gateError hcall' => cases (hcall.unique hP hcall').2
    | gateAnswersError hcall' hv' =>
      cases (hcall.unique hP hcall').2
      rw [hv] at hv'
      cases hv'
    | gateStuck hcall' _ hgate' | gateOpen hcall' _ hgate' =>
      cases (hcall.unique hP hcall').2
      rw [hgate] at hgate'
      cases hgate'
    | gateClosed hcall' _ hgate' hrest' =>
      obtain ⟨rfl, hv'⟩ := hcall.unique hP hcall'
      cases hv'
      obtain ⟨rfl, rfl⟩ := hrest.unique hP hrest'
      exact ⟨rfl, rfl⟩

end

end Unique

end Rulebook

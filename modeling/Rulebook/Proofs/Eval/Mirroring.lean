import Mathlib.Data.Set.Basic
import Rulebook.Proofs.Eval.Ensures
import Rulebook.Proofs.Program.Naming

/-!
# Evaluation in another program

An evaluation looks up the functions that it reaches and the references that their lines read, and
nothing else. So calls of functions of a set run alike in two programs if the programs have the same
functions there, the same references in the lines of those, and the lines call functions of the set
only. The functions and references may even be named differently: all that changes are the names
that errors report (`evaluate_mirrored`).

The set may be that of all functions, which shows that evaluation takes no notice of names
(`Program.nameless_determines`).
-/

namespace Rulebook

open Eval

variable {σ α β : Type}

/-! ## Programs with the same functions in a set -/

/-- What a line of a function in a set looks up is in another program what it is in the first, under
other names. -/
structure Line.Mirrors (φ : String → String) (R : Set FunctionId) (P P' : Program σ)
    (line : Line) : Prop where
  input : ∀ slot ∈ line.inputs,
    P'.reference? slot = (P.reference? slot).map (Reference.rename φ)
  call : ∀ callee, line.call? = some callee → callee ∈ R

/-- A program has the functions of a set as another program has them, but for names, and these
functions lead to no others. -/
structure Program.Mirrors (φ : String → String) (R : Set FunctionId) (P P' : Program σ) : Prop where
  function : ∀ id ∈ R, P'.function? id = (P.function? id).map (Function.rename φ)
  line : ∀ id ∈ R, ∀ f lines, P.function? id = some f → f.body = .lines lines →
    ∀ line ∈ lines, line.Mirrors φ R P P'

/-- Every program is mirrored under other names. -/
theorem Program.mirrors_rename (φ : String → String) (P : Program σ) :
    P.Mirrors φ Set.univ (P.rename φ) where
  function id _ := function?_rename id
  line _ _ _ _ _ _ _ _ := ⟨fun slot _ => reference?_rename slot, fun _ _ => Set.mem_univ _⟩

/-! ## Evaluations with renamed errors -/

/-- The same evaluation with other names in its error. -/
def Eval.rename (φ : String → String) (x : Eval σ α) : Eval σ α :=
  EStateM.adaptExcept (Failure.map (EvalError.rename φ)) x

/-- A step without state with other names in its error. -/
def EvalError.renameIn (φ : String → String) (x : Except (Failure EvalError) α) :
    Except (Failure EvalError) α :=
  x.mapError (Failure.map (EvalError.rename φ))

namespace Eval

variable {φ : String → String}

/-- Errors can be renamed part by part. -/
theorem rename_bind (x : Eval σ α) (f : α → Eval σ β) :
    rename φ (x >>= f) = rename φ x >>= fun a => rename φ (f a) := by
  funext s
  show EStateM.adaptExcept _ (EStateM.bind x f) s = EStateM.bind (EStateM.adaptExcept _ x) _ s
  rw [EStateM.adaptExcept, EStateM.bind, EStateM.bind, EStateM.adaptExcept]
  cases x s <;> rfl

theorem rename_liftState (x : Except (Failure EvalError) α) :
    rename φ (Failure.liftState x : Eval σ α) = Failure.liftState (EvalError.renameIn φ x) := by
  cases x <;> rfl

theorem renameIn_bind (x : Except (Failure EvalError) α) (f : α → Except (Failure EvalError) β) :
    EvalError.renameIn φ (x >>= f) =
      EvalError.renameIn φ x >>= fun a => EvalError.renameIn φ (f a) := by
  cases x <;> rfl

/-- A broken contract names nothing. -/
theorem renameIn_ofViolation (x : Except Violation α) :
    EvalError.renameIn φ (Failure.ofViolation x) = Failure.ofViolation x := by
  cases x <;> rfl

end Eval

/-! ## Each part of an evaluation -/

section Mirrored

variable {φ : String → String} {R : Set FunctionId} {P P' : Program σ} {f : Function σ}

/-- A slot that both programs have has the same value in both. -/
theorem resolve_mirrored {frame : Frame} {slot : ReferenceId}
    (hslot : P'.reference? slot = (P.reference? slot).map (Reference.rename φ)) :
    resolve P' (f.rename φ) frame slot = EvalError.renameIn φ (resolve P f frame slot) := by
  rw [resolve, resolve, Program.reference, Program.reference, hslot]
  cases P.reference? slot with
  | none => rfl
  | some r =>
    show (if (r.rename φ).isLiteral then _ else _) =
      EvalError.renameIn φ (if r.isLiteral then _ else _)
    cases hr : r.isLiteral with
    | true =>
      rw [r.rename_of_isLiteral hr, hr, if_pos rfl, if_pos rfl]
      cases r.literalValue <;> rfl
    | false =>
      rw [r.isLiteral_rename, hr, if_neg Bool.false_ne_true, if_neg Bool.false_ne_true,
        r.name_rename hr]
      cases frame.lookup slot <;> rfl

theorem resolveAll_mirrored {frame : Frame} {ids : List ReferenceId}
    (hids : ∀ id ∈ ids, P'.reference? id = (P.reference? id).map (Reference.rename φ)) :
    resolveAll P' (f.rename φ) frame ids = EvalError.renameIn φ (resolveAll P f frame ids) := by
  induction ids with
  | nil => rfl
  | cons id ids ih =>
    obtain ⟨hid, hrest⟩ := List.forall_mem_cons.mp hids
    rw [resolveAll, resolveAll, renameIn_bind, resolve_mirrored hid]
    refine bind_congr fun v => ?_
    rw [renameIn_bind, ih hrest]
    exact bind_congr fun vs => rfl

/-- A verdict opens a gate in both programs or in neither, and is refused under the new names. -/
theorem isOpen_mirrored (h : P.Mirrors φ R P') {gate : FunctionId} (hgate : gate ∈ R)
    (verdict : Value) :
    isOpen P' (f.rename φ) gate verdict = EvalError.renameIn φ (isOpen P f gate verdict) := by
  rw [isOpen, isOpen, Program.function, Program.function, h.function gate hgate]
  split
  · exact (renameIn_ofViolation _).symm
  · cases P.function? gate <;> rfl

variable {sub sub' : Invocation → Eval σ Value}

/-- The call of a line is the same in both programs, with errors renamed, if the calls below are. -/
theorem callLine_mirrored (hsub : ∀ i, i.function ∈ R → sub' i = Eval.rename φ (sub i))
    {frame : Frame} {callee : FunctionId} (hcallee : callee ∈ R) {arguments : List ReferenceId}
    (harguments : ∀ id ∈ arguments, P'.reference? id = (P.reference? id).map (Reference.rename φ)) :
    callLine P' (f.rename φ) sub' frame callee arguments =
      Eval.rename φ (callLine P f sub frame callee arguments) := by
  rw [callLine, callLine, rename_bind, rename_liftState, resolveAll_mirrored harguments]
  refine bind_congr fun values => ?_
  cases values.find? Value.isError with
  | none => exact hsub ⟨callee, values⟩ hcallee
  | some error => rfl

/-- Lines run the same in both programs, with errors renamed, if the calls below do. -/
theorem runLines_mirrored (h : P.Mirrors φ R P')
    (hsub : ∀ i, i.function ∈ R → sub' i = Eval.rename φ (sub i)) {id : FunctionId} {depth : Nat}
    {lines : List Line} (hlines : ∀ line ∈ lines, line.Mirrors φ R P P') (index : Nat)
    (frame : Frame) (last : Option Value) :
    runLines P' (f.rename φ) id depth sub' lines index frame last =
      Eval.rename φ (runLines P f id depth sub lines index frame last) := by
  induction lines generalizing index frame last with
  | nil => cases last <;> rfl
  | cons line rest ih =>
    obtain ⟨hline, hrest⟩ := List.forall_mem_cons.mp hlines
    obtain ⟨htarget, harguments⟩ := List.forall_mem_cons.mp hline.input
    cases line with
    | assign target callee arguments =>
      have hcall : callLine P' (f.rename φ) sub' frame callee arguments =
          Eval.rename φ (callLine P f sub frame callee arguments) :=
        callLine_mirrored hsub (hline.call callee rfl) harguments
      rw [runLines, runLines, rename_bind]
      refine bind_congr fun _ => ?_
      rw [rename_bind, hcall]
      exact bind_congr fun value => ih hrest _ _ _
    | returnIf target gate arguments =>
      have hgate := hline.call gate rfl
      have hcall : callLine P' (f.rename φ) sub' frame gate arguments =
          Eval.rename φ (callLine P f sub frame gate arguments) :=
        callLine_mirrored hsub hgate harguments
      rw [runLines, runLines, rename_bind]
      refine bind_congr fun _ => ?_
      rw [rename_bind, hcall]
      refine bind_congr fun verdict => ?_
      rw [rename_bind]
      refine bind_congr fun _ => ?_
      -- an error is returned, an open gate returns the target, a closed one goes on
      split
      · rfl
      · rw [rename_bind, rename_liftState, isOpen_mirrored h hgate]
        refine bind_congr fun isOpen => ?_
        split
        · rw [rename_liftState]
          exact congrArg _ (resolve_mirrored htarget)
        · exact ih hrest _ _ _
    | ret target =>
      rw [runLines, runLines, rename_bind]
      refine bind_congr fun _ => ?_
      rw [rename_liftState]
      exact congrArg _ (resolve_mirrored htarget)

/-- A body runs the same in both programs, with errors renamed, if the calls below do. -/
theorem runBody_mirrored (h : P.Mirrors φ R P')
    (hsub : ∀ i, i.function ∈ R → sub' i = Eval.rename φ (sub i)) {depth : Nat} {i : Invocation}
    (hi : i.function ∈ R) (hf : P.function? i.function = some f) :
    runBody P' depth sub' (f.rename φ) i = Eval.rename φ (runBody P depth sub f i) := by
  have hbody' : (f.rename φ).body = f.body := rfl
  rw [runBody, runBody, hbody']
  cases hbody : f.body with
  | native run =>
    dsimp only
    rw [runNative, rename_bind]
    refine bind_congr fun s => ?_
    rw [rename_bind]
    refine bind_congr fun _ => ?_
    rw [rename_bind]
    refine bind_congr fun _ => ?_
    rw [rename_liftState, renameIn_ofViolation]
  | lines lines =>
    dsimp only
    rw [rename_bind, f.parameterIds_rename]
    refine bind_congr fun _ => ?_
    rw [rename_bind, runLines_mirrored h hsub (h.line _ hi f lines hf hbody)]
    refine bind_congr fun value => ?_
    rw [rename_bind]
    exact bind_congr fun _ => rfl

theorem isValid_mirrored (h : P.Mirrors φ R P') {i : Invocation} (hi : i.function ∈ R) :
    i.isValid P' = i.isValid P := by
  rw [Invocation.isValid, Invocation.isValid, h.function _ hi]
  cases P.function? i.function with
  | none => rfl
  | some f => exact congrArg (fun arity => decide (arity = _)) f.arity_rename

/-- A step is the same in both programs, with errors renamed, if the calls below are. -/
theorem step_mirrored (h : P.Mirrors φ R P')
    (hsub : ∀ i, i.function ∈ R → sub' i = Eval.rename φ (sub i)) {depth : Nat} {i : Invocation}
    (hi : i.function ∈ R) : step P' depth sub' i = Eval.rename φ (step P depth sub i) := by
  rw [step, step, isValid_mirrored h hi, h.function _ hi]
  cases hf : P.function? i.function with
  | none => rfl
  | some f =>
    dsimp only [Option.map_some]
    rw [rename_bind]
    refine bind_congr fun s => ?_
    have hmemo : memoized? (f.rename φ) i s.memo = memoized? f i s.memo := rfl
    rw [hmemo]
    cases memoized? f i s.memo with
    | some value => rfl
    | none =>
      dsimp only
      rw [f.arity_rename]
      split
      · rw [rename_bind, runBody_mirrored h hsub hi hf]
        refine bind_congr fun value => ?_
        show (if f.isUncacheable then _ else _) = _
        split <;> rfl
      · rfl

/-- Invocations of functions in a set run alike in a program that mirrors it. -/
theorem evaluate_mirrored (h : P.Mirrors φ R P') (levels depth : Nat) {i : Invocation}
    (hi : i.function ∈ R) :
    evaluate P' levels depth i = Eval.rename φ (evaluate P levels depth i) := by
  induction levels generalizing depth i with
  | zero => rfl
  | succ levels ih => exact step_mirrored h (fun j hj => ih (depth + 1) hj) hi

end Mirrored

/-! ## Contexts -/

/-- What can be seen of a run: its outcome, the memo after it, the state of the host and the
trace. -/
def Run.observed (r : Run σ) : Except (Failure EvalError) Value × Memo × σ × Trace :=
  (r.outcome, r.context.memo, r.host, r.trace)

/-- What can be seen of a run, with other names in its error. -/
def Run.observedAs (φ : String → String) (r : Run σ) :
    Except (Failure EvalError) Value × Memo × σ × Trace :=
  (EvalError.renameIn φ r.outcome, r.context.memo, r.host, r.trace)

@[simp] theorem Run.observedAs_id (r : Run σ) : r.observedAs id = r.observed := by
  rw [observedAs, observed]
  cases r.outcome with
  | ok v => rfl
  | error failure =>
    cases failure with
    | error e => cases e <;> rfl
    | violation v => rfl

namespace Context

variable {φ : String → String} {R : Set FunctionId}

/-- A call of a function in a set ends alike on a context over a program that mirrors it. -/
theorem run_mirrored {c c' : Context σ} (h : c.program.Mirrors φ R c'.program)
    (hmaxDepth : c'.maxDepth = c.maxDepth) (hmemo : c'.memo = c.memo) (host : σ) {i : Invocation}
    (hi : i.function ∈ R) : (c'.run host i).observed = (c.run host i).observedAs φ := by
  rw [run, run, hmaxDepth, hmemo, evaluateAt, evaluateAt, evaluate_mirrored h _ _ hi, Eval.rename,
    EStateM.adaptExcept]
  cases evaluate c.program (c.maxDepth + 1 - 0) 0 i ⟨c.memo, host, []⟩ <;> rfl

/-- Calls of functions in a set end alike on a context over a program that mirrors it. -/
theorem runs_mirrored {c c' : Context σ} (h : c.program.Mirrors φ R c'.program)
    (hmaxDepth : c'.maxDepth = c.maxDepth) (hmemo : c'.memo = c.memo) (host : σ)
    {calls : List Invocation} (hcalls : ∀ i ∈ calls, i.function ∈ R) :
    (c'.runs host calls).map Run.observed = (c.runs host calls).map (Run.observedAs φ) := by
  induction calls generalizing c c' host with
  | nil => rfl
  | cons i rest ih =>
    obtain ⟨hi, hrest⟩ := List.forall_mem_cons.mp hcalls
    have hrun := run_mirrored h hmaxDepth hmemo host hi
    obtain ⟨-, hmemo', hhost, -⟩ : _ ∧ (c'.run host i).context.memo = (c.run host i).context.memo ∧
        (c'.run host i).host = (c.run host i).host ∧ _ := by
      simpa only [Run.observed, Run.observedAs, Prod.mk.injEq] using hrun
    rw [runs, runs, List.map_cons, List.map_cons, hrun, hhost]
    refine congrArg _ (ih ?_ ?_ hmemo' _ hrest)
    · rwa [run_program, run_program]
    · rwa [run_maxDepth, run_maxDepth]

end Context

/-! ## Names -/

namespace Program

variable {P P' : Program σ}

/-- Runs end as they do without names, but for the names in their errors. -/
theorem runs_nameless (P : Program σ) (maxDepth : Nat) (host : σ) (calls : List Invocation) :
    ((Context.fresh P.nameless maxDepth).runs host calls).map Run.observed =
      ((Context.fresh P maxDepth).runs host calls).map (Run.observedAs fun _ => "") := by
  have h : (Context.fresh P maxDepth).program.Mirrors (fun _ => "") Set.univ
      (Context.fresh P.nameless maxDepth).program := P.mirrors_rename _
  exact Context.runs_mirrored h rfl rfl host fun i _ => Set.mem_univ i.function

/-- Names never matter. In two programs that differ only in names of functions and slots and in
comments, a function is given the same lines or is refused them with the same error, and all calls
on fresh contexts end with the same values or errors, memos, states of the host and traces. Errors
are the same here if all but the names in them is. -/
theorem nameless_determines (h : P.nameless = P'.nameless) :
    (∀ id lines, Checked.nameless ((Build.setBody id lines).outcome P) =
      Checked.nameless ((Build.setBody id lines).outcome P')) ∧
    ∀ maxDepth host calls,
      ((Context.fresh P maxDepth).runs host calls).map (Run.observedAs fun _ => "") =
        ((Context.fresh P' maxDepth).runs host calls).map (Run.observedAs fun _ => "") := by
  refine ⟨fun id lines => ?_, fun maxDepth host calls => ?_⟩
  · calc Checked.nameless ((Build.setBody id lines).outcome P)
      _ = Checked.nameless ((Build.setBody id lines).outcome P.nameless) :=
        (nameless_setBody_rename _ P id lines).symm
      _ = Checked.nameless ((Build.setBody id lines).outcome P'.nameless) := by rw [h]
      _ = Checked.nameless ((Build.setBody id lines).outcome P') :=
        nameless_setBody_rename _ P' id lines
  · rw [← runs_nameless, ← runs_nameless, h]

end Program

namespace Settle

/-- The program refuses the same lines and settles a true argument alike if everything in it has
the same name. -/
theorem runs_under_one_name :
    let P : Program Unit := program
    let P' := P.rename fun _ => "x"
    P.nameless = P'.nameless ∧
    Program.Checked.nameless ((Build.setBody ⟨1⟩ [.ret ⟨2⟩]).outcome P) =
      Program.Checked.nameless ((Build.setBody ⟨1⟩ [.ret ⟨2⟩]).outcome P') ∧
    ((Context.fresh P 2).runs () [⟨⟨1⟩, [.bool true]⟩]).map (Run.observedAs fun _ => "") =
      ((Context.fresh P' 2).runs () [⟨⟨1⟩, [.bool true]⟩]).map (Run.observedAs fun _ => "") := by
  intro P P'
  have h : P.nameless = P'.nameless := (Program.nameless_rename _ P).symm
  obtain ⟨hsetBody, hruns⟩ := Program.nameless_determines h
  exact ⟨h, hsetBody _ _, hruns 2 () _⟩

end Settle

end Rulebook

import Rulebook.Proofs.Eval.Discipline
import Rulebook.Proofs.Eval.Retention

/-!
# How calls fail

Which errors a call can end with, for programs that edits built, functions of the host that may do
anything, and any calls before. It is the discipline that admits every value: all that is left of
soundness is that reads and lookups succeed. Invalid invocations are apart: they are refused before
anything runs, and the memo never has a result for them.
-/

namespace Rulebook

open Eval

variable {σ : Type} {P : Program σ}

/-- Every value is admitted everywhere. -/
theorem Program.discipline_true (P : Program σ) :
    P.Discipline (fun _ _ => True) fun _ _ => True where
  literal := by simp
  tooDeep := by simp
  error := by simp
  slot := by simp
  argument := by simp
  native := by simp

/-! ## Valid invocations -/

namespace Program.WellFormed

/-- The slots of a signature have types. -/
theorem ty?_eq_some (hP : P.WellFormed) {id : FunctionId} {f : Function σ}
    (hf : P.function? id = some f) {slot : ReferenceId} (hslot : slot ∈ f.signature.references) :
    ∃ ty, P.ty? slot = some ty := by
  obtain ⟨r, hr, -⟩ := (hP id f hf).slots slot hslot
  exact ⟨r.ty, by rw [ty?, hr, Option.map_some]⟩

theorem result_ty?_eq_some (hP : P.WellFormed) {id : FunctionId} {f : Function σ}
    (hf : P.function? id = some f) : ∃ ty, P.ty? f.signature.result.reference = some ty :=
  hP.ty?_eq_some hf List.mem_cons_self

theorem takes_true (hP : P.WellFormed) {i : Invocation} {f : Function σ}
    (hf : P.function? i.function = some f) (hi : i.isValid P = true) :
    P.Takes (fun _ _ => True) f i.arguments := by
  rw [Invocation.isValid_of_function? hf, decide_eq_true_eq] at hi
  refine List.forall₂_iff_zip.mpr ⟨f.length_parameterIds.trans hi, fun {id v} hmem => ?_⟩
  have hslot : id ∈ f.signature.references :=
    List.mem_cons_of_mem _ (List.of_mem_zip hmem).1
  obtain ⟨ty, hty⟩ := hP.ty?_eq_some hf hslot
  exact ⟨ty, hty, trivial⟩

end Program.WellFormed

/-! ## Invalid invocations -/

namespace Context

/-- The memo has results of valid invocations only. -/
theorem isValid_of_cached {maxDepth : Nat} {calls : List (σ × Invocation)} {i : Invocation}
    {v : Value} (h : ((fresh P maxDepth).after calls).cached i = some v) : i.isValid P = true :=
  (isMemoizable_of_cached h).isValid

/-- An invalid invocation without a result in the memo is refused, and nothing else happens. -/
theorem run_of_not_valid {c : Context σ} {i : Invocation} (hi : i.isValid c.program = false)
    (hmemo : c.cached i = none) (host : σ) :
    ∃ e, c.run host i = ⟨.error (.error e), c, host, []⟩ ∧
      ((∃ id, e = .unknownFunction id) ∨
        ∃ function expected found, e = .arityMismatch function expected found) := by
  have hstep : evaluateAt c.program c.maxDepth 0 i =
      step c.program 0 (evaluate c.program c.maxDepth 1) i := rfl
  rw [run, hstep, step]
  cases hf : c.program.function? i.function with
  | none => exact ⟨_, rfl, .inl ⟨_, rfl⟩⟩
  | some f =>
    have hmemoized : memoized? f i c.memo = none := by
      rw [memoized?, show c.memo.find? i = none from hmemo, ite_self]
    refine ⟨.arityMismatch f.name f.arity i.arguments.length, ?_, .inr ⟨_, _, _, rfl⟩⟩
    simp only [get_bind_apply, hmemoized, hi]
    rfl

/-- If a call of a valid invocation fails, its last event shows why. -/
theorem run_explains (hP : P.WellFormed) {maxDepth : Nat} {calls : List (σ × Invocation)}
    {host : σ} {i : Invocation} (hi : i.isValid P = true) {e : Failure EvalError}
    (he : (((fresh P maxDepth).after calls).run host i).outcome = .error e) :
    ∃ last, (((fresh P maxDepth).after calls).run host i).trace.getLast? = some last ∧
      last.Explains P e := by
  cases hf : P.function? i.function with
  | none =>
    rw [Invocation.isValid, hf] at hi
    cases hi
  | some f =>
    obtain ⟨ty, hty⟩ := hP.result_ty?_eq_some hf
    exact (run_sound P.discipline_true hP calls host hf (hP.takes_true hf hi) hty).failure e he

end Context

/-! ## Announced errors -/

/-- Calls fail only as announced. An unknown function or a wrong number of arguments is reported
exactly for invalid invocations, which run nothing and leave the context as it was. Unbound
references and misspelt literals are never reported, and a contract is broken only by a function of
the host or by the payload of a Boolean verdict, never by the evaluator's own lookups. A missing
result comes from a function that no lines were ever accepted for, and a gate that is no Boolean
from a verdict that is neither a Boolean nor an error. -/
theorem Context.run_fails_as_announced (edits : List (Edit σ)) (maxDepth : Nat)
    (calls : List (σ × Invocation)) (host : σ) (i : Invocation) :
    let P := Program.ofEdits edits
    let c := (Context.fresh P maxDepth).after calls
    let r := c.run host i
    (((∃ id, r.outcome = .error (.error (.unknownFunction id))) ∨
        ∃ function expected found,
          r.outcome = .error (.error (.arityMismatch function expected found))) ↔
      i.isValid P = false) ∧
    (i.isValid P = false → r.trace = [] ∧ r.host = host ∧ r.context = c) ∧
    (∀ function name, r.outcome ≠ .error (.error (.unboundReference function name))) ∧
    (∀ function cause, r.outcome ≠ .error (.error (.invalidLiteral function cause))) ∧
    (∀ v, r.outcome = .error (.violation v) →
      (∃ depth j, r.trace.getLast? = some (.native depth j (.error v))) ∨
        ∃ depth gate w, r.trace.getLast? = some (.verdict depth gate w) ∧
          w.ty = .single .boolean ∧ w.asBool = .error v) ∧
    (∀ function, r.outcome = .error (.error (.missingResult function)) →
      ∃ depth j f, .enter depth j ∈ r.trace ∧ P.function? j.function = some f ∧
        f.isNative = false ∧ f.name = function ∧ ¬ Program.BodyAccepted edits j.function) ∧
    (∀ function gate ty, r.outcome = .error (.error (.gateNotBoolean function gate ty)) →
      ∃ depth g w, .verdict depth g w ∈ r.trace ∧ w.ty = ty ∧ w.isError = false ∧
        w.ty ≠ .single .boolean) := by
  intro P c r
  have hP : P.WellFormed := Program.ofEdits_wellFormed edits
  have hprogram : c.program = P := Context.after_program _ _
  cases hi : i.isValid P with
  | false =>
    -- the memo would answer before the arguments are counted, but it has nothing for `i`
    have hmemo : c.cached i = none := by
      refine Option.eq_none_iff_forall_ne_some.mpr fun v hv => ?_
      rw [Context.isValid_of_cached hv] at hi
      cases hi
    obtain ⟨e, hr, he⟩ := Context.run_of_not_valid (hprogram ▸ hi) hmemo host
    have hr : r = ⟨.error (.error e), c, host, []⟩ := hr
    rw [hr]
    rcases he with ⟨id, rfl⟩ | ⟨function, expected, found, rfl⟩ <;> simp
  | true =>
    have hexplains : ∀ e, r.outcome = .error e →
        ∃ last, r.trace.getLast? = some last ∧ last.Explains P e :=
      fun e he => Context.run_explains hP hi he
    refine ⟨⟨?_, nofun⟩, nofun, ?_, ?_, ?_, ?_, ?_⟩
    · rintro (⟨id, he⟩ | ⟨function, expected, found, he⟩)
      · obtain ⟨last, -, hlast⟩ := hexplains _ he
        cases hlast
      · obtain ⟨last, -, hlast⟩ := hexplains _ he
        cases hlast
    · intro function name he
      obtain ⟨last, -, hlast⟩ := hexplains _ he
      cases hlast
    · intro function cause he
      obtain ⟨last, -, hlast⟩ := hexplains _ he
      cases hlast
    · intro v he
      obtain ⟨last, hmem, hlast⟩ := hexplains _ he
      cases hlast with
      | native => exact .inl ⟨_, _, hmem⟩
      | payload hty hw => exact .inr ⟨_, _, _, hmem, hty, hw⟩
    · intro function he
      obtain ⟨last, hmem, hlast⟩ := hexplains _ he
      cases hlast with
      | @noLines depth j f hf hbody =>
        -- once a body is accepted the function has lines for good, and this one has none
        refine ⟨depth, j, f, List.mem_of_getLast? hmem, hf, ?_, rfl, fun haccepted => ?_⟩
        · rw [Function.isNative, hbody]
        · obtain ⟨f', lines, hf', hlines, hne⟩ := Program.hasLines_of_bodyAccepted haccepted
          obtain rfl := Option.some.inj (hf.symm.trans hf')
          exact hne (Body.lines.inj (hbody.symm.trans hlines)).symm
    · intro function gate ty he
      obtain ⟨last, hmem, hlast⟩ := hexplains _ he
      cases hlast with
      | gate herror hty => exact ⟨_, _, _, List.mem_of_getLast? hmem, rfl, herror, hty⟩

example : ((Context.fresh (Settle.programWith [] : Program Unit) 3).run ()
    ⟨⟨1⟩, [.bool true]⟩).outcome = .error (.error (.missingResult "settle")) := rfl

end Rulebook

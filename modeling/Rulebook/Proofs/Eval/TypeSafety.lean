import Rulebook.Proofs.Eval.Failures
import Rulebook.Proofs.Value.Fits

/-!
# Type soundness

The discipline of values that fit their types: arguments fit the types of their parameters, and
slots and results fit theirs or are errors. If the functions of the host keep to it, a call with
fitting arguments breaks no contract and meets no gate that is not Boolean, and what it answers
fits the function's result type or is an error.
-/

namespace Rulebook

variable {σ : Type} {P : Program σ}

/-- Given arguments that fit its parameters, every function of the host answers a value that fits
its result type, or an error. -/
def Program.NativesTyped (P : Program σ) : Prop :=
  ∀ id f run arguments host, P.function? id = some f → f.body = .native run →
    P.Takes (fun ty v => v.Fits ty) f arguments →
      ∃ v, (run arguments host).1 = .ok v ∧
        ∀ ty, P.ty? f.signature.result.reference = some ty → v.FitsOrError ty

/-- Fitting values are a discipline. -/
theorem Program.NativesTyped.discipline (h : P.NativesTyped) :
    P.Discipline (fun ty v => v.FitsOrError ty) fun ty v => v.Fits ty where
  literal _ _ hv := .inl (Value.fits_of_literalValue hv)
  tooDeep := Value.FitsOrError.tooDeep
  error _ _ _ hv herror := hv.of_isError herror
  slot _ _ hv := .inl hv
  argument _ _ hv herror := hv.fits herror
  native id f run arguments host v ty hf hbody htakes hty hv := by
    obtain ⟨w, hw, hfits⟩ := h id f run arguments host hf hbody htakes
    rw [hv, Except.ok.injEq] at hw
    rw [hw]
    exact hfits ty hty

/-- Where the host keeps to the types, no event shows a broken contract or a gate that is not
Boolean. -/
theorem Event.not_explains (h : P.NativesTyped) {e : Event}
    (he : e.Admitted P (fun ty v => v.FitsOrError ty) fun ty v => v.Fits ty)
    {x : Failure EvalError} (hx : e.Explains P x) :
    ∃ function, x = .error (.missingResult function) := by
  cases hx with
  | native =>
    -- the function was given fitting arguments, so it cannot have failed
    obtain ⟨f, run, host, hf, hbody, htakes, hv⟩ := he
    obtain ⟨w, hw, -⟩ := h _ f run _ host hf hbody htakes
    rw [← hv] at hw
    cases hw
  | payload hty hw =>
    -- marked as Boolean, the verdict is not an error and so fits Boolean
    have hfits : Value.Fits _ (.single .boolean) := he.resolve_right fun herror => by
      rw [herror.ty_eq] at hty
      cases hty
    obtain ⟨b, hb⟩ := hfits.asBool
    rw [hw] at hb
    cases hb
  | gate herror hty => exact absurd (he.fits herror).ty_eq hty
  | noLines => exact ⟨_, rfl⟩

/-- Type soundness of built programs: whatever was called before, a call whose arguments fit breaks
no contract and meets no gate that is not Boolean, its answer fits the function's result type or is
an error, and every function of the host that it runs is given arguments that fit. -/
theorem Context.run_typed (edits : List (Edit σ))
    (hnatives : (Program.ofEdits edits).NativesTyped) (maxDepth : Nat)
    (calls : List (σ × Invocation)) (host : σ) (i : Invocation) (f : Function σ)
    (hf : (Program.ofEdits edits).function? i.function = some f)
    (harguments : (Program.ofEdits edits).Takes (fun ty v => v.Fits ty) f i.arguments) :
    let P := Program.ofEdits edits
    let r := ((Context.fresh P maxDepth).after calls).run host i
    (∀ v, r.outcome ≠ .error (.violation v)) ∧
    (∀ function gate ty, r.outcome ≠ .error (.error (.gateNotBoolean function gate ty))) ∧
    (∀ v, r.outcome = .ok v →
      ∃ ty, P.ty? f.signature.result.reference = some ty ∧ v.FitsOrError ty) ∧
    (∀ depth j o, .native depth j o ∈ r.trace →
      ∃ g, P.function? j.function = some g ∧ g.isNative = true ∧
        P.Takes (fun ty v => v.Fits ty) g j.arguments) := by
  intro P r
  have hP : P.WellFormed := Program.ofEdits_wellFormed edits
  obtain ⟨ty, hty⟩ := hP.result_ty?_eq_some hf
  have hsound : Sound P _ _ ty r.outcome r.trace :=
    Context.run_sound hnatives.discipline hP calls host hf harguments hty
  have hfailure : ∀ e, r.outcome = .error e → ∃ function, e = .error (.missingResult function) := by
    intro e he
    obtain ⟨last, hlast, hexplains⟩ := hsound.failure e he
    exact Event.not_explains hnatives (hsound.events last (List.mem_of_getLast? hlast)) hexplains
  refine ⟨fun v he => ?_, fun function gate ty he => ?_, fun v hv => ?_, fun depth j o hmem => ?_⟩
  · obtain ⟨_, ⟨⟩⟩ := hfailure _ he
  · obtain ⟨_, ⟨⟩⟩ := hfailure _ he
  · exact ⟨ty, hty, hsound.result v hv⟩
  · obtain ⟨g, run, _, hg, hbody, htakes, -⟩ := hsound.events _ hmem
    exact ⟨g, hg, by rw [Function.isNative, hbody], htakes⟩

namespace Settle

theorem program_nativesTyped : (program : Program σ).NativesTyped := by
  intro id f run arguments host hf hbody htakes
  rcases function?_program hf with rfl | rfl
  · obtain rfl := Body.native.inj hbody
    obtain ⟨v, rfl, ty, hty, hv⟩ : ∃ v, arguments = [v] ∧
        ∃ ty, (program : Program σ).ty? ⟨1⟩ = some ty ∧ v.Fits ty := by
      obtain ⟨v, _, hv, hnil, rfl⟩ := List.forall₂_cons_left_iff.mp htakes
      exact ⟨v, by rw [List.forall₂_nil_left_iff.mp hnil], hv⟩
    obtain rfl := Option.some.inj hty
    cases hv with
    | bool b =>
      refine ⟨.bool !b, rfl, fun ty hty => ?_⟩
      obtain rfl := Option.some.inj hty
      exact .inl (.bool !b)
    | handle hkind => cases hkind
  · cases hbody

/-- Settling a fitting argument is type sound, also after a call that gave `not` a number. -/
theorem run_true_typed :
    let P := Program.ofEdits (edits : List (Edit Unit))
    let f : Function Unit := ⟨"settle", signature, .lines lines, false⟩
    let r := ((Context.fresh P 5).after [((), ⟨⟨0⟩, [.int 3]⟩)]).run () ⟨⟨1⟩, [.bool true]⟩
    P.NativesTyped ∧ P.function? ⟨1⟩ = some f ∧
    P.Takes (fun ty v => v.Fits ty) f [.bool true] ∧
    ∀ v, r.outcome = .ok v →
      ∃ ty, P.ty? f.signature.result.reference = some ty ∧ v.FitsOrError ty := by
  have htyped : (Program.ofEdits (edits : List (Edit Unit))).NativesTyped := by
    rw [ofEdits_edits]
    exact program_nativesTyped
  have hf : (Program.ofEdits (edits : List (Edit Unit))).function? ⟨1⟩ =
      some ⟨"settle", signature, .lines lines, false⟩ := by
    rw [ofEdits_edits]
    rfl
  have htakes : (Program.ofEdits (edits : List (Edit Unit))).Takes (fun ty v => v.Fits ty)
      ⟨"settle", signature, .lines lines, false⟩ [.bool true] := by
    rw [ofEdits_edits]
    exact .cons ⟨_, rfl, .bool true⟩ .nil
  exact ⟨htyped, hf, htakes,
    (Context.run_typed edits htyped 5 [((), ⟨⟨0⟩, [.int 3]⟩)] () ⟨⟨1⟩, [.bool true]⟩ _ hf
      htakes).2.2.1⟩

end Settle

end Rulebook

import Mathlib.Data.Set.Basic
import Rulebook.Proofs.Eval.History
import Rulebook.Proofs.Outcome
import Rulebook.Proofs.Value.Fits

/-!
# Where errors come from

Evaluation makes one error of its own, the too-deep error. Every other error that a call answers was
passed in by the host, as an argument of this call or an earlier one, or was answered by a function
of the host in the course of them (`Context.run_error_source`). In between, errors travel through
frames, gates and memoized results.

The proof carries a set `E` of errors that are known to be around, which grows with the answers of
host functions: `Trace.errors E t` is the set after the events `t`.
-/

namespace Rulebook

open Eval

variable {σ : Type}

/-! ## Known errors -/

/-- A value is no error, or one of the known ones. -/
def Value.ErrsIn (E : Set Value) (v : Value) : Prop := v.isError = true → v ∈ E

/-- The literals of a program are no errors. -/
theorem Value.errsIn_of_literalValue {E : Set Value} {r : Reference} {v : Value}
    (h : r.literalValue = .ok v) : v.ErrsIn E := by
  intro hv
  have hty : v.ty = r.ty := (Value.fits_of_literalValue h).ty_eq
  rw [Value.isError, hty, Ty.isError, decide_eq_true_eq] at hv
  -- there are no literals of the error type
  rw [Reference.literalValue, hv] at h
  cases hliteral : r.isLiteral <;> rw [hliteral] at h <;> cases h

namespace Trace

/-- The errors known after some events: those known before and what host functions answered. -/
def errors (E : Set Value) (t : Trace) : Set Value :=
  {v | v ∈ E ∨ ∃ d i, Event.native d i (.ok v) ∈ t}

variable {E : Set Value} {t u : Trace} {v : Value}

theorem errors_nil (E : Set Value) : errors E [] = E := by
  ext v
  simp [errors]

/-- What becomes known in two parts, one after the other, is what becomes known in both together. -/
theorem errors_append (E : Set Value) (t u : Trace) :
    errors (errors E t) u = errors E (t ++ u) := by
  ext v
  simp only [errors, Set.mem_ofPred_eq, List.mem_append, exists_or, or_assoc]

/-- A known error stays known. -/
theorem errsIn_errors (h : v.ErrsIn E) (t : Trace) : v.ErrsIn (errors E t) := fun hv => .inl (h hv)

/-- An error that is known after some events is known after more of them. -/
theorem errsIn_errors_append (h : v.ErrsIn (errors E t)) (u : Trace) :
    v.ErrsIn (errors E (t ++ u)) := by
  rw [← errors_append]
  exact errsIn_errors h u

/-- Every error in the outcome and in what the memo was given is known by then. -/
structure ErrsWithin (E : Set Value) (o : Except (Failure EvalError) Value) (t : Trace) : Prop where
  kept : ∀ e ∈ t, e.Keeps fun _ v => v.ErrsIn (errors E t)
  outcome : ∀ v, o = .ok v → v.ErrsIn (errors E t)

namespace ErrsWithin

variable {o : Except (Failure EvalError) Value}

theorem nil (h : ∀ v, o = .ok v → v.ErrsIn E) : ErrsWithin E o [] :=
  ⟨List.forall_mem_nil _, fun v hv => errsIn_errors (h v hv) []⟩

theorem ok (h : v.ErrsIn E) : ErrsWithin E (.ok v) [] :=
  nil fun _ hw => Except.ok.inj hw ▸ h

theorem error (x : Failure EvalError) : ErrsWithin E (.error x) [] := nil nofun

theorem keep (h : v.ErrsIn E) (d : Nat) (i : Invocation) :
    ErrsWithin E (.ok v) [.keep d i v] := by
  have hgrow := errsIn_errors h [.keep d i v]
  exact ⟨List.forall_mem_singleton.mpr hgrow, fun _ hw => Except.ok.inj hw ▸ hgrow⟩

/-- What comes next starts with the errors that are known by then. -/
theorem append {a : Value} (ht : ErrsWithin E (.ok a) t) (hu : ErrsWithin (errors E t) o u) :
    ErrsWithin E o (t ++ u) := by
  obtain ⟨hkept, houtcome⟩ := hu
  rw [errors_append] at hkept houtcome
  refine ⟨List.forall_mem_append.mpr ⟨fun e he => ?_, hkept⟩, houtcome⟩
  have hkeeps := ht.kept e he
  cases e with
  | keep d i v => exact errsIn_errors_append hkeeps u
  | cutOff | enter | line | verdict | leave | native => trivial

theorem cons {e : Event} (he : e.isKeep = false) (ht : ErrsWithin E o t) :
    ErrsWithin E o (e :: t) := by
  have hgrow : ∀ v : Value, v.ErrsIn (errors E t) → v.ErrsIn (errors E (e :: t)) := by
    intro v hv hisError
    rcases hv hisError with hknown | ⟨d, i, hmem⟩
    · exact .inl hknown
    · exact .inr ⟨d, i, List.mem_cons_of_mem _ hmem⟩
  refine ⟨List.forall_mem_cons.mpr ⟨Event.keeps_of_isKeep_eq_false he, fun e' he' => ?_⟩,
    fun v hv => hgrow v (ht.outcome v hv)⟩
  have hkeeps := ht.kept e' he'
  cases e' with
  | keep d i v => exact hgrow v hkeeps
  | cutOff | enter | line | verdict | leave | native => trivial

end ErrsWithin

end Trace

/-! ## Evaluations -/

section Evaluator

variable {P : Program σ} {f : Function σ} {sub : Invocation → Eval σ Value} {depth : Nat}
variable {E : Set Value} {m : Memo} {frame : Frame}

/-- Every error that a frame binds is known. -/
def Frame.ErrsIn (E : Set Value) (frame : Frame) : Prop :=
  ∀ slot v, frame.lookup slot = some v → v.ErrsIn E

theorem Frame.ErrsIn.errors (h : frame.ErrsIn E) (t : Trace) :
    frame.ErrsIn (Trace.errors E t) :=
  fun slot v hlookup => Trace.errsIn_errors (h slot v hlookup) t

/-- A frame may bind a known value. -/
theorem Frame.ErrsIn.bind (h : frame.ErrsIn E) {v : Value} (hv : v.ErrsIn E) (slot : ReferenceId) :
    (frame.bind slot v).ErrsIn E := by
  intro slot' v' hlookup
  rw [Frame.lookup_bind] at hlookup
  by_cases hslot : slot' = slot
  · rw [if_pos hslot, Option.some.injEq] at hlookup
    rwa [← hlookup]
  · rw [if_neg hslot] at hlookup
    exact h slot' v' hlookup

/-- The frame of known arguments binds known values only. -/
theorem Frame.errsIn_ofArguments {parameters : List ReferenceId} {arguments : List Value}
    (h : ∀ v ∈ arguments, v.ErrsIn E) : (Frame.ofArguments parameters arguments).ErrsIn E := by
  intro slot v hlookup
  obtain ⟨before, after, hsplit, -⟩ := List.lookup_eq_some_iff.mp hlookup
  have hmem : (slot, v) ∈ (Frame.ofArguments parameters arguments).bindings := by
    rw [hsplit]
    exact List.mem_append_right _ List.mem_cons_self
  exact h v (List.of_mem_zip (List.mem_reverse.mp hmem)).2

/-- What is read is bound in the frame or a literal, which is no error. -/
theorem errsIn_of_resolve (hframe : frame.ErrsIn E) {id : ReferenceId} {v : Value}
    (h : resolve P f frame id = .ok v) : v.ErrsIn E := by
  obtain ⟨r, -, h⟩ := bind_eq_ok.mp h
  cases hliteral : r.isLiteral with
  | true =>
    rw [hliteral, if_pos rfl] at h
    cases hvalue : r.literalValue with
    | error cause =>
      rw [hvalue] at h
      cases h
    | ok w =>
      rw [hvalue] at h
      obtain rfl := Except.ok.inj h
      exact Value.errsIn_of_literalValue hvalue
  | false =>
    rw [hliteral, if_neg Bool.false_ne_true] at h
    cases hlookup : frame.lookup id with
    | none =>
      rw [hlookup] at h
      cases h
    | some w =>
      rw [hlookup] at h
      obtain rfl := Except.ok.inj h
      exact hframe id w hlookup

/-- All that is read from a frame is known. -/
theorem errsIn_of_resolveAll (hframe : frame.ErrsIn E) {ids : List ReferenceId} {vs : List Value}
    (h : resolveAll P f frame ids = .ok vs) : ∀ v ∈ vs, v.ErrsIn E := by
  induction ids generalizing vs with
  | nil =>
    obtain rfl := Except.ok.inj h
    exact List.forall_mem_nil _
  | cons id rest ih =>
    obtain ⟨v, hv, h⟩ := bind_eq_ok.mp h
    obtain ⟨ws, hws, h⟩ := bind_eq_ok.mp h
    obtain rfl := Except.ok.inj h
    exact List.forall_mem_cons.mpr ⟨errsIn_of_resolve hframe hv, ih hws⟩

/-- What an evaluation has to show of its errors, on every memo whose errors are known. -/
def Traced (E : Set Value) (x : Eval σ Value) : Prop :=
  ∀ m : Memo, m.All (fun _ v => v.ErrsIn E) → Ensures m x (Trace.ErrsWithin E)

/-- Calls of lines, which pass no errors on, show where theirs come from whatever is known. -/
def TracedCalls (sub : Invocation → Eval σ Value) : Prop :=
  ∀ E, Value.tooDeep ∈ E → ∀ j : Invocation, (∀ v ∈ j.arguments, v.isError = false) →
    Traced E (sub j)

/-- The memo after some events has errors that are known by then. -/
theorem Memo.errsIn_after (hm : m.All fun _ v => v.ErrsIn E) {t : Trace}
    (ht : ∀ e ∈ t, e.Keeps fun _ v => v.ErrsIn (Trace.errors E t)) :
    (m.after t).All fun _ v => v.ErrsIn (Trace.errors E t) :=
  Memo.All.after (fun i v hv => Trace.errsIn_errors (hm i v hv) t) ht

/-- A line calls only with arguments that are no errors. -/
theorem callLine_traced (hsub : TracedCalls sub) (hE : Value.tooDeep ∈ E)
    (hframe : frame.ErrsIn E) (callee : FunctionId) (arguments : List ReferenceId) :
    Traced E (callLine P f sub frame callee arguments) := by
  refine fun m hm => .callLine (fun e _ => .error e) ?_ ?_
  · intro values v hvalues hfind
    exact .ok (errsIn_of_resolveAll hframe hvalues v (List.mem_of_find?_eq_some hfind))
  · intro values _ hfind
    exact hsub E hE ⟨callee, values⟩ (by simpa using hfind) m hm

/-- Lines of a body, by induction on the lines that are left, while the known errors grow. -/
theorem runLines_traced (hsub : TracedCalls sub) (hE : Value.tooDeep ∈ E) (f : Function σ)
    (id : FunctionId) (lines : List Line) (n : Nat) (hframe : frame.ErrsIn E)
    {last : Option Value} (hlast : ∀ v, last = some v → v.ErrsIn E) :
    Traced E (runLines P f id depth sub lines n frame last) := by
  induction lines generalizing E n frame last with
  | nil => exact fun m hm => .runLines_nil (fun v hv => .ok (hlast v hv)) fun _ => .error _
  | cons line rest ih =>
    intro m hm
    -- the target of a return line is read last, after events that may have made more errors known
    have hresolve : ∀ target t, Trace.ErrsWithin (Trace.errors E t)
        (resolve P f frame target) [] :=
      fun target t => .nil fun v hv => errsIn_of_resolve (hframe.errors t) hv
    cases line with
    | assign target callee arguments =>
      refine .runLines_assign (callLine_traced hsub hE hframe callee arguments m hm) ?_ ?_
      · intro v t ht
        have hframe' : (frame.bind target v).ErrsIn (Trace.errors E t) :=
          (hframe.errors t).bind (ht.outcome v rfl) target
        have hlast' : ∀ w, some v = some w → w.ErrsIn (Trace.errors E t) := by
          intro w hw
          obtain rfl := Option.some.inj hw
          exact ht.outcome v rfl
        have hrest := ih (.inl hE) (n + 1) hframe' hlast' _ (Memo.errsIn_after hm ht.kept)
        exact hrest.mono fun o u hu => .cons rfl (ht.append hu)
      · exact fun e t ht => .cons rfl ht
    | returnIf target gate arguments =>
      refine .runLines_returnIf (callLine_traced hsub hE hframe gate arguments m hm) ?_ ?_ ?_ ?_
        ?_
      · exact fun e t ht => .cons rfl ht
      · exact fun v t ht _ => .cons rfl (ht.append (.cons rfl (.ok (ht.outcome v rfl))))
      · exact fun v t e ht _ _ => .cons rfl (ht.append (.cons rfl (.error e)))
      · exact fun v t ht _ _ => .cons rfl (ht.append (.cons rfl (hresolve target t)))
      · intro v t ht _ _
        have hrest := ih (.inl hE) (n + 1) (hframe.errors t)
          (fun w hw => Trace.errsIn_errors (hlast w hw) t) _ (Memo.errsIn_after hm ht.kept)
        exact hrest.mono fun o u hu => .cons rfl (ht.append (.cons rfl hu))
    | ret target =>
      have hread := hresolve target []
      rw [Trace.errors_nil] at hread
      exact .runLines_ret (.cons rfl hread)

/-- The errors of a body come from its arguments, the host or the calls below. -/
theorem runBody_traced (hsub : TracedCalls sub) (hE : Value.tooDeep ∈ E) (f : Function σ)
    {i : Invocation} (hi : ∀ v ∈ i.arguments, v.ErrsIn E) :
    Traced E (runBody P depth sub f i) := by
  intro m hm
  cases hf : f.body with
  | native run =>
    refine .runBody_native hf fun host => ⟨List.forall_mem_singleton.mpr trivial, ?_⟩
    intro v hv _
    rw [Failure.ofViolation_eq_ok] at hv
    rw [hv]
    exact .inr ⟨depth, i, List.mem_cons_self⟩
  | lines lines =>
    have hlines : Traced E (runLines P f i.function depth sub lines 0
        (Frame.ofArguments f.signature.parameterIds i.arguments) none) :=
      runLines_traced hsub hE f i.function lines 0 (Frame.errsIn_ofArguments hi) nofun
    refine .runBody_lines hf (hlines m hm) ?_ ?_
    · exact fun v t ht => .cons rfl (ht.append (.cons rfl (.ok (ht.outcome v rfl))))
    · exact fun e t ht => .cons rfl ht

/-- At every depth and limit, errors come from the arguments, the host or a cut-off. -/
theorem evaluate_traced (levels depth : Nat) {E : Set Value} (hE : Value.tooDeep ∈ E)
    {i : Invocation} (hi : ∀ v ∈ i.arguments, v.ErrsIn E) :
    Traced E (evaluate P levels depth i) := by
  induction levels generalizing E depth i with
  | zero => exact fun m hm => .evaluate_zero (.cons rfl (.ok fun _ => hE))
  | succ levels ih =>
    intro m hm
    refine .step (fun _ => .error _) (fun _ v _ _ hfound => .ok (hm i v hfound))
      (fun _ _ _ => .error _) fun f _ _ _ => ?_
    have hsub : TracedCalls (evaluate P levels (depth + 1)) := by
      refine fun E hE j hj => ih (depth + 1) hE fun v hv hisError => ?_
      cases (hj v hv).symm.trans hisError
    refine (runBody_traced hsub hE f hi m hm).mono fun o t ht => ?_
    rcases Ensures.keepEvents_cases f depth i o with hnone | ⟨v, rfl, -, hkeep⟩
    · rwa [hnone, List.append_nil]
    · rw [hkeep]
      exact ht.append (.keep (ht.outcome v rfl) depth i)

end Evaluator

/-! ## Calls of a context -/

namespace Context

variable {c : Context σ} {E : Set Value}

/-- The errors in the memo after some calls are known from their history. -/
theorem memo_errsIn (hE : Value.tooDeep ∈ E) (hc : c.memo.All fun _ v => v.ErrsIn E)
    {calls : List (σ × Invocation)}
    (hcalls : ∀ call ∈ calls, ∀ v ∈ call.2.arguments, v.ErrsIn E) :
    (c.after calls).memo.All fun _ v => v.ErrsIn (Trace.errors E (c.history calls)) := by
  induction calls generalizing c E with
  | nil =>
    rw [after_nil, history_nil, Trace.errors_nil]
    exact hc
  | cons call calls ih =>
    obtain ⟨hfirst, hrest⟩ := List.forall_mem_cons.mp hcalls
    obtain ⟨hrun, hcontext⟩ := run_of_ensures
      (evaluate_traced (c.maxDepth + 1) 0 hE hfirst c.memo hc) call.1
    rw [after_cons, history_cons, ← Trace.errors_append]
    refine ih (.inl hE) ?_ fun later hlater v hv => Trace.errsIn_errors (hrest later hlater v hv) _
    rw [hcontext]
    exact Memo.errsIn_after hc hrun.kept

/-- An error that a call answers is the too-deep error, an argument of a call so far, or what a
function of the host answered in one of them. -/
theorem run_error_source {P : Program σ} {maxDepth : Nat} {calls : List (σ × Invocation)} {host : σ}
    {i : Invocation} {v : Value}
    (hrun : (((fresh P maxDepth).after calls).run host i).outcome = .ok v)
    (hv : v.isError = true) :
    v = .tooDeep ∨ (∃ call ∈ calls ++ [(host, i)], v ∈ call.2.arguments) ∨
      ∃ d j, .native d j (.ok v) ∈ (fresh P maxDepth).history (calls ++ [(host, i)]) := by
  let E : Set Value :=
    {w | w = .tooDeep ∨ ∃ call ∈ calls ++ [(host, i)], w ∈ call.2.arguments}
  have hcalls : ∀ call ∈ calls ++ [(host, i)], ∀ w ∈ call.2.arguments, w.ErrsIn E :=
    fun call hcall w hw _ => .inr ⟨call, hcall, hw⟩
  obtain ⟨hbefore, hlast⟩ := List.forall_mem_append.mp hcalls
  have hmemo := memo_errsIn (c := fresh P maxDepth) (E := E) (.inl rfl) .empty hbefore
  have hi : ∀ w ∈ i.arguments, w.ErrsIn (Trace.errors E ((fresh P maxDepth).history calls)) :=
    fun w hw => Trace.errsIn_errors (hlast (host, i) List.mem_cons_self w hw) _
  have htraced := (run_of_ensures (evaluate_traced _ 0 (.inl (.inl rfl)) hi _ hmemo) host).1
  have hsource := htraced.outcome v hrun hv
  rw [Trace.errors_append, ← history_append_singleton (fresh P maxDepth) calls (host, i)] at hsource
  exact or_assoc.mp hsource

end Context

end Rulebook

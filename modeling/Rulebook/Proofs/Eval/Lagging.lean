import Rulebook.Proofs.Eval.Following
import Rulebook.Proofs.Eval.Memoization

/-!
# Evaluations that lag behind

The same lines run twice, once with a smaller depth limit or on a memo with fewer results, need not
make the same calls: where the lagging run has the too-deep error the other one has a value and goes
on. But the lagging run makes no call that the other one does not make, and what it gives is what
the other one gives or too deep. `P.Lags D x v D'` says this of an evaluation `x` where the other
run gave `v`: from results for invocations of `D`, all approximations of plain values, `x` gives `v`
or the too-deep error and leaves results for invocations of `D'`, if it does not fail.

There is a rule for each kind of line. With them every evaluation lags behind the evaluation from no
given results, and leaves no results outside of the footprint (`evaluate_lags`).
-/

namespace Rulebook

open Eval

variable {σ : Type} {P : Program σ} {host : σ}

/-! ## Plain evaluation once more -/

namespace Program

section Bare

variable {f : Function σ} {i : Invocation}

/-- Nothing is given, so every memoized result is found by a run. -/
theorem memoized?_empty (f : Function σ) (i : Invocation) : memoized? f i .empty = none := by
  rw [memoized?, Memo.find?_empty, ite_self]

/-- With no given results, a native answers what it answers and makes no calls. -/
theorem outcome?_empty_of_native (host : σ) (hf : P.function? i.function = some f)
    (hi : i.isValid P = true) {run : Native σ} (hbody : f.body = .native run) :
    P.outcome? host .empty i = some (Failure.ofViolation (run i.arguments host).1) ∧
      P.calls host .empty i = [] :=
  outcome?_of_native hf (memoized?_empty f i) hi hbody

/-- With no given results, the outcome and the calls of a body are those of its lines. -/
theorem outcome?_empty_of_lines (host : σ) (hf : P.function? i.function = some f)
    (hi : i.isValid P = true) {lines : List Line} (hbody : f.body = .lines lines) :
    P.outcome? host .empty i = P.linesOutcome? host .empty f lines
        (Frame.ofArguments f.signature.parameterIds i.arguments) none ∧
      P.calls host .empty i = P.lineCalls host .empty f lines
        (Frame.ofArguments f.signature.parameterIds i.arguments) :=
  outcome?_of_lines hf (memoized?_empty f i) hi hbody

end Bare

/-- From no given results an invocation has no outcomes but plain ones. -/
theorem exists_plainEval_of_outcome? {i : Invocation} {o : Except (Failure EvalError) Value}
    (h : P.outcome? host .empty i = some o) : ∃ n, PlainEval P i n o := by
  refine outcome?.partial_correctness P host .empty (fun i o => ∃ n, PlainEval P i n o)
    (fun f lines frame last o => ∃ n, PlainLines P f lines frame last n o)
    (fun f frame callee arguments o => ∃ n, PlainCall P f frame callee arguments n o)
    ?invocation ?lines ?call i o h
  case invocation =>
    intro linesOutcome? ih i o h
    split at h
    · next hf =>
      obtain rfl := Option.some.inj h
      exact ⟨0, .unknown hf⟩
    · next f hf =>
      rw [memoized?_empty, Invocation.isValid_of_function? hf] at h
      by_cases hi : f.arity = i.arguments.length
      · rw [decide_eq_true hi, if_pos rfl] at h
        dsimp only at h
        split at h
        · next run hbody =>
          obtain rfl := Option.some.inj h
          exact ⟨0, .native hf hi hbody host⟩
        · next lines hbody =>
          obtain ⟨n, hn⟩ := ih _ _ _ _ _ h
          exact ⟨n, .lines hf hi hbody hn⟩
      · rw [decide_eq_false hi, if_neg Bool.false_ne_true] at h
        obtain rfl := Option.some.inj h
        exact ⟨0, .arity hf hi⟩
  case lines =>
    intro linesOutcome? callOutcome? ih ihcall f lines frame last o h
    split at h
    · split at h
      · obtain rfl := Option.some.inj h
        exact ⟨0, .last⟩
      · obtain rfl := Option.some.inj h
        exact ⟨0, .missing⟩
    · obtain ⟨_ | v, hcall, h⟩ := Option.bind_eq_some_iff.mp h
      · obtain rfl := Option.some.inj h
        obtain ⟨m, hm⟩ := ihcall _ _ _ _ _ hcall
        exact ⟨m, .assignError hm⟩
      · obtain ⟨m, hm⟩ := ihcall _ _ _ _ _ hcall
        obtain ⟨n, hn⟩ := ih _ _ _ _ _ h
        exact ⟨max m n, .assign hm hn⟩
    · obtain ⟨_ | v, hcall, h⟩ := Option.bind_eq_some_iff.mp h
      · obtain rfl := Option.some.inj h
        obtain ⟨m, hm⟩ := ihcall _ _ _ _ _ hcall
        exact ⟨m, .gateError hm⟩
      · obtain ⟨m, hm⟩ := ihcall _ _ _ _ _ hcall
        dsimp only at h
        cases hv : v.isError with
        | true =>
          rw [hv, if_pos rfl] at h
          obtain rfl := Option.some.inj h
          exact ⟨m, .gateAnswersError hm hv⟩
        | false =>
          rw [hv, if_neg Bool.false_ne_true] at h
          split at h
          · next e hgate =>
            obtain rfl := Option.some.inj h
            exact ⟨m, .gateStuck hm hv hgate⟩
          · next hgate =>
            obtain rfl := Option.some.inj h
            exact ⟨m, .gateOpen hm hv hgate⟩
          · next hgate =>
            obtain ⟨n, hn⟩ := ih _ _ _ _ _ h
            exact ⟨max m n, .gateClosed hm hv hgate hn⟩
    · obtain rfl := Option.some.inj h
      exact ⟨0, .ret⟩
  case call =>
    intro outcome? ih f frame callee arguments o h
    split at h
    · next e hread =>
      obtain rfl := Option.some.inj h
      exact ⟨_, .unreadable hread⟩
    · next values hread =>
      split at h
      · next v hfind =>
        obtain rfl := Option.some.inj h
        exact ⟨_, .error hread hfind⟩
      · next hfind =>
        obtain ⟨n, hn⟩ := ih _ _ h
        exact ⟨_, .call hread hfind hn⟩

end Program

/-! ## The judgement -/

/-- A memo has approximations of plain values, and only of invocations of a set. -/
structure Program.Within (P : Program σ) (D : Set Invocation) (m : Memo) : Prop where
  approximates : m.All P.Approximates
  domain : m.domain ⊆ D

/-- On a memo within a set an evaluation gives a value or the too-deep error and leaves a memo
within another set, unless it fails. -/
def Program.Lags (P : Program σ) (D : Set Invocation) (x : Eval σ Value) (v : Value)
    (D' : Set Invocation) : Prop :=
  ∀ m, P.Within D m → Ensures m x fun o t =>
    ∀ w, o = .ok w → w.Approximates True v ∧ P.Within D' (m.after t)

namespace Program

variable {D D₁ D₂ : Set Invocation} {x : Eval σ Value} {v g : Value}

theorem Within.mono {m : Memo} (h : P.Within D m) (hD : D ⊆ D₁) : P.Within D₁ m :=
  ⟨h.approximates, h.domain.trans hD⟩

/-- An evaluation keeps to approximations by itself. -/
theorem lags_evaluate (hP : P.NativesPure) {levels depth : Nat} {i : Invocation}
    (h : ∀ m, P.Within D m → Ensures m (evaluate P levels depth i) fun o t =>
      ∀ w, o = .ok w → w.Approximates True v ∧ (m.after t).domain ⊆ D₁) :
    P.Lags D (evaluate P levels depth i) v D₁ := by
  intro m hm
  refine ((h m hm).and (evaluate_approximates hP levels depth i hm.approximates)).mono ?_
  rintro o t ⟨hlags, hkeeps⟩ w hw
  obtain ⟨happrox, hdomain⟩ := hlags w hw
  exact ⟨happrox, hm.approximates.after hkeeps, hdomain⟩

/-- A call that is cut off lags behind all others. -/
theorem lags_evaluate_zero (hD : D ⊆ D₁) (depth : Nat) (i : Invocation) :
    P.Lags D (evaluate P 0 depth i) v D₁ := by
  intro m hm
  refine .evaluate_zero ?_
  rintro _ ⟨⟩
  exact ⟨.tooDeep trivial, hm.mono hD⟩

/-! ## Lines -/

section Lines

variable {f : Function σ} {sub : Invocation → Eval σ Value} {depth : Nat} {plain : Frame}
variable {callee gate : FunctionId} {target : ReferenceId} {arguments : List ReferenceId}
variable {values : List Value} {id : FunctionId} {rest : List Line} {plainLast : Option Value}

/-- The call of a line lags behind, in every frame that approximates one. -/
def CallLags (P : Program σ) (f : Function σ) (sub : Invocation → Eval σ Value) (plain : Frame)
    (callee : FunctionId) (arguments : List ReferenceId) (D : Set Invocation) (v : Value)
    (D' : Set Invocation) : Prop :=
  ∀ frame : Frame, frame.Approximates True plain →
    P.Lags D (callLine P f sub frame callee arguments) v D'

/-- The lines that are left of a body lag behind, in every frame that approximates one. -/
def LinesLag (P : Program σ) (f : Function σ) (id : FunctionId) (depth : Nat)
    (sub : Invocation → Eval σ Value) (lines : List Line) (plain : Frame)
    (plainLast : Option Value) (D : Set Invocation) (v : Value) (D' : Set Invocation) : Prop :=
  ∀ n (frame : Frame) last, frame.Approximates True plain →
    Option.Rel (Value.Approximates True) last plainLast →
    P.Lags D (runLines P f id depth sub lines n frame last) v D'

/-- A call with an error among the plain arguments lags behind it and gives the memo nothing. -/
theorem callLags_of_error (hread : resolveAll P f plain arguments = .ok values)
    (hfind : values.find? Value.isError = some v) :
    P.CallLags f sub plain callee arguments D v D := by
  intro frame hframe m hm
  have hvalues := hframe.resolveAll (P := P) (f := f) arguments
  rw [hread] at hvalues
  refine .callLine ?_ ?_ ?_
  · rintro _ _ _ ⟨⟩
  · rintro ws w hws hw _ ⟨⟩
    rw [hws] at hvalues
    rcases Value.Approximates.find?_isError hvalues hw with hv | ⟨-, rfl⟩
    · obtain rfl := Option.some.inj (hfind.symm.trans hv)
      exact ⟨.refl, hm⟩
    · exact ⟨.tooDeep trivial, hm⟩
  · intro ws hws hw
    rw [hws] at hvalues
    -- no argument is an error, so none is too deep and the others have no error either
    rw [Value.Approximates.eq_of_find?_isError hvalues hw] at hw
    cases hfind.symm.trans hw

/-- A call with plain arguments that can be read and are no errors lags behind its invocation. -/
theorem callLags_of_call (hread : resolveAll P f plain arguments = .ok values)
    (hfind : values.find? Value.isError = none)
    (hsub : P.Lags D (sub ⟨callee, values⟩) v D₁) (hD : D ⊆ D₁) :
    P.CallLags f sub plain callee arguments D v D₁ := by
  intro frame hframe m hm
  have hvalues := hframe.resolveAll (P := P) (f := f) arguments
  rw [hread] at hvalues
  refine .callLine ?_ ?_ ?_
  · rintro _ _ _ ⟨⟩
  · rintro ws w hws hw _ ⟨⟩
    rw [hws] at hvalues
    -- an error that the other run does not have is too deep, and the call is left out
    rcases Value.Approximates.find?_isError hvalues hw with hv | ⟨-, rfl⟩
    · cases hfind.symm.trans hv
    · exact ⟨.tooDeep trivial, hm.mono hD⟩
  · intro ws hws hw
    rw [hws] at hvalues
    obtain rfl := Value.Approximates.eq_of_find?_isError hvalues hw
    exact hsub m hm

theorem linesLag_last : P.LinesLag f id depth sub [] plain (some v) D v D := by
  intro n frame last _ hlast m hm
  cases hlast with
  | some hwv =>
    refine .runLines_nil ?_ ?_
    · rintro _ ⟨⟩ _ ⟨⟩
      exact ⟨hwv, hm⟩
    · rintro ⟨⟩

theorem linesLag_ret (hv : resolve P f plain target = .ok v) :
    P.LinesLag f id depth sub (.ret target :: rest) plain plainLast D v D := by
  intro n frame last hframe _ m hm
  have hresolve := hframe.resolve (P := P) (f := f) target
  rw [hv] at hresolve
  refine .runLines_ret fun w hw => ?_
  rw [hw] at hresolve
  exact ⟨hresolve, hm⟩

/-- An assignment lags behind if its call does, and the rest does from the plain value of it. -/
theorem linesLag_assign (hcall : P.CallLags f sub plain callee arguments D g D₁)
    (hrest : P.LinesLag f id depth sub rest (plain.bind target g) (some g) D₁ v D₂) :
    P.LinesLag f id depth sub (.assign target callee arguments :: rest) plain plainLast D v D₂ := by
  intro n frame last hframe _ m hm
  refine .runLines_assign (hcall frame hframe m hm) ?_ ?_
  · intro u t ht
    obtain ⟨hu, hm'⟩ := ht u rfl
    refine (hrest (n + 1) _ _ (hframe.bind hu target) (.some hu) _ hm').mono ?_
    intro o u' hlags w hw
    simpa [Memo.record] using hlags w hw
  · rintro _ _ _ _ ⟨⟩

/-- A verdict that is no error is the other run's, so the gate does with it what it did there. -/
theorem linesLag_returnIf (hcall : P.CallLags f sub plain gate arguments D g D₁) (hD : D₁ ⊆ D₂)
    (herror : g.isError = true → g = v)
    (hopen : g.isError = false → isOpen P f gate g = .ok true → resolve P f plain target = .ok v)
    (hclosed : g.isError = false → isOpen P f gate g = .ok false →
      P.LinesLag f id depth sub rest plain plainLast D₁ v D₂) :
    P.LinesLag f id depth sub (.returnIf target gate arguments :: rest) plain plainLast D v D₂ := by
  intro n frame last hframe hlast m hm
  refine .runLines_returnIf (hcall frame hframe m hm) ?_ ?_ ?_ ?_ ?_
  · rintro _ _ _ _ ⟨⟩
  · rintro u t ht hu w ⟨⟩
    obtain ⟨hug, hm'⟩ := ht u rfl
    refine ⟨?_, by simpa [Memo.record] using hm'.mono hD⟩
    rcases hug with rfl | ⟨-, rfl⟩
    · rw [herror hu]
      exact .refl
    · exact .tooDeep trivial
  · rintro _ _ _ _ _ _ _ ⟨⟩
  · intro u t ht hu hgate w hw
    obtain ⟨hug, hm'⟩ := ht u rfl
    obtain rfl := hug.eq_of_isError_eq_false hu
    have hresolve := hframe.resolve (P := P) (f := f) target
    rw [hw, hopen hu hgate] at hresolve
    exact ⟨hresolve, by simpa [Memo.record] using hm'.mono hD⟩
  · intro u t ht hu hgate
    obtain ⟨hug, hm'⟩ := ht u rfl
    obtain rfl := hug.eq_of_isError_eq_false hu
    refine (hclosed hu hgate (n + 1) frame last hframe hlast _ hm').mono fun o u' hlags w hw => ?_
    simpa [Memo.record] using hlags w hw

end Lines

/-! ## Bodies and steps -/

section Bodies

variable {f : Function σ} {sub : Invocation → Eval σ Value} {depth : Nat} {i : Invocation}

/-- A pure native does not lag at all. -/
theorem lags_runBody_of_native (hP : P.NativesPure) (hf : P.function? i.function = some f)
    {run : Native σ} (hbody : f.body = .native run)
    (hv : (Failure.ofViolation (run i.arguments host).1 : Except (Failure EvalError) Value) =
      .ok v) :
    P.Lags D (runBody P depth sub f i) v D := by
  intro m hm
  refine .runBody_native hbody fun host' w hw => ?_
  rw [hP _ f run hf hbody i.arguments host' host, hv] at hw
  obtain rfl := Except.ok.inj hw
  exact ⟨.refl, hm⟩

theorem lags_runBody_of_lines {lines : List Line} (hbody : f.body = .lines lines)
    (hlines : P.LinesLag f i.function depth sub lines
      (Frame.ofArguments f.signature.parameterIds i.arguments) none D v D₁) :
    P.Lags D (runBody P depth sub f i) v D₁ := by
  intro m hm
  refine .runBody_lines hbody (hlines 0 _ none (.refl _) .none m hm) ?_ ?_
  · intro u t ht w hw
    simpa [Memo.record] using ht w hw
  · rintro _ _ _ _ ⟨⟩

/-- A step that keeps its result has a result for its own invocation afterwards, and else for those
that its body left. -/
theorem domain_after_keepEvents {m : Memo} {w : Value} :
    (m.after (Ensures.keepEvents f depth i (.ok w))).domain =
      m.domain ∪ {j | j = i ∧ f.isUncacheable = false} := by
  ext j
  cases hf : f.isUncacheable with
  | true => simp [Ensures.keepEvents, hf]
  | false =>
    rw [Ensures.after_keepEvents_ok hf]
    by_cases hj : j = i
    · simp [Memo.domain, Memo.find?_insert, hj]
    · simp [Memo.domain, Memo.find?_insert, hj]

/-- A step lags behind if its body does and it has a result to keep only where the other run has
one. -/
theorem lags_step {m : Memo} (hm : P.Within D m) (hD : D ⊆ D₁)
    (hhit : ∀ f w, P.function? i.function = some f → f.isUncacheable = false →
      m.find? i = some w → w.Approximates True v)
    (hbody : ∀ f, P.function? i.function = some f → i.isValid P = true →
      P.Lags D (runBody P depth sub f i) v D₁ ∧ (f.isUncacheable = false → i ∈ D₁)) :
    Ensures m (step P depth sub i) fun o t =>
      ∀ w, o = .ok w → w.Approximates True v ∧ (m.after t).domain ⊆ D₁ := by
  refine .step ?_ ?_ ?_ ?_
  · rintro _ _ ⟨⟩
  · rintro f w hf hcacheable hw _ ⟨⟩
    exact ⟨hhit f w hf hcacheable hw, hm.domain.trans hD⟩
  · rintro _ _ _ _ ⟨⟩
  · intro f hf hi _
    obtain ⟨hlags, hkept⟩ := hbody f hf hi
    refine (hlags m hm).mono ?_
    rintro o t ht w rfl
    obtain ⟨hwv, hm'⟩ := ht w rfl
    refine ⟨hwv, ?_⟩
    rw [Memo.after_append, domain_after_keepEvents]
    refine Set.union_subset hm'.domain ?_
    rintro _ ⟨rfl, hcacheable⟩
    exact hkept hcacheable

end Bodies

end Program

/-! ## Behind the evaluation from no given results -/

namespace Program

section Outcome

variable {D : Set Invocation} {v : Value} {f : Function σ} {sub : Invocation → Eval σ Value}
variable {depth : Nat} {plain : Frame}

/-- The call of a line lags behind its outcome if the invocation that it makes does. -/
theorem callLags_of_outcome {callee : FunctionId} {arguments : List ReferenceId}
    (hsub : ∀ k ∈ P.invoked f plain callee arguments, ∀ u,
      P.outcome? host .empty k = some (.ok u) → P.Lags D (sub k) u D)
    (h : P.callOutcome? host .empty f plain callee arguments = some (.ok v)) :
    P.CallLags f sub plain callee arguments D v D := by
  rw [callOutcome?] at h
  rw [invoked] at hsub
  cases hread : resolveAll P f plain arguments with
  | error e =>
    rw [hread] at h
    cases h
  | ok values =>
    simp only [hread] at h hsub
    cases hfind : values.find? Value.isError with
    | some u =>
      simp only [hfind, Option.some.injEq, Except.ok.injEq] at h
      subst h
      exact callLags_of_error hread hfind
    | none =>
      simp only [hfind, List.forall_mem_singleton] at h hsub
      exact callLags_of_call hread hfind (hsub v h) subset_rfl

/-- Lines lag behind their outcome if the calls that lead to it do. -/
theorem linesLag_of_outcome {id : FunctionId} {lines : List Line} {plainLast : Option Value}
    (hsub : ∀ k ∈ P.lineCalls host .empty f lines plain, ∀ u,
      P.outcome? host .empty k = some (.ok u) → P.Lags D (sub k) u D)
    (h : P.linesOutcome? host .empty f lines plain plainLast = some (.ok v)) :
    P.LinesLag f id depth sub lines plain plainLast D v D := by
  induction lines generalizing plain plainLast with
  | nil =>
    cases plainLast with
    | none =>
      rw [linesOutcome?] at h
      cases h
    | some u =>
      rw [linesOutcome?] at h
      obtain rfl := Except.ok.inj (Option.some.inj h)
      exact linesLag_last
  | cons line rest ih =>
    cases line with
    | assign target callee arguments =>
      rw [linesOutcome?] at h
      rw [lineCalls, List.forall_mem_append] at hsub
      obtain ⟨_ | g, hcall, h⟩ := Option.bind_eq_some_iff.mp h
      · cases h
      · simp only [hcall] at hsub
        exact linesLag_assign (callLags_of_outcome hsub.1 hcall) (ih hsub.2 h)
    | returnIf target gate arguments =>
      rw [linesOutcome?] at h
      rw [lineCalls, List.forall_mem_append] at hsub
      obtain ⟨_ | g, hcall, h⟩ := Option.bind_eq_some_iff.mp h
      · cases h
      · simp only [hcall] at hsub
        dsimp only at h
        refine linesLag_returnIf (callLags_of_outcome hsub.1 hcall) subset_rfl ?_ ?_ ?_
        · intro hg
          rw [if_pos hg] at h
          exact Except.ok.inj (Option.some.inj h)
        · intro hg hgate
          rw [hg, if_neg Bool.false_ne_true, hgate] at h
          exact Option.some.inj h
        · intro hg hgate
          rw [hg, if_neg Bool.false_ne_true, hgate] at h
          simp only [hg, hgate, Bool.false_eq_true, if_false] at hsub
          exact ih hsub.2 h
    | ret target =>
      rw [linesOutcome?] at h
      exact linesLag_ret (Option.some.inj h)

/-- Every evaluation lags behind the evaluation from no given results, and leaves no results outside
of a set that has the footprint of its invocation. -/
theorem evaluate_lags (hP : P.NativesPure) (levels depth : Nat) {i : Invocation} {v : Value}
    (h : P.outcome? host .empty i = some (.ok v))
    (hD : ∀ j w, P.Footprint host .empty i j w → j ∈ D) :
    P.Lags D (evaluate P levels depth i) v D := by
  induction levels generalizing depth i v with
  | zero => exact lags_evaluate_zero subset_rfl depth i
  | succ levels ih =>
    obtain ⟨n, hplain⟩ := exists_plainEval_of_outcome? h
    refine lags_evaluate hP fun m hm => lags_step hm subset_rfl ?_ ?_
    · intro _ w _ _ hw
      exact hm.approximates i w hw n v hplain
    · intro f hf hi
      constructor
      · cases hbody : f.body with
        | native run =>
          rw [(outcome?_empty_of_native host hf hi hbody).1] at h
          exact lags_runBody_of_native hP hf hbody (Option.some.inj h)
        | lines lines =>
          obtain ⟨houtcome, hcalls⟩ := outcome?_empty_of_lines host hf hi hbody
          rw [houtcome] at h
          refine lags_runBody_of_lines hbody (linesLag_of_outcome (fun k hk u hu => ?_) h)
          -- what a call leaves is in the footprint of the invocation that makes it
          rw [← hcalls] at hk
          exact ih (depth + 1) hu fun j w hj => hD j w (footprint_iff.mpr (.inr ⟨k, hk, hj⟩))
      · intro hcacheable
        rw [Invocation.isValid_of_function? hf, decide_eq_true_eq] at hi
        exact hD i v (footprint_iff.mpr (.inl ⟨rfl, ⟨f, hf, hcacheable, hi⟩, h⟩))

end Outcome

end Program

end Rulebook

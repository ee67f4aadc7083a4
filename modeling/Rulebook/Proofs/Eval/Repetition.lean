import Rulebook.Proofs.Eval.Following
import Rulebook.Proofs.Eval.Memoization

/-!
# Repeating calls that fail

A step that fails gives the memo nothing, but the same invocation may have been cut short further
down, without failing there, and left a result. Then the same call is answered from the memo the
next time. This needs a call that is cut off: without one, an invocation that fails has no result
afterwards and fails again.

In general a call fails again if the memo has no result for the invocations that it gave up. Every
call that ended before was answered then as it is answered now (`Program.Repeatable`), so the second
run takes the way of the first one up to the failure.
-/

namespace Rulebook

open Eval

variable {σ : Type}

/-! ## Invocations that are given up -/

/-- Whether an event is that of a body giving its result at a depth. -/
def Event.isLeaveAt (depth : Nat) : Event → Bool
  | .leave d _ _ => d == depth
  | _ => false

namespace Trace

/-- The invocations that were given up: their body was entered and gave no result after that, or
their function of the host broke a contract. -/
def givenUp : Trace → List Invocation
  | [] => []
  | .enter depth i :: t => if t.any (Event.isLeaveAt depth) then givenUp t else i :: givenUp t
  | .native _ i (.error _) :: t => i :: givenUp t
  | _ :: t => givenUp t

/-- What was given up stays given up behind one more event in front. -/
theorem mem_givenUp_cons {i : Invocation} {e : Event} {t : Trace} (h : i ∈ givenUp t) :
    i ∈ givenUp (e :: t) := by
  cases e with
  | enter depth j =>
    rw [givenUp]
    split
    · exact h
    · exact List.mem_cons_of_mem _ h
  | native depth j o =>
    cases o with
    | ok v => exact h
    | error x => exact List.mem_cons_of_mem _ h
  | cutOff | line | verdict | leave | keep => exact h

/-- What was given up stays given up behind any events in front. -/
theorem mem_givenUp_append {i : Invocation} {t u : Trace} (h : i ∈ givenUp u) :
    i ∈ givenUp (t ++ u) := by
  induction t with
  | nil => exact h
  | cons e t ih => exact mem_givenUp_cons ih

end Trace

/-- What a memo has after some events was there before or was kept by one of them. -/
theorem Memo.find?_after {m : Memo} {t : Trace} {i : Invocation} {v : Value}
    (h : (m.after t).find? i = some v) :
    m.find? i = some v ∨ ∃ depth, .keep depth i v ∈ t := by
  have hm : m.All fun j w => m.find? j = some w ∨ ∃ depth, .keep depth j w ∈ t :=
    fun j w hw => .inl hw
  refine hm.after (fun e he => ?_) i v h
  cases e with
  | keep depth j w => exact .inr ⟨depth, he⟩
  | cutOff | enter | line | verdict | leave | native => trivial

/-! ## Events of deeper levels -/

section Depths

variable {P : Program σ} {f : Function σ} {sub : Invocation → Eval σ Value} {depth : Nat}
variable {m : Memo}

/-- An evaluation has events of its own depth and deeper ones. -/
theorem evaluate_depth_le (levels depth : Nat) (i : Invocation) (m : Memo) :
    Ensures m (evaluate P levels depth i) fun _ t => ∀ e ∈ t, depth ≤ e.depth := by
  induction levels generalizing depth i m with
  | zero => exact .evaluate_zero (List.forall_mem_singleton.mpr (le_refl depth))
  | succ levels ih =>
    have hbelow : ∀ m j, True → Ensures m (evaluate P levels (depth + 1) j)
        fun _ t => ∀ e ∈ t, depth ≤ e.depth :=
      fun m j _ => (ih (depth + 1) j m).mono fun _ _ ht e he =>
        (Nat.le_succ depth).trans (ht e he)
    have hown : Ensures.Propagates (fun e => e.isKeep = false ∧ depth ≤ e.depth) (fun _ => True)
        fun _ t => ∀ e ∈ t, depth ≤ e.depth :=
      Ensures.propagates_forall (fun _ he => he) fun _ _ _ _ => trivial
    exact .step_forall (fun _ _ _ _ _ => le_refl depth) fun f _ _ =>
      .runBody_propagates hown (fun e hdepth he => ⟨he, hdepth.ge⟩) hbelow trivial f i

/-- All that a body gives the memo comes from deeper levels. -/
theorem runBody_keeps_deeper (hsub : ∀ m j, Ensures m (sub j) fun _ t => ∀ e ∈ t, depth < e.depth)
    (f : Function σ) (i : Invocation) : Ensures m (runBody P depth sub f i)
      fun _ t => ∀ e ∈ t, e.isKeep = true → depth < e.depth := by
  have hown : Ensures.Propagates (fun e => e.isKeep = false) (fun _ => True)
      fun _ t => ∀ e ∈ t, e.isKeep = true → depth < e.depth := by
    refine Ensures.propagates_forall (fun e he => ⟨he, fun hkeep => ?_⟩) fun _ _ _ _ => trivial
    rw [he] at hkeep
    cases hkeep
  exact Ensures.runBody_propagates hown (fun _ _ he => he)
    (fun m j _ => (hsub m j).mono fun _ _ ht e he _ => ht e he) trivial f i

/-- A step that fails gives the memo nothing of its own. -/
theorem step_keeps_deeper (hsub : ∀ m j, Ensures m (sub j) fun _ t => ∀ e ∈ t, depth < e.depth)
    (i : Invocation) : Ensures m (step P depth sub i)
      fun o t => ∀ x, o = .error x → ∀ e ∈ t, e.isKeep = true → depth < e.depth := by
  refine .step (fun _ _ _ => List.forall_mem_nil _) (fun _ _ _ _ _ _ _ => List.forall_mem_nil _)
    (fun _ _ _ _ _ => List.forall_mem_nil _) fun f _ _ _ => ?_
  refine (runBody_keeps_deeper hsub f i).mono ?_
  rintro _ t ht x rfl
  rw [Ensures.keepEvents, List.append_nil]
  exact ht

/-- Lines give no result at their own level: only the body that they are of does. -/
theorem runLines_isLeaveAt (hsub : ∀ m j, Ensures m (sub j) fun _ t => ∀ e ∈ t, depth < e.depth)
    (f : Function σ) (id : FunctionId) (lines : List Line) (n : Nat) (frame : Frame)
    (last : Option Value) : Ensures m (runLines P f id depth sub lines n frame last)
      fun _ t => ∀ e ∈ t, e.isLeaveAt depth = false := by
  have hown : Ensures.Propagates (fun e => e.isKeep = false ∧ e.isLeaveAt depth = false)
      (fun _ => True) fun _ t => ∀ e ∈ t, e.isLeaveAt depth = false :=
    Ensures.propagates_forall (fun _ he => he) fun _ _ _ _ => trivial
  refine Ensures.runLines_propagates hown (fun _ _ _ => ⟨rfl, rfl⟩) (fun _ _ => ⟨rfl, rfl⟩)
    (fun m j _ => (hsub m j).mono ?_) trivial f id lines n frame last
  intro _ t ht e he
  have hdepth := ht e he
  cases e with
  | leave d i v => exact beq_false_of_ne (Nat.ne_of_gt hdepth)
  | cutOff | enter | line | verdict | native | keep => rfl

/-- A body that fails is given up. -/
theorem runBody_givesUp (hsub : ∀ m j, Ensures m (sub j) fun _ t => ∀ e ∈ t, depth < e.depth)
    (f : Function σ) (i : Invocation) : Ensures m (runBody P depth sub f i)
      fun o t => ∀ e, o = .error e → i ∈ Trace.givenUp t := by
  cases hf : f.body with
  | native run =>
    refine .runBody_native hf fun host => ?_
    cases (run i.arguments host).1 with
    | ok v => rintro _ ⟨⟩
    | error x => exact fun _ _ => List.mem_cons_self
  | lines lines =>
    refine .runBody_lines hf (runLines_isLeaveAt hsub f i.function lines 0 _ none) ?_ ?_
    · rintro v t _ _ ⟨⟩
    · intro e t ht _ _
      have hnone : t.any (Event.isLeaveAt depth) = false := by simpa using ht
      rw [Trace.givenUp, hnone]
      exact List.mem_cons_self

end Depths

/-! ## Evaluations that repeat themselves -/

namespace Program

/-- From every later memo the evaluation ends as it did and leaves the memo as it is, unless it
failed and the memo has a result for an invocation that it gave up. -/
structure Repeats {α : Type} (P : Program σ) (m : Memo) (x : Eval σ α)
    (o : Except (Failure EvalError) α) (t : Trace) : Prop where
  le_after : m ≤ m.after t
  again : ∀ m', m.after t ≤ m' → m'.All (fun i _ => i.IsMemoizable P) →
    (∀ e, o = .error e → ∀ i ∈ Trace.givenUp t, m'.find? i = none) →
    Ensures m' x fun o' t' => o' = o ∧ m'.after t' = m'

/-- From whatever memo an evaluation starts, it repeats itself from later ones. -/
def Repeatable {α : Type} (P : Program σ) (x : Eval σ α) : Prop :=
  ∀ m, Ensures m x (P.Repeats m x)

namespace Repeatable

variable {α β : Type} {P : Program σ}

protected theorem pure (a : α) : P.Repeatable (Pure.pure a : Eval σ α) :=
  fun m => .pure ⟨le_refl m, fun _ _ _ _ => .pure ⟨rfl, rfl⟩⟩

protected theorem throw (e : Failure EvalError) : P.Repeatable (throw e : Eval σ α) :=
  fun m => .throw ⟨le_refl m, fun _ _ _ _ => .throw ⟨rfl, rfl⟩⟩

protected theorem liftState (x : Except (Failure EvalError) α) :
    P.Repeatable (Failure.liftState x : Eval σ α) := by
  cases x with
  | ok a => exact .pure a
  | error e => exact .throw e

/-- Parts in sequence repeat themselves: the second starts again on what the first has left. -/
protected theorem bind {x : Eval σ α} {f : α → Eval σ β} (hx : P.Repeatable x)
    (hf : ∀ a, P.Repeatable (f a)) : P.Repeatable (x >>= f) := by
  intro m
  refine .bind (hx m) ?_ ?_
  · intro a t ht
    refine (hf a (m.after t)).mono fun o u hu => ⟨?_, fun m' hle hm' hnone => ?_⟩
    · rw [Memo.after_append]
      exact ht.le_after.trans hu.le_after
    · rw [Memo.after_append] at hle
      have hfirst := ht.again m' (hu.le_after.trans hle) hm' (by rintro _ ⟨⟩)
      refine .bind hfirst ?_ ?_
      · -- the first part leaves the memo as it is, so the second part starts from there
        rintro a' t' ⟨ha, ht'⟩
        obtain rfl := Except.ok.inj ha
        rw [ht']
        refine (hu.again m' hle hm' fun e he i hi => ?_).mono fun o' u' h => ⟨h.1, ?_⟩
        · exact hnone e he i (Trace.mem_givenUp_append hi)
        · rw [Memo.after_append, ht', h.2]
      · rintro e t' ⟨⟨⟩, -⟩
  · intro e t ht
    refine ⟨ht.le_after, fun m' hle hm' hnone => ?_⟩
    refine .bind (ht.again m' hle hm' fun _ _ => hnone e rfl) ?_ ?_
    · rintro a t' ⟨⟨⟩, -⟩
    · rintro e' t' ⟨he, ht'⟩
      obtain rfl := Except.error.inj he
      exact ⟨rfl, ht'⟩

/-- An event that gives the memo nothing may come first. -/
protected theorem note {e : Event} (he : e.isKeep = false) {x : Eval σ α} (hx : P.Repeatable x) :
    P.Repeatable (note e >>= fun _ => x) := by
  intro m
  have hrecord : ∀ m : Memo, m.record e = m := fun m => Memo.record_of_isKeep_eq_false he
  refine .note_bind (hrecord m) ((hx m).mono fun o t ht => ⟨?_, fun m' hle hm' hnone => ?_⟩)
  · rw [Memo.after_cons, hrecord]
    exact ht.le_after
  · rw [Memo.after_cons, hrecord] at hle
    refine .note_bind (hrecord m') ((ht.again m' hle hm' fun x hx i hi => ?_).mono ?_)
    · exact hnone x hx i (Trace.mem_givenUp_cons hi)
    · rintro o' t' ⟨ho, ht'⟩
      rw [Memo.after_cons, hrecord]
      exact ⟨ho, ht'⟩

end Repeatable

/-! ### The evaluator -/

section Evaluator

variable {P : Program σ} {f : Function σ} {sub : Invocation → Eval σ Value} {depth : Nat}

theorem callLine_repeatable (hsub : ∀ i, P.Repeatable (sub i)) (frame : Frame)
    (callee : FunctionId) (arguments : List ReferenceId) :
    P.Repeatable (callLine P f sub frame callee arguments) := by
  refine .bind (.liftState _) fun values => ?_
  cases values.find? Value.isError with
  | some v => exact .pure v
  | none => exact hsub ⟨callee, values⟩

theorem runLines_repeatable (hsub : ∀ i, P.Repeatable (sub i)) (id : FunctionId)
    (lines : List Line) (n : Nat) (frame : Frame) (last : Option Value) :
    P.Repeatable (runLines P f id depth sub lines n frame last) := by
  induction lines generalizing n frame last with
  | nil =>
    cases last with
    | some v => exact .pure v
    | none => exact .throw _
  | cons line rest ih =>
    refine .note rfl ?_
    cases line with
    | assign target callee arguments =>
      exact .bind (callLine_repeatable hsub frame callee arguments) fun v => ih _ _ _
    | returnIf target gate arguments =>
      refine .bind (callLine_repeatable hsub frame gate arguments) fun v => .note rfl ?_
      cases v.isError with
      | true => exact .pure v
      | false =>
        refine .bind (.liftState _) fun b => ?_
        cases b with
        | true => exact .liftState _
        | false => exact ih _ _ _
    | ret target => exact .liftState _

/-- A body repeats itself if natives are pure and the calls below do. -/
theorem runBody_repeatable (hP : P.NativesPure) (hsub : ∀ i, P.Repeatable (sub i))
    {i : Invocation} (hf : P.function? i.function = some f) :
    P.Repeatable (runBody P depth sub f i) := by
  rw [runBody]
  cases hbody : f.body with
  | native run =>
    -- the state of the host may be another one the next time, but the outcome is the same
    intro m
    refine .runNative fun host => ⟨le_refl m, fun m' _ _ _ => .runNative fun host' => ?_⟩
    rw [hP _ f run hf hbody i.arguments host' host]
    exact ⟨rfl, rfl⟩
  | lines lines =>
    refine .note rfl (.bind (runLines_repeatable hsub _ _ _ _ _) fun v => ?_)
    exact .note rfl (.pure v)

/-- A step repeats itself if the calls below do and stay below it. -/
theorem step_repeatable (hP : P.NativesPure) (hsub : ∀ i, P.Repeatable (sub i))
    (hdeep : ∀ m i, Ensures m (sub i) fun _ t => ∀ e ∈ t, depth < e.depth) (i : Invocation) :
    P.Repeatable (step P depth sub i) := by
  intro m
  cases hf : P.function? i.function with
  | none => exact .step_unknown hf ⟨le_refl m, fun m' _ _ _ => .step_unknown hf ⟨rfl, rfl⟩⟩
  | some f =>
    cases hmiss : memoized? f i m with
    | some v =>
      refine .step_remembered hf hmiss ⟨le_refl m, fun m' hle _ _ => ?_⟩
      obtain ⟨hcacheable, hv⟩ := memoized?_eq_some.mp hmiss
      have hv' : memoized? f i m' = some v := memoized?_eq_some.mpr ⟨hcacheable, hle i v hv⟩
      exact .step_remembered hf hv' ⟨rfl, rfl⟩
    | none =>
      cases hi : i.isValid P with
      | false =>
        refine .step_arity hf hmiss hi ⟨le_refl m, fun m' _ hm' _ => ?_⟩
        exact .step_arity hf (memoized?_of_not_valid hm' hi) hi ⟨rfl, rfl⟩
      | true =>
        have hbody : P.Repeatable (runBody P depth sub f i) := runBody_repeatable hP hsub hf
        refine .step_body hf hmiss hi (((hbody m).and (runBody_givesUp hdeep f i)).mono ?_)
        rintro o t ⟨ht, hgiven⟩
        refine ⟨le_after_keepEvents ht.le_after hmiss o, fun m' hle hm' hnone => ?_⟩
        -- if nothing is kept, the body runs again as it did before
        have hagain : Ensures.keepEvents f depth i o = [] → memoized? f i m' = none →
            Ensures m' (step P depth sub i) fun o' t' => o' = o ∧ m'.after t' = m' := by
          intro hnil hmiss'
          rw [hnil, List.append_nil] at hle hnone
          refine .step_body hf hmiss' hi ((ht.again m' hle hm' hnone).mono ?_)
          rintro _ t' ⟨rfl, ht'⟩
          rw [hnil, List.append_nil]
          exact ⟨rfl, ht'⟩
        cases o with
        | error e =>
          have hnone' : m'.find? i = none := by
            rw [Ensures.keepEvents, List.append_nil] at hnone
            exact hnone e rfl i (hgiven e rfl)
          exact hagain rfl (by rw [memoized?, hnone', ite_self])
        | ok v =>
          cases hcacheable : f.isUncacheable with
          | true => exact hagain (if_pos hcacheable) (if_pos hcacheable)
          | false =>
            -- the result is kept, and later memos still have it
            have hv : (m.after (t ++ Ensures.keepEvents f depth i (.ok v))).find? i = some v := by
              rw [Memo.after_append, Ensures.after_keepEvents_ok hcacheable, Memo.find?_insert,
                if_pos rfl]
            exact .step_remembered hf (memoized?_eq_some.mpr ⟨hcacheable, hle i v hv⟩) ⟨rfl, rfl⟩

/-- With pure natives every evaluation repeats itself. -/
theorem evaluate_repeatable (hP : P.NativesPure) (levels depth : Nat) (i : Invocation) :
    P.Repeatable (evaluate P levels depth i) := by
  induction levels generalizing depth i with
  | zero => exact .note rfl (.pure Value.tooDeep)
  | succ levels ih =>
    have hdeep := fun m j => evaluate_depth_le (P := P) levels (depth + 1) j m
    exact step_repeatable hP (ih (depth + 1)) hdeep i

end Evaluator

end Program

/-! ## Calls of a context -/

namespace Context

variable {P : Program σ} {maxDepth : Nat} {c : Context σ} {host : σ} {i : Invocation}
variable {e : Failure EvalError}

/-- A call that fails without being cut off leaves no result of its own and fails again. -/
theorem run_again_of_uncut (hprogram : c.program = P) (hmaxDepth : c.maxDepth = maxDepth)
    (hP : P.NativesPure) (hm : c.memo.All fun i _ => i.IsMemoizable P)
    (he : (c.run host i).outcome = .error e) (huncut : Trace.Uncut (c.run host i).trace) :
    (c.run host i).context.cached i = none ∧
      ∀ host', ((c.run host i).context.run host' i).outcome = .error e := by
  -- what the memo has before the call is given
  have hself : P.Consistent host c.memo c.memo := Program.consistent_self hm
  have hfits := fits_of_uncut hprogram hmaxDepth hP hself huncut
  obtain ⟨-, houtcome, hm', -⟩ := run_of_fits hprogram hmaxDepth hP hself subset_rfl hfits host
  rw [he] at houtcome
  constructor
  · cases hv : (c.run host i).context.cached i with
    | none => rfl
    | some v => cases houtcome.symm.trans (hm'.outcome i v hv)
  · intro host'
    have hdomain : c.memo.domain ⊆ (c.run host i).context.memo.domain :=
      fun j ⟨v, hv⟩ => ⟨v, memo_le_run c host i j v hv⟩
    obtain ⟨-, hagain, -⟩ := run_of_fits ((run_program c host i).trans hprogram)
      ((run_maxDepth c host i).trans hmaxDepth) hP hm' hdomain hfits host'
    exact Option.some.inj (hagain.symm.trans houtcome)

/-- A result that a call leaves for its own invocation although it fails comes from deeper
levels. -/
theorem keep_of_cached (he : (c.run host i).outcome = .error e) (hnone : c.cached i = none)
    {v : Value} (hv : (c.run host i).context.cached i = some v) :
    ∃ depth, 0 < depth ∧ .keep depth i v ∈ (c.run host i).trace := by
  obtain ⟨hdeep, hcontext⟩ := run_of_ensures (c := c) (i := i) (step_keeps_deeper (P := c.program)
    (fun m j => evaluate_depth_le c.maxDepth 1 j m) i) host
  rw [cached, hcontext] at hv
  rcases Memo.find?_after hv with hold | ⟨depth, hmem⟩
  · cases hnone.symm.trans hold
  · exact ⟨depth, hdeep e he _ hmem rfl, hmem⟩

/-- A call that fails fails again, and leaves the context as it is, if the memo has no result for
the invocations that it gave up. -/
theorem run_again_of_givenUp (hprogram : c.program = P) (hP : P.NativesPure)
    (hm : c.memo.All fun i _ => i.IsMemoizable P) (he : (c.run host i).outcome = .error e)
    (hnone : ∀ j ∈ Trace.givenUp (c.run host i).trace, (c.run host i).context.cached j = none)
    (host' : σ) : ((c.run host i).context.run host' i).outcome = .error e ∧
      ((c.run host i).context.run host' i).context = (c.run host i).context := by
  subst hprogram
  obtain ⟨hrepeats, hcontext⟩ := run_of_ensures (c := c)
    (Program.evaluate_repeatable hP (c.maxDepth + 1) 0 i c.memo) host
  have hkeeps := (run_of_ensures (c := c)
    (Ensures.evaluate_keeps (fun _ _ hi => hi) (c.maxDepth + 1) 0 i hm) host).1
  -- the second run is one of the same evaluation, on the memo that the first one left
  rw [hcontext] at hnone ⊢
  have hagain := hrepeats.again _ (le_refl _) (hm.after hkeeps) fun _ _ => hnone
  obtain ⟨⟨houtcome, hmemo⟩, hcontext'⟩ := run_of_ensures
    (c := { c with memo := c.memo.after (c.run host i).trace }) hagain host'
  rw [hcontext', houtcome, he]
  exact ⟨rfl, congrArg (Context.mk c.program c.maxDepth) hmemo⟩

/-- A call that failed, for pure functions of the host and after any calls. If it was not cut off
anywhere, there is no result for its invocation afterwards, and the same call fails in the same way
again. If there is a result, the call was cut off and the result was found further down. If there is
no result for any invocation that the call gave up, the same call fails in the same way again and
leaves the context as it is. -/
theorem run_again (hP : P.NativesPure) (maxDepth : Nat) (calls : List (σ × Invocation)) (host : σ)
    (i : Invocation) {e : Failure EvalError}
    (he : (((fresh P maxDepth).after calls).run host i).outcome = .error e) :
    let r := ((fresh P maxDepth).after calls).run host i
    (Trace.Uncut r.trace →
      r.context.cached i = none ∧ ∀ host', (r.context.run host' i).outcome = .error e) ∧
    (∀ v, r.context.cached i = some v →
      ¬ Trace.Uncut r.trace ∧ ∃ depth, 0 < depth ∧ .keep depth i v ∈ r.trace) ∧
    ((∀ j ∈ Trace.givenUp r.trace, r.context.cached j = none) → ∀ host',
      (r.context.run host' i).outcome = .error e ∧
      (r.context.run host' i).context = r.context) := by
  intro r
  have hprogram := after_program (fresh P maxDepth) calls
  have hmaxDepth := after_maxDepth (fresh P maxDepth) calls
  have hm : ((fresh P maxDepth).after calls).memo.All fun i _ => i.IsMemoizable P :=
    fun _ _ hv => isMemoizable_of_cached hv
  have huncut := run_again_of_uncut hprogram hmaxDepth hP hm he
  refine ⟨huncut, fun v hv => ⟨fun h => ?_, ?_⟩, run_again_of_givenUp hprogram hP hm he⟩
  · cases hv.symm.trans (huncut h).1
  · exact keep_of_cached he (cached_eq_none_of_error (hprogram ▸ hm) he) hv

end Context

/-! ## A call that fails once

`loop(a)` is `b = loop(a)`, `c = never(b)`, `return a`, where `never` has no lines. The run at the
depth limit gets the too-deep error for its own call, so `never` is not called and it answers `a`.
The run above that one calls `never` and fails. -/

namespace Loop

open Settle (references signature)

/-- The body of `loop`. -/
def lines : List Line := [.assign ⟨2⟩ ⟨1⟩ [⟨1⟩], .assign ⟨3⟩ ⟨0⟩ [⟨2⟩], .ret ⟨1⟩]

/-- The program with given lines for `loop`. -/
def programWith (lines : List Line) : Program σ :=
  ⟨references.toArray, #[⟨"never", signature, .lines [], false⟩,
    ⟨"loop", signature, .lines lines, false⟩]⟩

/-- The edits that declare both functions. -/
def declarations : List (Edit σ) :=
  references.map .addReference ++ [.declare "never" signature, .declare "loop" signature]

/-- The edits that build the program. -/
def edits : List (Edit σ) := declarations ++ [.setBody ⟨1⟩ lines]

/-- The program. -/
def program : Program σ := programWith lines

theorem ofEdits_declarations :
    Program.ofEdits (declarations : List (Edit σ)) = programWith [] := rfl

theorem ofEdits_edits : Program.ofEdits (edits : List (Edit σ)) = program := by
  rw [edits, Program.ofEdits_append_singleton, ofEdits_declarations, Edit.apply, Edit.build,
    Edit.setBody_eq (f := ⟨"loop", signature, .lines [], false⟩) lines rfl rfl]
  rfl

/-- There are no functions of the host, so all of them are pure. -/
theorem program_nativesPure : (program : Program σ).NativesPure := by
  intro id f run hf hbody
  obtain ⟨index⟩ := id
  -- neither of the two functions is one of the host
  match index with
  | 0 | 1 =>
    obtain rfl := Option.some.inj hf
    cases hbody
  | _ + 2 => cases hf

/-- A call that failed has a result afterwards, and the same call answers it. -/
theorem run_true_then_ok :
    let P := Program.ofEdits (edits : List (Edit Unit))
    let r := (Context.fresh P 1).run () ⟨⟨1⟩, [.bool true]⟩
    P.NativesPure ∧ r.outcome = .error (.error (.missingResult "never")) ∧
    r.context.cached ⟨⟨1⟩, [.bool true]⟩ = some (.bool true) ∧
    (r.context.run () ⟨⟨1⟩, [.bool true]⟩).outcome = .ok (.bool true) := by
  rw [ofEdits_edits]
  exact ⟨program_nativesPure, rfl, rfl, rfl⟩

/-- The call was cut off, and its result comes from further down. A call of `never` fails as often
as it is made. -/
theorem run_true_cut_off :
    let c := Context.fresh (program : Program Unit) 1
    let r := c.run () ⟨⟨1⟩, [.bool true]⟩
    let r' := r.context.run () ⟨⟨0⟩, [.bool true]⟩
    (program : Program Unit).NativesPure ∧
    r.outcome = .error (.error (.missingResult "never")) ∧
    (¬ Trace.Uncut r.trace ∧ ∃ depth, 0 < depth ∧
      .keep depth ⟨⟨1⟩, [.bool true]⟩ (.bool true) ∈ r.trace) ∧
    r'.outcome = .error (.error (.missingResult "never")) ∧ Trace.Uncut r'.trace ∧
    r'.context.cached ⟨⟨0⟩, [.bool true]⟩ = none ∧
    (r'.context.run () ⟨⟨0⟩, [.bool true]⟩).outcome =
      .error (.error (.missingResult "never")) ∧
    (r'.context.run () ⟨⟨0⟩, [.bool true]⟩).context = r'.context := by
  intro c r r'
  have hloop := Context.run_again program_nativesPure 1 [] () ⟨⟨1⟩, [.bool true]⟩
    (show r.outcome = .error (.error (.missingResult "never")) from rfl)
  have hnever := Context.run_again program_nativesPure 1 [((), ⟨⟨1⟩, [.bool true]⟩)] ()
    ⟨⟨0⟩, [.bool true]⟩ (show r'.outcome = .error (.error (.missingResult "never")) from rfl)
  have huncut : Trace.Uncut r'.trace := by decide
  have hgivenUp : ∀ j ∈ Trace.givenUp r'.trace, r'.context.cached j = none := by decide
  exact ⟨program_nativesPure, rfl, hloop.2.1 _ rfl, rfl, huncut, (hnever.1 huncut).1,
    hnever.2.2 hgivenUp ()⟩

end Loop

end Rulebook

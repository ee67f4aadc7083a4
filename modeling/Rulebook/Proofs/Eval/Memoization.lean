import Rulebook.Proofs.Eval.Simulation
import Rulebook.Proofs.Program.Edit

/-!
# Memo and depth limit against plain evaluation

How far the answers of a context can be from plain evaluation, if the functions of the host are
pure. A memoized result does not say at which depth it was found, so after any calls at all an
answer is the plain value or the too-deep error (`Context.run_eq_or_tooDeep`). If no call is higher
than the depth limit, every answer and every memoized result is the plain one
(`Context.run_eq_plain`).
-/

namespace Rulebook

open Eval

variable {σ : Type} {P : Program σ}

/-! ## The plain evaluation of a small program -/

namespace Settle

theorem program_nativesPure : (program : Program σ).NativesPure := by
  intro id f run hf hbody arguments host host'
  rcases function?_program hf with rfl | rfl
  · obtain rfl := Body.native.inj hbody
    rfl
  · cases hbody

theorem plainEval_not (b : Bool) :
    PlainEval (program : Program Unit) ⟨⟨0⟩, [.bool b]⟩ 0 (.ok (.bool !b)) := by
  have h := PlainEval.native (P := program) (i := ⟨⟨0⟩, [.bool b]⟩)
    (f := ⟨"not", signature, .native (.ofPure Library.negation), false⟩) rfl rfl rfl ()
  exact h

/-- On `false` the body returns at once, above one negation. -/
theorem plainEval_false :
    PlainEval (program : Program Unit) ⟨⟨1⟩, [.bool false]⟩ 1 (.ok (.bool false)) :=
  .lines rfl rfl rfl (.gateOpen (.call rfl rfl (plainEval_not false)) rfl rfl)

/-- On `true` the body calls itself once, one level higher. -/
theorem plainEval_true :
    PlainEval (program : Program Unit) ⟨⟨1⟩, [.bool true]⟩ 2 (.ok (.bool false)) :=
  .lines rfl rfl rfl (.gateClosed (.call rfl rfl (plainEval_not true)) rfl rfl
    (.assign (.call rfl rfl (plainEval_not true)) (.assign (.call rfl rfl plainEval_false) .last)))

end Settle

/-! ## Where calls may be cut off -/

/-- A memoized result approximates the plain value, if there is one. -/
def Program.Approximates (P : Program σ) (i : Invocation) (w : Value) : Prop :=
  ∀ n v, PlainEval P i n (.ok v) → w.Approximates True v

/-- With pure natives, what approximates the plain value is what approximates the plain outcome. -/
theorem Program.NativesPure.approximates (hP : P.NativesPure) :
    P.Describes True P.Approximates := by
  intro i n o w h ho
  obtain ⟨v, rfl⟩ := ho trivial
  constructor
  · intro hw
    exact hw n v h
  · intro hw n' v' h'
    obtain ⟨-, hv⟩ := h.unique hP h'
    rw [← Except.ok.inj hv]
    exact hw

/-- The memo is given approximations of plain values only. An invocation without a plain value puts
nothing on its own account, and one with a plain value follows its plain evaluation. -/
theorem evaluate_approximates (hP : P.NativesPure) (levels depth : Nat) (i : Invocation) {m : Memo}
    (hm : m.All P.Approximates) :
    Ensures m (evaluate P levels depth i) fun _ t => ∀ e ∈ t, e.Keeps P.Approximates := by
  induction levels generalizing depth i m with
  | zero => exact .evaluate_zero (List.forall_mem_singleton.mpr trivial)
  | succ levels ih =>
    by_cases hplain : ∃ n v, PlainEval P i n (.ok v)
    · -- the heights below `n + 1` include that of this invocation
      obtain ⟨n, v, h⟩ := hplain
      exact (evaluate_simulates hP hP.approximates (levels + 1) depth (.inl trivial) m i n (.ok v)
        hm h n.lt_succ_self fun _ => ⟨v, rfl⟩).mono fun _ _ ht => ht.keeps
    · refine .step_keeps (fun m j hm => ih (depth + 1) j hm) (fun w _ n v h => ?_) hm
      exact absurd ⟨n, v, h⟩ hplain

/-- After any calls, every result in the memo approximates the plain one. -/
theorem Context.after_approximates (hP : P.NativesPure) (maxDepth : Nat)
    (calls : List (σ × Invocation)) :
    ((fresh P maxDepth).after calls).memo.All P.Approximates :=
  after_memo (I := Memo.All P.Approximates) .empty fun _ i hm _ =>
    (evaluate_approximates hP _ _ i hm).mono fun _ _ ht => hm.after ht

/-- Memo and depth limit are sound up to the too-deep error: after any calls, a call of an
invocation that has a plain value answers this value or the too-deep error, and nothing else is ever
memoized for it. -/
theorem Context.run_eq_or_tooDeep (hP : P.NativesPure) (maxDepth : Nat)
    (calls : List (σ × Invocation)) (host : σ) {i : Invocation} {n : Nat} {v : Value}
    (h : PlainEval P i n (.ok v)) :
    let c := (Context.fresh P maxDepth).after calls
    let r := c.run host i
    (r.outcome = .ok v ∨ r.outcome = .ok .tooDeep) ∧
    (∀ w, c.cached i = some w → w = v ∨ w = .tooDeep) ∧
    (∀ w, r.context.cached i = some w → w = v ∨ w = .tooDeep) := by
  intro c r
  have hm : c.memo.All P.Approximates := Context.after_approximates hP maxDepth calls
  have hprogram : c.program = P := Context.after_program _ calls
  obtain ⟨hmimics, hcontext⟩ : Mimics True P.Approximates (.ok v) r.outcome r.trace ∧
      r.context = { c with memo := c.memo.after r.trace } :=
    Context.run_mimics (by rwa [hprogram]) (by rw [hprogram]; exact hP.approximates) hm
      (by rwa [hprogram]) (.inl trivial) (fun _ => ⟨v, rfl⟩) host
  have hcached : ∀ m : Memo, m.All P.Approximates → ∀ w, m.find? i = some w →
      w = v ∨ w = .tooDeep :=
    fun m hm w hw => (hm i w hw n v h).imp_right And.right
  refine ⟨?_, hcached c.memo hm, ?_⟩
  · have houtcome := hmimics.outcome
    cases ho : r.outcome with
    | error e =>
      rw [ho] at houtcome
      exact houtcome.elim
    | ok w =>
      rw [ho] at houtcome
      rcases houtcome with rfl | ⟨-, rfl⟩
      · exact .inl rfl
      · exact .inr rfl
  · unfold Context.cached
    rw [hcontext]
    exact hcached _ (hm.after hmimics.keeps)

/-- With a depth limit of 1 the call that settles a true argument is cut off on its second run of
the body. -/
theorem Settle.run_true_of_maxDepth_one :
    let c := (Context.fresh (program : Program Unit) 1).after [((), ⟨⟨0⟩, [.bool true]⟩)]
    (program : Program Unit).NativesPure ∧
    PlainEval (program : Program Unit) ⟨⟨1⟩, [.bool true]⟩ 2 (.ok (.bool false)) ∧
    ((c.run () ⟨⟨1⟩, [.bool true]⟩).outcome = .ok (.bool false) ∨
      (c.run () ⟨⟨1⟩, [.bool true]⟩).outcome = .ok .tooDeep) :=
  ⟨program_nativesPure, plainEval_true,
    (Context.run_eq_or_tooDeep program_nativesPure 1 [((), ⟨⟨0⟩, [.bool true]⟩)] ()
      plainEval_true).1⟩

example : ((Context.fresh (Settle.program : Program Unit) 1).run () ⟨⟨1⟩, [.bool true]⟩).outcome =
    .ok .tooDeep := rfl

/-! ## Within the depth limit -/

/-- A memoized result is the plain value. -/
def Program.Matches (P : Program σ) (i : Invocation) (w : Value) : Prop :=
  ∃ n, PlainEval P i n (.ok w)

/-- With pure natives, a value is the plain one if and only if it is the plain outcome. -/
theorem Program.NativesPure.matches (hP : P.NativesPure) : P.Describes False P.Matches := by
  intro i n o w h _
  constructor
  · rintro ⟨n', h'⟩
    obtain ⟨-, rfl⟩ := h.unique hP h'
    exact Value.Approximates.refl
  · intro ho
    obtain ⟨v, rfl, rfl | ⟨⟨⟩, -⟩⟩ := ho.of_ok
    exact ⟨n, h⟩

/-- After calls of heights within the limit, every result in the memo is the plain one. -/
theorem Context.after_matches (hP : P.NativesPure) {maxDepth : Nat}
    {calls : List (σ × Invocation)}
    (hcalls : ∀ call ∈ calls, ∃ n o, PlainEval P call.2 n o ∧ n ≤ maxDepth) :
    ((fresh P maxDepth).after calls).memo.All P.Matches := by
  refine after_memo (I := Memo.All P.Matches) .empty fun m i hm ⟨host, hmem⟩ => ?_
  obtain ⟨n, o, h, hn⟩ := hcalls _ hmem
  exact (evaluate_simulates hP hP.matches (maxDepth + 1) 0 (.inr (Nat.le_refl _)) m i n o hm h
    (Nat.lt_succ_of_le hn) nofun).mono fun _ _ ht => hm.after ht.keeps

/-- Within the depth limit a context is exact: if no call so far nor this one is higher than the
limit, the call ends as its plain evaluation does, the limit never cuts in, and all through the call
every memoized result is the plain value of its invocation. -/
theorem Context.run_eq_plain (hP : P.NativesPure) (maxDepth : Nat) (calls : List (σ × Invocation))
    (hcalls : ∀ call ∈ calls, ∃ n o, PlainEval P call.2 n o ∧ n ≤ maxDepth) (host : σ)
    {i : Invocation} {n : Nat} {o : Except (Failure EvalError) Value} (h : PlainEval P i n o)
    (hn : n ≤ maxDepth) :
    let c := (Context.fresh P maxDepth).after calls
    let r := c.run host i
    r.outcome = o ∧
    (∀ depth j, .cutOff depth j ∉ r.trace) ∧
    r.context.memo = c.memo.after r.trace ∧
    ∀ t, t <+: r.trace → ∀ j w, (c.memo.after t).find? j = some w →
      ∃ k, PlainEval P j k (.ok w) := by
  intro c r
  have hm : c.memo.All P.Matches := Context.after_matches hP hcalls
  have hprogram : c.program = P := Context.after_program _ calls
  have hmaxDepth : c.maxDepth = maxDepth := Context.after_maxDepth _ calls
  obtain ⟨hmimics, hcontext⟩ : Mimics False P.Matches o r.outcome r.trace ∧
      r.context = { c with memo := c.memo.after r.trace } :=
    Context.run_mimics (by rwa [hprogram]) (by rw [hprogram]; exact hP.matches) hm
      (by rwa [hprogram]) (.inr (by rwa [hmaxDepth])) nofun host
  refine ⟨?_, ?_, by rw [hcontext], ?_⟩
  · have houtcome := hmimics.outcome
    cases ho : r.outcome with
    | error e =>
      rw [ho] at houtcome
      exact houtcome.of_error.symm
    | ok w =>
      rw [ho] at houtcome
      obtain ⟨v, rfl, rfl | ⟨⟨⟩, -⟩⟩ := houtcome.of_ok
      rfl
  · intro depth j hmem
    exact hmimics.events _ hmem
  · intro t ht
    exact hm.after fun e he => hmimics.keeps e (ht.subset he)

/-- With a depth limit of 2 a true argument is settled, also after a call that left the result for
its negation. -/
theorem Settle.run_true_of_maxDepth_two :
    let c := (Context.fresh (program : Program Unit) 2).after [((), ⟨⟨1⟩, [.bool false]⟩)]
    (program : Program Unit).NativesPure ∧
    (∀ call ∈ [((), (⟨⟨1⟩, [.bool false]⟩ : Invocation))],
      ∃ n o, PlainEval (program : Program Unit) call.2 n o ∧ n ≤ 2) ∧
    PlainEval (program : Program Unit) ⟨⟨1⟩, [.bool true]⟩ 2 (.ok (.bool false)) ∧
    (c.run () ⟨⟨1⟩, [.bool true]⟩).outcome = .ok (.bool false) := by
  have hcalls : ∀ call ∈ [((), (⟨⟨1⟩, [.bool false]⟩ : Invocation))],
      ∃ n o, PlainEval (program : Program Unit) call.2 n o ∧ n ≤ 2 :=
    List.forall_mem_singleton.mpr ⟨1, _, plainEval_false, by decide⟩
  exact ⟨program_nativesPure, hcalls, plainEval_true,
    (Context.run_eq_plain program_nativesPure 2 _ hcalls () plainEval_true (Nat.le_refl _)).1⟩

end Rulebook

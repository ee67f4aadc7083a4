import Mathlib.Order.Defs.PartialOrder
import Rulebook.Proofs.Eval.Ensures
import Rulebook.Proofs.Program.Edit

/-!
# What a context remembers

A memo is below another if the other has every result that it has. Within one call a result can be
replaced: a function that calls itself on its own arguments leaves the result of the inner run, and
the outer one replaces it. But an invocation is run only if the memo has nothing for it, so nothing
that was there before a call is replaced by it (`evaluate_retains`). Once a cacheable function has
answered, the same call is answered from the memo for good (`Context.run_remembered`).
-/

namespace Rulebook

open Eval

variable {σ : Type}

/-! ## The order of memos -/

namespace Memo

/-- A memo is below another that has every result of it. -/
instance : Preorder Memo where
  le m m' := ∀ i v, m.find? i = some v → m'.find? i = some v
  le_refl _ _ _ h := h
  le_trans _ _ _ h h' i v hv := h' i v (h i v hv)

/-- A result for an invocation that had none goes on top of the others. -/
theorem le_insert {m m' : Memo} (h : m ≤ m') {i : Invocation} (hi : m.find? i = none) (v : Value) :
    m ≤ m'.insert i v := by
  intro j w hj
  have hne : j ≠ i := by
    rintro rfl
    rw [hi] at hj
    cases hj
  rw [find?_insert, if_neg hne]
  exact h j w hj

end Memo

/-! ## Evaluations only add to the memo -/

section Evaluate

variable {P : Program σ} {f : Function σ} {sub : Invocation → Eval σ Value} {depth : Nat}

/-- That the memo loses nothing passes from the calls of a body to the body. -/
theorem propagates_retains :
    Ensures.Propagates (fun e => e.isKeep = false) (fun _ => True) fun m t => m ≤ m.after t where
  isKeep_eq_false _ he := he
  nil m _ := le_refl m
  event m e _ he := le_of_eq (Memo.record_of_isKeep_eq_false he).symm
  append m t u _ ht hu := by
    rw [Memo.after_append]
    exact le_trans ht hu
  after _ _ _ _ := trivial

/-- The result of a run goes into the memo only where the memo had none. -/
theorem le_after_keepEvents {m : Memo} {t : Trace} {i : Invocation} (ht : m ≤ m.after t)
    (hmiss : memoized? f i m = none) (o : Except (Failure EvalError) Value) :
    m ≤ m.after (t ++ Ensures.keepEvents f depth i o) := by
  rcases Ensures.keepEvents_cases f depth i o with hkeep | ⟨v, -, hf, hkeep⟩
  · rwa [hkeep, List.append_nil]
  · have hnone : m.find? i = none := by simpa [memoized?, hf] using hmiss
    rw [hkeep, Memo.after_append]
    exact Memo.le_insert ht hnone v

/-- An evaluation only adds to the memo. -/
theorem evaluate_retains (levels depth : Nat) (i : Invocation) (m : Memo) :
    Ensures m (evaluate P levels depth i) fun _ t => m ≤ m.after t := by
  induction levels generalizing depth i m with
  | zero => exact .evaluate_zero (le_refl m)
  | succ levels ih =>
    refine .step (fun _ => le_refl m) (fun _ _ _ _ _ => le_refl m) (fun _ _ _ => le_refl m) ?_
    intro f _ _ hmiss
    refine (Ensures.runBody_propagates propagates_retains (fun _ _ he => he)
      (fun m j _ => ih (depth + 1) j m) trivial f i).mono fun o t ht => ?_
    exact le_after_keepEvents ht hmiss o

/-- A result of a cacheable function is in the memo once it is there. -/
theorem step_remembers {i : Invocation} (hf : P.function? i.function = some f)
    (hcacheable : f.isUncacheable = false)
    (hsub : ∀ m j, Ensures m (sub j) fun _ t => m ≤ m.after t) (m : Memo) :
    Ensures m (step P depth sub i) fun o t => ∀ v, o = .ok v → (m.after t).find? i = some v := by
  refine .step ?_ ?_ ?_ ?_
  · rintro _ _ ⟨⟩
  · rintro _ v _ _ hv _ ⟨⟩
    exact hv
  · rintro _ _ _ _ ⟨⟩
  · intro g hg _ _
    obtain rfl := Option.some.inj (hf.symm.trans hg)
    refine (Ensures.runBody_propagates propagates_retains (fun _ _ he => he)
      (fun m j _ => hsub m j) trivial f i).mono ?_
    rintro _ t _ v rfl
    rw [Memo.after_append, Ensures.after_keepEvents_ok hcacheable, Memo.find?_insert, if_pos rfl]

end Evaluate

/-! ## Calls of a context -/

namespace Context

variable {P : Program σ}

/-- The memo has results of memoizable invocations only. -/
theorem isMemoizable_of_cached {maxDepth : Nat} {calls : List (σ × Invocation)} {i : Invocation}
    {v : Value} (h : ((fresh P maxDepth).after calls).cached i = some v) : i.IsMemoizable P := by
  refine after_memo (I := Memo.All fun i _ => i.IsMemoizable P) .empty (fun m j hm _ => ?_) i v h
  exact (Ensures.evaluate_keeps (fun _ _ hi => hi) _ _ j hm).mono fun _ _ ht => hm.after ht

/-- A call of a context only adds to the memo. -/
theorem memo_le_run (c : Context σ) (host : σ) (i : Invocation) :
    c.memo ≤ (c.run host i).context.memo := by
  rw [run_context]
  exact (run_of_ensures (evaluate_retains _ _ i c.memo) host).1

theorem memo_le_after (c : Context σ) (calls : List (σ × Invocation)) :
    c.memo ≤ (c.after calls).memo := by
  induction calls generalizing c with
  | nil => exact le_refl _
  | cons call calls ih =>
    calc c.memo ≤ (c.run call.1 call.2).context.memo := c.memo_le_run call.1 call.2
      _ ≤ (c.after (call :: calls)).memo := ih _

/-- A call of a cacheable function that has a result in the memo answers it, and nothing else
happens. -/
theorem run_of_cached {c : Context σ} {i : Invocation} {f : Function σ} {v : Value}
    (hf : c.program.function? i.function = some f) (hcacheable : f.isUncacheable = false)
    (hv : c.cached i = some v) (host : σ) : c.run host i = ⟨.ok v, c, host, []⟩ := by
  have hstep : evaluateAt c.program c.maxDepth 0 i =
      step c.program 0 (evaluate c.program c.maxDepth 1) i := rfl
  have hmemoized : memoized? f i c.memo = some v := memoized?_eq_some.mpr ⟨hcacheable, hv⟩
  rw [run, hstep, step, hf]
  simp only [get_bind_apply, hmemoized]
  rfl

/-- A call that fails had no result in the memo before. -/
theorem cached_eq_none_of_error {c : Context σ}
    (hm : c.memo.All fun i _ => i.IsMemoizable c.program) {host : σ} {i : Invocation}
    {e : Failure EvalError} (he : (c.run host i).outcome = .error e) : c.cached i = none := by
  cases hv : c.cached i with
  | none => rfl
  | some v =>
    obtain ⟨f, hf, hcacheable, -⟩ := hm i v hv
    rw [run_of_cached hf hcacheable hv] at he
    cases he

theorem cached_of_run_eq_ok {c : Context σ} {i : Invocation} {f : Function σ} {v : Value}
    (hf : c.program.function? i.function = some f) (hcacheable : f.isUncacheable = false)
    {host : σ} (hv : (c.run host i).outcome = .ok v) :
    (c.run host i).context.cached i = some v := by
  have hremembers := run_of_ensures (c := c) (i := i) (step_remembers hf hcacheable
    (fun m j => evaluate_retains c.maxDepth 1 j m) c.memo) host
  rw [hremembers.2]
  exact hremembers.1 v hv

/-- What a context remembers, for any functions of the host: after any calls, the memo has results
of cacheable functions of the program on as many arguments as they take, and every result in it is
still there after the next call, however that ends. Once a call of a cacheable function has
answered, then after any further calls the same call gives the same answer out of the memo: it
leaves the context and the host as they are and runs nothing. -/
theorem run_remembered (edits : List (Edit σ)) (maxDepth : Nat) (calls : List (σ × Invocation))
    (host : σ) (i : Invocation) :
    let P := Program.ofEdits edits
    let c := (fresh P maxDepth).after calls
    let r := c.run host i
    (∀ j v, c.cached j = some v → ∃ f, P.function? j.function = some f ∧
      f.isUncacheable = false ∧ f.arity = j.arguments.length) ∧
    (∀ j v, c.cached j = some v → r.context.cached j = some v) ∧
    (∀ f v, P.function? i.function = some f → f.isUncacheable = false → r.outcome = .ok v →
      ∀ later host', (r.context.after later).run host' i =
        ⟨.ok v, r.context.after later, host', []⟩) := by
  intro P c r
  have hprogram : c.program = P := after_program _ calls
  refine ⟨fun j v hj => isMemoizable_of_cached hj, c.memo_le_run host i, ?_⟩
  intro f v hf hcacheable hv later host'
  have hcached : r.context.cached i = some v :=
    cached_of_run_eq_ok (hprogram ▸ hf) hcacheable hv
  have hlater : (r.context.after later).cached i = some v :=
    memo_le_after r.context later i v hcached
  have hprogram' : (r.context.after later).program = P := by
    rw [after_program, run_program, hprogram]
  exact run_of_cached (hprogram' ▸ hf) hcacheable hlater host'

end Context

end Rulebook

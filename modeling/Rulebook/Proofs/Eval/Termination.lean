import Rulebook.Proofs.Eval.Repetition

/-!
# Termination and nesting

Functions may call themselves and each other, and what ends their calls is the depth limit alone.
`Program.attempt` is the recursion with no measure of what is left of it: a call compares its
depth with the limit, a body runs its lines, and a line calls one level deeper. Such a recursion
need not end, so an attempt may have no result. This one always has the result of
`Eval.evaluateAt` (`Program.attempt_eq_ofEval`), which counts the levels that are left.

The trace tells how far calls nest. `Trace.level` counts the bodies that were entered and not left,
from the depth that the evaluation starts at. Every event has the depth that this count gives it
(`Trace.Nests`), also in evaluations that fail and leave their bodies open, and nothing but the
cut-off itself happens past the limit (`evaluate_within`).
-/

namespace Rulebook

open Eval

variable {σ α β : Type}

/-! ## Evaluation without a measure -/

/-- An evaluation that may never end. -/
abbrev Attempt (σ : Type) : Type → Type :=
  ExceptT (Failure EvalError) (StateT (EvalState σ) Option)

namespace Attempt

/-- The attempt that an evaluation is. -/
def ofEval (x : Eval σ α) : Attempt σ α := fun s =>
  match x s with
  | .ok a s' => some (.ok a, s')
  | .error e s' => some (.error e, s')

/-- An evaluation that ends is an attempt that ends in the same way. -/
theorem ofEval_eq_of_finish {x : Eval σ α} {s s' : EvalState σ}
    {o : Except (Failure EvalError) α} (h : x s = finish o s') : ofEval x s = some (o, s') := by
  rw [ofEval, h]
  cases o <;> rfl

theorem ofEval_pure (a : α) : ofEval (pure a : Eval σ α) = pure a := rfl

/-- Attempts of parts in sequence are the attempt of the sequence. -/
theorem ofEval_bind (x : Eval σ α) (f : α → Eval σ β) :
    ofEval (x >>= f) = ofEval x >>= fun a => ofEval (f a) := by
  funext s
  show ofEval (EStateM.bind x f) s = (ofEval x s).bind _
  rw [ofEval, EStateM.bind, ofEval]
  cases x s <;> rfl

theorem ofEval_get_bind (f : EvalState σ → Eval σ α) :
    ofEval (get >>= f) = get >>= fun s => ofEval (f s) := rfl

end Attempt

namespace Program

open Attempt

mutual

/-- Evaluates an invocation at a depth, unless the depth is past the limit. -/
def attempt (P : Program σ) (maxDepth depth : Nat) (i : Invocation) : Attempt σ Value :=
  if maxDepth < depth then ofEval do
    note (.cutOff depth i)
    return .tooDeep
  else
    match P.function? i.function with
    | none => throw (.error (.unknownFunction i.function))
    | some f => do
      match memoized? f i (← get).memo with
      | some value => return value
      | none =>
        if i.isValid P then
          let value ← P |>.attemptBody maxDepth depth f i
          ofEval (unless f.isUncacheable do remember depth i value)
          return value
        else throw (.error (.arityMismatch f.name f.arity i.arguments.length))
partial_fixpoint

/-- Runs a function of the right arity at a depth. -/
def attemptBody (P : Program σ) (maxDepth depth : Nat) (f : Function σ) (i : Invocation) :
    Attempt σ Value :=
  match f.body with
  | .native run => ofEval (runNative depth i run)
  | .lines lines => do
    ofEval (note (.enter depth i))
    let frame := Frame.ofArguments f.signature.parameterIds i.arguments
    let value ← P |>.attemptLines maxDepth depth f i.function lines 0 frame none
    ofEval (note (.leave depth i value))
    return value
partial_fixpoint

/-- The call of a line of a body at a depth. -/
def attemptCall (P : Program σ) (maxDepth depth : Nat) (f : Function σ) (frame : Frame)
    (callee : FunctionId) (arguments : List ReferenceId) : Attempt σ Value := do
  let values ← ofEval (Failure.liftState (resolveAll P f frame arguments))
  match values.find? Value.isError with
  | some error => return error
  | none => P |>.attempt maxDepth (depth + 1) ⟨callee, values⟩
partial_fixpoint

/-- Runs the lines that are left of a body at a depth. -/
def attemptLines (P : Program σ) (maxDepth depth : Nat) (f : Function σ) (id : FunctionId)
    (lines : List Line) (index : Nat) (frame : Frame) (last : Option Value) : Attempt σ Value :=
  match lines with
  | [] => ofEval (fallThrough f last)
  | line :: rest => do
    ofEval (note (.line depth id index frame))
    match line with
    | .assign target callee arguments =>
      let value ← P |>.attemptCall maxDepth depth f frame callee arguments
      P |>.attemptLines maxDepth depth f id rest (index + 1) (frame.bind target value) (some value)
    | .returnIf target gate arguments =>
      let verdict ← P |>.attemptCall maxDepth depth f frame gate arguments
      ofEval (note (.verdict depth gate verdict))
      if verdict.isError then return verdict
      else if ← ofEval (Failure.liftState (isOpen P f gate verdict)) then
        ofEval (Failure.liftState (resolve P f frame target))
      else P |>.attemptLines maxDepth depth f id rest (index + 1) frame last
    | .ret target => ofEval (Failure.liftState (resolve P f frame target))
partial_fixpoint

end

section Levels

variable {P : Program σ} {maxDepth depth : Nat} {sub : Invocation → Eval σ Value}

/-- Without a measure the call of a line is the same if the calls below are. -/
theorem attemptCall_eq_ofEval (hsub : ∀ j, P.attempt maxDepth (depth + 1) j = ofEval (sub j))
    (f : Function σ) (frame : Frame) (callee : FunctionId) (arguments : List ReferenceId) :
    P.attemptCall maxDepth depth f frame callee arguments =
      ofEval (callLine P f sub frame callee arguments) := by
  rw [attemptCall, callLine, ofEval_bind]
  congr 1
  funext values
  cases values.find? Value.isError with
  | some v => rfl
  | none => exact hsub ⟨callee, values⟩

/-- The lines of a body give a result if the calls one level deeper do, by induction on the lines
that are left. -/
theorem attemptLines_eq_ofEval (hsub : ∀ j, P.attempt maxDepth (depth + 1) j = ofEval (sub j))
    (f : Function σ) (id : FunctionId) (lines : List Line) (n : Nat) (frame : Frame)
    (last : Option Value) : P.attemptLines maxDepth depth f id lines n frame last =
      ofEval (runLines P f id depth sub lines n frame last) := by
  induction lines generalizing n frame last with
  | nil =>
    rw [attemptLines, runLines]
  | cons line rest ih =>
    rw [attemptLines.eq_def, runLines.eq_def]
    dsimp only
    rw [ofEval_bind]
    congr 1
    funext _
    cases line with
    | assign target callee arguments =>
      dsimp only
      rw [attemptCall_eq_ofEval hsub, ofEval_bind]
      congr 1
      funext v
      exact ih _ _ _
    | returnIf target gate arguments =>
      dsimp only
      rw [attemptCall_eq_ofEval hsub, ofEval_bind]
      congr 1
      funext v
      rw [ofEval_bind]
      congr 1
      funext _
      cases v.isError with
      | true => rfl
      | false =>
        show _ = ofEval (Failure.liftState (isOpen P f gate v) >>= fun b =>
          if b then Failure.liftState (resolve P f frame target)
          else runLines P f id depth sub rest (n + 1) frame last)
        rw [ofEval_bind, if_neg Bool.false_ne_true]
        congr 1
        funext b
        cases b with
        | true => rfl
        | false => exact ih _ _ _
    | ret target => rfl

/-- Without a measure a body is the same if the calls below are. -/
theorem attemptBody_eq_ofEval (hsub : ∀ j, P.attempt maxDepth (depth + 1) j = ofEval (sub j))
    (f : Function σ) (i : Invocation) :
    P.attemptBody maxDepth depth f i = ofEval (runBody P depth sub f i) := by
  rw [attemptBody, runBody]
  cases f.body with
  | native run => rfl
  | lines lines => simp only [ofEval_bind, attemptLines_eq_ofEval hsub, ofEval_pure]

/-- Without a measure a step within the limit is the same if the calls below are. -/
theorem attempt_eq_ofEval_step (hdepth : ¬ maxDepth < depth)
    (hsub : ∀ j, P.attempt maxDepth (depth + 1) j = ofEval (sub j)) (i : Invocation) :
    P.attempt maxDepth depth i = ofEval (step P depth sub i) := by
  rw [attempt, if_neg hdepth, step]
  cases P.function? i.function with
  | none => rfl
  | some f =>
    dsimp only
    rw [ofEval_get_bind]
    congr 1
    funext s
    cases memoized? f i s.memo with
    | some v => rfl
    | none =>
      dsimp only
      cases i.isValid P with
      | false => rfl
      | true =>
        rw [if_pos rfl, if_pos rfl, ofEval_bind, attemptBody_eq_ofEval hsub]
        congr 1
        funext v
        cases f.isUncacheable <;> rfl

end Levels

/-- The recursion ends, by induction on the levels that are left. -/
theorem attempt_eq_ofEval (P : Program σ) (maxDepth depth : Nat) (i : Invocation) :
    P.attempt maxDepth depth i = ofEval (evaluateAt P maxDepth depth i) := by
  rw [evaluateAt]
  induction hlevels : maxDepth + 1 - depth generalizing depth i with
  | zero =>
    have hdepth : maxDepth < depth := by omega
    rw [attempt, if_pos hdepth, evaluate]
  | succ levels ih =>
    have hdepth : ¬ maxDepth < depth := by omega
    exact attempt_eq_ofEval_step hdepth (fun j => ih (depth + 1) j (by omega)) i

end Program

/-! ## Bodies that are open -/

namespace Event

/-- The depth of the next call after an event, given the one before it. The calls of a body are one
level deeper until it is left. -/
def levelAfter (n : Nat) : Event → Nat
  | enter _ _ => n + 1
  | leave _ _ _ => n - 1
  | _ => n

/-- Whether an event has the depth that belongs to it where calls have depth `n`. What a body does
itself has the depth of the call that runs it. -/
def StandsAt (n : Nat) : Event → Prop
  | line d _ _ _ | verdict d _ _ | leave d _ _ => d + 1 = n
  | cutOff d _ | enter d _ | native d _ _ | keep d _ _ => d = n

/-- Whether an event takes place before a limit, or is the cut-off at it. -/
def Within (limit : Nat) (e : Event) : Prop :=
  if e.isCutOff then e.depth = limit else e.depth < limit

end Event

namespace Trace

variable {n : Nat} {t u : Trace}

/-- The depth of the next call after some events, given the one before them. From depth 0 it is the
number of bodies that were entered and not left. -/
def level (n : Nat) (t : Trace) : Nat := t.foldl Event.levelAfter n

/-- Every event has the depth that belongs to it if the first call has depth `n`. -/
def Nests : Nat → Trace → Prop
  | _, [] => True
  | n, e :: t => e.StandsAt n ∧ Nests (e.levelAfter n) t

@[simp] theorem level_nil (n : Nat) : level n [] = n := rfl

@[simp] theorem level_cons (n : Nat) (e : Event) (t : Trace) :
    level n (e :: t) = level (e.levelAfter n) t := rfl

@[simp] theorem level_append (n : Nat) (t u : Trace) :
    level n (t ++ u) = level (level n t) u := List.foldl_append

/-- Events nest if the first part does and the second does from the level it starts at. -/
theorem nests_append : Nests n (t ++ u) ↔ Nests n t ∧ Nests (level n t) u := by
  induction t generalizing n with
  | nil => rw [List.nil_append, level_nil, Nests, true_and]
  | cons e t ih => rw [List.cons_append, Nests, Nests, ih, level_cons, and_assoc]

/-- In nested events, each has the depth that the events before it lead to. -/
theorem Nests.standsAt (h : Nests n t) {before after : Trace} {e : Event}
    (ht : t = before ++ e :: after) : e.StandsAt (level n before) := by
  rw [ht, nests_append] at h
  exact h.2.1

/-- If no body is entered at a depth past a limit, the level never rises above it by more than
one. -/
theorem Nests.level_le (h : Nests n t) {limit : Nat} (hn : n ≤ limit)
    (henter : ∀ d i, .enter d i ∈ t → d < limit) (hu : u <+: t) : level n u ≤ limit := by
  induction t generalizing n u with
  | nil =>
    rw [List.prefix_nil.mp hu]
    exact hn
  | cons e t ih =>
    cases u with
    | nil => exact hn
    | cons e' u =>
      obtain ⟨rfl, hprefix⟩ := List.cons_prefix_cons.mp hu
      rw [level_cons]
      refine ih h.2 ?_ (fun d i hmem => henter d i (List.mem_cons_of_mem _ hmem)) hprefix
      cases e' with
      | enter d i =>
        have hd : d < limit := henter d i List.mem_cons_self
        have hdn : d = n := h.1
        show n + 1 ≤ limit
        omega
      | leave d i v => exact (Nat.sub_le n 1).trans hn
      | cutOff | line | verdict | native | keep => exact hn

/-- The events of an evaluation that starts where calls have depth `n`: if it gives a result, all
bodies that it entered are left. -/
def Returns (n : Nat) (o : Except (Failure EvalError) Value) (t : Trace) : Prop :=
  Nests n t ∧ ∀ v, o = .ok v → level n t = n

namespace Returns

variable {o o' : Except (Failure EvalError) Value} {e : Event}

theorem nil : Returns n o [] := ⟨trivial, fun _ _ => rfl⟩

/-- A part that gives a result may be followed by any other. -/
theorem append {v : Value} (ht : Returns n (.ok v) t) (hu : Returns n o u) :
    Returns n o (t ++ u) := by
  have hlevel : level n t = n := ht.2 v rfl
  refine ⟨nests_append.mpr ⟨ht.1, ?_⟩, fun w ho => ?_⟩
  · rw [hlevel]
    exact hu.1
  · rw [level_append, hlevel]
    exact hu.2 w ho

/-- An event that opens and closes no body may come first. -/
theorem cons (he : e.StandsAt n) (hlevel : e.levelAfter n = n) (ht : Returns n o t) :
    Returns n o (e :: t) := by
  rw [Returns, Nests, level_cons, hlevel]
  exact ⟨⟨he, ht.1⟩, ht.2⟩

end Returns

end Trace

/-! ## Evaluations nest -/

section Nesting

variable {P : Program σ} {f : Function σ} {sub : Invocation → Eval σ Value} {depth : Nat}

/-- Lines of a body, by induction on the lines that are left. Their calls are one level deeper than
the body. -/
theorem runLines_returns (hsub : ∀ m j, Ensures m (sub j) (Trace.Returns (depth + 1)))
    (f : Function σ) (id : FunctionId) (lines : List Line) (n : Nat) (m : Memo) (frame : Frame)
    (last : Option Value) :
    Ensures m (runLines P f id depth sub lines n frame last) (Trace.Returns (depth + 1)) := by
  have hcall : ∀ m frame callee arguments,
      Ensures m (callLine P f sub frame callee arguments) (Trace.Returns (depth + 1)) :=
    fun m frame callee arguments => .callLine (fun _ _ => .nil) (fun _ _ _ _ => .nil)
      fun values _ _ => hsub m ⟨callee, values⟩
  induction lines generalizing n m frame last with
  | nil => exact .runLines_nil (fun _ _ => .nil) fun _ => .nil
  | cons line rest ih =>
    cases line with
    | assign target callee arguments =>
      refine .runLines_assign (hcall m frame callee arguments) ?_ ?_
      · intro v t ht
        exact (ih (n + 1) _ _ _).mono fun o u hu => .cons rfl rfl (ht.append hu)
      · exact fun e t ht => .cons rfl rfl ht
    | returnIf target gate arguments =>
      -- the events of the line if its verdict is followed by others
      have hverdict : ∀ v t o u, Trace.Returns (depth + 1) (.ok v) t →
          Trace.Returns (depth + 1) o u → Trace.Returns (depth + 1) o
            (.line depth id n frame :: (t ++ .verdict depth gate v :: u)) :=
        fun v t o u ht hu => .cons rfl rfl (ht.append (.cons rfl rfl hu))
      refine .runLines_returnIf (hcall m frame gate arguments) ?_ ?_ ?_ ?_ ?_
      · exact fun e t ht => .cons rfl rfl ht
      · exact fun v t ht _ => hverdict v t _ [] ht .nil
      · exact fun v t e ht _ _ => hverdict v t _ [] ht .nil
      · exact fun v t ht _ _ => hverdict v t _ [] ht .nil
      · intro v t ht _ _
        exact (ih (n + 1) _ _ _).mono fun o u hu => hverdict v t o u ht hu
    | ret target => exact .runLines_ret (.cons rfl rfl .nil)

/-- A body is entered before its lines and left after them, unless they fail. -/
theorem runBody_returns (hsub : ∀ m j, Ensures m (sub j) (Trace.Returns (depth + 1)))
    (f : Function σ) (i : Invocation) (m : Memo) :
    Ensures m (runBody P depth sub f i) (Trace.Returns depth) := by
  cases hf : f.body with
  | native run => exact .runBody_native hf fun host => .cons rfl rfl .nil
  | lines lines =>
    refine .runBody_lines hf (runLines_returns hsub f i.function lines 0 m _ none) ?_ ?_
    · intro v t ht
      have hlevel : Trace.level (depth + 1) t = depth + 1 := ht.2 v rfl
      have hleave : Trace.Nests (depth + 1) (t ++ [.leave depth i v]) :=
        Trace.nests_append.mpr ⟨ht.1, hlevel.symm, trivial⟩
      refine ⟨⟨rfl, hleave⟩, fun _ _ => ?_⟩
      rw [Trace.level_cons, Trace.level_append]
      show (Trace.level (depth + 1) t) - 1 = depth
      rw [hlevel, Nat.add_sub_cancel]
    · intro e t ht
      exact ⟨⟨rfl, ht.1⟩, nofun⟩

/-- The events of every evaluation nest, and all bodies are left if it gives a result. -/
theorem evaluate_returns (levels depth : Nat) (i : Invocation) (m : Memo) :
    Ensures m (evaluate P levels depth i) (Trace.Returns depth) := by
  induction levels generalizing depth i m with
  | zero => exact .evaluate_zero (.cons rfl rfl .nil)
  | succ levels ih =>
    refine .step (fun _ => .nil) (fun _ _ _ _ _ => .nil) (fun _ _ _ => .nil) fun f _ _ _ => ?_
    refine (runBody_returns (fun m j => ih (depth + 1) j m) f i m).mono fun o t ht => ?_
    rcases Ensures.keepEvents_cases f depth i o with hnone | ⟨v, rfl, -, hkeep⟩
    · rwa [hnone, List.append_nil]
    · rw [hkeep]
      exact ht.append (.cons rfl rfl .nil)

/-- Bodies and host functions run while there are levels left, and calls are cut off when there are
none. -/
theorem evaluate_within (levels depth : Nat) (i : Invocation) (m : Memo) :
    Ensures m (evaluate P levels depth i) fun _ t => ∀ e ∈ t, e.Within (depth + levels) := by
  induction levels generalizing depth i m with
  | zero => exact .evaluate_zero (List.forall_mem_singleton.mpr rfl)
  | succ levels ih =>
    have hlt : depth < depth + (levels + 1) := by omega
    have hown : Ensures.Propagates
        (fun e => e.isKeep = false ∧ e.isCutOff = false ∧ e.depth = depth) (fun _ => True)
        fun _ t => ∀ e ∈ t, e.Within (depth + (levels + 1)) := by
      refine Ensures.propagates_forall (fun e he => ⟨he.1, ?_⟩) fun _ _ _ _ => trivial
      rw [Event.Within, he.2.1, if_neg Bool.false_ne_true, he.2.2]
      exact hlt
    have hbelow : ∀ m j, True → Ensures m (evaluate P levels (depth + 1) j)
        fun _ t => ∀ e ∈ t, e.Within (depth + (levels + 1)) := by
      intro m j _
      rw [show depth + (levels + 1) = depth + 1 + levels by omega]
      exact ih (depth + 1) j m
    refine .step_forall (fun _ _ _ _ _ => hlt) fun f _ _ => ?_
    cases hf : f.body with
    | native run => exact .runBody_native hf fun host => List.forall_mem_singleton.mpr hlt
    | lines lines =>
      refine .runBody_lines_propagates hown ⟨rfl, rfl, rfl⟩ (fun _ => ⟨rfl, rfl, rfl⟩) hf trivial ?_
      exact .runLines_propagates hown (fun _ _ _ => ⟨rfl, rfl, rfl⟩) (fun _ _ => ⟨rfl, rfl, rfl⟩)
        hbelow trivial f i.function lines 0 _ none

end Nesting

namespace Program

/-- Every evaluation ends, for every program, limit, memo and depth that it starts at. Its events
have the depths that belong to them. Only calls that are cut off have depths past the limit, so
nothing runs there, and never are more bodies open than the depths up to the limit allow: `maxDepth
+ 1` of them if the evaluation starts at depth 0. An evaluation that starts past the limit is cut
off at once, whatever the memo holds, and leaves the memo as it is. -/
theorem attempt_ends (P : Program σ) (maxDepth depth : Nat) (i : Invocation)
    (s : EvalState σ) :
    (∃ o t host, P.attempt maxDepth depth i s =
        some (o, ⟨s.memo.after t, host, t.reverse ++ s.trace⟩) ∧
      evaluateAt P maxDepth depth i s =
        finish o ⟨s.memo.after t, host, t.reverse ++ s.trace⟩ ∧
      (∀ e ∈ t, if e.isCutOff then e.depth = max depth (maxDepth + 1) else e.depth ≤ maxDepth) ∧
      (∀ before e after, t = before ++ e :: after → e.StandsAt (Trace.level depth before)) ∧
      ∀ u, u <+: t → Trace.level depth u ≤ max depth (maxDepth + 1)) ∧
    (maxDepth < depth → P.attempt maxDepth depth i s =
      some (.ok (.error "TOO DEEP"), ⟨s.memo, s.host, .cutOff depth i :: s.trace⟩)) := by
  constructor
  · have hdepths := (evaluate_within (P := P) (maxDepth + 1 - depth) depth i s.memo).and
      (evaluate_depth_le _ depth i s.memo)
    obtain ⟨o, t, host, hrun, hreturns, hwithin, hle⟩ :=
      ((evaluate_returns _ depth i s.memo).and hdepths) s.host s.trace
    have hlevels : depth + (maxDepth + 1 - depth) = max depth (maxDepth + 1) := by omega
    have hdepth : ∀ e ∈ t, e.isCutOff = false → e.depth ≤ maxDepth := by
      intro e he hcutOff
      have hlt := hwithin e he
      have hge := hle e he
      rw [Event.Within, hcutOff, if_neg Bool.false_ne_true] at hlt
      omega
    refine ⟨o, t, host, ?_, hrun, fun e he => ?_, fun before e after => hreturns.1.standsAt, ?_⟩
    · rw [attempt_eq_ofEval]
      exact Attempt.ofEval_eq_of_finish hrun
    · cases hcutOff : e.isCutOff with
      | true => simpa only [Event.Within, hcutOff, if_true, hlevels] using hwithin e he
      | false => exact hdepth e he hcutOff
    · have henter : ∀ d j, .enter d j ∈ t → d < max depth (maxDepth + 1) :=
        fun d j hmem => (Nat.lt_succ_of_le (hdepth _ hmem rfl)).trans_le (le_max_right _ _)
      exact fun u hu => hreturns.1.level_le (le_max_left _ _) henter hu
  · intro hdepth
    rw [attempt, if_pos hdepth]
    rfl

end Program

end Rulebook

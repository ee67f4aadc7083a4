import Rulebook.Eval.Context

/-!
# What evaluations ensure

`Ensures m x Q` says that the evaluation `x`, started on the memo `m` in any state of the host,
ends with an outcome and with events that satisfy `Q`, and that the memo it leaves is `m` after
those events. Every fact about evaluations is read off their outcome and their events.

There is one rule for each way to build an evaluation (`bind`, `note`, …) and one for each function
of the evaluator, so that later proofs never look at states. Last come the rules for calls of a
context: `Ensures.run` for one call and `Context.after_memo` for any number of them.
-/

namespace Rulebook

/-! ## Memos and events -/

namespace Event

/-- The depth that an event took place at. -/
def depth : Event → Nat
  | cutOff d _ | enter d _ | line d _ _ _ | verdict d _ _ | leave d _ _ | native d _ _
  | keep d _ _ => d

/-- Whether an event gives the memo a result. -/
def isKeep : Event → Bool
  | keep _ _ _ => true
  | _ => false

/-- A result that the memo is given stands in a relation to its invocation. -/
def Keeps (K : Invocation → Value → Prop) : Event → Prop
  | keep _ i v => K i v
  | _ => True

/-- An event that gives the memo nothing keeps to every relation. -/
theorem keeps_of_isKeep_eq_false {K : Invocation → Value → Prop} {e : Event}
    (he : e.isKeep = false) : e.Keeps K := by
  cases e with
  | keep => cases he
  | cutOff | enter | line | verdict | leave | native => trivial

end Event

/-- Results of an invocation may be memoized: the program has its function, which is not
uncacheable, and its arguments are as many as the function takes. -/
def Invocation.IsMemoizable {σ : Type} (i : Invocation) (P : Program σ) : Prop :=
  ∃ f, P.function? i.function = some f ∧ f.isUncacheable = false ∧ f.arity = i.arguments.length

/-- A memoized invocation has a function and as many arguments as that function takes. -/
theorem Invocation.IsMemoizable.isValid {σ : Type} {i : Invocation} {P : Program σ}
    (h : i.IsMemoizable P) : i.isValid P = true := by
  obtain ⟨f, hf, -, harity⟩ := h
  rw [isValid_of_function? hf, decide_eq_true_eq]
  exact harity

namespace Memo

/-- The memo after an event. -/
def record (m : Memo) : Event → Memo
  | .keep _ i v => m.insert i v
  | _ => m

/-- The memo after some events. -/
def after (m : Memo) (t : Trace) : Memo := t.foldl record m

@[simp] theorem after_nil (m : Memo) : m.after [] = m := rfl

@[simp] theorem after_cons (m : Memo) (e : Event) (t : Trace) :
    m.after (e :: t) = (m.record e).after t := rfl

@[simp] theorem after_append (m : Memo) (t u : Trace) :
    m.after (t ++ u) = (m.after t).after u := List.foldl_append

/-- Only a result that is kept changes the memo. -/
theorem record_of_isKeep_eq_false {m : Memo} {e : Event} (he : e.isKeep = false) :
    m.record e = m := by
  cases e with
  | keep => cases he
  | cutOff | enter | line | verdict | leave | native => rfl

/-- Every result in the memo stands in a relation to its invocation. -/
def All (K : Invocation → Value → Prop) (m : Memo) : Prop :=
  ∀ i v, m.find? i = some v → K i v

theorem All.empty {K : Invocation → Value → Prop} : All K Memo.empty := by
  intro i v h
  rw [find?_empty] at h
  cases h

theorem All.insert {K : Invocation → Value → Prop} {m : Memo} (hm : m.All K) {i : Invocation}
    {v : Value} (h : K i v) : (m.insert i v).All K := by
  intro j w hj
  rw [find?_insert] at hj
  by_cases hji : j = i
  · rw [if_pos hji, Option.some.injEq] at hj
    rw [hji, ← hj]
    exact h
  · rw [if_neg hji] at hj
    exact hm j w hj

/-- A memo keeps to a relation if every result it is given does. -/
theorem All.after {K : Invocation → Value → Prop} {m : Memo} (hm : m.All K) {t : Trace}
    (h : ∀ e ∈ t, e.Keeps K) : (m.after t).All K := by
  induction t generalizing m with
  | nil => exact hm
  | cons e t ih =>
    obtain ⟨he, ht⟩ := List.forall_mem_cons.mp h
    rw [after_cons]
    refine ih ?_ ht
    cases e with
    | keep d i v => exact hm.insert he
    | cutOff | enter | line | verdict | leave | native => exact hm

end Memo

namespace Eval

variable {σ α β : Type}

/-- An answer comes from the memo if the function is cacheable and the memo has the invocation. -/
theorem memoized?_eq_some {f : Function σ} {i : Invocation} {m : Memo} {v : Value} :
    memoized? f i m = some v ↔ f.isUncacheable = false ∧ m.find? i = some v := by
  rw [memoized?]
  cases f.isUncacheable <;> simp

/-- Invalid invocations are never answered from a memo that has results of memoizable ones only. -/
theorem memoized?_of_not_valid {P : Program σ} {f : Function σ} {i : Invocation} {m : Memo}
    (hm : m.All fun i _ => i.IsMemoizable P) (hi : i.isValid P = false) :
    memoized? f i m = none := by
  cases hv : memoized? f i m with
  | none => rfl
  | some v =>
    rw [(hm i v (memoized?_eq_some.mp hv).2).isValid] at hi
    cases hi

/-! ## The judgement -/

/-- The end of an evaluation with a given outcome and a given state. -/
def finish (o : Except (Failure EvalError) α) (s : EvalState σ) :
    EStateM.Result (Failure EvalError) (EvalState σ) α :=
  match o with
  | .ok a => .ok a s
  | .error e => .error e s

/-- An evaluation ends in one way: its outcome and its state are unique. -/
theorem finish_inj {o o' : Except (Failure EvalError) α} {s s' : EvalState σ}
    (h : finish o s = finish o' s') : o = o' ∧ s = s' := by
  cases o <;> cases o' <;> cases h <;> exact ⟨rfl, rfl⟩

theorem liftState_eq_finish (x : Except (Failure EvalError) α) (s : EvalState σ) :
    Failure.liftState x s = finish x s := by
  cases x <;> rfl

theorem liftState_ok_bind (a : α) (x : α → Eval σ β) :
    Failure.liftState (.ok a) >>= x = x a := rfl

/-- An evaluation that reads the state goes on with the state it is in. -/
theorem get_bind_apply (x : EvalState σ → Eval σ α) (s : EvalState σ) : (get >>= x) s = x s s :=
  rfl

/-- From a memo and any state of the host, an evaluation ends with an outcome and events that
satisfy `Q`, and leaves the memo that those events make. -/
def Ensures (m : Memo) (x : Eval σ α) (Q : Except (Failure EvalError) α → Trace → Prop) : Prop :=
  ∀ host trace, ∃ o t host',
    x ⟨m, host, trace⟩ = finish o ⟨m.after t, host', t.reverse ++ trace⟩ ∧ Q o t

namespace Ensures

variable {m : Memo} {Q R : Except (Failure EvalError) α → Trace → Prop}

/-- What an evaluation ensures may be weakened. -/
theorem mono {x : Eval σ α} (h : Ensures m x R) (hQ : ∀ o t, R o t → Q o t) :
    Ensures m x Q := by
  intro host trace
  obtain ⟨o, t, host', hx, hR⟩ := h host trace
  exact ⟨o, t, host', hx, hQ o t hR⟩

/-- An evaluation ends in one way only, so what two judgements say of it holds at once. -/
protected theorem and {x : Eval σ α} (h : Ensures m x Q) (h' : Ensures m x R) :
    Ensures m x fun o t => Q o t ∧ R o t := by
  intro host trace
  obtain ⟨o, t, host₁, hrun, hQ⟩ := h host trace
  obtain ⟨o', t', host₂, hrun', hR⟩ := h' host trace
  obtain ⟨rfl, hstate⟩ := finish_inj (hrun.symm.trans hrun')
  have htrace : t.reverse ++ trace = t'.reverse ++ trace := congrArg EvalState.trace hstate
  obtain rfl : t = t' := List.reverse_inj.mp (List.append_cancel_right htrace)
  exact ⟨o, t, host₁, hrun, hQ, hR⟩

protected theorem pure {a : α} (h : Q (.ok a) []) : Ensures m (Pure.pure a : Eval σ α) Q :=
  fun host _ => ⟨.ok a, [], host, rfl, h⟩

protected theorem throw {e : Failure EvalError} (h : Q (.error e) []) :
    Ensures m (throw e : Eval σ α) Q :=
  fun host _ => ⟨.error e, [], host, rfl, h⟩

protected theorem liftState {x : Except (Failure EvalError) α} (h : Q x []) :
    Ensures m (Failure.liftState x : Eval σ α) Q := by
  cases x with
  | ok a => exact Ensures.pure h
  | error e => exact Ensures.throw h

/-- The rule for parts in sequence: the second part starts on the memo after the events of the
first, and an error of the first part ends both. -/
protected theorem bind {x : Eval σ α} {f : α → Eval σ β}
    {Q : Except (Failure EvalError) β → Trace → Prop} (hx : Ensures m x R)
    (hok : ∀ a t, R (.ok a) t → Ensures (m.after t) (f a) fun o u => Q o (t ++ u))
    (herror : ∀ e t, R (.error e) t → Q (.error e) t) : Ensures m (x >>= f) Q := by
  intro host trace
  obtain ⟨o, t, host', hrun, hR⟩ := hx host trace
  cases o with
  | error e =>
    refine ⟨.error e, t, host', ?_, herror e t hR⟩
    show EStateM.bind x f _ = _
    rw [EStateM.bind, hrun]
    rfl
  | ok a =>
    obtain ⟨o, u, host'', hrun', hQ⟩ := hok a t hR host' (t.reverse ++ trace)
    refine ⟨o, t ++ u, host'', ?_, hQ⟩
    -- the second part starts on the memo and the trace that the first one left
    show EStateM.bind x f _ = _
    rw [EStateM.bind, hrun, Memo.after_append, List.reverse_append, List.append_assoc]
    exact hrun'

/-- Noting an event other than `keep` leaves the memo as it is. -/
theorem note_bind {e : Event} {x : Eval σ α} (he : m.record e = m)
    (h : Ensures m x fun o t => Q o (e :: t)) : Ensures m (note e >>= fun _ => x) Q := by
  intro host trace
  obtain ⟨o, t, host', hrun, hQ⟩ := h host (e :: trace)
  refine ⟨o, e :: t, host', ?_, hQ⟩
  rw [Memo.after_cons, he, List.reverse_cons, List.append_assoc]
  exact hrun

/-- The rule for reading the state: the memo is known, the host and the events before are any. -/
theorem get_bind {x : EvalState σ → Eval σ α}
    (h : ∀ host trace, Ensures m (x ⟨m, host, trace⟩) Q) : Ensures m (get >>= x) Q :=
  fun host trace => h host trace host trace

/-! ## The rules of the evaluator -/

section Rules

variable {m : Memo} {Q R : Except (Failure EvalError) Value → Trace → Prop}
variable {P : Program σ} {f : Function σ} {sub : Invocation → Eval σ Value} {depth : Nat}

/-- A function of the host may be run in any state of it. -/
theorem runNative {i : Invocation} {run : Native σ}
    (h : ∀ host, Q (Failure.ofViolation (run i.arguments host).1)
      [.native depth i (run i.arguments host).1]) : Ensures m (runNative depth i run) Q := by
  intro host trace
  refine ⟨_, _, (run i.arguments host).2, ?_, h host⟩
  rw [← liftState_eq_finish]
  rfl

/-- The call of a line reads its arguments; an error among them is its result. -/
theorem callLine {frame : Frame} {callee : FunctionId} {arguments : List ReferenceId}
    (hread : ∀ e, resolveAll P f frame arguments = .error e → Q (.error e) [])
    (herror : ∀ values v, resolveAll P f frame arguments = .ok values →
      values.find? Value.isError = some v → Q (.ok v) [])
    (hcall : ∀ values, resolveAll P f frame arguments = .ok values →
      values.find? Value.isError = none → Ensures m (sub ⟨callee, values⟩) Q) :
    Ensures m (callLine P f sub frame callee arguments) Q := by
  cases hvalues : resolveAll P f frame arguments with
  | error e =>
    rw [Eval.callLine, hvalues]
    exact Ensures.throw (hread e hvalues)
  | ok values =>
    simp only [Eval.callLine, hvalues, liftState_ok_bind]
    cases hfind : values.find? Value.isError with
    | some v => exact Ensures.pure (herror values v hvalues hfind)
    | none => exact hcall values hvalues hfind

variable {id callee gate : FunctionId} {target : ReferenceId} {arguments : List ReferenceId}
variable {rest lines : List Line} {n : Nat} {frame : Frame} {last : Option Value}

/-- Past the last line the value of the last assignment is the result. -/
theorem runLines_nil (hlast : ∀ v, last = some v → Q (.ok v) [])
    (hmissing : last = none → Q (.error (.error (.missingResult f.name))) []) :
    Ensures m (runLines P f id depth sub [] n frame last) Q := by
  cases last with
  | some v => exact Ensures.pure (hlast v rfl)
  | none => exact Ensures.throw (hmissing rfl)

/-- The rule for an assignment: the call of the line comes first, and the rest of the lines starts
with its value in the frame. -/
theorem runLines_assign (hcall : Ensures m (Eval.callLine P f sub frame callee arguments) R)
    (hok : ∀ v t, R (.ok v) t →
      Ensures (m.after t) (runLines P f id depth sub rest (n + 1) (frame.bind target v) (some v))
        fun o u => Q o (.line depth id n frame :: (t ++ u)))
    (herror : ∀ e t, R (.error e) t → Q (.error e) (.line depth id n frame :: t)) :
    Ensures m (runLines P f id depth sub (.assign target callee arguments :: rest) n frame last)
      Q :=
  note_bind rfl (Ensures.bind hcall hok herror)

/-- A gate that answers an error makes it the result, an open gate its line's target, and a closed
gate passes on to the next line. -/
theorem runLines_returnIf (hcall : Ensures m (Eval.callLine P f sub frame gate arguments) R)
    (hcallError : ∀ e t, R (.error e) t → Q (.error e) (.line depth id n frame :: t))
    (herror : ∀ v t, R (.ok v) t → v.isError = true →
      Q (.ok v) (.line depth id n frame :: (t ++ [.verdict depth gate v])))
    (hstuck : ∀ v t e, R (.ok v) t → v.isError = false → isOpen P f gate v = .error e →
      Q (.error e) (.line depth id n frame :: (t ++ [.verdict depth gate v])))
    (hopen : ∀ v t, R (.ok v) t → v.isError = false → isOpen P f gate v = .ok true →
      Q (resolve P f frame target) (.line depth id n frame :: (t ++ [.verdict depth gate v])))
    (hclosed : ∀ v t, R (.ok v) t → v.isError = false → isOpen P f gate v = .ok false →
      Ensures (m.after t) (runLines P f id depth sub rest (n + 1) frame last)
        fun o u => Q o (.line depth id n frame :: (t ++ .verdict depth gate v :: u))) :
    Ensures m (runLines P f id depth sub (.returnIf target gate arguments :: rest) n frame last)
      Q := by
  refine note_bind rfl (Ensures.bind hcall (fun v t hR => note_bind rfl ?_) hcallError)
  -- an error is returned before the gate looks at its verdict
  cases hv : v.isError with
  | true => exact Ensures.pure (herror v t hR hv)
  | false =>
    show Ensures _ (Failure.liftState (isOpen P f gate v) >>= fun b =>
      if b then Failure.liftState (resolve P f frame target)
      else runLines P f id depth sub rest (n + 1) frame last) _
    cases hgate : isOpen P f gate v with
    | error e => exact Ensures.throw (hstuck v t e hR hv hgate)
    | ok b =>
      cases b with
      | true => exact Ensures.liftState (hopen v t hR hv hgate)
      | false => exact hclosed v t hR hv hgate

/-- The rule for an unconditional return: the line is passed and its target is the answer. -/
theorem runLines_ret (h : Q (resolve P f frame target) [.line depth id n frame]) :
    Ensures m (runLines P f id depth sub (.ret target :: rest) n frame last) Q :=
  note_bind rfl (Ensures.liftState h)

variable {i : Invocation} {run : Native σ}

/-- The rule for a native body: it runs on the arguments in the state of the host it finds, and that
is its one event. -/
theorem runBody_native (hf : f.body = .native run)
    (h : ∀ host, Q (Failure.ofViolation (run i.arguments host).1)
      [.native depth i (run i.arguments host).1]) :
    Ensures m (runBody P depth sub f i) Q := by
  rw [runBody, hf]
  exact Ensures.runNative h

/-- The rule for a body of lines: the body is entered, its lines run from the first on, and the body
is left only with a value. -/
theorem runBody_lines (hf : f.body = .lines lines)
    (hlines : Ensures m (runLines P f i.function depth sub lines 0
      (Frame.ofArguments f.signature.parameterIds i.arguments) none) R)
    (hok : ∀ v t, R (.ok v) t → Q (.ok v) (.enter depth i :: (t ++ [.leave depth i v])))
    (herror : ∀ e t, R (.error e) t → Q (.error e) (.enter depth i :: t)) :
    Ensures m (runBody P depth sub f i) Q := by
  rw [runBody, hf]
  refine note_bind rfl (Ensures.bind hlines (fun v t hR => ?_) herror)
  exact note_bind rfl (Ensures.pure (hok v t hR))

/-- What a step adds to the events of the body: it keeps a result unless the function is
uncacheable. -/
def keepEvents (f : Function σ) (depth : Nat) (i : Invocation) : Except (Failure EvalError) Value →
    Trace
  | .ok v => if f.isUncacheable then [] else [.keep depth i v]
  | .error _ => []

/-- A cacheable function keeps the value it answered. -/
theorem keepEvents_ok (hf : f.isUncacheable = false) (depth : Nat) (i : Invocation) (v : Value) :
    keepEvents f depth i (.ok v) = [.keep depth i v] := by
  rw [keepEvents, hf]
  rfl

/-- Nothing is kept, or it is the answer of a cacheable function. -/
theorem keepEvents_cases (f : Function σ) (depth : Nat) (i : Invocation)
    (o : Except (Failure EvalError) Value) : keepEvents f depth i o = [] ∨
      ∃ v, o = .ok v ∧ f.isUncacheable = false ∧ keepEvents f depth i o = [.keep depth i v] := by
  cases o with
  | error e => exact .inl rfl
  | ok v =>
    cases hf : f.isUncacheable with
    | true => exact .inl (if_pos hf)
    | false => exact .inr ⟨v, rfl, rfl, keepEvents_ok hf depth i v⟩

/-- What holds of a cacheable function's answer being kept holds of all that is kept. -/
theorem forall_mem_keepEvents {C : Event → Prop} {o : Except (Failure EvalError) Value}
    (h : ∀ v, o = .ok v → f.isUncacheable = false → C (.keep depth i v)) :
    ∀ e ∈ keepEvents f depth i o, C e := by
  rcases keepEvents_cases f depth i o with hnone | ⟨v, ho, hf, hkeep⟩
  · rw [hnone]
    exact List.forall_mem_nil _
  · rw [hkeep]
    exact List.forall_mem_singleton.mpr (h v ho hf)

/-- An answer of a cacheable function is in the memo afterwards. -/
theorem after_keepEvents_ok (hf : f.isUncacheable = false) (m : Memo) (depth : Nat)
    (i : Invocation) (v : Value) : m.after (keepEvents f depth i (.ok v)) = m.insert i v := by
  rw [keepEvents_ok hf]
  rfl

/-- The rule for keeping a result: an evaluation and then the memo, if the function is cacheable. -/
theorem keep_result {x : Eval σ Value}
    (hx : Ensures m x fun o t => Q o (t ++ keepEvents f depth i o)) :
    Ensures m (do
      let value ← x
      unless f.isUncacheable do remember depth i value
      return value) Q := by
  refine Ensures.bind hx (fun v t hQ => ?_) fun e t hQ => ?_
  · cases hf : f.isUncacheable with
    | true =>
      rw [keepEvents, hf, if_pos rfl] at hQ
      exact Ensures.pure hQ
    | false =>
      rw [keepEvents, hf, if_neg Bool.false_ne_true] at hQ
      -- the result goes into the memo and into the trace in one step
      exact fun host trace => ⟨.ok v, [.keep depth i v], host, rfl, hQ⟩
  · rwa [keepEvents, List.append_nil] at hQ

/-- The rule for an invocation without a function: it fails and nothing happens. -/
theorem step_unknown (hf : P.function? i.function = none)
    (h : Q (.error (.error (.unknownFunction i.function))) []) :
    Ensures m (Eval.step P depth sub i) Q := by
  rw [Eval.step, hf]
  exact Ensures.throw h

/-- The rule for an invocation that the memo has: its result is the answer and nothing happens. -/
theorem step_remembered (hf : P.function? i.function = some f) {v : Value}
    (hv : memoized? f i m = some v) (h : Q (.ok v) []) : Ensures m (Eval.step P depth sub i) Q := by
  rw [Eval.step, hf]
  refine get_bind fun host trace => ?_
  dsimp only
  rw [hv]
  exact Ensures.pure h

/-- The memo is looked at before the arguments are counted. -/
theorem step_arity (hf : P.function? i.function = some f) (hmiss : memoized? f i m = none)
    (hi : i.isValid P = false)
    (h : Q (.error (.error (.arityMismatch f.name f.arity i.arguments.length))) []) :
    Ensures m (Eval.step P depth sub i) Q := by
  rw [Eval.step, hf]
  refine get_bind fun host trace => ?_
  dsimp only
  rw [hmiss, hi]
  exact Ensures.throw h

/-- The rule for an invocation that the memo does not have: the body runs and its answer is kept. -/
theorem step_body (hf : P.function? i.function = some f) (hmiss : memoized? f i m = none)
    (hi : i.isValid P = true)
    (h : Ensures m (runBody P depth sub f i) fun o t => Q o (t ++ keepEvents f depth i o)) :
    Ensures m (Eval.step P depth sub i) Q := by
  rw [Eval.step, hf]
  refine get_bind fun host trace => ?_
  dsimp only
  rw [hmiss, hi]
  exact keep_result h

/-- A step answers from the memo, refuses what it cannot run, or runs the body and keeps its
result. -/
theorem step (hunknown : P.function? i.function = none →
      Q (.error (.error (.unknownFunction i.function))) [])
    (hhit : ∀ f v, P.function? i.function = some f → f.isUncacheable = false →
      m.find? i = some v → Q (.ok v) [])
    (harity : ∀ f, P.function? i.function = some f → i.isValid P = false →
      Q (.error (.error (.arityMismatch f.name f.arity i.arguments.length))) [])
    (hbody : ∀ f, P.function? i.function = some f → i.isValid P = true →
      memoized? f i m = none →
      Ensures m (runBody P depth sub f i) fun o t => Q o (t ++ keepEvents f depth i o)) :
    Ensures m (step P depth sub i) Q := by
  cases hf : P.function? i.function with
  | none => exact step_unknown hf (hunknown hf)
  | some f =>
    cases hmemo : memoized? f i m with
    | some v =>
      obtain ⟨hcacheable, hfind⟩ := memoized?_eq_some.mp hmemo
      exact step_remembered hf hmemo (hhit f v hf hcacheable hfind)
    | none =>
      cases hi : i.isValid P with
      | false => exact step_arity hf hmemo hi (harity f hf hi)
      | true => exact step_body hf hmemo hi (hbody f hf hi hmemo)

/-- What holds of all events of the body and of the result that is kept holds of all events of a
step. -/
theorem step_forall {C : Event → Prop}
    (hkeep : ∀ f v, P.function? i.function = some f → f.isUncacheable = false →
      f.arity = i.arguments.length → C (.keep depth i v))
    (hbody : ∀ f, P.function? i.function = some f → f.arity = i.arguments.length →
      Ensures m (runBody P depth sub f i) fun _ t => ∀ e ∈ t, C e) :
    Ensures m (Eval.step P depth sub i) fun _ t => ∀ e ∈ t, C e := by
  refine step (fun _ => List.forall_mem_nil _) (fun _ _ _ _ _ => List.forall_mem_nil _)
    (fun _ _ _ => List.forall_mem_nil _) fun f hf hvalid _ => ?_
  rw [Invocation.isValid_of_function? hf, decide_eq_true_eq] at hvalid
  refine (hbody f hf hvalid).mono fun o t ht => List.forall_mem_append.mpr ⟨ht, ?_⟩
  exact forall_mem_keepEvents fun v _ hcacheable => hkeep f v hf hcacheable hvalid

/-- An evaluation with no level left is cut off, whatever the memo has. -/
theorem evaluate_zero (h : Q (.ok .tooDeep) [.cutOff depth i]) :
    Ensures m (evaluate P 0 depth i) Q :=
  note_bind rfl (Ensures.pure h)

end Rules

/-! ## Properties of traces -/

section Propagates

/-- A property of traces passes from the calls of a body to the body itself: it holds of no events
and of every event that is the body's own, none of which gives the memo anything, and of what is put
together from parts that have it. Parts start on memos with the invariant `I`, which the property
keeps up. -/
structure Propagates (own : Event → Prop) (I : Memo → Prop) (Q : Memo → Trace → Prop) : Prop where
  isKeep_eq_false : ∀ e, own e → e.isKeep = false
  nil : ∀ m, I m → Q m []
  event : ∀ m e, I m → own e → Q m [e]
  append : ∀ m t u, I m → Q m t → Q (m.after t) u → Q m (t ++ u)
  after : ∀ m t, I m → Q m t → I (m.after t)

variable {own : Event → Prop} {I : Memo → Prop} {Q : Memo → Trace → Prop} {P : Program σ}
variable {depth : Nat} {sub : Invocation → Eval σ Value} {m : Memo}

namespace Propagates

theorem cons (h : Propagates own I Q) (hm : I m) {e : Event} {t : Trace} (he : own e)
    (ht : Q m t) : Q m (e :: t) := by
  have hafter : m.after [e] = m := Memo.record_of_isKeep_eq_false (h.isKeep_eq_false e he)
  refine h.append m [e] t hm (h.event m e hm he) ?_
  rwa [hafter]

theorem snoc (h : Propagates own I Q) (hm : I m) {e : Event} {t : Trace} (he : own e)
    (ht : Q m t) : Q m (t ++ [e]) :=
  h.append m t [e] hm ht (h.event _ e (h.after m t hm ht) he)

end Propagates

/-- What holds of all events of its own and of the calls below it holds of all events of a body. -/
theorem propagates_forall {C : Event → Prop} (hown : ∀ e, own e → e.isKeep = false ∧ C e)
    (hafter : ∀ m t, I m → (∀ e ∈ t, C e) → I (m.after t)) :
    Propagates own I fun _ t => ∀ e ∈ t, C e where
  isKeep_eq_false e he := (hown e he).1
  nil _ _ := List.forall_mem_nil _
  event _ e _ he := List.forall_mem_singleton.mpr (hown e he).2
  append _ _ _ _ ht hu := List.forall_mem_append.mpr ⟨ht, hu⟩
  after := hafter

/-- A property that passes upwards holds of the call of a line if it holds of the calls below. -/
theorem callLine_propagates (h : Propagates own I Q)
    (hsub : ∀ m j, I m → Ensures m (sub j) fun _ t => Q m t) (hm : I m) (f : Function σ)
    (frame : Frame) (callee : FunctionId) (arguments : List ReferenceId) :
    Ensures m (Eval.callLine P f sub frame callee arguments) fun _ t => Q m t :=
  Ensures.callLine (fun _ _ => h.nil m hm) (fun _ _ _ _ => h.nil m hm)
    fun values _ _ => hsub m ⟨callee, values⟩ hm

/-- Lines that are reached with an invariant, where every call of a line has the property. -/
theorem runLines_propagates_of {J : List Line → Nat → Frame → Prop} (h : Propagates own I Q)
    {f : Function σ} {id : FunctionId}
    (hline : ∀ {line rest n frame}, J (line :: rest) n frame → own (.line depth id n frame))
    (hverdict : ∀ gate v, own (.verdict depth gate v))
    (hassign : ∀ {target callee arguments rest n frame} v,
      J (.assign target callee arguments :: rest) n frame → J rest (n + 1) (frame.bind target v))
    (hclosed : ∀ {target gate arguments rest n frame},
      J (.returnIf target gate arguments :: rest) n frame → J rest (n + 1) frame)
    (hcall : ∀ m frame callee arguments, I m →
      Ensures m (Eval.callLine P f sub frame callee arguments) fun _ t => Q m t)
    (hm : I m) {lines : List Line} {n : Nat} {frame : Frame} (hJ : J lines n frame)
    (last : Option Value) :
    Ensures m (runLines P f id depth sub lines n frame last) fun _ t => Q m t := by
  induction lines generalizing m n frame last with
  | nil => exact runLines_nil (fun _ _ => h.nil m hm) fun _ => h.nil m hm
  | cons line rest ih =>
    have hown := hline hJ
    cases line with
    | assign target callee arguments =>
      refine runLines_assign (hcall m frame callee arguments hm) ?_ ?_
      · intro v t ht
        -- the lines that are left start on the memo that the call left
        have hrest := hassign v hJ
        refine (ih (h.after m t hm ht) hrest _).mono fun o u hu => ?_
        exact h.cons hm hown (h.append m t u hm ht hu)
      · intro e t ht
        exact h.cons hm hown ht
    | returnIf target gate arguments =>
      -- the events of the line if it is the last that runs
      have hend : ∀ v t, Q m t → Q m (.line depth id n frame :: (t ++ [.verdict depth gate v])) :=
        fun v t ht => h.cons hm hown (h.snoc hm (hverdict gate v) ht)
      refine runLines_returnIf (hcall m frame gate arguments hm)
        (fun e t ht => h.cons hm hown ht) (fun v t ht _ => hend v t ht)
        (fun v t e ht _ _ => hend v t ht) (fun v t ht _ _ => hend v t ht) ?_
      intro v t ht _ _
      have hafter := h.after m t hm ht
      have hrest := hclosed hJ
      refine (ih hafter hrest _).mono fun o u hu => ?_
      exact h.cons hm hown (h.append m t _ hm ht (h.cons hafter (hverdict gate v) hu))
    | ret target => exact runLines_ret (h.event m _ hm hown)

/-- A property that passes upwards holds of any lines of a body, from any of them on. -/
theorem runLines_propagates (h : Propagates own I Q)
    (hline : ∀ id n frame, own (.line depth id n frame))
    (hverdict : ∀ gate v, own (.verdict depth gate v))
    (hsub : ∀ m j, I m → Ensures m (sub j) fun _ t => Q m t) (hm : I m) (f : Function σ)
    (id : FunctionId) (lines : List Line) (n : Nat) (frame : Frame) (last : Option Value) :
    Ensures m (runLines P f id depth sub lines n frame last) fun _ t => Q m t :=
  runLines_propagates_of (J := fun _ _ _ => True) h (fun _ => hline id _ _) hverdict
    (fun _ _ => trivial) (fun _ => trivial)
    (fun _ frame callee arguments hm => callLine_propagates h hsub hm f frame callee arguments)
    hm trivial last

/-- A body that is entered runs its lines and is left if they give a result. -/
theorem runBody_lines_propagates (h : Propagates own I Q) {f : Function σ} {i : Invocation}
    (henter : own (.enter depth i)) (hleave : ∀ v, own (.leave depth i v)) {lines : List Line}
    (hf : f.body = .lines lines) (hm : I m)
    (hlines : Ensures m (runLines P f i.function depth sub lines 0
      (Frame.ofArguments f.signature.parameterIds i.arguments) none) fun _ t => Q m t) :
    Ensures m (runBody P depth sub f i) fun _ t => Q m t := by
  refine runBody_lines hf hlines ?_ ?_
  · intro v t ht
    exact h.cons hm henter (h.snoc hm (hleave v) ht)
  · intro e t ht
    exact h.cons hm henter ht

/-- A property that passes upwards holds of a body, native or not. -/
theorem runBody_propagates (h : Propagates own I Q)
    (hown : ∀ e, e.depth = depth → e.isKeep = false → own e)
    (hsub : ∀ m j, I m → Ensures m (sub j) fun _ t => Q m t) (hm : I m) (f : Function σ)
    (i : Invocation) : Ensures m (runBody P depth sub f i) fun _ t => Q m t := by
  cases hf : f.body with
  | native run => exact runBody_native hf fun host => h.event m _ hm (hown _ rfl rfl)
  | lines lines =>
    have hlines := runLines_propagates (P := P) h (fun id n frame => hown _ rfl rfl)
      (fun gate v => hown _ rfl rfl) hsub hm f i.function lines 0
      (Frame.ofArguments f.signature.parameterIds i.arguments) none
    exact runBody_lines_propagates h (hown _ rfl rfl) (fun v => hown _ rfl rfl) hf hm hlines

end Propagates

/-! ## What the memo is given -/

section Keeps

variable {K : Invocation → Value → Prop} {P : Program σ} {sub : Invocation → Eval σ Value}
variable {depth : Nat}

/-- A step gives the memo the result of its own invocation and what the calls below it do. -/
theorem step_keeps
    (hsub : ∀ m j, Memo.All K m → Ensures m (sub j) fun _ t => ∀ e ∈ t, e.Keeps K)
    {i : Invocation} (hi : ∀ v, i.IsMemoizable P → K i v) {m : Memo} (hm : m.All K) :
    Ensures m (Eval.step P depth sub i) fun _ t => ∀ e ∈ t, e.Keeps K := by
  have hkeeps : Propagates (fun e => e.isKeep = false) (Memo.All K)
      fun _ t => ∀ e ∈ t, e.Keeps K :=
    propagates_forall (fun e he => ⟨he, Event.keeps_of_isKeep_eq_false he⟩)
      fun _ _ hm ht => hm.after ht
  exact step_forall (fun f v hf hcacheable harity => hi v ⟨f, hf, hcacheable, harity⟩)
    fun f _ _ => runBody_propagates hkeeps (fun _ _ he => he) hsub hm f i

/-- The memo is given results of memoizable invocations only. -/
theorem evaluate_keeps (hK : ∀ i v, i.IsMemoizable P → K i v) (levels depth : Nat)
    (i : Invocation) {m : Memo} (hm : m.All K) :
    Ensures m (evaluate P levels depth i) fun _ t => ∀ e ∈ t, e.Keeps K := by
  induction levels generalizing depth i m with
  | zero => exact evaluate_zero (by simp [Event.Keeps])
  | succ levels ih => exact step_keeps (fun m j hm => ih (depth + 1) j hm) (hK i) hm

end Keeps

end Ensures

end Eval

/-! ## Calls of a context -/

namespace Context

variable {σ : Type}

/-- What holds of the outcome and the events of an evaluation holds of a call's. -/
theorem run_of_ensures {c : Context σ} {i : Invocation}
    {Q : Except (Failure EvalError) Value → Trace → Prop}
    (h : Eval.Ensures c.memo (Eval.evaluate c.program (c.maxDepth + 1) 0 i) Q) (host : σ) :
    Q (c.run host i).outcome (c.run host i).trace ∧
      (c.run host i).context = { c with memo := c.memo.after (c.run host i).trace } := by
  obtain ⟨o, t, host', hrun, hQ⟩ := h host []
  -- the trace is built with the latest event first, and a run gives it in order
  have hrun : Eval.evaluateAt c.program c.maxDepth 0 i ⟨c.memo, host, []⟩ =
      Eval.finish o ⟨c.memo.after t, host', t.reverse⟩ := by
    rw [List.append_nil] at hrun
    exact hrun
  cases o with
  | ok v => simpa only [run, hrun, Eval.finish, List.reverse_reverse, and_true] using hQ
  | error e => simpa only [run, hrun, Eval.finish, List.reverse_reverse, and_true] using hQ

/-- A call leaves the memo that its events make, and nothing else of the context changes. -/
theorem run_context (c : Context σ) (host : σ) (i : Invocation) :
    (c.run host i).context = { c with memo := c.memo.after (c.run host i).trace } := by
  have h := Eval.Ensures.evaluate_keeps (P := c.program) (K := fun _ _ => True)
    (fun _ _ _ => trivial) (c.maxDepth + 1) 0 i (m := c.memo) fun _ _ _ => trivial
  exact (run_of_ensures h host).2

/-- A call leaves the program of its context alone. -/
@[simp] theorem run_program (c : Context σ) (host : σ) (i : Invocation) :
    (c.run host i).context.program = c.program := by
  rw [run_context]

@[simp] theorem run_maxDepth (c : Context σ) (host : σ) (i : Invocation) :
    (c.run host i).context.maxDepth = c.maxDepth := by
  rw [run_context]

/-- The context after some calls, each with the state that the host is in at that time. -/
def after (c : Context σ) (calls : List (σ × Invocation)) : Context σ :=
  calls.foldl (fun c call => (c.run call.1 call.2).context) c

@[simp] theorem after_nil (c : Context σ) : c.after [] = c := rfl

@[simp] theorem after_cons (c : Context σ) (call : σ × Invocation) (calls : List (σ × Invocation)) :
    c.after (call :: calls) = (c.run call.1 call.2).context.after calls := rfl

/-- Calls leave the program of their context alone. -/
@[simp] theorem after_program (c : Context σ) (calls : List (σ × Invocation)) :
    (c.after calls).program = c.program := by
  induction calls generalizing c with
  | nil => rfl
  | cons call calls ih => rw [after_cons, ih, run_program]

@[simp] theorem after_maxDepth (c : Context σ) (calls : List (σ × Invocation)) :
    (c.after calls).maxDepth = c.maxDepth := by
  induction calls generalizing c with
  | nil => rfl
  | cons call calls ih => rw [after_cons, ih, run_maxDepth]

/-- What calls keep true of the memo holds after all of them. -/
theorem after_memo {c : Context σ} {I : Memo → Prop} {calls : List (σ × Invocation)}
    (hc : I c.memo)
    (hrun : ∀ m i, I m → (∃ host, (host, i) ∈ calls) →
      Eval.Ensures m (Eval.evaluate c.program (c.maxDepth + 1) 0 i) fun _ t => I (m.after t)) :
    I (c.after calls).memo := by
  induction calls generalizing c with
  | nil => exact hc
  | cons call calls ih =>
    obtain ⟨hI, hcontext⟩ := run_of_ensures
      (hrun c.memo call.2 hc ⟨call.1, List.mem_cons_self⟩) call.1
    rw [after_cons, hcontext]
    -- the first call leaves a context over the same program with the same limit
    exact ih hI fun m i hm ⟨host, hmem⟩ =>
      hrun m i hm ⟨host, List.mem_cons_of_mem _ hmem⟩

end Context

end Rulebook

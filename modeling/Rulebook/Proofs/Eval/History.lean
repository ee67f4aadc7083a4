import Rulebook.Proofs.Eval.Ensures

/-!
# Histories and the state of the host

The history of a context is what happened in all calls on it, one call after another. The memo
after the calls is made by their history (`Context.memo_after`), and what holds of single calls and
passes from two histories to the one after the other holds of every history
(`Context.history_of_ensures`).

A trace names the runs of host functions and their outcomes, but not the state of the host. Applying
these functions again, one run after another from the state before the call, gives the outcomes in
the trace and ends in the state that the call leaves (`Context.run_replays`). So nothing else
changes the host, and no run is made up or left out. `Ensures` forgets the state of the host, so
this is a judgement of its own on evaluations (`Eval.Tracks`), closed under `bind`.
-/

namespace Rulebook

open Eval

variable {σ : Type}

/-! ## Traces in two parts -/

namespace Trace

/-- An event of two traces in a row is one of the first or of the second. -/
theorem append_eq_append_cons {t u before after : Trace} {e : Event}
    (h : t ++ u = before ++ e :: after) :
    (∃ rest, t = before ++ e :: rest ∧ after = rest ++ u) ∨
      ∃ rest, before = t ++ rest ∧ u = rest ++ e :: after := by
  rcases List.append_eq_append_iff.mp h with ⟨rest, hbefore, hu⟩ | ⟨rest, ht, hafter⟩
  · exact .inr ⟨rest, hbefore, hu⟩
  · cases rest with
    | nil =>
      rw [List.append_nil] at ht
      exact .inr ⟨[], by rw [ht, List.append_nil], hafter.symm⟩
    | cons e' rest =>
      rw [List.cons_append, List.cons.injEq] at hafter
      obtain ⟨rfl, hafter⟩ := hafter
      exact .inl ⟨rest, ht, hafter⟩

end Trace

/-! ## Calls one after another -/

namespace Context

/-- The events of some calls, each made with the state that the host is in at that time. -/
def history (c : Context σ) : List (σ × Invocation) → Trace
  | [] => []
  | call :: calls => (c.run call.1 call.2).trace ++ (c.run call.1 call.2).context.history calls

@[simp] theorem history_nil (c : Context σ) : c.history [] = [] := rfl

@[simp] theorem history_cons (c : Context σ) (call : σ × Invocation)
    (calls : List (σ × Invocation)) : c.history (call :: calls) =
      (c.run call.1 call.2).trace ++ (c.run call.1 call.2).context.history calls := rfl

/-- The events of the last call come after those of the calls before it. -/
theorem history_append_singleton (c : Context σ) (calls : List (σ × Invocation))
    (call : σ × Invocation) : c.history (calls ++ [call]) =
      c.history calls ++ ((c.after calls).run call.1 call.2).trace := by
  induction calls generalizing c with
  | nil => simp
  | cons first calls ih =>
    rw [List.cons_append, history_cons, ih, history_cons, after_cons, List.append_assoc]

/-- The history of some calls makes the memo that they leave. -/
theorem memo_after (c : Context σ) (calls : List (σ × Invocation)) :
    (c.after calls).memo = c.memo.after (c.history calls) := by
  induction calls generalizing c with
  | nil => rfl
  | cons call calls ih =>
    rw [after_cons, ih, history_cons, Memo.after_append, run_context]

/-- What holds of no events, of two parts together and of every call holds of the events of any
number of calls. -/
theorem history_of_ensures {c : Context σ} {Q : Memo → Trace → Prop}
    {calls : List (σ × Invocation)} (hnil : ∀ m, Q m [])
    (happend : ∀ m t u, Q m t → Q (m.after t) u → Q m (t ++ u))
    (hrun : ∀ m i, Ensures m (evaluate c.program (c.maxDepth + 1) 0 i) fun _ t => Q m t) :
    Q c.memo (c.history calls) := by
  induction calls generalizing c with
  | nil => exact hnil c.memo
  | cons call calls ih =>
    obtain ⟨hQ, hcontext⟩ := run_of_ensures (hrun c.memo call.2) call.1
    refine happend _ _ _ hQ ?_
    -- the other calls start on the memo that the first one left
    rw [hcontext]
    exact ih (c := { c with memo := c.memo.after (c.run call.1 call.2).trace }) hrun

end Context

/-! ## The host along a trace -/

/-- Whether an event is a run of a host function. -/
def Event.isNative : Event → Bool
  | native _ _ _ => true
  | _ => false

/-- The function of the host that supplies a body, if one does. -/
def Function.native? (f : Function σ) : Option (Native σ) :=
  match f.body with
  | .lines _ => none
  | .native run => some run

namespace Program

/-- The function of the host with an identity, if the program has it. -/
def native? (P : Program σ) (id : FunctionId) : Option (Native σ) :=
  (P.function? id).bind Function.native?

/-- The state of the host after an event: a run applies its function, and nothing else changes the
state. -/
def hostRecord (P : Program σ) (host : σ) : Event → σ
  | .native _ j _ =>
    match P.native? j.function with
    | some run => (run j.arguments host).2
    | none => host
  | _ => host

/-- The state of the host after some events. -/
def hostAfter (P : Program σ) (host : σ) (t : Trace) : σ := t.foldl P.hostRecord host

/-- A run has the outcome that its function gives in a state of the host. -/
def Performs (P : Program σ) (host : σ) : Event → Prop
  | .native _ j o => ∃ run, P.native? j.function = some run ∧ o = (run j.arguments host).1
  | _ => True

/-- Every run has the outcome that its function gives in the state that the runs before it lead
to. -/
def Replays (P : Program σ) : σ → Trace → Prop
  | _, [] => True
  | host, e :: t => P.Performs host e ∧ P.Replays (P.hostRecord host e) t

variable {P : Program σ} {id : FunctionId} {f : Function σ} {run : Native σ} {host : σ}
variable {t u : Trace} {e : Event}

/-- A function of the host is found under its id. -/
theorem native?_of_body (hf : P.function? id = some f) (hbody : f.body = .native run) :
    P.native? id = some run := by
  rw [native?, hf, Option.bind_some, Function.native?, hbody]

/-- What a function of the host is run by is the body of a function of the program. -/
theorem body_of_native? (h : P.native? id = some run) :
    ∃ f, P.function? id = some f ∧ f.body = .native run := by
  obtain ⟨f, hf, hnative⟩ := Option.bind_eq_some_iff.mp h
  refine ⟨f, hf, ?_⟩
  unfold Function.native? at hnative
  cases hbody : f.body with
  | lines lines =>
    rw [hbody] at hnative
    cases hnative
  | native run' =>
    rw [hbody] at hnative
    rw [Option.some.inj hnative]

/-- A run leaves the host in the state that its function leaves. -/
theorem hostRecord_native {j : Invocation} (hrun : P.native? j.function = some run) (host : σ)
    (d : Nat) (o : Except Violation Value) :
    P.hostRecord host (.native d j o) = (run j.arguments host).2 := by
  simp only [hostRecord, hrun]

@[simp] theorem hostAfter_nil (P : Program σ) (host : σ) : P.hostAfter host [] = host := rfl

@[simp] theorem hostAfter_cons (P : Program σ) (host : σ) (e : Event) (t : Trace) :
    P.hostAfter host (e :: t) = P.hostAfter (P.hostRecord host e) t := rfl

/-- The host passes through the state between two parts of a trace. -/
@[simp] theorem hostAfter_append (P : Program σ) (host : σ) (t u : Trace) :
    P.hostAfter host (t ++ u) = P.hostAfter (P.hostAfter host t) u := List.foldl_append

/-- Two parts of a trace are replayed one after the other. -/
theorem replays_append :
    P.Replays host (t ++ u) ↔ P.Replays host t ∧ P.Replays (P.hostAfter host t) u := by
  induction t generalizing host with
  | nil => simp [Replays]
  | cons e t ih =>
    rw [List.cons_append, Replays, Replays, ih, hostAfter_cons, and_assoc]

/-- Every run of a replayed trace has the outcome that its function gives in the state at that
time. -/
theorem Replays.performs {before after : Trace} (h : P.Replays host t)
    (ht : t = before ++ e :: after) : P.Performs (P.hostAfter host before) e := by
  subst ht
  exact (replays_append.mp h).2.1

/-- In replayed events, a run has the outcome of its function in the state after the events before
it. -/
theorem Replays.outcome_eq {before after : Trace} {d : Nat} {j : Invocation}
    {o : Except Violation Value} (h : P.Replays host t) (hrun : P.native? j.function = some run)
    (ht : t = before ++ .native d j o :: after) :
    o = (run j.arguments (P.hostAfter host before)).1 := by
  obtain ⟨run', hrun', ho⟩ := h.performs ht
  obtain rfl := Option.some.inj (hrun.symm.trans hrun')
  exact ho

end Program

/-! ## Evaluations that track the host -/

namespace Eval

/-- From any state, an evaluation adds events that are replayed, and leaves the host in the state
that they lead to. -/
def Tracks {α : Type} (P : Program σ) (x : Eval σ α) : Prop :=
  ∀ s, ∃ o t s', x s = finish o s' ∧ s'.trace = t.reverse ++ s.trace ∧ P.Replays s.host t ∧
    s'.host = P.hostAfter s.host t

namespace Tracks

variable {α β : Type} {P : Program σ}

protected theorem pure (a : α) : Tracks P (Pure.pure a : Eval σ α) :=
  fun s => ⟨.ok a, [], s, rfl, rfl, trivial, rfl⟩

protected theorem throw (e : Failure EvalError) : Tracks P (throw e : Eval σ α) :=
  fun s => ⟨.error e, [], s, rfl, rfl, trivial, rfl⟩

protected theorem liftState (x : Except (Failure EvalError) α) :
    Tracks P (Failure.liftState x : Eval σ α) := by
  cases x with
  | ok a => exact .pure a
  | error e => exact .throw e

/-- The second part is replayed from the state that the first one leads to. -/
protected theorem bind {x : Eval σ α} {f : α → Eval σ β} (hx : Tracks P x)
    (hf : ∀ a, Tracks P (f a)) : Tracks P (x >>= f) := by
  intro s
  obtain ⟨o, t, s', hrun, htrace, ht, hhost⟩ := hx s
  cases o with
  | error e =>
    refine ⟨.error e, t, s', ?_, htrace, ht, hhost⟩
    show EStateM.bind x f s = _
    rw [EStateM.bind, hrun]
    rfl
  | ok a =>
    obtain ⟨o, u, s'', hrun', htrace', hu, hhost'⟩ := hf a s'
    refine ⟨o, t ++ u, s'', ?_, ?_, ?_, ?_⟩
    · show EStateM.bind x f s = _
      rw [EStateM.bind, hrun]
      exact hrun'
    · rw [htrace', htrace, List.reverse_append, List.append_assoc]
    · rw [hhost] at hu
      exact Program.replays_append.mpr ⟨ht, hu⟩
    · rw [hhost', hhost, Program.hostAfter_append]

/-- What is read of the state changes nothing. -/
theorem get_bind {x : EvalState σ → Eval σ α} (h : ∀ s, Tracks P (x s)) :
    Tracks P (get >>= x) :=
  fun s => h s s

/-- An event that tells of no run. -/
theorem note {e : Event} (he : e.isNative = false) : Tracks P (note e) := by
  intro s
  have hrecord : P.hostRecord s.host e = s.host ∧ P.Performs s.host e := by
    cases e with
    | native => cases he
    | cutOff | enter | line | verdict | leave | keep => exact ⟨rfl, trivial⟩
  exact ⟨.ok (), [e], { s with trace := e :: s.trace }, rfl, rfl, ⟨hrecord.2, trivial⟩,
    hrecord.1.symm⟩

theorem remember (depth : Nat) (i : Invocation) (v : Value) :
    Tracks P (Eval.remember depth i v) :=
  fun _ => ⟨.ok (), [.keep depth i v], _, rfl, rfl, ⟨trivial, trivial⟩, rfl⟩

/-- A run leaves the host as its function does, whatever the outcome is. -/
theorem runNative {i : Invocation} {run : Native σ} (hrun : P.native? i.function = some run)
    (depth : Nat) : Tracks P (runNative depth i run) := by
  intro s
  have hrecord := Program.hostRecord_native hrun s.host depth (run i.arguments s.host).1
  refine ⟨Failure.ofViolation (run i.arguments s.host).1,
    [.native depth i (run i.arguments s.host).1],
    ⟨s.memo, (run i.arguments s.host).2, _⟩, ?_, rfl, ⟨⟨run, hrun, rfl⟩, trivial⟩, hrecord.symm⟩
  rw [← liftState_eq_finish]
  rfl

end Tracks

/-! ### The evaluator -/

section Evaluator

variable {P : Program σ} {f : Function σ} {sub : Invocation → Eval σ Value} {depth : Nat}

/-- The call of a line tracks the host if the calls below do. -/
theorem callLine_tracks (hsub : ∀ i, Tracks P (sub i)) (frame : Frame) (callee : FunctionId)
    (arguments : List ReferenceId) : Tracks P (callLine P f sub frame callee arguments) := by
  refine .bind (.liftState _) fun values => ?_
  cases values.find? Value.isError with
  | some v => exact .pure v
  | none => exact hsub ⟨callee, values⟩

/-- Lines of a body, by induction on the lines that are left. -/
theorem runLines_tracks (hsub : ∀ i, Tracks P (sub i)) (id : FunctionId) (lines : List Line)
    (n : Nat) (frame : Frame) (last : Option Value) :
    Tracks P (runLines P f id depth sub lines n frame last) := by
  induction lines generalizing n frame last with
  | nil =>
    cases last with
    | some v => exact .pure v
    | none => exact .throw _
  | cons line rest ih =>
    refine .bind (.note rfl) fun _ => ?_
    cases line with
    | assign target callee arguments =>
      exact .bind (callLine_tracks hsub frame callee arguments) fun v => ih _ _ _
    | returnIf target gate arguments =>
      refine .bind (callLine_tracks hsub frame gate arguments) fun v => ?_
      refine .bind (.note rfl) fun _ => ?_
      cases v.isError with
      | true => exact .pure v
      | false =>
        refine .bind (.liftState _) fun b => ?_
        cases b with
        | true => exact .liftState _
        | false => exact ih _ _ _
    | ret target => exact .liftState _

/-- A body tracks the host: a native one by the run it logs, lines by their calls. -/
theorem runBody_tracks (hsub : ∀ i, Tracks P (sub i)) {i : Invocation}
    (hf : P.function? i.function = some f) : Tracks P (runBody P depth sub f i) := by
  rw [runBody]
  cases hbody : f.body with
  | native run => exact .runNative (Program.native?_of_body hf hbody) depth
  | lines lines =>
    refine .bind (.note rfl) fun _ => ?_
    refine .bind (runLines_tracks hsub _ _ _ _ _) fun v => ?_
    exact .bind (.note rfl) fun _ => .pure v

/-- A step tracks the host, from the memo or by running the body. -/
theorem step_tracks (hsub : ∀ i, Tracks P (sub i)) (i : Invocation) :
    Tracks P (step P depth sub i) := by
  rw [step]
  cases hf : P.function? i.function with
  | none => exact .throw _
  | some f =>
    refine .get_bind fun s => ?_
    cases memoized? f i s.memo with
    | some v => exact .pure v
    | none =>
      cases i.isValid P with
      | false => exact .throw _
      | true =>
        refine .bind (runBody_tracks hsub hf) fun v => ?_
        cases f.isUncacheable with
        | true => exact .pure v
        | false => exact .bind (.remember depth i v) fun _ => .pure v

/-- The runs in an evaluation are those of the host's functions, and the host is left as they leave
it. -/
theorem evaluate_tracks (levels depth : Nat) (i : Invocation) :
    Tracks P (evaluate P levels depth i) := by
  induction levels generalizing depth i with
  | zero => exact .bind (.note rfl) fun _ => .pure _
  | succ levels ih => exact step_tracks (ih (depth + 1)) i

end Evaluator

end Eval

/-! ## The host after a call -/

/-- The runs in the trace of a call, made again in order from the same state of the host, have the
same outcomes and leave the host as the call does. -/
theorem Context.run_replays (c : Context σ) (host : σ) (i : Invocation) :
    c.program.Replays host (c.run host i).trace ∧
      (c.run host i).host = c.program.hostAfter host (c.run host i).trace := by
  obtain ⟨o, t, s, hrun, htrace, ht, hhost⟩ := evaluate_tracks (P := c.program) (c.maxDepth + 1) 0 i
    ⟨c.memo, host, []⟩
  have hrun : evaluateAt c.program c.maxDepth 0 i ⟨c.memo, host, []⟩ = finish o s := hrun
  have htrace : s.trace.reverse = t := by rw [htrace, List.append_nil, List.reverse_reverse]
  cases o with
  | ok v =>
    simp only [run, hrun, finish, htrace]
    exact ⟨ht, hhost⟩
  | error e =>
    simp only [run, hrun, finish, htrace]
    exact ⟨ht, hhost⟩

end Rulebook

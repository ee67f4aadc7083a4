import Rulebook.Proofs.Eval.Deepening
import Rulebook.Proofs.Eval.History

/-!
# Runs of host functions

What the functions of the host can rely on in the course of any calls on a context, whatever they
do themselves. A run is given as many arguments as the function takes, and no error among them
unless the host itself made the call (`evaluate_hostRun`). A cacheable function that has answered on
some arguments is never run on them again: a run needs a memo without a result, and a result goes
into the memo at once (`Trace.RunsOnce`). An uncacheable function is run whenever it is called
within the depth limit, and the memo never has a result of it (`Program.Attends`).
-/

namespace Rulebook

open Eval

variable {σ : Type}

/-! ## What a run is given -/

section Arguments

/-- A run of a host function, in an evaluation of an invocation at a depth: it is given as many
arguments as the function takes, and either it is the run of the invocation itself, or a line made
the call and no argument is an error. -/
def Event.HostRun (P : Program σ) (depth : Nat) (i : Invocation) : Event → Prop
  | .native d j _ =>
    (∃ f, P.function? j.function = some f ∧ f.isNative = true ∧ f.arity = j.arguments.length) ∧
      (d = depth ∧ j = i ∨ depth < d ∧ ∀ v ∈ j.arguments, v.isError = false)
  | _ => True

variable {P : Program σ} {depth : Nat} {i j : Invocation}

theorem Event.hostRun_of_isNative_eq_false {e : Event} (he : e.isNative = false) :
    e.HostRun P depth i := by
  cases e with
  | native => cases he
  | cutOff | enter | line | verdict | leave | keep => trivial

/-- What runs in a call that a line makes is deeper, and the call itself has no error argument. -/
theorem Event.HostRun.of_callee {e : Event} (h : e.HostRun P (depth + 1) j)
    (hj : ∀ v ∈ j.arguments, v.isError = false) : e.HostRun P depth i := by
  cases e with
  | native d k o =>
    obtain ⟨hf, ⟨rfl, rfl⟩ | ⟨hlt, harguments⟩⟩ := h
    · exact ⟨hf, .inr ⟨depth.lt_succ_self, hj⟩⟩
    · exact ⟨hf, .inr ⟨Nat.lt_of_succ_lt hlt, harguments⟩⟩
  | cutOff | enter | line | verdict | leave | keep => trivial

/-- Every run of the host in an evaluation is that of the invocation itself or of a line. -/
theorem evaluate_hostRun (levels depth : Nat) (i : Invocation) (m : Memo) :
    Ensures m (evaluate P levels depth i) fun _ t => ∀ e ∈ t, e.HostRun P depth i := by
  induction levels generalizing depth i m with
  | zero => exact .evaluate_zero (List.forall_mem_singleton.mpr trivial)
  | succ levels ih =>
    refine .step_forall (fun _ _ _ _ _ => trivial) fun f hf harity => ?_
    cases hbody : f.body with
    | native run =>
      refine .runBody_native hbody fun host => List.forall_mem_singleton.mpr ?_
      have hnative : f.isNative = true := by rw [Function.isNative, hbody]
      exact ⟨⟨f, hf, hnative, harity⟩, .inl ⟨rfl, rfl⟩⟩
    | lines lines =>
      have hown : Ensures.Propagates (fun e => e.isKeep = false ∧ e.isNative = false)
          (fun _ => True) fun _ t => ∀ e ∈ t, e.HostRun P depth i :=
        Ensures.propagates_forall
          (fun e he => ⟨he.1, Event.hostRun_of_isNative_eq_false he.2⟩) fun _ _ _ _ => trivial
      have hcall : ∀ m frame callee arguments, True →
          Ensures m (callLine P f (evaluate P levels (depth + 1)) frame callee arguments)
            fun _ t => ∀ e ∈ t, e.HostRun P depth i := by
        intro m frame callee arguments _
        refine .callLine (fun _ _ => List.forall_mem_nil _) (fun _ _ _ _ => List.forall_mem_nil _)
          fun values _ hfind => ?_
        have hvalues : ∀ v ∈ values, v.isError = false := by simpa using hfind
        exact (ih (depth + 1) ⟨callee, values⟩ m).mono
          fun _ _ ht e he => (ht e he).of_callee hvalues
      refine .runBody_lines_propagates hown ⟨rfl, rfl⟩ (fun _ => ⟨rfl, rfl⟩) hbody trivial ?_
      exact Ensures.runLines_propagates_of (J := fun _ _ _ => True) hown (fun _ => ⟨rfl, rfl⟩)
        (fun _ _ => ⟨rfl, rfl⟩) (fun _ _ => trivial) (fun _ => trivial) hcall trivial trivial none

end Arguments

/-! ## Runs and the memo -/

/-- Whether the memo is given the results of a function. -/
def Program.Caches (P : Program σ) (id : FunctionId) : Prop :=
  ∃ f, P.function? id = some f ∧ f.isUncacheable = false

/-- A function of the host answers on some arguments and is run on them again later. -/
def Trace.RunsAgain (t : Trace) (j : Invocation) : Prop :=
  ∃ d d' v o, List.Sublist [Event.native d j (.ok v), Event.native d' j o] t

/-- From a memo on, cacheable functions of the host are run only where the memo has no result, and
what they answer goes into the memo at once. -/
structure Trace.RunsOnce (P : Program σ) (m : Memo) (t : Trace) : Prop where
  missing : ∀ before after d j o, t = before ++ .native d j o :: after → P.Caches j.function →
    (m.after before).find? j = none
  kept : ∀ before after d j v, t = before ++ .native d j (.ok v) :: after → P.Caches j.function →
    ∃ rest, after = .keep d j v :: rest

/-- The memo has a result of every invocation that it had one of. -/
theorem Memo.isSome_find?_after {m : Memo} {i : Invocation} (h : (m.find? i).isSome) (t : Trace) :
    ((m.after t).find? i).isSome := by
  induction t generalizing m with
  | nil => exact h
  | cons e t ih =>
    refine ih ?_
    cases e with
    | keep d j v =>
      have hinsert := Memo.find?_insert m j i v
      by_cases hij : i = j
      · rw [Memo.record, hinsert, if_pos hij]
        rfl
      · rwa [Memo.record, hinsert, if_neg hij]
    | cutOff | enter | line | verdict | leave | native => exact h

namespace Trace.RunsOnce

variable {P : Program σ} {m : Memo} {t u : Trace}

/-- Where no function of the host is run there is nothing to show. -/
theorem of_isNative_eq_false (h : ∀ e ∈ t, e.isNative = false) : RunsOnce P m t := by
  constructor
  · rintro before after d j o rfl
    cases h (.native d j o) (List.mem_append_right _ List.mem_cons_self)
  · rintro before after d j v rfl
    cases h (.native d j (.ok v)) (List.mem_append_right _ List.mem_cons_self)

/-- In two parts nothing is run again either, as the second starts with what the first has left. -/
theorem append (ht : RunsOnce P m t) (hu : RunsOnce P (m.after t) u) : RunsOnce P m (t ++ u) := by
  constructor
  · intro before after d j o heq hj
    rcases append_eq_append_cons heq with ⟨rest, hfirst, -⟩ | ⟨rest, rfl, hsecond⟩
    · exact ht.missing before rest d j o hfirst hj
    · rw [Memo.after_append]
      exact hu.missing rest after d j o hsecond hj
  · intro before after d j v heq hj
    rcases append_eq_append_cons heq with ⟨rest, hfirst, rfl⟩ | ⟨rest, rfl, hsecond⟩
    · obtain ⟨later, rfl⟩ := ht.kept before rest d j v hfirst hj
      exact ⟨later ++ u, rfl⟩
    · exact hu.kept rest after d j v hsecond hj

/-- That nothing is run again passes from the calls of a body to the body. -/
theorem propagates : Ensures.Propagates (fun e => e.isKeep = false ∧ e.isNative = false)
    (fun _ => True) (RunsOnce P) where
  isKeep_eq_false _ he := he.1
  nil _ _ := of_isNative_eq_false (List.forall_mem_nil _)
  event _ _ _ he := of_isNative_eq_false (List.forall_mem_singleton.mpr he.2)
  append _ _ _ _ ht hu := ht.append hu
  after _ _ _ _ := trivial

/-- The run of a host function that the memo has no result for, with what is kept of it. -/
theorem native {f : Function σ} {i : Invocation} (hf : P.function? i.function = some f)
    (hmiss : memoized? f i m = none) (depth : Nat) (o : Except Violation Value) :
    RunsOnce P m ([.native depth i o] ++
      Ensures.keepEvents f depth i (Failure.ofViolation o)) := by
  have hcaches : P.Caches i.function → f.isUncacheable = false := by
    rintro ⟨g, hg, hcacheable⟩
    obtain rfl := Option.some.inj (hf.symm.trans hg)
    exact hcacheable
  have hkeep : ∀ e ∈ Ensures.keepEvents f depth i (Failure.ofViolation o), e.isNative = false :=
    Ensures.forall_mem_keepEvents fun _ _ _ => rfl
  -- the first event is the only run
  have hfirst : ∀ before after d j o', [.native depth i o] ++
      Ensures.keepEvents f depth i (Failure.ofViolation o) = before ++ .native d j o' :: after →
      before = [] ∧ .native depth i o = Event.native d j o' ∧
        after = Ensures.keepEvents f depth i (Failure.ofViolation o) := by
    intro before after d j o' heq
    cases before with
    | nil =>
      rw [List.singleton_append, List.nil_append, List.cons.injEq] at heq
      exact ⟨rfl, heq.1, heq.2.symm⟩
    | cons e before =>
      rw [List.singleton_append, List.cons_append, List.cons.injEq] at heq
      have hmem := hkeep (.native d j o') (heq.2 ▸ List.mem_append_right _ List.mem_cons_self)
      cases hmem
  constructor
  · intro before after d j o' heq hj
    obtain ⟨rfl, hevent, -⟩ := hfirst before after d j o' heq
    cases hevent
    simpa [memoized?, hcaches hj] using hmiss
  · intro before after d j v heq hj
    obtain ⟨-, hevent, rfl⟩ := hfirst before after d j (.ok v) heq
    cases hevent
    exact ⟨[], Ensures.keepEvents_ok (hcaches hj) depth i v⟩

/-- What a cacheable function has answered is in the memo when a function is run later. -/
theorem isSome_find?_of_answered (h : RunsOnce P m t) {before later after : Trace}
    {j k : Invocation} {d d' : Nat} {v : Value} {o : Except Violation Value}
    (ht : t = before ++ .native d j (.ok v) :: (later ++ .native d' k o :: after))
    (hj : P.Caches j.function) :
    ((m.after (before ++ .native d j (.ok v) :: later)).find? j).isSome := by
  obtain ⟨rest, hkeep⟩ := h.kept before (later ++ .native d' k o :: after) d j v ht hj
  cases later with
  | nil => cases hkeep
  | cons e later =>
    obtain ⟨rfl, -⟩ := List.cons.inj hkeep
    rw [Memo.after_append]
    refine Memo.isSome_find?_after (m := (m.after before).insert j v) ?_ later
    rw [Memo.find?_insert, if_pos rfl]
    rfl

/-- A cacheable function that has answered on some arguments is not run on them again. -/
theorem not_runsAgain (h : RunsOnce P m t) {j : Invocation} (hj : P.Caches j.function) :
    ¬ t.RunsAgain j := by
  rintro ⟨d, d', v, o, hsublist⟩
  obtain ⟨first, second, rfl, hmem, hlater⟩ := List.cons_sublist_iff.mp hsublist
  obtain ⟨before, between, rfl⟩ := List.mem_iff_append.mp hmem
  obtain ⟨between', after, rfl⟩ := List.mem_iff_append.mp (List.singleton_sublist.mp hlater)
  have hsplit : before ++ .native d j (.ok v) :: between ++ (between' ++ .native d' j o :: after) =
      before ++ .native d j (.ok v) :: ((between ++ between') ++ .native d' j o :: after) := by simp
  have hfound := h.isSome_find?_of_answered hsplit hj
  have hmissing := h.missing (before ++ .native d j (.ok v) :: (between ++ between')) after d' j o
    (by simp) hj
  rw [hmissing] at hfound
  cases hfound

end Trace.RunsOnce

/-- No evaluation runs a cacheable function again on arguments that it has answered. -/
theorem evaluate_runsOnce {P : Program σ} (levels depth : Nat) (i : Invocation) (m : Memo) :
    Ensures m (evaluate P levels depth i) fun _ t => Trace.RunsOnce P m t := by
  have hnil : ∀ m, Trace.RunsOnce P m [] :=
    fun m => .of_isNative_eq_false (List.forall_mem_nil _)
  induction levels generalizing depth i m with
  | zero => exact .evaluate_zero (.of_isNative_eq_false (List.forall_mem_singleton.mpr rfl))
  | succ levels ih =>
    refine .step (fun _ => hnil m) (fun _ _ _ _ _ => hnil m) (fun _ _ _ => hnil m) ?_
    intro f hf _ hmiss
    cases hbody : f.body with
    | native run => exact .runBody_native hbody fun host => .native hf hmiss depth _
    | lines lines =>
      refine (Ensures.runBody_lines_propagates Trace.RunsOnce.propagates ⟨rfl, rfl⟩
        (fun _ => ⟨rfl, rfl⟩) hbody trivial ?_).mono fun o t ht => ht.append ?_
      · exact Ensures.runLines_propagates Trace.RunsOnce.propagates (fun _ _ _ => ⟨rfl, rfl⟩)
          (fun _ _ => ⟨rfl, rfl⟩) (fun m j _ => ih (depth + 1) j m) trivial f i.function lines 0 _
          none
      · exact .of_isNative_eq_false (Ensures.forall_mem_keepEvents fun _ _ _ => rfl)

/-! ## Functions that are not memoized -/

/-- Whether an invocation is one of an uncacheable host function, with as many arguments as it
takes. -/
def Invocation.IsVolatile (i : Invocation) (P : Program σ) : Prop :=
  ∃ f, P.function? i.function = some f ∧ f.isNative = true ∧ f.isUncacheable = true ∧
    f.arity = i.arguments.length

/-- Every line that calls an uncacheable host function within a depth limit is followed by its
run. -/
def Program.Attends (P : Program σ) (maxDepth : Nat) (t : Trace) : Prop :=
  ∀ before e after j, t = before ++ e :: after → j ∈ P.callsAt e → j.IsVolatile P →
    e.depth < maxDepth → ∃ o rest, after = .native (e.depth + 1) j o :: rest

namespace Program

variable {P : Program σ} {maxDepth : Nat} {t u : Trace} {e : Event}

/-- Events that make no calls have nothing to attend to. -/
theorem attends_of_callsAt_eq_nil (h : ∀ e ∈ t, P.callsAt e = []) : P.Attends maxDepth t := by
  rintro before e after j rfl hj
  rw [h e (List.mem_append_right _ List.mem_cons_self)] at hj
  cases hj

theorem Attends.append (ht : P.Attends maxDepth t) (hu : P.Attends maxDepth u) :
    P.Attends maxDepth (t ++ u) := by
  intro before e after j heq hj hvolatile hdepth
  rcases Trace.append_eq_append_cons heq with ⟨rest, hfirst, rfl⟩ | ⟨rest, rfl, hsecond⟩
  · obtain ⟨o, later, rfl⟩ := ht before e rest j hfirst hj hvolatile hdepth
    exact ⟨o, later ++ u, rfl⟩
  · exact hu rest e after j hsecond hj hvolatile hdepth

theorem Attends.cons (ht : P.Attends maxDepth t)
    (he : ∀ j ∈ P.callsAt e, j.IsVolatile P → e.depth < maxDepth →
      ∃ o rest, t = .native (e.depth + 1) j o :: rest) : P.Attends maxDepth (e :: t) := by
  intro before e' after j heq
  cases before with
  | nil =>
    rw [List.nil_append, List.cons.injEq] at heq
    obtain ⟨rfl, rfl⟩ := heq
    exact he j
  | cons first before =>
    rw [List.cons_append, List.cons.injEq] at heq
    exact ht before e' after j heq.2

section Lines

variable {f : Function σ} {sub : Invocation → Eval σ Value} {depth : Nat}

/-- What the events of a line's call have to show: that calls below are attended to, and that they
begin with the run if the call is one of an uncacheable host function. -/
def CallAttends (P : Program σ) (maxDepth depth : Nat) (calls : List Invocation) (t : Trace) :
    Prop :=
  P.Attends maxDepth t ∧ ∀ j ∈ calls, j.IsVolatile P → depth < maxDepth →
    ∃ o rest, t = .native (depth + 1) j o :: rest

/-- What comes after the call of a line changes nothing about how the events of the call begin. -/
theorem CallAttends.line_append (ht : P.CallAttends maxDepth e.depth (P.callsAt e) t)
    (hu : P.Attends maxDepth u) : P.Attends maxDepth (e :: (t ++ u)) := by
  refine (ht.1.append hu).cons fun j hj hvolatile hdepth => ?_
  obtain ⟨o, later, rfl⟩ := ht.2 j hj hvolatile hdepth
  exact ⟨o, later ++ u, rfl⟩

theorem callLine_attends
    (hsub : ∀ m j, Ensures m (sub j) fun _ t => P.CallAttends maxDepth depth [j] t) (m : Memo)
    (frame : Frame) (callee : FunctionId) (arguments : List ReferenceId) :
    Ensures m (callLine P f sub frame callee arguments) fun _ t =>
      P.CallAttends maxDepth depth (P.invoked f frame callee arguments) t := by
  have hnil : P.CallAttends maxDepth depth [] [] :=
    ⟨attends_of_callsAt_eq_nil (List.forall_mem_nil _), List.forall_mem_nil _⟩
  rw [invoked]
  refine .callLine ?_ ?_ ?_
  · intro e hread
    rw [hread]
    exact hnil
  · intro values v hread hfind
    simpa only [hread, hfind] using hnil
  · intro values hread hfind
    simpa only [hread, hfind] using hsub m ⟨callee, values⟩

/-- Lines of the body of a function, by induction on the lines that are left. -/
theorem runLines_attends
    (hsub : ∀ m j, Ensures m (sub j) fun _ t => P.CallAttends maxDepth depth [j] t)
    {id : FunctionId} (hf : P.function? id = some f) {body : List Line}
    (hbody : f.body = .lines body) (lines : List Line) (n : Nat) (hlines : body.drop n = lines)
    (m : Memo) (frame : Frame) (last : Option Value) :
    Ensures m (runLines P f id depth sub lines n frame last) fun _ t => P.Attends maxDepth t := by
  have hnil : P.Attends maxDepth [] := attends_of_callsAt_eq_nil (List.forall_mem_nil _)
  induction lines generalizing n m frame last with
  | nil => exact .runLines_nil (fun _ _ => hnil) fun _ => hnil
  | cons line rest ih =>
    obtain ⟨hline, hrest⟩ := Line.of_drop_eq_cons hlines
    cases line with
    | assign target callee arguments =>
      have hcall := callLine_attends (f := f) hsub m frame callee arguments
      rw [← show P.callsAt (.line depth id n frame) = P.invoked f frame callee arguments from
        callsAt_line hf hbody hline depth frame] at hcall
      refine .runLines_assign hcall ?_ ?_
      · intro v t ht
        exact (ih (n + 1) hrest _ _ _).mono fun o u hu => ht.line_append hu
      · intro e t ht
        simpa using ht.line_append hnil
    | returnIf target gate arguments =>
      have hcall := callLine_attends (f := f) hsub m frame gate arguments
      rw [← show P.callsAt (.line depth id n frame) = P.invoked f frame gate arguments from
        callsAt_line hf hbody hline depth frame] at hcall
      have hverdict : ∀ v, P.Attends maxDepth [.verdict depth gate v] :=
        fun v => attends_of_callsAt_eq_nil (List.forall_mem_singleton.mpr rfl)
      refine .runLines_returnIf hcall ?_ ?_ ?_ ?_ ?_
      · intro e t ht
        simpa using ht.line_append hnil
      · exact fun v t ht _ => ht.line_append (hverdict v)
      · exact fun v t e ht _ _ => ht.line_append (hverdict v)
      · exact fun v t ht _ _ => ht.line_append (hverdict v)
      · intro v t ht _ _
        refine (ih (n + 1) hrest _ _ _).mono fun o u hu => ?_
        exact ht.line_append ((hverdict v).append hu)
    | ret target =>
      refine .runLines_ret (attends_of_callsAt_eq_nil (List.forall_mem_singleton.mpr ?_))
      exact callsAt_line hf hbody hline depth frame

/-- A body, with what is kept of it. An uncacheable host function leaves nothing but its run. -/
theorem runBody_attends
    (hsub : ∀ m j, Ensures m (sub j) fun _ t => P.CallAttends maxDepth depth [j] t)
    {i : Invocation} (hf : P.function? i.function = some f) (m : Memo) :
    Ensures m (runBody P depth sub f i) fun o t =>
      P.Attends maxDepth (t ++ Ensures.keepEvents f depth i o) ∧
        (i.IsVolatile P → ∃ o', o = Failure.ofViolation o' ∧
          t ++ Ensures.keepEvents f depth i o = [.native depth i o']) := by
  have hsingle : ∀ e : Event, P.callsAt e = [] → P.Attends maxDepth [e] :=
    fun e he => attends_of_callsAt_eq_nil (List.forall_mem_singleton.mpr he)
  have hkeep : ∀ o, P.Attends maxDepth (Ensures.keepEvents f depth i o) := fun o =>
    attends_of_callsAt_eq_nil (Ensures.forall_mem_keepEvents fun _ _ _ => rfl)
  cases hbody : f.body with
  | native run =>
    refine .runBody_native hbody fun host => ⟨(hsingle _ rfl).append (hkeep _), ?_⟩
    rintro ⟨g, hg, -, huncacheable, -⟩
    obtain rfl := Option.some.inj (hf.symm.trans hg)
    refine ⟨(run i.arguments host).1, rfl, ?_⟩
    cases (run i.arguments host).1 <;> simp [Failure.ofViolation, Ensures.keepEvents, huncacheable]
  | lines lines =>
    have hnot : ¬ i.IsVolatile P := by
      rintro ⟨g, hg, hnative, -⟩
      obtain rfl := Option.some.inj (hf.symm.trans hg)
      rw [Function.isNative, hbody] at hnative
      cases hnative
    refine .runBody_lines hbody (runLines_attends hsub hf hbody lines 0 lines.drop_zero m _ _) ?_ ?_
    · intro v t ht
      refine ⟨.append ?_ (hkeep _), fun hvolatile => absurd hvolatile hnot⟩
      exact (hsingle (.enter depth i) rfl).append (ht.append (hsingle (.leave depth i v) rfl))
    · intro e t ht
      refine ⟨.append ?_ (hkeep _), fun hvolatile => absurd hvolatile hnot⟩
      exact (hsingle (.enter depth i) rfl).append ht

end Lines

/-- A volatile invocation is found, is not answered from the memo and is not refused. -/
theorem evaluate_attends (levels depth : Nat) (hlevels : depth + levels = maxDepth + 1)
    (i : Invocation) (m : Memo) : Ensures m (evaluate P levels depth i) fun o t =>
      P.Attends maxDepth t ∧ (i.IsVolatile P → depth ≤ maxDepth →
        ∃ o', o = Failure.ofViolation o' ∧ t = [Event.native depth i o']) := by
  have hnil : P.Attends maxDepth [] := attends_of_callsAt_eq_nil (List.forall_mem_nil _)
  induction levels generalizing depth i m with
  | zero =>
    refine .evaluate_zero ⟨attends_of_callsAt_eq_nil (List.forall_mem_singleton.mpr rfl), ?_⟩
    intro _ hdepth
    omega
  | succ levels ih =>
    have hsub : ∀ m j, Ensures m (evaluate P levels (depth + 1) j) fun _ t =>
        P.CallAttends maxDepth depth [j] t := by
      intro m j
      refine (ih (depth + 1) (by omega) j m).mono fun _ t ht => ⟨ht.1, ?_⟩
      refine List.forall_mem_singleton.mpr fun hvolatile hdepth => ?_
      obtain ⟨o, -, rfl⟩ := ht.2 hvolatile hdepth
      exact ⟨o, [], rfl⟩
    refine .step ?_ ?_ ?_ ?_
    · refine fun hf => ⟨hnil, ?_⟩
      rintro ⟨f, hf', -⟩
      cases hf.symm.trans hf'
    · refine fun f v hf hcacheable _ => ⟨hnil, ?_⟩
      rintro ⟨g, hg, -, huncacheable, -⟩
      obtain rfl := Option.some.inj (hf.symm.trans hg)
      cases hcacheable.symm.trans huncacheable
    · refine fun f hf hi => ⟨hnil, ?_⟩
      rintro ⟨g, hg, -, -, harity⟩
      rw [Invocation.isValid_of_function? hg, decide_eq_false_iff_not] at hi
      exact absurd harity hi
    · intro f hf _ _
      exact (runBody_attends hsub hf m).mono fun o t ht => ⟨ht.1, fun hvolatile _ => ht.2 hvolatile⟩

end Program

/-! ## Calls of a context -/

/-- A line that makes a call is reached without the host. -/
theorem Program.hostRecord_of_callsAt {P : Program σ} {e : Event} {j : Invocation}
    (hj : j ∈ P.callsAt e) (host : σ) : P.hostRecord host e = host := by
  cases e with
  | line => rfl
  | cutOff | enter | verdict | leave | native | keep => cases hj

/-- The run that follows a line's call has the outcome that its function gives in the state that the
runs before the line led to. -/
theorem Program.Attends.replayed {P : Program σ} {maxDepth : Nat} {t : Trace} {host : σ}
    (h : P.Attends maxDepth t) (ht : P.Replays host t) {j : Invocation} (hj : j.IsVolatile P)
    {run : Native σ} (hrun : P.native? j.function = some run) {before after : Trace} {e : Event}
    (heq : t = before ++ e :: after) (he : j ∈ P.callsAt e) (hdepth : e.depth < maxDepth) :
    ∃ rest, after =
      .native (e.depth + 1) j (run j.arguments (P.hostAfter host before)).1 :: rest := by
  obtain ⟨o, rest, rfl⟩ := h before e after j heq he hj hdepth
  have hsplit : t = (before ++ [e]) ++ .native (e.depth + 1) j o :: rest := by
    rw [heq, List.append_assoc, List.singleton_append]
  have ho := ht.outcome_eq hrun hsplit
  rw [hostAfter_append, hostAfter_cons, hostAfter_nil, hostRecord_of_callsAt he] at ho
  exact ⟨rest, by rw [ho]⟩

namespace Context

/-- At no time in a call, after any calls before it, does the memo have a result of an uncacheable
function. -/
theorem find?_after_of_isUncacheable {P : Program σ} {maxDepth : Nat}
    {calls : List (σ × Invocation)} {host : σ} {i j : Invocation} {f : Function σ}
    (hf : P.function? j.function = some f) (hf' : f.isUncacheable = true) {t : Trace}
    (ht : t <+: (((fresh P maxDepth).after calls).run host i).trace) :
    (((fresh P maxDepth).after calls).memo.after t).find? j = none := by
  let c := (fresh P maxDepth).after calls
  have hprogram : c.program = P := after_program _ calls
  have hkeeps : ∀ e ∈ (c.run host i).trace, e.Keeps fun i _ => i.IsMemoizable c.program :=
    (run_of_ensures (Ensures.evaluate_keeps (fun _ _ hi => hi) (c.maxDepth + 1) 0 i
      fun j v hv => by rw [hprogram]; exact isMemoizable_of_cached hv) host).1
  rw [hprogram] at hkeeps
  have hall : (c.memo.after t).All fun i _ => i.IsMemoizable P :=
    Memo.All.after (fun j v hv => isMemoizable_of_cached hv) fun e he => hkeeps e (ht.subset he)
  refine Option.eq_none_iff_forall_ne_some.mpr fun v hv => ?_
  obtain ⟨g, hg, hcacheable, -⟩ := hall j v hv
  obtain rfl := Option.some.inj (hf.symm.trans hg)
  cases hcacheable.symm.trans hf'

/-- A run in a call is one of a function of the host with as many arguments as it takes, it has the
outcome that its function gives in the state that the runs before it led to, and it is the run of
the call itself or is given no error. -/
theorem run_performs (c : Context σ) (host : σ) (i : Invocation) {before after : Trace} {d : Nat}
    {j : Invocation} {o : Except Violation Value}
    (heq : (c.run host i).trace = before ++ .native d j o :: after) :
    (∃ f run, c.program.function? j.function = some f ∧ f.body = .native run ∧
      f.arity = j.arguments.length ∧
      o = (run j.arguments (c.program.hostAfter host before)).1) ∧
    (d = 0 ∧ j = i ∨ 0 < d ∧ ∀ v ∈ j.arguments, v.isError = false) := by
  have hhostRun : ∀ e ∈ (c.run host i).trace, e.HostRun c.program 0 i :=
    (run_of_ensures (evaluate_hostRun (c.maxDepth + 1) 0 i c.memo) host).1
  have hmem : .native d j o ∈ (c.run host i).trace := by
    rw [heq]
    exact List.mem_append_right _ List.mem_cons_self
  obtain ⟨⟨f, hf, -, harity⟩, hgiven⟩ := hhostRun _ hmem
  obtain ⟨run, hnative, ho⟩ := (c.run_replays host i).1.performs heq
  obtain ⟨f', hf', hbody⟩ := Program.body_of_native? hnative
  obtain rfl := Option.some.inj (hf.symm.trans hf')
  exact ⟨⟨f, run, hf, hbody, harity, ho⟩, hgiven⟩

/-- In no calls of a new context is a cacheable function run again on arguments it has answered. -/
theorem history_runsOnce (P : Program σ) (maxDepth : Nat) (calls : List (σ × Invocation)) :
    Trace.RunsOnce P Memo.empty ((fresh P maxDepth).history calls) :=
  history_of_ensures (c := fresh P maxDepth)
    (fun _ => .of_isNative_eq_false (List.forall_mem_nil _)) (fun _ _ _ ht hu => ht.append hu)
    fun m i => evaluate_runsOnce (maxDepth + 1) 0 i m

/-- In a call, the run of an uncacheable function is what follows where a line calls it within the
depth limit. If the call itself is of such a function, nothing else happens. -/
theorem run_attends (c : Context σ) (host : σ) (i : Invocation) :
    c.program.Attends c.maxDepth (c.run host i).trace ∧ (i.IsVolatile c.program →
      ∃ o, (c.run host i).outcome = Failure.ofViolation o ∧
        (c.run host i).trace = [.native 0 i o]) := by
  have hattends := (run_of_ensures
    (Program.evaluate_attends (c.maxDepth + 1) 0 (Nat.zero_add _) i c.memo) host).1
  exact ⟨hattends.1, fun hi => hattends.2 hi (Nat.zero_le _)⟩

/-- A call of an uncacheable function of the host is one run of it, in the state of the host. -/
theorem run_of_isVolatile (c : Context σ) (host : σ) {i : Invocation}
    (hi : i.IsVolatile c.program) {run : Native σ}
    (hrun : c.program.native? i.function = some run) :
    (c.run host i).outcome = Failure.ofViolation (run i.arguments host).1 ∧
      (c.run host i).trace = [.native 0 i (run i.arguments host).1] ∧
      (c.run host i).host = (run i.arguments host).2 := by
  obtain ⟨o, houtcome, htrace⟩ := (c.run_attends host i).2 hi
  obtain ⟨hreplays, hhost⟩ := c.run_replays host i
  have hsplit : (c.run host i).trace = [] ++ .native 0 i o :: [] := htrace
  have ho := hreplays.outcome_eq hrun hsplit
  rw [Program.hostAfter_nil] at ho
  rw [hhost, houtcome, htrace, ho]
  exact ⟨rfl, rfl, Program.hostRecord_native hrun host 0 (run i.arguments host).1⟩

/-- What host functions can rely on, whatever they do and whatever was called before. The host is
left as the runs in the trace leave it, each applied in the state that the runs before it led to,
and each run has the outcome that its function gives there. A run is given as many arguments as its
function takes, and it is the run of the call itself or is given no error. A cacheable function that
has answered on some arguments is not run on them again, in this call or any other. An uncacheable
one never has a result in the memo, and wherever it is called within the depth limit, by the host or
by a line, its run is what happens next. -/
theorem run_honors_natives (P : Program σ) (maxDepth : Nat) (calls : List (σ × Invocation))
    (host : σ) (i : Invocation) :
    let c := (fresh P maxDepth).after calls
    let r := c.run host i
    r.host = P.hostAfter host r.trace ∧
    (∀ before d j o after, r.trace = before ++ .native d j o :: after →
      (∃ f run, P.function? j.function = some f ∧ f.body = .native run ∧
        f.arity = j.arguments.length ∧ o = (run j.arguments (P.hostAfter host before)).1) ∧
      (d = 0 ∧ j = i ∨ 0 < d ∧ ∀ v ∈ j.arguments, v.isError = false)) ∧
    (∀ j f, P.function? j.function = some f → f.isUncacheable = false →
      ¬ Trace.RunsAgain ((fresh P maxDepth).history (calls ++ [(host, i)])) j) ∧
    (∀ j f run, P.function? j.function = some f → f.body = .native run → f.isUncacheable = true →
      (∀ t, t <+: r.trace → (c.memo.after t).find? j = none) ∧ r.context.cached j = none ∧
      (f.arity = j.arguments.length →
        (i = j → r.outcome = Failure.ofViolation (run j.arguments host).1 ∧
          r.trace = [.native 0 j (run j.arguments host).1] ∧
          r.host = (run j.arguments host).2) ∧
        ∀ before e after, r.trace = before ++ e :: after → j ∈ P.callsAt e →
          e.depth < maxDepth → ∃ rest, after = .native (e.depth + 1) j
            (run j.arguments (P.hostAfter host before)).1 :: rest)) := by
  intro c r
  have hprogram : c.program = P := after_program _ calls
  have hmaxDepth : c.maxDepth = maxDepth := after_maxDepth _ calls
  obtain ⟨hreplays, hhost⟩ := c.run_replays host i
  rw [hprogram] at hreplays hhost
  refine ⟨hhost, fun before d j o after heq => ?_, fun j f hf hcacheable =>
    (history_runsOnce P maxDepth (calls ++ [(host, i)])).not_runsAgain ⟨f, hf, hcacheable⟩,
    fun j f run hf hbody huncacheable => ?_⟩
  · have hperforms := c.run_performs host i heq
    rwa [hprogram] at hperforms
  have hnone : ∀ t, t <+: r.trace → (c.memo.after t).find? j = none :=
    fun t ht => find?_after_of_isUncacheable hf huncacheable ht
  refine ⟨hnone, ?_, fun harity => ?_⟩
  · rw [cached, run_context]
    exact hnone r.trace (List.prefix_refl _)
  · have hvolatile : j.IsVolatile P :=
      ⟨f, hf, by rw [Function.isNative, hbody], huncacheable, harity⟩
    have hnative : P.native? j.function = some run := Program.native?_of_body hf hbody
    have hattends : P.Attends maxDepth r.trace := by
      rw [← hprogram, ← hmaxDepth]
      exact (c.run_attends host i).1
    refine ⟨?_, fun before e after heq hj => hattends.replayed hreplays hvolatile hnative heq hj⟩
    rintro rfl
    rw [← hprogram] at hvolatile hnative
    exact c.run_of_isVolatile host hvolatile hnative

end Context

end Rulebook

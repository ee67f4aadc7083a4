import Rulebook.Proofs.Eval.Provenance
import Rulebook.Proofs.Program.Edit

/-!
# Endless recursion

Functions whose bodies never return before their last line, and whose last lines call each other,
never find a result. What ends their calls is an error: the too-deep error at the depth limit, or
another one that turned up on the way. So all that such functions answer, and all that the memo has
of them, is errors (`Context.run_endless`).
-/

namespace Rulebook

open Eval

variable {σ : Type}

/-- Functions with lines, none of which returns, where the last line of each assigns what one of
these functions answers. -/
def Program.Endless (P : Program σ) (S : Set FunctionId) : Prop :=
  ∀ id ∈ S, ∃ f lines target callee arguments, P.function? id = some f ∧ f.body = .lines lines ∧
    (∀ line ∈ lines, line.isReturn = false) ∧
    lines.getLast? = some (.assign target callee arguments) ∧ callee ∈ S

/-- Whether an event is a run of a host function that answered an error. -/
def Event.answersError : Event → Bool
  | native _ _ (.ok v) => v.isError
  | _ => false

/-- A result of an invocation of one of some functions is an error. -/
def Invocation.ErrsFor (S : Set FunctionId) (i : Invocation) (v : Value) : Prop :=
  i.function ∈ S → v.isError = true

/-- What the memo was given of some functions is errors, and so is the outcome of a call if it was a
call of one of them. -/
structure Trace.ErrsFor (S : Set FunctionId) (id : FunctionId)
    (o : Except (Failure EvalError) Value) (t : Trace) : Prop where
  kept : ∀ e ∈ t, e.Keeps (Invocation.ErrsFor S)
  outcome : ∀ v, o = .ok v → id ∈ S → v.isError = true

namespace Trace.ErrsFor

variable {S : Set FunctionId} {id : FunctionId}

theorem error (x : Failure EvalError) : ErrsFor S id (.error x) [] := ⟨List.forall_mem_nil _, nofun⟩

theorem ok {v : Value} (h : id ∈ S → v.isError = true) : ErrsFor S id (.ok v) [] :=
  ⟨List.forall_mem_nil _, fun _ hw => Except.ok.inj hw ▸ h⟩

end Trace.ErrsFor

section Evaluator

variable {P : Program σ} {S : Set FunctionId} {sub : Invocation → Eval σ Value} {depth : Nat}
variable {f : Function σ} {m : Memo}

section Calls

-- what calls one level deeper answer and keep
variable (hsub : ∀ m j, m.All (Invocation.ErrsFor S) →
  Ensures m (sub j) (Trace.ErrsFor S j.function))

include hsub

/-- The call of a function of the set answers an error, from the memo or from below. -/
theorem callLine_endless (hm : m.All (Invocation.ErrsFor S)) (frame : Frame) (callee : FunctionId)
    (arguments : List ReferenceId) :
    Ensures m (callLine P f sub frame callee arguments) (Trace.ErrsFor S callee) := by
  refine .callLine (fun e _ => .error e) (fun values v _ hfind => .ok fun _ => ?_)
    fun values _ _ => hsub m ⟨callee, values⟩ hm
  -- an error argument stands in for the result of the call
  exact List.find?_some hfind

/-- Lines that never return end with the answer of the last, by induction on the lines that are
left. -/
theorem runLines_endless (hm : m.All (Invocation.ErrsFor S)) {id : FunctionId} {lines : List Line}
    (hlines : ∀ line ∈ lines, line.isReturn = false) {target : ReferenceId} {callee : FunctionId}
    {arguments : List ReferenceId} (hlast : lines.getLast? = some (.assign target callee arguments))
    (hcallee : callee ∈ S) (n : Nat) (frame : Frame) (last : Option Value) :
    Ensures m (runLines P f id depth sub lines n frame last) fun o _ =>
      ∀ v, o = .ok v → v.isError = true := by
  induction lines generalizing m n frame last with
  | nil => cases hlast
  | cons line rest ih =>
    obtain ⟨hline, hrest⟩ := List.forall_mem_cons.mp hlines
    cases line with
    | returnIf | ret => cases hline
    | assign target' callee' arguments' =>
      refine .runLines_assign (callLine_endless hsub hm frame callee' arguments') ?_
        fun e _ _ => nofun
      intro v t ht
      cases rest with
      | nil =>
        obtain ⟨rfl, rfl, rfl⟩ := Line.assign.inj (Option.some.inj hlast)
        refine .runLines_nil (fun w hw u hu => ?_) fun _ => nofun
        have hvu : v = u := (Option.some.inj hw).trans (Except.ok.inj hu)
        rw [← hvu]
        exact ht.outcome v rfl hcallee
      | cons next rest =>
        rw [List.getLast?_cons_cons] at hlast
        exact ih (hm.after ht.kept) hrest hlast _ _ _

/-- A body whose function is in the set answers an error. -/
theorem runBody_endless (hS : P.Endless S) (hm : m.All (Invocation.ErrsFor S)) {i : Invocation}
    (hf : P.function? i.function = some f) :
    Ensures m (runBody P depth sub f i) (Trace.ErrsFor S i.function) := by
  have hown : Ensures.Propagates (fun e => e.isKeep = false) (Memo.All (Invocation.ErrsFor S))
      fun _ t => ∀ e ∈ t, e.Keeps (Invocation.ErrsFor S) :=
    Ensures.propagates_forall (fun e he => ⟨he, Event.keeps_of_isKeep_eq_false he⟩)
      fun _ _ hm ht => hm.after ht
  have hkept : Ensures m (runBody P depth sub f i) fun _ t =>
      ∀ e ∈ t, e.Keeps (Invocation.ErrsFor S) :=
    Ensures.runBody_propagates hown (fun _ _ he => he)
      (fun m j hm => (hsub m j hm).mono fun _ _ h => h.kept) hm f i
  by_cases hi : i.function ∈ S
  · obtain ⟨g, lines, target, callee, arguments, hg, hbody, hlines, hlast, hcallee⟩ := hS _ hi
    obtain rfl := Option.some.inj (hf.symm.trans hg)
    have houtcome : Ensures m (runBody P depth sub f i) fun o _ =>
        ∀ v, o = .ok v → v.isError = true :=
      .runBody_lines hbody (runLines_endless hsub hm hlines hlast hcallee 0 _ none)
        (fun _ _ h => h) fun _ _ _ => nofun
    exact (hkept.and houtcome).mono fun _ _ h => ⟨h.1, fun v hv _ => h.2 v hv⟩
  · exact hkept.mono fun _ _ h => ⟨h, fun _ _ hmem => absurd hmem hi⟩

end Calls

/-- By induction on the levels that are left: at the limit the answer is an error, and a memo with
nothing but errors of endless functions is given nothing else. -/
theorem evaluate_endless (hS : P.Endless S) (levels depth : Nat) (i : Invocation)
    (hm : m.All (Invocation.ErrsFor S)) :
    Ensures m (evaluate P levels depth i) (Trace.ErrsFor S i.function) := by
  induction levels generalizing depth i m with
  | zero =>
    refine .evaluate_zero ⟨List.forall_mem_singleton.mpr trivial, fun v hv _ => ?_⟩
    obtain rfl := Except.ok.inj hv
    rfl
  | succ levels ih =>
    refine .step (fun _ => .error _) (fun _ v _ _ hfound => .ok (hm i v hfound))
      (fun _ _ _ => .error _) fun f hf _ _ => ?_
    refine (runBody_endless (fun m j hm => ih (depth + 1) j hm) hS hm hf).mono fun o t ht => ?_
    have hown : ∀ e ∈ Ensures.keepEvents f depth i o, e.Keeps (Invocation.ErrsFor S) :=
      Ensures.forall_mem_keepEvents fun v hv _ => ht.outcome v hv
    exact ⟨List.forall_mem_append.mpr ⟨ht.kept, hown⟩, ht.outcome⟩

end Evaluator

/-! ## Calls of a context -/

namespace Context

/-- Every answer of a call of an endless function is an error, whatever the functions of the host do
and whatever was called before. If in all calls so far no function of the host answered an error and
no call was given one, it is the too-deep error. -/
theorem run_endless (P : Program σ) (S : Set FunctionId) (hS : P.Endless S) (maxDepth : Nat)
    (calls : List (σ × Invocation)) (host : σ) (i : Invocation) (hi : i.function ∈ S) :
    let c := (fresh P maxDepth).after calls
    ∀ v, (c.run host i).outcome = .ok v → v.isError = true ∧
      ((∀ e ∈ (fresh P maxDepth).history (calls ++ [(host, i)]), e.answersError = false) →
      (∀ call ∈ calls ++ [(host, i)], ∀ w ∈ call.2.arguments, w.isError = false) →
      v = .error "TOO DEEP") := by
  intro c v hv
  have hprogram : c.program = P := after_program _ calls
  have hmemo : c.memo.All (Invocation.ErrsFor S) :=
    after_memo .empty fun m j hm _ =>
      (evaluate_endless hS (maxDepth + 1) 0 j hm).mono fun _ _ ht => hm.after ht.kept
  have hendless : Trace.ErrsFor S i.function (c.run host i).outcome (c.run host i).trace :=
    (run_of_ensures (evaluate_endless (hprogram ▸ hS) (c.maxDepth + 1) 0 i hmemo) host).1
  have herror : v.isError = true := hendless.outcome v hv hi
  refine ⟨herror, fun hnatives harguments => ?_⟩
  rcases run_error_source hv herror with htooDeep | ⟨call, hcall, hmem⟩ | ⟨d, j, hmem⟩
  · exact htooDeep
  · cases herror.symm.trans (harguments call hcall v hmem)
  · cases herror.symm.trans (hnatives _ hmem)

end Context

/-! ## Two functions that call each other

`ping(a)` is `b = not(a)`, `c = pong(b)`, and `pong(a)` is `b = ping(a)`. -/

namespace PingPong

open Settle (references signature)

/-- The body of `ping`. -/
def pingLines : List Line := [.assign ⟨2⟩ ⟨0⟩ [⟨1⟩], .assign ⟨3⟩ ⟨2⟩ [⟨2⟩]]

/-- The body of `pong`. -/
def pongLines : List Line := [.assign ⟨2⟩ ⟨1⟩ [⟨1⟩]]

/-- The program with given lines for `ping` and `pong`. -/
def programWith (ping pong : List Line) : Program σ :=
  ⟨references.toArray, #[⟨"not", signature, .native (.ofPure Library.negation), false⟩,
    ⟨"ping", signature, .lines ping, false⟩, ⟨"pong", signature, .lines pong, false⟩]⟩

/-- The edits that declare the functions. -/
def declarations : List (Edit σ) :=
  references.map .addReference ++
    [.defineNative "not" signature (.ofPure Library.negation), .declare "ping" signature,
      .declare "pong" signature]

/-- The edits that build the program. -/
def edits : List (Edit σ) := declarations ++ [.setBody ⟨1⟩ pingLines] ++ [.setBody ⟨2⟩ pongLines]

/-- The program. -/
def program : Program σ := programWith pingLines pongLines

theorem ofEdits_declarations :
    Program.ofEdits (declarations : List (Edit σ)) = programWith [] [] := rfl

/-- The body of `ping` is accepted first, while `pong` has none. -/
theorem setBody_ping :
    (Edit.setBody ⟨1⟩ pingLines).apply (programWith [] [] : Program σ) =
      programWith pingLines [] := by
  rw [Edit.apply, Edit.build,
    Edit.setBody_eq (f := ⟨"ping", signature, .lines [], false⟩) pingLines rfl rfl]
  rfl

theorem setBody_pong :
    (Edit.setBody ⟨2⟩ pongLines).apply (programWith pingLines [] : Program σ) = program := by
  rw [Edit.apply, Edit.build,
    Edit.setBody_eq (f := ⟨"pong", signature, .lines [], false⟩) pongLines rfl rfl]
  rfl

theorem ofEdits_edits : Program.ofEdits (edits : List (Edit σ)) = program := by
  rw [edits, Program.ofEdits_append_singleton, Program.ofEdits_append_singleton,
    ofEdits_declarations, setBody_ping, setBody_pong]

/-- Each of the two functions ends with a call of the other. -/
theorem program_endless : (program : Program σ).Endless {⟨1⟩, ⟨2⟩} := by
  rintro id (rfl | rfl)
  · exact ⟨_, pingLines, ⟨3⟩, ⟨2⟩, [⟨2⟩], rfl, rfl, by decide, rfl, .inr rfl⟩
  · exact ⟨_, pongLines, ⟨2⟩, ⟨1⟩, [⟨1⟩], rfl, rfl, by decide, rfl, .inl rfl⟩

/-- After a call of `pong`, a call of `ping` answers the too-deep error. Neither was given an error,
and `not` answered none. -/
theorem run_ping_tooDeep :
    let P := Program.ofEdits (edits : List (Edit Unit))
    let call : Unit × Invocation := ((), ⟨⟨2⟩, [.bool true]⟩)
    let r := ((Context.fresh P 3).after [call]).run () ⟨⟨1⟩, [.bool false]⟩
    P.Endless {⟨1⟩, ⟨2⟩} ∧
    (∀ e ∈ (Context.fresh P 3).history ([call] ++ [((), ⟨⟨1⟩, [.bool false]⟩)]),
      e.answersError = false) ∧
    ∃ v, r.outcome = .ok v ∧ v.isError = true ∧ v = .error "TOO DEEP" := by
  intro P call r
  have hP : P = program := ofEdits_edits
  have hS : P.Endless {⟨1⟩, ⟨2⟩} := hP ▸ program_endless
  have hrun : r.outcome = .ok .tooDeep := by
    show (((Context.fresh P 3).after [call]).run () ⟨⟨1⟩, [.bool false]⟩).outcome = _
    rw [hP]
    rfl
  have hanswers : ∀ e ∈ (Context.fresh P 3).history ([call] ++ [((), ⟨⟨1⟩, [.bool false]⟩)]),
      e.answersError = false := by
    rw [hP]
    decide
  obtain ⟨herror, htooDeep⟩ := Context.run_endless P {⟨1⟩, ⟨2⟩} hS 3 [call] ()
    ⟨⟨1⟩, [.bool false]⟩ (.inl rfl) _ hrun
  exact ⟨hS, hanswers, _, hrun, herror, htooDeep hanswers (by decide)⟩

end PingPong

end Rulebook

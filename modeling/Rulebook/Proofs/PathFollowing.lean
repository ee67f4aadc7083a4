import Mathlib
import Rulebook.Proofs.Eval.Counting
import Rulebook.Proofs.Library.Typing

/-!
# Following a path

A rule that calls itself: a vehicle can follow a path if it can pass from each position to the next
one. The body looks at the first two positions and calls itself on the rest, so the length of a path
is limited by the depth limit, and what `pass` has answered is not asked again
(`PathFollowing.run_canFollow`).
-/

namespace Rulebook.PathFollowing

open Eval Library

variable {σ : Type}

/-! ## The program -/

/-- The functions of the program. -/
structure Ids where
  pass : FunctionId
  canFollow : FunctionId

/-- Builds the rule over the library, with a function of the host for single steps:

    canfollow(vehicle, path):
      return true if shorterthan(path, 2)
      from = element(1, path)
      to = element(2, path)
      ok = pass(vehicle, from, to)
      rest = skip(path, 1)
      restok = canfollow(vehicle, rest)
      result = and(ok, restok)
-/
def rules (pass : Native σ) : Build σ Ids := do
  let lib ← registerStandard .position
  let result ← Build.addVariable "result" (.single .boolean)
  let vehicle ← Build.addVariable "vehicle" (.single .object)
  let source ← Build.addVariable "from" (.single .position)
  let target ← Build.addVariable "to" (.single .position)
  let pass ← Build.defineNative "pass" ⟨⟨result, "whether"⟩,
    [⟨vehicle, "can move from"⟩, ⟨source, "to"⟩, ⟨target, ""⟩]⟩ pass
  let result ← Build.addVariable "result" (.single .boolean)
  let vehicle ← Build.addVariable "vehicle" (.single .object)
  let path ← Build.addVariable "path" (.collection .position)
  let canFollow ← Build.declare "canfollow" ⟨⟨result, "whether"⟩,
    [⟨vehicle, "can follow"⟩, ⟨path, ""⟩]⟩
  let yes ← Build.addLiteral "true" (.single .boolean)
  let one ← Build.addLiteral "1" (.single .number)
  let two ← Build.addLiteral "2" (.single .number)
  let source ← Build.addVariable "from" (.single .position)
  let target ← Build.addVariable "to" (.single .position)
  let ok ← Build.addVariable "ok" (.single .boolean)
  let rest ← Build.addVariable "rest" (.collection .position)
  let restOk ← Build.addVariable "restok" (.single .boolean)
  Build.setBody canFollow [
    .returnIf yes lib.sequences.shorterThan [path, two],
    .assign source lib.sequences.element [one, path],
    .assign target lib.sequences.element [two, path],
    .assign ok pass [vehicle, source, target],
    .assign rest lib.sequences.skip [path, one],
    .assign restOk canFollow [vehicle, rest],
    .assign result lib.logic.and [ok, restOk]]
  return ⟨pass, canFollow⟩

/-- The references of the program: the slots of the library, of `pass` and of the rule, and the
literals and locals of the rule. -/
def references : List Reference :=
  (Entry.standard .position).flatMap (fun e => e.slots.map Parameter.slotReference) ++
  [.variableSlot "result" (.single .boolean), .variableSlot "vehicle" (.single .object),
    .variableSlot "from" (.single .position), .variableSlot "to" (.single .position),
    .variableSlot "result" (.single .boolean), .variableSlot "vehicle" (.single .object),
    .variableSlot "path" (.collection .position), .literal "true" (.single .boolean),
    .literal "1" (.single .number), .literal "2" (.single .number),
    .variableSlot "from" (.single .position), .variableSlot "to" (.single .position),
    .variableSlot "ok" (.single .boolean), .variableSlot "rest" (.collection .position),
    .variableSlot "restok" (.single .boolean)]

/-- The body of the rule. -/
def lines : List Line :=
  [.returnIf ⟨40⟩ ⟨8⟩ [⟨39⟩, ⟨42⟩], .assign ⟨43⟩ ⟨9⟩ [⟨41⟩, ⟨39⟩], .assign ⟨44⟩ ⟨9⟩ [⟨42⟩, ⟨39⟩],
    .assign ⟨45⟩ ⟨12⟩ [⟨38⟩, ⟨43⟩, ⟨44⟩], .assign ⟨46⟩ ⟨11⟩ [⟨39⟩, ⟨41⟩],
    .assign ⟨47⟩ ⟨13⟩ [⟨38⟩, ⟨46⟩], .assign ⟨37⟩ ⟨0⟩ [⟨45⟩, ⟨47⟩]]

/-- The function of single steps. -/
def passFunction (pass : Native σ) : Function σ :=
  ⟨"pass", ⟨⟨⟨33⟩, "whether"⟩, [⟨⟨34⟩, "can move from"⟩, ⟨⟨35⟩, "to"⟩, ⟨⟨36⟩, ""⟩]⟩,
    .native pass, false⟩

/-- The function of the rule. -/
def canFollow : Function σ :=
  ⟨"canfollow", ⟨⟨⟨37⟩, "whether"⟩, [⟨⟨38⟩, "can follow"⟩, ⟨⟨39⟩, ""⟩]⟩, .lines lines, false⟩

/-- The program that `rules` builds. -/
def program (pass : Native σ) : Program σ :=
  ⟨references.toArray, #[Entry.and.toFunction 0, Entry.or.toFunction 3, Entry.not.toFunction 6,
    Entry.add.toFunction 8, Entry.subtract.toFunction 11, Entry.lessThan.toFunction 14,
    Entry.equal.toFunction 17, (Entry.length .position).toFunction 20,
    (Entry.shorterThan .position).toFunction 22, (Entry.element .position).toFunction 25,
    (Entry.first .position).toFunction 28, (Entry.skip .position).toFunction 30,
    passFunction pass, canFollow]⟩

/-- The build succeeds and gives exactly this program. -/
theorem rules_apply (pass : Native σ) :
    rules pass .empty = .ok ⟨⟨12⟩, ⟨13⟩⟩ (program pass) := by
  cbv

/-! ## Paths -/

/-- A path as a value. -/
def pathOf (positions : List Value) : Value := ⟨.collection .position, .sequence positions⟩

/-- The steps of a path, from each position to the next one. -/
def steps (positions : List Value) : List (Value × Value) := positions.zip positions.tail

/-- The first step of a path goes from its first position to its second. -/
theorem steps_cons (a b : Value) (rest : List Value) :
    steps (a :: b :: rest) = (a, b) :: steps (b :: rest) := rfl

theorem steps_of_length_lt {positions : List Value} (h : positions.length < 2) :
    steps positions = [] := by
  match positions, h with
  | [], _ => rfl
  | [_], _ => rfl

theorem exists_of_not_short {positions : List Value} (h : ¬ positions.length < 2) :
    ∃ a b rest, positions = a :: b :: rest := by
  match positions with
  | [] | [_] => simp at h
  | a :: b :: rest => exact ⟨a, b, rest, rfl⟩

/-! ## What the functions of the host answer -/

section Answers

variable {pass : Native σ} {p : Value → Value → Value → Bool}

/-- A function of the library answers what its entry computes. -/
theorem answers_entry {e : Entry} {n : Nat} {i : Invocation} {v : Value}
    (hf : (program pass).function? i.function = some (e.toFunction n))
    (harity : (e.toFunction n : Function σ).arity = i.arguments.length)
    (happly : e.apply i.arguments = .ok v) : (program pass).Answers i v :=
  ⟨e.toFunction n, .ofPure e.apply, hf, rfl, rfl, harity, fun _ => happly⟩

/-- The gate asks whether the path has fewer than two positions. -/
theorem answers_shorterThan {positions : List Value} (h : (positions.length : Int) ≤ int64Max) :
    (program pass).Answers ⟨⟨8⟩, [pathOf positions, .int 2]⟩
      (.bool (decide (positions.length < 2))) := by
  apply answers_entry (e := Entry.shorterThan .position) (n := 22) rfl rfl
  have hlt : Int64.ofNat positions.length < 2 ↔ positions.length < 2 := by
    unfold int64Max at h
    rw [Int64.lt_iff_toInt_lt, Int64.toInt_ofNat_of_lt (by omega)]
    show (positions.length : Int) < 2 ↔ _
    omega
  show Except.ok (Value.bool (decide (Int64.ofNat positions.length < 2))) = _
  simp only [hlt]

/-- The first element of a path is where its first step begins. -/
theorem answers_element_one (a : Value) (rest : List Value) :
    (program pass).Answers ⟨⟨9⟩, [.int 1, pathOf (a :: rest)]⟩ a :=
  answers_entry (e := Entry.element .position) (n := 25) rfl rfl rfl

theorem answers_element_two (a b : Value) (rest : List Value) :
    (program pass).Answers ⟨⟨9⟩, [.int 2, pathOf (a :: b :: rest)]⟩ b :=
  answers_entry (e := Entry.element .position) (n := 25) rfl rfl rfl

/-- The rest of a path is the path without its first position. -/
theorem answers_skip {a : Value} {rest : List Value} (h : ∀ v ∈ rest, v.ty = .single .position) :
    (program pass).Answers ⟨⟨11⟩, [pathOf (a :: rest), .int 1]⟩ (pathOf rest) := by
  apply answers_entry (e := Entry.skip .position) (n := 30) rfl rfl
  exact sequence_eq_ok h

theorem answers_and (a b : Bool) :
    (program pass).Answers ⟨⟨0⟩, [.bool a, .bool b]⟩ (.bool (a && b)) := by
  apply answers_entry (e := Entry.and) (n := 0) rfl rfl
  cases a <;> rfl

/-- A `pass` that computes `p` answers it in every state of the host. -/
theorem answers_pass (hpass : ∀ v a b host, (pass [v, a, b] host).1 = .ok (.bool (p v a b)))
    (vehicle a b : Value) :
    (program pass).Answers ⟨⟨12⟩, [vehicle, a, b]⟩ (.bool (p vehicle a b)) :=
  ⟨passFunction pass, pass, rfl, rfl, rfl, rfl, hpass vehicle a b⟩

end Answers

/-! ## The body -/

/-- The call of `pass` for a step. -/
def passCall (vehicle : Value) (step : Value × Value) : Invocation :=
  ⟨⟨12⟩, [vehicle, step.1, step.2]⟩

/-- Different steps are different calls of `pass`. -/
theorem passCall_injective (vehicle : Value) : Function.Injective (passCall vehicle) := by
  intro s s' h
  obtain ⟨a, b⟩ := s
  obtain ⟨a', b'⟩ := s'
  simpa [passCall] using h

/-- The call of the rule for a path. -/
def followCall (vehicle : Value) (positions : List Value) : Invocation :=
  ⟨⟨13⟩, [vehicle, pathOf positions]⟩

/-- The bindings at the first line. -/
def entry (vehicle : Value) (positions : List Value) : Frame :=
  Frame.ofArguments [⟨38⟩, ⟨39⟩] [vehicle, pathOf positions]

section Body

variable {pass : Native σ} {p : Value → Value → Value → Bool} {vehicle : Value}
variable {levels depth : Nat}

/-- The gate reads the path and the literal 2. -/
theorem read_gate (pass : Native σ) (vehicle : Value) (positions : List Value) :
    resolveAll (program pass) canFollow (entry vehicle positions) [⟨39⟩, ⟨42⟩] =
      .ok [pathOf positions, .int 2] := by
  cbv

/-- A path without a step can be followed. -/
theorem yields_short [Nonempty σ] {positions : List Value} (h : positions.length < 2) :
    Yields (program pass).Answers (program pass).Answers ⟨12⟩ [] (.bool true)
      (runLines (program pass) canFollow ⟨13⟩ depth
        (evaluate (program pass) (levels + 1) (depth + 1)) lines 0 (entry vehicle positions)
        none) := by
  have hgate : (program pass).Answers ⟨⟨8⟩, [pathOf positions, .int 2]⟩ (.bool true) := by
    have hlength : (positions.length : Int) ≤ int64Max := by
      unfold int64Max
      omega
    rw [← decide_eq_true h]
    exact answers_shorterThan hlength
  have hconsults := Program.consults_answers (program pass)
  apply Yields.gate_open
  · exact Yields.callLine_host hconsults (read_gate _ _ _) rfl hgate (by decide)
  · cbv

/-- The bindings at the last line. -/
def beforeAnd (vehicle : Value) (positions : List Value) (a b ok rest restOk : Value) : Frame :=
  (((((entry vehicle positions).bind ⟨43⟩ a).bind ⟨44⟩ b).bind ⟨45⟩ ok).bind ⟨46⟩ rest).bind ⟨47⟩
    restOk

/-- The last line passes an error of the rest on. -/
theorem yields_and_tooDeep {positions : List Value} {a b rest : Value} (ok : Bool) :
    Yields (program pass).Agrees (program pass).Agrees ⟨12⟩ [] .tooDeep
      (runLines (program pass) canFollow ⟨13⟩ depth
        (evaluate (program pass) (levels + 1) (depth + 1)) [.assign ⟨37⟩ ⟨0⟩ [⟨45⟩, ⟨47⟩]] 6
        (beforeAnd vehicle positions a b (.bool ok) rest .tooDeep) (some .tooDeep)) := by
  have hread : resolveAll (program pass) canFollow
      (beforeAnd vehicle positions a b (.bool ok) rest .tooDeep) [⟨45⟩, ⟨47⟩] =
        .ok [.bool ok, .tooDeep] := by cbv
  exact Yields.assign (Yields.callLine_error hread rfl) Yields.past_end

/-- Otherwise it asks for both. -/
theorem yields_and_bool [Nonempty σ] {positions : List Value} {a b rest : Value}
    (ok restOk : Bool) :
    Yields (program pass).Agrees (program pass).Agrees ⟨12⟩ [] (.bool (ok && restOk))
      (runLines (program pass) canFollow ⟨13⟩ depth
        (evaluate (program pass) (levels + 1) (depth + 1)) [.assign ⟨37⟩ ⟨0⟩ [⟨45⟩, ⟨47⟩]] 6
        (beforeAnd vehicle positions a b (.bool ok) rest (.bool restOk))
        (some (.bool restOk))) := by
  have hread : resolveAll (program pass) canFollow
      (beforeAnd vehicle positions a b (.bool ok) rest (.bool restOk)) [⟨45⟩, ⟨47⟩] =
        .ok [.bool ok, .bool restOk] := by cbv
  exact Yields.assign_host (Program.consults_agrees _) hread rfl (answers_and ok restOk) (by decide)
    Yields.past_end

/-- A path with a step: the step is looked at, then the rest of the path, then both. -/
theorem yields_long [Nonempty σ]
    (hpass : ∀ v a b host, (pass [v, a, b] host).1 = .ok (.bool (p v a b)))
    (hvehicle : vehicle.ty = .single .object) {a b : Value} {rest : List Value}
    (hpositions : ∀ v ∈ a :: b :: rest, v.ty = .single .position)
    (hlength : ((a :: b :: rest).length : Int) ≤ int64Max) {calls : List Invocation} {v w : Value}
    (hrest : Yields (program pass).Answers (program pass).Agrees ⟨12⟩ calls v
      (evaluate (program pass) (levels + 1) (depth + 1) (followCall vehicle (b :: rest))))
    (hand : Yields (program pass).Agrees (program pass).Agrees ⟨12⟩ [] w
      (runLines (program pass) canFollow ⟨13⟩ depth
        (evaluate (program pass) (levels + 1) (depth + 1)) [.assign ⟨37⟩ ⟨0⟩ [⟨45⟩, ⟨47⟩]] 6
        (beforeAnd vehicle (a :: b :: rest) a b (.bool (p vehicle a b)) (pathOf (b :: rest)) v)
        (some v))) :
    Yields (program pass).Answers (program pass).Agrees ⟨12⟩ (passCall vehicle (a, b) :: calls) w
      (runLines (program pass) canFollow ⟨13⟩ depth
        (evaluate (program pass) (levels + 1) (depth + 1)) lines 0
        (entry vehicle (a :: b :: rest)) none) := by
  have hconsults := Program.consults_answers (program pass)
  have hgate : (program pass).Answers ⟨⟨8⟩, [pathOf (a :: b :: rest), .int 2]⟩ (.bool false) := by
    have hlong : ¬ (a :: b :: rest).length < 2 := by simp
    rw [← decide_eq_false hlong]
    exact answers_shorterThan hlength
  have hskip : (program pass).Answers ⟨⟨11⟩, [pathOf (a :: b :: rest), .int 1]⟩
      (pathOf (b :: rest)) :=
    answers_skip fun v hv => hpositions v (List.mem_cons_of_mem a hv)
  have hok : Yields (program pass).Answers (program pass).Answers ⟨12⟩ [passCall vehicle (a, b)]
      (.bool (p vehicle a b))
      (evaluate (program pass) (levels + 1) (depth + 1) ⟨⟨12⟩, [vehicle, a, b]⟩) :=
    .counted hconsults (answers_pass hpass vehicle a b) rfl
  -- no argument of a call is an error
  have hstep : [vehicle, a, b].find? Value.isError = none := by
    simp_all [Value.isError, Ty.isError]
  have hpath : [vehicle, pathOf (b :: rest)].find? Value.isError = none := by
    simp [Value.isError, Ty.isError, hvehicle, pathOf]
  refine Yields.gate_closed (.callLine_host hconsults (read_gate _ _ _) rfl hgate (by decide)) ?_
  refine Yields.assign_host hconsults (by cbv) rfl (answers_element_one a _) (by decide) ?_
  refine Yields.assign_host hconsults (by cbv) rfl (answers_element_two a b _) (by decide) ?_
  refine Yields.assign (.callLine (by cbv) hstep hok) ?_
  refine Yields.assign_host hconsults (by cbv) rfl hskip (by decide) ?_
  rw [← List.append_nil calls]
  exact Yields.assign (.callLine (by cbv) hpath hrest) hand

/-- The host does not answer calls of the rule. -/
theorem not_answers_followCall (positions : List Value) (v : Value) :
    ¬ (program pass).Answers (followCall vehicle positions) v := by
  intro h
  obtain ⟨f, run, hf, hbody, -⟩ := h
  obtain rfl : canFollow = f := Option.some.inj hf
  cases hbody

/-- A call of the rule runs its lines, unless the memo has results of the rule already. -/
theorem yields_followCall {positions : List Value} {calls : List Invocation} {v : Value}
    {sub : Invocation → Eval σ Value}
    (h : Yields (program pass).Answers (program pass).Agrees ⟨12⟩ calls v
      (runLines (program pass) canFollow ⟨13⟩ depth sub lines 0 (entry vehicle positions) none)) :
    Yields (program pass).Answers (program pass).Agrees ⟨12⟩ calls v
      (Eval.step (program pass) depth sub (followCall vehicle positions)) := by
  have hid : (followCall vehicle positions).function ≠ ⟨12⟩ := by simp [followCall]
  have hmiss : ∀ m : Memo, m.All (program pass).Answers →
      m.find? (followCall vehicle positions) = none := by
    intro m hm
    cases hfind : m.find? (followCall vehicle positions) with
    | none => rfl
    | some w => exact absurd (hm _ w hfind) (not_answers_followCall positions w)
  have hkeep : (program pass).Agrees (followCall vehicle positions) v :=
    fun w hw => absurd hw (not_answers_followCall positions w)
  exact Yields.step (f := canFollow) rfl rfl hid hmiss hkeep (Yields.body rfl h)

end Body

/-! ## Runs of the rule -/

section Runs

variable {pass : Native σ} {p : Value → Value → Value → Bool} {vehicle : Value}

/-- What the rule answers with a number of levels left. -/
def answer (p : Value → Value → Value → Bool) (vehicle : Value) (levels : Nat)
    (positions : List Value) : Value :=
  if max positions.length 1 < levels then
    .bool (decide (∀ s ∈ steps positions, p vehicle s.1 s.2 = true))
  else .tooDeep

/-- The calls of `pass` with a number of levels left. -/
def passCalls (vehicle : Value) (levels : Nat) (positions : List Value) : List Invocation :=
  ((steps positions).take (levels - 1)).map (passCall vehicle)

/-- A short path can be followed, with two levels to ask for its length. -/
theorem answer_of_short {positions : List Value} (h : positions.length < 2) (levels : Nat) :
    answer p vehicle (levels + 2) positions = .bool true := by
  have hlevels : max positions.length 1 < levels + 2 := by omega
  simp [answer, hlevels, steps_of_length_lt h]

theorem passCalls_of_short {positions : List Value} (h : positions.length < 2) (levels : Nat) :
    passCalls vehicle levels positions = [] := by
  simp [passCalls, steps_of_length_lt h]

/-- A level less for the rest of the path. -/
theorem answer_cons (a b : Value) (rest : List Value) (levels : Nat) :
    answer p vehicle (levels + 2) (a :: b :: rest) =
      if max (b :: rest).length 1 < levels + 1 then
        .bool (p vehicle a b && decide (∀ s ∈ steps (b :: rest), p vehicle s.1 s.2 = true))
      else .tooDeep := by
  have hlevels : max (a :: b :: rest).length 1 < levels + 2 ↔
      max (b :: rest).length 1 < levels + 1 := by
    simp only [List.length_cons]
    omega
  simp only [answer, hlevels, steps_cons, List.forall_mem_cons]
  simp

/-- The calls of `pass` for a path are that for its first step and those for the rest, one level
down. -/
theorem passCalls_cons (a b : Value) (rest : List Value) (levels : Nat) :
    passCalls vehicle (levels + 2) (a :: b :: rest) =
      passCall vehicle (a, b) :: passCalls vehicle (levels + 1) (b :: rest) := rfl

/-- By induction on the levels that are left; the rest of the path has one of them less. -/
theorem evaluate_yields [Nonempty σ]
    (hpass : ∀ v a b host, (pass [v, a, b] host).1 = .ok (.bool (p v a b)))
    (hvehicle : vehicle.ty = .single .object) (levels depth : Nat) {positions : List Value}
    (hpositions : ∀ v ∈ positions, v.ty = .single .position)
    (hlength : (positions.length : Int) ≤ int64Max) :
    Yields (program pass).Answers (program pass).Agrees ⟨12⟩ (passCalls vehicle levels positions)
      (answer p vehicle levels positions)
      (evaluate (program pass) levels depth (followCall vehicle positions)) := by
  induction levels generalizing depth positions with
  | zero => exact Yields.cutOff.mono fun _ _ h => h.agrees
  | succ levels ih =>
    apply yields_followCall
    cases levels with
    | zero =>
      -- the gate is past the last level, and its error is the result
      have hanswer : answer p vehicle 1 positions = .tooDeep := if_neg (by omega)
      have hcalls : passCalls vehicle 1 positions = [] := by simp [passCalls]
      have hgate : Yields (program pass).Answers (program pass).Agrees ⟨12⟩ [] .tooDeep
          (evaluate (program pass) 0 (depth + 1) ⟨⟨8⟩, [pathOf positions, .int 2]⟩) :=
        Yields.cutOff.mono fun _ _ h => h.agrees
      rw [hanswer, hcalls]
      apply Yields.gate_error
      · exact Yields.callLine (read_gate pass vehicle positions) rfl hgate
      · rfl
    | succ levels =>
      by_cases hshort : positions.length < 2
      · rw [answer_of_short hshort, passCalls_of_short hshort]
        exact (yields_short hshort).mono fun _ _ h => h.agrees
      · obtain ⟨a, b, rest, rfl⟩ := exists_of_not_short hshort
        have hrest := ih (depth + 1) (fun v hv => hpositions v (List.mem_cons_of_mem a hv)) (by
          rw [List.length_cons] at hlength
          omega)
        rw [passCalls_cons]
        apply yields_long hpass hvehicle hpositions hlength hrest
        rw [answer_cons]
        by_cases hdeep : max (b :: rest).length 1 < levels + 1
        · rw [answer, if_pos hdeep, if_pos hdeep]
          exact yields_and_bool _ _
        · rw [answer, if_neg hdeep, if_neg hdeep]
          exact yields_and_tooDeep _

/-- Every function of the host but `pass` is one of the library, and leaves the host's state as it
is. -/
theorem host_of_other {id : FunctionId} {other : Native σ} (hid : id ≠ ⟨12⟩)
    (hother : (program pass).native? id = some other) (arguments : List Value) (host : σ) :
    (other arguments host).2 = host := by
  obtain ⟨f, hf, hbody⟩ := Program.body_of_native? hother
  obtain ⟨index⟩ := id
  match index with
  | 0 | 1 | 2 | 3 | 4 | 5 | 6 | 7 | 8 | 9 | 10 | 11 =>
    obtain rfl := Option.some.inj hf
    obtain rfl := Body.native.inj hbody
    rfl
  | 12 => exact absurd rfl hid
  | 13 =>
    obtain rfl := Option.some.inj hf
    cases hbody
  | _ + 14 => cases hf

/-- A vehicle can follow a path if it can pass from each position to the next one. Called on a fresh
context, the rule says whether it can, for every path that is no longer than the depth limit, and
answers the too-deep error for longer ones; even the empty path takes a limit of 1. Of the steps
that the limit lets it reach, each different one is asked for exactly once, and the host is left in
the state that these runs of `pass` lead to. The library counts items with 64-bit integers, and no
sequence has more of them than these can count. -/
theorem run_canFollow (pass : Native σ) (p : Value → Value → Value → Bool)
    (hpass : ∀ v a b host, (pass [v, a, b] host).1 = .ok (.bool (p v a b))) (maxDepth : Nat)
    (host : σ) (vehicle : Value) (positions : List Value) (hvehicle : vehicle.ty = .single .object)
    (hpositions : ∀ v ∈ positions, v.ty = .single .position)
    (hlength : (positions.length : Int) ≤ int64Max) :
    ∃ ids P, rules pass .empty = .ok ids P ∧
      let r := (Context.fresh P maxDepth).run host
        ⟨ids.canFollow, [vehicle, ⟨.collection .position, .sequence positions⟩]⟩
      let steps := positions.zip positions.tail
      let reached := steps.take (min (positions.length - 1) maxDepth)
      let runs := r.trace.runsOf ids.pass
      r.outcome = .ok (if max positions.length 1 ≤ maxDepth then
        .bool (decide (∀ s ∈ steps, p vehicle s.1 s.2 = true)) else .error "TOO DEEP") ∧
      runs.length = reached.dedup.length ∧
      (∀ j, j ∈ runs ↔ ∃ s ∈ reached, j = ⟨ids.pass, [vehicle, s.1, s.2]⟩) ∧
      r.host = runs.foldl (fun host j => (pass j.arguments host).2) host := by
  have hnonempty : Nonempty σ := ⟨host⟩
  refine ⟨_, _, rules_apply pass, ?_⟩
  intro r steps reached runs
  have hyields := evaluate_yields hpass hvehicle (maxDepth + 1) 0 hpositions hlength
  obtain ⟨⟨houtcome, hserves⟩, -⟩ := Context.run_of_ensures (c := .fresh (program pass) maxDepth)
    (hyields.ensures .empty .empty) host
  have hcalls : passCalls vehicle (maxDepth + 1) positions = reached.map (passCall vehicle) := by
    have hsteps : steps.length = positions.length - 1 := by simp [steps]
    have htake : steps.take maxDepth = reached := by
      rw [List.take_eq_take_iff]
      omega
    rw [← htake]
    rfl
  rw [hcalls] at hserves
  refine ⟨?_, ?_, ?_, ?_⟩
  · refine houtcome.trans ?_
    simp only [answer, Nat.lt_succ_iff]
    rfl
  · refine hserves.length_runsOf.trans ?_
    rw [List.dedup_map_of_injective (passCall_injective vehicle), List.length_map]
  · intro j
    refine (hserves.mem_runsOf j).trans ?_
    rw [Memo.find?_empty, and_iff_left rfl, List.mem_map]
    simp only [passCall, eq_comm]
  · rw [← Program.hostAfter_eq_foldl_runsOf (P := program pass) rfl
      (fun _ _ hid hother => host_of_other hid hother)]
    exact (Context.run_replays (.fresh (program pass) maxDepth) host _).2

/-- A `pass` that allows every step to another position and counts its runs. -/
def counting : Native Nat := fun arguments runs =>
  match arguments with
  | [_, a, b] => (.ok (.bool (decide (a ≠ b))), runs + 1)
  | _ => (.error .indexOutOfBounds, runs)

/-- The count goes up by one for every step that is asked for. -/
theorem foldl_counting {vehicle : Value} {id : FunctionId} {runs : List Invocation}
    (h : ∀ j ∈ runs, ∃ s : Value × Value, j = ⟨id, [vehicle, s.1, s.2]⟩) (count : Nat) :
    runs.foldl (fun count j => (counting j.arguments count).2) count = count + runs.length := by
  induction runs generalizing count with
  | nil => rfl
  | cons j runs ih =>
    obtain ⟨hj, hruns⟩ := List.forall_mem_cons.mp h
    obtain ⟨s, rfl⟩ := hj
    rw [List.foldl_cons, ih hruns, List.length_cons]
    show count + 1 + runs.length = count + (runs.length + 1)
    omega

/-- The way there, back, and there again has two different steps. With a limit of 4 it can be
followed; with a limit of 3 it is too long, and both steps are asked for all the same. The host has
counted two runs either way. -/
theorem run_there_and_back :
    let here : Value := ⟨.single .position, .handle "P0"⟩
    let there : Value := ⟨.single .position, .handle "P1"⟩
    let tank : Value := ⟨.single .object, .handle "tank"⟩
    let positions := [here, there, here, there]
    (∀ v a b runs, (counting [v, a, b] runs).1 = .ok (.bool (decide (a ≠ b)))) ∧
    tank.ty = .single .object ∧ (∀ v ∈ positions, v.ty = .single .position) ∧
    (positions.length : Int) ≤ int64Max ∧
    ∀ maxDepth result, (maxDepth, result) ∈ [(3, Value.error "TOO DEEP"), (4, .bool true)] →
      ∃ ids P, rules counting .empty = .ok ids P ∧
        let r := (Context.fresh P maxDepth).run 0 ⟨ids.canFollow, [tank, pathOf positions]⟩
        r.outcome = .ok result ∧ (r.trace.runsOf ids.pass).length = 2 ∧ r.host = 2 := by
  intro here there tank positions
  have hpass : ∀ v a b runs, (counting [v, a, b] runs).1 = .ok (.bool (decide (a ≠ b))) :=
    fun _ _ _ _ => rfl
  have hpositions : ∀ v ∈ positions, v.ty = .single .position := by
    simp [positions, here, there]
  have hlength : (positions.length : Int) ≤ int64Max := by decide
  refine ⟨hpass, rfl, hpositions, hlength, ?_⟩
  intro maxDepth result hmem
  obtain ⟨ids, P, hrules, houtcome, hcount, hruns, hhost⟩ := run_canFollow counting
    (fun _ a b => decide (a ≠ b)) hpass maxDepth 0 tank positions rfl hpositions hlength
  have hcounted := foldl_counting (fun j hj => ((hruns j).mp hj).imp fun _ h => h.2) 0
  rw [hcount, Nat.zero_add] at hcounted
  simp only [List.mem_cons, Prod.mk.injEq, List.not_mem_nil, or_false] at hmem
  obtain ⟨rfl, rfl⟩ | ⟨rfl, rfl⟩ := hmem
  · refine ⟨ids, P, hrules, houtcome, hcount.trans ?_, (hhost.trans hcounted).trans ?_⟩
    · decide
    · decide
  · refine ⟨ids, P, hrules, houtcome.trans ?_, hcount.trans ?_, (hhost.trans hcounted).trans ?_⟩
    · decide
    · decide
    · decide

end Runs

end Rulebook.PathFollowing

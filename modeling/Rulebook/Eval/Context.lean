import Rulebook.Eval.State

/-!
# Evaluation

An invocation is answered from the memo if it can be; otherwise the host or the lines of the body
find the result, and the memo keeps it unless the function is uncacheable. Calls nest, and past a
number of levels an invocation answers the too-deep error without being looked at. A step that
fails keeps whatever was memoized before it.

Lines run in order. The first `Error` argument of a call stands in for its result, and an `Error`
verdict of a gate is returned. The result is the value of the first return line that fires, else
of the last assignment.
-/

namespace Rulebook

/-! ## The evaluator -/

/-- What an evaluation changes: memoized results, the state of the host, and the trace so far, the
latest event first. -/
structure EvalState (σ : Type) where
  memo : Memo
  host : σ
  trace : Trace

/-- An evaluation, which may fail with an error or a broken contract. -/
abbrev Eval (σ : Type) : Type → Type := EStateM (Failure EvalError) (EvalState σ)

namespace Eval

variable {σ : Type}

/-- Records an event. -/
def note (e : Event) : Eval σ Unit := modify fun s => { s with trace := e :: s.trace }

/-- Keeps a result in the memo. -/
def remember (depth : Nat) (i : Invocation) (v : Value) : Eval σ Unit :=
  modify fun s => { s with memo := s.memo.insert i v, trace := .keep depth i v :: s.trace }

/-- Runs a function of the host, which may change the host's state even if it fails. -/
def runNative (depth : Nat) (i : Invocation) (run : Native σ) : Eval σ Value := do
  let s ← get
  let (outcome, host) := run i.arguments s.host
  set { s with host }
  note (.native depth i outcome)
  Failure.liftState (Failure.ofViolation outcome)

/-- The value of a reference: what a literal denotes, or what a slot is bound to. -/
def resolve (P : Program σ) (f : Function σ) (frame : Frame) (id : ReferenceId) :
    Except (Failure EvalError) Value := do
  let r ← Failure.ofViolation (P.reference id)
  if r.isLiteral then
    match r.literalValue with
    | .ok v => .ok v
    | .error cause => .error (.error (.invalidLiteral f.name cause))
  else
    match frame.lookup id with
    | some v => .ok v
    | none => .error (.error (.unboundReference f.name r.name))

/-- The values of references in order. -/
def resolveAll (P : Program σ) (f : Function σ) (frame : Frame) :
    List ReferenceId → Except (Failure EvalError) (List Value)
  | [] => .ok []
  | id :: rest => do
    let v ← resolve P f frame id
    let vs ← resolveAll P f frame rest
    return v :: vs

/-- Whether a gate lets its line return. -/
def isOpen (P : Program σ) (f : Function σ) (gate : FunctionId) (verdict : Value) :
    Except (Failure EvalError) Bool :=
  if verdict.ty = .single .boolean then Failure.ofViolation verdict.asBool
  else do
    let g ← Failure.ofViolation (P.function gate)
    .error (.error (.gateNotBoolean f.name g.name verdict.ty))

/-- The call of a line, where `sub` evaluates one level deeper. -/
def callLine (P : Program σ) (f : Function σ) (sub : Invocation → Eval σ Value) (frame : Frame)
    (callee : FunctionId) (arguments : List ReferenceId) : Eval σ Value := do
  let values ← Failure.liftState (resolveAll P f frame arguments)
  match values.find? Value.isError with
  | some error => return error
  | none => sub ⟨callee, values⟩

/-- The result of running past the last line: the value of the last assignment. -/
def fallThrough (f : Function σ) : Option Value → Eval σ Value
  | some last => return last
  | none => throw (.error (.missingResult f.name))

/-- Runs lines of a body, the first of them at an index, given the bindings and the value of the
last assignment before them. -/
def runLines (P : Program σ) (f : Function σ) (id : FunctionId) (depth : Nat)
    (sub : Invocation → Eval σ Value) :
    List Line → Nat → Frame → Option Value → Eval σ Value
  | [], _, _, last => fallThrough f last
  | line :: rest, index, frame, last => do
    note (.line depth id index frame)
    match line with
    | .assign target callee arguments =>
      let value ← callLine P f sub frame callee arguments
      runLines P f id depth sub rest (index + 1) (frame.bind target value) (some value)
    | .returnIf target gate arguments =>
      let verdict ← callLine P f sub frame gate arguments
      note (.verdict depth gate verdict)
      if verdict.isError then return verdict
      else if ← Failure.liftState (isOpen P f gate verdict) then
        Failure.liftState (resolve P f frame target)
      else runLines P f id depth sub rest (index + 1) frame last
    | .ret target => Failure.liftState (resolve P f frame target)

/-- Runs a function of the right arity. -/
def runBody (P : Program σ) (depth : Nat) (sub : Invocation → Eval σ Value) (f : Function σ)
    (i : Invocation) : Eval σ Value :=
  match f.body with
  | .native run => runNative depth i run
  | .lines lines => do
    note (.enter depth i)
    let frame := Frame.ofArguments f.signature.parameterIds i.arguments
    let value ← runLines P f i.function depth sub lines 0 frame none
    note (.leave depth i value)
    return value

/-- The memoized result of an invocation of a function that may have one. -/
def memoized? (f : Function σ) (i : Invocation) (memo : Memo) : Option Value :=
  if f.isUncacheable then none else memo.find? i

/-- Evaluates an invocation within the depth limit, where `sub` evaluates one level deeper. A
memoized result is found before the arguments are counted. -/
def step (P : Program σ) (depth : Nat) (sub : Invocation → Eval σ Value) (i : Invocation) :
    Eval σ Value :=
  match P.function? i.function with
  | none => throw (.error (.unknownFunction i.function))
  | some f => do
    match memoized? f i (← get).memo with
    | some value => return value
    | none =>
      if i.isValid P then
        let value ← runBody P depth sub f i
        unless f.isUncacheable do remember depth i value
        return value
      else throw (.error (.arityMismatch f.name f.arity i.arguments.length))

/-- Evaluates an invocation at a depth with a number of levels left. -/
def evaluate (P : Program σ) : Nat → Nat → Invocation → Eval σ Value
  | 0, depth, i => do
    note (.cutOff depth i)
    return .tooDeep
  | levels + 1, depth, i => step P depth (evaluate P levels (depth + 1)) i

/-- Evaluates an invocation at a depth, where `maxDepth` is the last depth that still runs. -/
def evaluateAt (P : Program σ) (maxDepth depth : Nat) (i : Invocation) : Eval σ Value :=
  evaluate P (maxDepth + 1 - depth) depth i

end Eval

/-! ## Contexts

A context evaluates invocations over one program, with one depth limit, and memoizes results from
call to call. Later changes of the program it was made from do not reach it. -/

/-- The depth limit of a context that is given none. -/
def defaultMaxDepth : Nat := 10

/-- A program with a depth limit and the results memoized so far. -/
structure Context (σ : Type) where
  program : Program σ
  maxDepth : Nat
  memo : Memo

/-- What a call leaves behind. -/
structure Run (σ : Type) where
  outcome : Except (Failure EvalError) Value
  context : Context σ
  host : σ
  trace : Trace

namespace Context

variable {σ : Type}

/-- A context over a program that has memoized nothing yet. -/
def fresh (program : Program σ) (maxDepth : Nat) : Context σ := ⟨program, maxDepth, .empty⟩

/-- The run of a call with a given state of the host. A call that fails keeps what it memoized. -/
def run (c : Context σ) (host : σ) (i : Invocation) : Run σ :=
  match Eval.evaluateAt c.program c.maxDepth 0 i ⟨c.memo, host, []⟩ with
  | .ok value s => ⟨.ok value, { c with memo := s.memo }, s.host, s.trace.reverse⟩
  | .error e s => ⟨.error e, { c with memo := s.memo }, s.host, s.trace.reverse⟩

/-- The memoized result of an invocation. -/
def cached (c : Context σ) (i : Invocation) : Option Value := c.memo.find? i

/-- The runs of a list of calls on one context, each from where the one before it ended. -/
def runs (c : Context σ) (host : σ) : List Invocation → List (Run σ)
  | [] => []
  | i :: rest =>
    let r := c.run host i
    r :: runs r.context r.host rest

end Context

end Rulebook

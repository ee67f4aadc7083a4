import Mathlib.Data.Set.Basic
import Mathlib.Logic.Relation
import Rulebook.Proofs.Eval.Plain
import Rulebook.Proofs.Eval.Retention

/-!
# Evaluation from given results

After calls that were cut off a memo holds results that plain evaluation does not have, and what
happens from there on depends on them. `P.outcome? host known i` is what an invocation means if the
results in `known` are taken as they are and calls may nest as deep as they like; it is none if the
evaluation never ends.

An evaluation in which no call is cut off has this outcome and adds to the memo exactly the results
in the *footprint* of its invocation: those of the memoizable invocations that it leads to. Calls
that are answered from the memo are not run, so whether a call is cut off depends on what has a
result already: `P.Fits host known levels S i` says that the levels left are enough if the
invocations in `S` have one. More results never make an invocation fit worse (`Fits.mono`). Both
facts on evaluations are in `evaluate_follows`.
-/

namespace Rulebook

open Eval

variable {σ : Type}

/-! ## Outcomes and calls -/

namespace Program

section Definitions

variable (P : Program σ) (host : σ) (known : Memo)

mutual

/-- The outcome of an invocation if some results are given, or none if its evaluation never ends. -/
def outcome? (P : Program σ) (host : σ) (known : Memo) (i : Invocation) :
    Option (Except (Failure EvalError) Value) :=
  match P.function? i.function with
  | none => some (.error (.error (.unknownFunction i.function)))
  | some f =>
    match memoized? f i known with
    | some v => some (.ok v)
    | none =>
      if i.isValid P then
        match f.body with
        | .native run => some (Failure.ofViolation (run i.arguments host).1)
        | .lines lines =>
          P |>.linesOutcome? host known f lines
            (Frame.ofArguments f.signature.parameterIds i.arguments) none
      else some (.error (.error (.arityMismatch f.name f.arity i.arguments.length)))
partial_fixpoint

/-- The outcome of the call of a line. -/
def callOutcome? (P : Program σ) (host : σ) (known : Memo) (f : Function σ) (frame : Frame)
    (callee : FunctionId) (arguments : List ReferenceId) :
    Option (Except (Failure EvalError) Value) :=
  match resolveAll P f frame arguments with
  | .error e => some (.error e)
  | .ok values =>
    match values.find? Value.isError with
    | some v => some (.ok v)
    | none => P |>.outcome? host known ⟨callee, values⟩
partial_fixpoint

/-- The outcome of the lines that are left of a body. -/
def linesOutcome? (P : Program σ) (host : σ) (known : Memo) (f : Function σ) (lines : List Line)
    (frame : Frame) (last : Option Value) : Option (Except (Failure EvalError) Value) :=
  match lines with
  | [] =>
    match last with
    | some v => some (.ok v)
    | none => some (.error (.error (.missingResult f.name)))
  | .assign target callee arguments :: rest => do
    match ← (P |>.callOutcome? host known f frame callee arguments) with
    | .error e => some (.error e)
    | .ok v => P |>.linesOutcome? host known f rest (frame.bind target v) (some v)
  | .returnIf target gate arguments :: rest => do
    match ← (P |>.callOutcome? host known f frame gate arguments) with
    | .error e => some (.error e)
    | .ok v =>
      if v.isError then some (.ok v)
      else
        match isOpen P f gate v with
        | .error e => some (.error e)
        | .ok true => some (resolve P f frame target)
        | .ok false => P |>.linesOutcome? host known f rest frame last
  | .ret target :: _ => some (resolve P f frame target)
partial_fixpoint

end

/-- The invocation that the call of a line makes, unless an argument cannot be read or is an
error. -/
def invoked (f : Function σ) (frame : Frame) (callee : FunctionId) (arguments : List ReferenceId) :
    List Invocation :=
  match resolveAll P f frame arguments with
  | .error _ => []
  | .ok values =>
    match values.find? Value.isError with
    | some _ => []
    | none => [⟨callee, values⟩]

/-- The invocations that the lines left of a body make, in order. -/
def lineCalls (f : Function σ) : List Line → Frame → List Invocation
  | [], _ => []
  | .assign target callee arguments :: rest, frame =>
    P.invoked f frame callee arguments ++
      match P.callOutcome? host known f frame callee arguments with
      | some (.ok v) => lineCalls f rest (frame.bind target v)
      | _ => []
  | .returnIf _ gate arguments :: rest, frame =>
    P.invoked f frame gate arguments ++
      match P.callOutcome? host known f frame gate arguments with
      | some (.ok v) =>
        if v.isError then []
        else
          match isOpen P f gate v with
          | .ok false => lineCalls f rest frame
          | _ => []
      | _ => []
  | .ret _ :: _, _ => []

/-- The invocations that an invocation makes in its own body, in order. -/
def calls (i : Invocation) : List Invocation :=
  match P.function? i.function with
  | none => []
  | some f =>
    match memoized? f i known with
    | some _ => []
    | none =>
      if i.isValid P then
        match f.body with
        | .native _ => []
        | .lines lines =>
          P.lineCalls host known f lines (Frame.ofArguments f.signature.parameterIds i.arguments)
      else []

/-- An invocation leads to another through calls. -/
def LeadsTo : Invocation → Invocation → Prop :=
  Relation.ReflTransGen fun i k => k ∈ P.calls host known i

/-- The results that the evaluation of an invocation has to leave in the memo. -/
structure Footprint (i j : Invocation) (v : Value) : Prop where
  leadsTo : P.LeadsTo host known i j
  memoizable : j.IsMemoizable P
  outcome : P.outcome? host known j = some (.ok v)

/-- Calls made one after another fit if each does, given the results that those before it left. -/
def AllFit (fits : Set Invocation → Invocation → Prop) : Set Invocation → List Invocation → Prop
  | _, [] => True
  | S, k :: ks => fits S k ∧ AllFit fits (S ∪ {j | ∃ v, P.Footprint host known k j v}) ks

/-- A number of levels is enough for an invocation if those in `S` have a result already. -/
def Fits : Nat → Set Invocation → Invocation → Prop
  | 0, _, _ => False
  | levels + 1, S, i => i ∈ S ∨ P.AllFit host known (Fits levels) S (P.calls host known i)

end Definitions

variable {P : Program σ} {host : σ} {known : Memo} {f : Function σ} {i j : Invocation} {v : Value}

/-! ### Invocations that call nothing -/

theorem outcome?_of_unknown (hf : P.function? i.function = none) :
    P.outcome? host known i = some (.error (.error (.unknownFunction i.function))) ∧
      P.calls host known i = [] := by
  rw [outcome?, calls, hf]
  exact ⟨rfl, rfl⟩

theorem outcome?_of_known (hf : P.function? i.function = some f)
    (hv : memoized? f i known = some v) :
    P.outcome? host known i = some (.ok v) ∧ P.calls host known i = [] := by
  rw [outcome?, calls, hf]
  simp only [hv, and_self]

/-- With the wrong number of arguments the outcome says so. -/
theorem outcome?_of_not_valid (hf : P.function? i.function = some f)
    (hknown : memoized? f i known = none) (hi : i.isValid P = false) :
    P.outcome? host known i =
        some (.error (.error (.arityMismatch f.name f.arity i.arguments.length))) ∧
      P.calls host known i = [] := by
  rw [outcome?, calls, hf]
  simp only [hknown, hi, Bool.false_eq_true, if_false, and_self]

/-- The outcome of a native is its answer in the state of the host. -/
theorem outcome?_of_native (hf : P.function? i.function = some f)
    (hknown : memoized? f i known = none) (hi : i.isValid P = true) {run : Native σ}
    (hbody : f.body = .native run) :
    P.outcome? host known i = some (Failure.ofViolation (run i.arguments host).1) ∧
      P.calls host known i = [] := by
  rw [outcome?, calls, hf]
  simp only [hknown, hi, if_true, hbody, and_self]

/-- The outcome of a body is that of its lines, and so are its calls. -/
theorem outcome?_of_lines (hf : P.function? i.function = some f)
    (hknown : memoized? f i known = none) (hi : i.isValid P = true) {lines : List Line}
    (hbody : f.body = .lines lines) :
    P.outcome? host known i = P.linesOutcome? host known f lines
        (Frame.ofArguments f.signature.parameterIds i.arguments) none ∧
      P.calls host known i = P.lineCalls host known f lines
        (Frame.ofArguments f.signature.parameterIds i.arguments) := by
  rw [outcome?, calls, hf]
  simp only [hknown, hi, if_true, hbody, and_self]

/-! ### Footprints -/

/-- The footprint of an invocation has its own result and the footprints of its calls. -/
theorem footprint_iff : P.Footprint host known i j v ↔
    (j = i ∧ i.IsMemoizable P ∧ P.outcome? host known i = some (.ok v)) ∨
      ∃ k ∈ P.calls host known i, P.Footprint host known k j v := by
  constructor
  · rintro ⟨hleads, hmemoizable, houtcome⟩
    rcases hleads.cases_head with rfl | ⟨k, hk, hleads⟩
    · exact .inl ⟨rfl, hmemoizable, houtcome⟩
    · exact .inr ⟨k, hk, hleads, hmemoizable, houtcome⟩
  · rintro (⟨rfl, hmemoizable, houtcome⟩ | ⟨k, hk, hleads, hmemoizable, houtcome⟩)
    · exact ⟨.refl, hmemoizable, houtcome⟩
    · exact ⟨.head hk hleads, hmemoizable, houtcome⟩

/-- The footprint of one call is that of its invocation. -/
theorem exists_footprint_singleton :
    (∃ k ∈ [i], P.Footprint host known k j v) ↔ P.Footprint host known i j v := by
  simp

/-- What is in the footprint of a part of a footprint is in the footprint. -/
theorem Footprint.trans {k : Invocation} {w : Value} (h : P.Footprint host known i j v)
    (h' : P.Footprint host known j k w) : P.Footprint host known i k w :=
  ⟨h.leadsTo.trans h'.leadsTo, h'.memoizable, h'.outcome⟩

/-! ### Fitting invocations -/

/-- Calls that fit still do if more results are there already. -/
theorem AllFit.mono {fits : Set Invocation → Invocation → Prop}
    (hfits : ∀ S T k, S ⊆ T → fits S k → fits T k) {S T : Set Invocation} (hST : S ⊆ T)
    {ks : List Invocation} (h : P.AllFit host known fits S ks) : P.AllFit host known fits T ks := by
  induction ks generalizing S T with
  | nil => trivial
  | cons k ks ih =>
    obtain ⟨hk, hks⟩ := h
    exact ⟨hfits S T k hST hk, ih (Set.union_subset_union_left _ hST) hks⟩

/-- More results never make an invocation fit worse. -/
theorem Fits.mono {levels : Nat} {S T : Set Invocation} (hST : S ⊆ T)
    (h : P.Fits host known levels S i) : P.Fits host known levels T i := by
  induction levels generalizing S T i with
  | zero => exact h
  | succ levels ih =>
    rcases h with hi | hcalls
    · exact .inl (hST hi)
    · have hfits : ∀ S T k, S ⊆ T → P.Fits host known levels S k → P.Fits host known levels T k :=
        fun _ _ _ hST hk => ih hST hk
      exact .inr (hcalls.mono hfits hST)

/-- Calls fit one after another if the first ones do and the others do with what those left. -/
theorem allFit_append {fits : Set Invocation → Invocation → Prop} {S : Set Invocation}
    {ks ls : List Invocation} : P.AllFit host known fits S (ks ++ ls) ↔
      P.AllFit host known fits S ks ∧
        P.AllFit host known fits (S ∪ {j | ∃ k ∈ ks, ∃ v, P.Footprint host known k j v}) ls := by
  induction ks generalizing S with
  | nil => simp [AllFit]
  | cons k ks ih =>
    have hunion : S ∪ {j | ∃ v, P.Footprint host known k j v} ∪
          {j | ∃ k ∈ ks, ∃ v, P.Footprint host known k j v} =
        S ∪ {j | ∃ l ∈ k :: ks, ∃ v, P.Footprint host known l j v} := by
      rw [Set.union_assoc]
      congr 1
      ext j
      simp
    rw [List.cons_append, AllFit, AllFit, ih, hunion, and_assoc]

end Program

end Rulebook

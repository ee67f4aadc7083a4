import Mathlib.Data.Set.Insert
import Rulebook.Proofs.Eval.Mirroring

/-!
# Operations that leave functions alone

An operation gives lines or a flag to at most one function, and none takes a reference or a
function away. So functions whose lines lead to no others run in the larger program as they ran
before, as long as no operation has changed one of them (`Context.runs_isolated`).
-/

namespace Rulebook

variable {σ : Type}

namespace Program

/-- The functions of a set are in the program, and their lines call none outside the set. -/
structure Closed (P : Program σ) (R : Set FunctionId) : Prop where
  function : ∀ id ∈ R, ∃ f, P.function? id = some f
  call : ∀ id ∈ R, ∀ f lines, P.function? id = some f → f.body = .lines lines →
    ∀ line ∈ lines, ∀ callee, line.call? = some callee → callee ∈ R

end Program

/-! ## What operations leave as it is -/

section Kept

variable {P P' : Program σ}

/-- An edit of another function keeps a function as it is. -/
theorem Edit.Changes.function?_eq {e : Edit σ} (h : e.Changes P P') {id : FunctionId}
    (hid : e.target? ≠ some id) {f : Function σ} (hf : P.function? id = some f) :
    P'.function? id = some f := by
  cases h with
  | refused | reference => exact hf
  | declared | native => exact Program.function?_pushFunction_of_some hf
  | body hg | flag hg =>
    rw [Program.function?_setFunction hg, if_neg fun heq => hid (congrArg some heq.symm), hf]

/-- Edits of other functions keep a function, and all references, as they are. -/
theorem Edit.foldl_apply_keeps {edits : List (Edit σ)} {id : FunctionId}
    (hedits : ∀ e ∈ edits, e.target? ≠ some id) {f : Function σ} (hf : P.function? id = some f) :
    (edits.foldl apply P).function? id = some f ∧
      ∀ slot r, P.reference? slot = some r → (edits.foldl apply P).reference? slot = some r := by
  induction edits generalizing P with
  | nil => exact ⟨hf, fun _ _ hr => hr⟩
  | cons e edits ih =>
    obtain ⟨he, hrest⟩ := List.forall_mem_cons.mp hedits
    have hchanges := e.changes_apply P
    obtain ⟨hfunction, hreference⟩ := ih hrest (hchanges.function?_eq he hf)
    exact ⟨hfunction, fun slot r hr => hreference slot r (hchanges.grows.references slot r hr)⟩

/-- Operations on other functions keep a function, and all references, as they are. -/
theorem Operation.foldl_apply_keeps {ops : List (Operation σ)} {id : FunctionId}
    (hops : ∀ o ∈ ops, o.target? ≠ some id) {f : Function σ} (hf : P.function? id = some f) :
    (ops.foldl apply P).function? id = some f ∧
      ∀ slot r, P.reference? slot = some r → (ops.foldl apply P).reference? slot = some r := by
  obtain ⟨edits, htargets, hfoldl⟩ := exists_edits_foldl ops P
  rw [hfoldl]
  refine Edit.foldl_apply_keeps (fun e he heq => ?_) hf
  obtain ⟨o, ho, htarget⟩ := htargets e he id heq
  exact hops o ho htarget

/-- A program is mirrored on a closed set after operations on functions outside of it. -/
theorem Operation.mirrors_foldl_apply (hP : P.WellFormed) {R : Set FunctionId} (hR : P.Closed R)
    {ops : List (Operation σ)} (hops : ∀ o ∈ ops, ∀ id ∈ R, o.target? ≠ some id) :
    P.Mirrors id R (ops.foldl apply P) where
  function id hid := by
    obtain ⟨f, hf⟩ := hR.function id hid
    rw [(foldl_apply_keeps (fun o ho => hops o ho id hid) hf).1, hf, Option.map_some, f.rename_id]
  line id hid f lines hf hbody line hline := by
    obtain ⟨hinputs, -⟩ := Program.lines_in_range hP hf hbody hline
    refine ⟨fun slot hslot => ?_, hR.call id hid f lines hf hbody line hline⟩
    -- what the lines of an accepted body read was there when the operations began
    obtain ⟨r, hr⟩ := hinputs slot hslot
    have hkept := (foldl_apply_keeps (fun o ho => hops o ho id hid) hf).2 slot r hr
    rw [hkept, hr, Option.map_some, r.rename_id]

end Kept

/-! ## Runs -/

namespace Context

/-- Editing one function cannot change rules that do not reach it. If the lines of some functions
call none but functions among them, then after any operations that do not change one of them, all
calls of these functions on fresh contexts have the outcomes, memos, states of the host and traces
that they have before the operations. -/
theorem runs_isolated (ops later : List (Operation σ)) {R : Set FunctionId}
    (hR : (Program.ofOperations ops).Closed R)
    (hlater : ∀ o ∈ later, ∀ id ∈ R, o.target? ≠ some id) (maxDepth : Nat) (host : σ)
    {calls : List Invocation} (hcalls : ∀ i ∈ calls, i.function ∈ R) :
    ((fresh (Program.ofOperations (ops ++ later)) maxDepth).runs host calls).map Run.observed =
      ((fresh (Program.ofOperations ops) maxDepth).runs host calls).map Run.observed := by
  have hP : (Program.ofOperations ops).WellFormed := by
    obtain ⟨edits, hedits⟩ := Program.exists_ofEdits ops
    rw [hedits]
    exact Program.ofEdits_wellFormed edits
  have happend : Program.ofOperations (ops ++ later) =
      later.foldl Operation.apply (Program.ofOperations ops) := List.foldl_append
  have hmirrors : (fresh (Program.ofOperations ops) maxDepth).program.Mirrors id R
      (fresh (Program.ofOperations (ops ++ later)) maxDepth).program := by
    rw [happend]
    exact Operation.mirrors_foldl_apply hP hR hlater
  have hruns := runs_mirrored hmirrors rfl rfl host hcalls
  have hid : Run.observedAs id = (Run.observed : Run σ → _) := funext Run.observedAs_id
  rwa [hid] at hruns

end Context

namespace Settle

/-- The body of `wrap`, a third function, which calls `settle`. -/
def wrapLines : List Line := [.assign ⟨2⟩ ⟨1⟩ [⟨1⟩]]

/-- The program of `not` and `settle` with given lines for `wrap`. -/
def wrapped (lines : List Line) : Program Unit :=
  program.pushFunction ⟨"wrap", signature, .lines lines, false⟩

/-- The edits that build the program with all three functions. -/
def wrappedEdits : List (Edit Unit) :=
  edits ++ [.declare "wrap" signature] ++ [.setBody ⟨2⟩ wrapLines]

/-- The same as operations. -/
def operations : List (Operation Unit) := wrappedEdits.map .edit

theorem ofOperations_operations : Program.ofOperations operations = wrapped wrapLines := by
  have hdeclared : Program.ofEdits (edits ++ [.declare "wrap" signature]) = wrapped [] := by
    rw [Program.ofEdits_append_singleton, ofEdits_edits]
    rfl
  rw [operations, Program.ofOperations_map_edit, wrappedEdits, Program.ofEdits_append_singleton,
    hdeclared, Edit.apply, Edit.build,
    Edit.setBody_eq (f := ⟨"wrap", signature, .lines [], false⟩) wrapLines rfl rfl]
  rfl

/-- The lines of `settle` call `not` and `settle`. -/
theorem closed_wrapped (lines : List Line) : (wrapped lines).Closed { ⟨0⟩, ⟨1⟩ } where
  function id hid := by
    obtain rfl | rfl := hid
    · exact ⟨_, rfl⟩
    · exact ⟨_, rfl⟩
  call id hid f body hf hbody line hline callee hcallee := by
    obtain rfl | rfl := hid
    · -- the host runs `not`
      obtain rfl := Option.some.inj hf
      cases hbody
    · obtain rfl := Option.some.inj hf
      obtain rfl := Body.lines.inj hbody
      simp only [Settle.lines, List.mem_cons, List.not_mem_nil, or_false] at hline
      obtain rfl | rfl | rfl := hline
      · exact .inl (Option.some.inj hcallee).symm
      · exact .inl (Option.some.inj hcallee).symm
      · exact .inr (Option.some.inj hcallee).symm

/-- Calls of `not` and `settle` go on as before when `wrap` gets other lines and is not memoized any
more, and the library is registered. -/
theorem settle_runs_isolated :
    let later : List (Operation Unit) :=
      [.edit (.setBody ⟨2⟩ [.ret ⟨1⟩]), .edit (.setUncacheable ⟨2⟩ true), .registerStandard .number]
    let R : Set FunctionId := { ⟨0⟩, ⟨1⟩ }
    let calls : List Invocation :=
      [⟨⟨1⟩, [.bool true]⟩, ⟨⟨0⟩, [.bool false]⟩, ⟨⟨1⟩, [.bool false]⟩, ⟨⟨1⟩, []⟩]
    let before := (Context.fresh (Program.ofOperations operations) 2).runs () calls
    let after := (Context.fresh (Program.ofOperations (operations ++ later)) 2).runs () calls
    (Program.ofOperations operations).Closed R ∧
    (∀ o ∈ later, ∀ id ∈ R, o.target? ≠ some id) ∧ (∀ i ∈ calls, i.function ∈ R) ∧
    after.map Run.observed = before.map Run.observed ∧
    before.map Run.outcome = [.ok (.bool false), .ok (.bool true), .ok (.bool false),
      .error (.error (.arityMismatch "settle" 1 0))] := by
  intro later R calls before after
  have hR : (Program.ofOperations operations).Closed R := by
    rw [ofOperations_operations]
    exact closed_wrapped wrapLines
  have hlater : ∀ o ∈ later, ∀ id ∈ R, o.target? ≠ some id := by
    intro o ho id hid
    obtain rfl | rfl := hid
    · revert o
      simp [later, Operation.target?, Edit.target?]
    · revert o
      simp [later, Operation.target?, Edit.target?]
  have hcalls : ∀ i ∈ calls, i.function ∈ R := by simp [calls, R]
  refine ⟨hR, hlater, hcalls, ?_, ?_⟩
  · exact Context.runs_isolated operations later hR hlater 2 () hcalls
  · simp only [before, ofOperations_operations]
    rfl

end Settle

end Rulebook

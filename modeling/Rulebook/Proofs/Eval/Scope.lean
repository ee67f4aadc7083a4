import Rulebook.Proofs.Eval.Ensures
import Rulebook.Proofs.Program.Locals

/-!
# Scope

What a line may read is found in three places: the check of a body carries a set of bound slots,
`Program.localsFor` lists the locals for editors, and a run of the body binds slots in its frame.
All three are the targets of the assignments before the line, together with the parameters
(`Program.scopes_agree`). This holds of every run, on any memo and however its calls end, and of
lines that assign a parameter, assign a slot again or stand behind a return.
-/

namespace Rulebook

open Eval

variable {σ : Type}

/-! ## The slots of a frame -/

namespace Frame

theorem exists_lookup_iff {frame : Frame} {slot : ReferenceId} :
    (∃ v, frame.lookup slot = some v) ↔ slot ∈ frame.boundSlots := by
  rw [← Option.isSome_iff_exists, lookup, List.lookup_isSome_iff, boundSlots, List.mem_map]
  simp only [beq_iff_eq, @eq_comm _ slot]

theorem boundSlots_bind (frame : Frame) (slot : ReferenceId) (v : Value) :
    (frame.bind slot v).boundSlots = slot :: frame.boundSlots := rfl

/-- The frame of the arguments binds the parameters. -/
theorem boundSlots_ofArguments {parameters : List ReferenceId} {arguments : List Value}
    (h : parameters.length = arguments.length) :
    (ofArguments parameters arguments).boundSlots = parameters.reverse := by
  rw [boundSlots, ofArguments, List.map_reverse, List.map_fst_zip (Nat.le_of_eq h)]

/-- A frame binds the slots that belong to the line at an index: what the lines before it assign,
and the parameters. -/
def Fills (frame : Frame) (f : Function σ) (lines : List Line) (n : Nat) : Prop :=
  frame.boundSlots = (Line.assignments (lines.take n)).reverse ++ f.signature.parameterIds.reverse

variable {f : Function σ} {lines : List Line} {n : Nat} {frame : Frame}

/-- Before the first line, the frame binds the parameters only. -/
theorem fills_ofArguments {arguments : List Value} (h : f.arity = arguments.length) :
    (ofArguments f.signature.parameterIds arguments).Fills f lines 0 :=
  boundSlots_ofArguments ((Function.length_parameterIds f).trans h)

/-- An assignment binds its slot, as the next line expects. -/
theorem Fills.assign (h : frame.Fills f lines n) {target : ReferenceId} {callee : FunctionId}
    {arguments : List ReferenceId} (hline : lines[n]? = some (.assign target callee arguments))
    (v : Value) : (frame.bind target v).Fills f lines (n + 1) := by
  rw [Fills, boundSlots_bind, h, Line.assignments_take_succ hline, List.reverse_append]
  rfl

/-- A line that assigns nothing leaves the frame as it is for the next. -/
theorem Fills.closed (h : frame.Fills f lines n) {target : ReferenceId} {gate : FunctionId}
    {arguments : List ReferenceId} (hline : lines[n]? = some (.returnIf target gate arguments)) :
    frame.Fills f lines (n + 1) := by
  rw [Fills, h, Line.assignments_take_succ hline, List.reverse_append]
  rfl

/-- Before a line, the slots with a value are the parameters and what was assigned before. -/
theorem Fills.exists_lookup_iff (h : frame.Fills f lines n) {slot : ReferenceId} :
    (∃ v, frame.lookup slot = some v) ↔
      slot ∈ f.signature.parameterIds ∨ slot ∈ Line.assignments (lines.take n) := by
  rw [Frame.exists_lookup_iff, h, List.mem_append, List.mem_reverse, List.mem_reverse]
  exact Or.comm

end Frame

/-! ## Runs -/

/-- A line that is reached is one of its function's body, and the frame binds what belongs there. -/
def Event.InScope (P : Program σ) : Event → Prop
  | .line _ id n frame => ∃ f lines, P.function? id = some f ∧ f.body = .lines lines ∧
      n < lines.length ∧ frame.Fills f lines n
  | _ => True

/-- That frames bind what is in scope passes from the calls of a body to the body. -/
theorem Event.inScope_propagates (P : Program σ) :
    Ensures.Propagates (fun e => e.isKeep = false ∧ e.InScope P) (fun _ => True)
      fun _ t => ∀ e ∈ t, e.InScope P :=
  Ensures.propagates_forall (fun _ he => he) fun _ _ _ _ => trivial

/-- Lines of a body, where what is left of them and what the frame binds go together. -/
theorem runLines_inScope {P : Program σ} {sub : Invocation → Eval σ Value} (depth : Nat)
    (hsub : ∀ m j, Ensures m (sub j) fun _ t => ∀ e ∈ t, e.InScope P) {id : FunctionId}
    {f : Function σ} (hf : P.function? id = some f) {lines : List Line}
    (hbody : f.body = .lines lines) {frame : Frame} (hframe : frame.Fills f lines 0) (m : Memo) :
    Ensures m (runLines P f id depth sub lines 0 frame none) fun _ t => ∀ e ∈ t, e.InScope P := by
  have hown := Event.inScope_propagates P
  refine Ensures.runLines_propagates_of
    (J := fun rest n frame => lines.drop n = rest ∧ frame.Fills f lines n) hown ?_
    (fun _ _ => ⟨rfl, trivial⟩) ?_ ?_
    (fun m frame callee arguments _ => Ensures.callLine_propagates hown (fun m j _ => hsub m j)
      trivial f frame callee arguments) trivial ⟨lines.drop_zero, hframe⟩ none
  · rintro line rest n frame ⟨hdrop, hfills⟩
    have hline : lines[n]? = some line := (Line.of_drop_eq_cons hdrop).1
    exact ⟨rfl, f, lines, hf, hbody, (List.getElem?_eq_some_iff.mp hline).1, hfills⟩
  · rintro target callee arguments rest n frame v ⟨hdrop, hfills⟩
    obtain ⟨hline, hrest⟩ := Line.of_drop_eq_cons hdrop
    exact ⟨hrest, hfills.assign hline v⟩
  · rintro target gate arguments rest n frame ⟨hdrop, hfills⟩
    obtain ⟨hline, hrest⟩ := Line.of_drop_eq_cons hdrop
    exact ⟨hrest, hfills.closed hline⟩

/-- Every line of every evaluation is reached with exactly what is in scope bound. -/
theorem evaluate_inScope {P : Program σ} (levels depth : Nat) (i : Invocation) (m : Memo) :
    Ensures m (evaluate P levels depth i) fun _ t => ∀ e ∈ t, e.InScope P := by
  induction levels generalizing depth i m with
  | zero => exact .evaluate_zero (List.forall_mem_singleton.mpr trivial)
  | succ levels ih =>
    refine .step_forall (fun _ _ _ _ _ => trivial) fun f hf harity => ?_
    cases hbody : f.body with
    | native run => exact .runBody_native hbody fun host => List.forall_mem_singleton.mpr trivial
    | lines lines =>
      exact .runBody_lines_propagates (Event.inScope_propagates P) ⟨rfl, trivial⟩
        (fun _ => ⟨rfl, trivial⟩) hbody trivial (runLines_inScope depth
          (fun m j => ih (depth + 1) j m) hf hbody (Frame.fills_ofArguments harity) m)

namespace Program

/-- For a function that edits gave a body, the check, the list of locals and every run agree on
what a line may read. The check of the body gets to every line and goes on from the slots bound
there. Whichever program it was made in, these are the parameters and the locals, and none of them
is a literal. Whenever a run reaches a line, on any arguments and any memo, the frame binds the same
slots. The locals of a line are what the lines before it assign, each once and in the order of first
assignment; later lines only add to them, and past the end of the body they stay the same. -/
theorem scopes_agree (edits : List (Edit σ)) (id : FunctionId) (f : Function σ) (lines : List Line)
    (hf : (ofEdits edits).function? id = some f) (hbody : f.body = .lines lines) :
    let P := ofEdits edits
    (∃ result, P.reference? f.signature.result.reference = some result ∧
      ∀ n, n ≤ lines.length → ∃ bound,
        BodyCheck.checkLines ⟨P, f.name, result.ty⟩ 0 f.signature.parameterIds (lines.take n) =
          .ok bound ∧
        BodyCheck.checkLines ⟨P, f.name, result.ty⟩ 0 f.signature.parameterIds lines =
          BodyCheck.checkLines ⟨P, f.name, result.ty⟩ n bound (lines.drop n)) ∧
    (∀ (c : BodyCheck σ) n bound,
      c.checkLines 0 f.signature.parameterIds (lines.take n) = .ok bound →
      ∀ slot, slot ∈ bound ↔ slot ∈ f.signature.parameterIds ∨ slot ∈ P.localsFor id n) ∧
    (∀ n slot, slot ∈ f.signature.parameterIds ∨ slot ∈ P.localsFor id n →
      ∃ r, P.reference? slot = some r ∧ r.isLiteral = false) ∧
    (∀ maxDepth memo host j depth n frame,
      .line depth id n frame ∈ ((⟨P, maxDepth, memo⟩ : Context σ).run host j).trace →
      ∀ slot, (∃ v, frame.lookup slot = some v) ↔
        slot ∈ f.signature.parameterIds ∨ slot ∈ P.localsFor id n) ∧
    (∀ n, (P.localsFor id n).Nodup ∧
      (P.localsFor id n).Pairwise (fun a b =>
        Line.firstAssignment lines a < Line.firstAssignment lines b) ∧
      ∀ slot, slot ∈ P.localsFor id n ↔ AssignedBefore lines n slot) ∧
    (∀ n k, n ≤ k → P.localsFor id n <+: P.localsFor id k) ∧
    ∀ n, lines.length ≤ n → P.localsFor id n = P.localsFor id lines.length := by
  intro P
  have hwell : f.WellFormed P := ofEdits_wellFormed edits id f hf
  obtain ⟨result, bound', hresult, hcheck⟩ := hwell.checkLines hbody
  refine ⟨⟨result, hresult, fun n hn => BodyCheck.exists_bound_at hcheck hn⟩, ?_, ?_, ?_, ?_,
    fun n k => localsFor_prefix hf hbody, fun n => localsFor_of_length_le hf hbody⟩
  · intro c n bound hbound slot
    rw [(BodyCheck.bound_of_checkLines hbound).1, List.mem_append, List.mem_reverse,
      mem_localsFor hf hbody]
    exact Or.comm
  · rintro n slot (hparameter | hlocal)
    · exact hwell.slots slot (List.mem_cons_of_mem _ hparameter)
    · -- what some of the lines assign, all of them assign
      rw [mem_localsFor hf hbody] at hlocal
      have hslot : slot ∈ Line.assignments lines := by
        rw [← List.take_append_drop n lines, Line.assignments_append]
        exact List.mem_append_left _ hlocal
      exact (BodyCheck.bound_of_checkLines hcheck).2 slot hslot
  · intro maxDepth memo host j depth n frame hmem slot
    have hscope := (Context.run_of_ensures (c := ⟨P, maxDepth, memo⟩)
      (evaluate_inScope (maxDepth + 1) 0 j memo) host).1
    obtain ⟨g, body, hg, hlines, -, hfills⟩ := hscope _ hmem
    obtain rfl := Option.some.inj (hf.symm.trans hg)
    obtain rfl := Body.lines.inj (hbody.symm.trans hlines)
    rw [hfills.exists_lookup_iff, mem_localsFor hf hbody]
  · intro n
    refine ⟨localsFor_nodup hf hbody n, localsFor_pairwise hf hbody n, fun slot => ?_⟩
    rw [mem_localsFor hf hbody, Line.mem_assignments_take]

end Program

/-! ## A body that assigns its parameter

`settle(a)` is `b = not(a)`, `a = not(b)`, `return a if not(b)`, `b = not(a)`, `return b`,
`c = not(a)`. -/

namespace Settle

/-- The body that assigns its parameter and one slot twice, and goes on behind a return. -/
def shadowingLines : List Line :=
  [.assign ⟨2⟩ ⟨0⟩ [⟨1⟩], .assign ⟨1⟩ ⟨0⟩ [⟨2⟩], .returnIf ⟨1⟩ ⟨0⟩ [⟨2⟩],
    .assign ⟨2⟩ ⟨0⟩ [⟨1⟩], .ret ⟨2⟩, .assign ⟨3⟩ ⟨0⟩ [⟨1⟩]]

/-- The edits that build the program. -/
def shadowingEdits : List (Edit σ) := declarations ++ [.setBody ⟨1⟩ shadowingLines]

theorem ofEdits_shadowingEdits :
    Program.ofEdits (shadowingEdits : List (Edit σ)) = programWith shadowingLines := by
  rw [shadowingEdits, Program.ofEdits_append_singleton, ofEdits_declarations, Edit.apply,
    Edit.build, Edit.setBody_eq (f := ⟨"settle", signature, .lines [], false⟩) shadowingLines rfl
      rfl]
  rfl

/-- At its last return the body may read its parameter and one slot besides, each of them assigned
before, and that is what runs bind there. -/
theorem shadowing_scopes_agree :
    let P := Program.ofEdits (shadowingEdits : List (Edit Unit))
    let f : Function Unit := ⟨"settle", signature, .lines shadowingLines, false⟩
    let frame : Frame :=
      ⟨[(⟨2⟩, .bool true), (⟨1⟩, .bool false), (⟨2⟩, .bool true), (⟨1⟩, .bool false)]⟩
    P.function? ⟨1⟩ = some f ∧ f.body = .lines shadowingLines ∧
    P.localsFor ⟨1⟩ 4 = [⟨2⟩, ⟨1⟩] ∧ P.localsFor ⟨1⟩ 4 <+: P.localsFor ⟨1⟩ 6 ∧
    (.line 0 ⟨1⟩ 4 frame ∈ ((⟨P, 1, .empty⟩ : Context Unit).run () ⟨⟨1⟩, [.bool false]⟩).trace) ∧
    ∀ slot, (∃ v, frame.lookup slot = some v) ↔ slot ∈ [⟨1⟩] ∨ slot ∈ P.localsFor ⟨1⟩ 4 := by
  intro P f frame
  have hP : P = programWith shadowingLines := ofEdits_shadowingEdits
  have hf : P.function? ⟨1⟩ = some f := by
    rw [hP]
    rfl
  have hlocals : P.localsFor ⟨1⟩ 4 = [⟨2⟩, ⟨1⟩] := by
    rw [hP]
    rfl
  have hrun : ((⟨P, 1, .empty⟩ : Context Unit).run () ⟨⟨1⟩, [.bool false]⟩).trace[10]? =
      some (.line 0 ⟨1⟩ 4 frame) := by
    rw [hP]
    rfl
  have hreached := List.mem_of_getElem? hrun
  obtain ⟨-, -, -, hruns, -, hprefix, -⟩ :=
    Program.scopes_agree shadowingEdits ⟨1⟩ f shadowingLines hf rfl
  exact ⟨hf, rfl, hlocals, hprefix 4 6 (by omega), hreached, hruns 1 .empty () _ 0 4 frame hreached⟩

end Settle

end Rulebook

import Rulebook.Library.Standard
import Rulebook.Proofs.Program.Acceptance

/-!
# Programs by operations

An operation is an edit or the registration of library functions. A registration does what some
edits do that only add to the program (`Build.Adds`), so operations reach no other programs than
edits do. Every program they reach is well-formed as it is then, the references and callees of its
bodies are in range, and no operation on it breaks a contract (`Program.ofOperations_wellFormed`).
-/

namespace Rulebook

variable {σ α β : Type}

namespace Build

/-- What an operation on a program answers. -/
def outcome (x : Build σ α) (P : Program σ) : Except (Failure BuildError) α :=
  match x P with
  | .ok a _ => .ok a
  | .error e _ => .error e

/-- The program that an operation leaves, whether it succeeds or not. -/
def program (x : Build σ α) (P : Program σ) : Program σ :=
  match x P with
  | .ok _ P' => P'
  | .error _ P' => P'

theorem discard_apply (x : Build σ α) (P : Program σ) :
    (discard x : Build σ Unit) P =
      match x P with
      | .ok _ P' => .ok () P'
      | .error e P' => .error e P' := by
  show EStateM.map _ x P = _
  rw [EStateM.map]
  cases x P <;> rfl

/-- Without its result, a step leaves the same program. -/
theorem program_discard (x : Build σ α) (P : Program σ) :
    program (discard x) P = x.program P := by
  rw [program, program, discard_apply]
  cases x P <;> rfl

theorem outcome_discard_eq_error {x : Build σ α} {P : Program σ} {e : Failure BuildError} :
    outcome (discard x) P = .error e ↔ x.outcome P = .error e := by
  rw [outcome, outcome, discard_apply]
  cases x P <;> simp

end Build

namespace Edit

/-- The function that an edit changes. -/
def target? : Edit σ → Option FunctionId
  | setBody id _ | setUncacheable id _ => some id
  | addReference _ | declare _ _ | defineNative _ _ _ => none

/-- An edit leaves the program that its step of a build leaves. -/
theorem apply_eq (P : Program σ) (e : Edit σ) : e.apply P = e.build.program P := by
  rw [apply, Build.program]
  cases e.build P <;> rfl

/-- The end of an operation behind a check is that of the check. -/
theorem outcome_of_guarded {x : Build σ Unit} {P P' : Program σ} {check : Program.Checked Unit}
    (h : x P = guarded P P' check) : x.outcome P = check := by
  rw [Build.outcome, h]
  cases check <;> rfl

/-- Adding a function breaks no contract, whatever its signature names. -/
theorem addFunction_outcome_ne {P : Program σ} {name : String} {signature : Signature}
    {body : Body σ} {v : Violation} :
    (Build.addFunction name signature body).outcome P ≠ .error (.violation v) := by
  rw [Ne, ← Build.outcome_discard_eq_error,
    outcome_of_guarded (addFunction_eq P name signature body)]
  cases P.checkSlots name [] signature.references with
  | ok => rintro ⟨⟩
  | error e => rintro ⟨⟩

/-- No edit of a well-formed program breaks a contract. -/
theorem outcome_ne_violation {P : Program σ} (hP : P.WellFormed) (e : Edit σ) (v : Violation) :
    e.build.outcome P ≠ .error (.violation v) := by
  cases e with
  | addReference r => rintro ⟨⟩
  | declare name signature =>
    rw [build, Ne, Build.outcome_discard_eq_error]
    exact addFunction_outcome_ne
  | defineNative name signature run =>
    rw [build, Ne, Build.outcome_discard_eq_error]
    exact addFunction_outcome_ne
  | setBody id lines =>
    rw [build]
    cases hf : P.function? id with
    | none =>
      rw [Build.outcome, setBody_of_none lines hf]
      rintro ⟨⟩
    | some f =>
      cases hnative : f.isNative with
      | true =>
        rw [Build.outcome, setBody_of_native lines hf hnative]
        rintro ⟨⟩
      | false =>
        -- the check of a body looks up nothing that a well-formed program does not have
        rw [outcome_of_guarded (setBody_eq lines hf hnative)]
        rcases Program.checkBody_passes_or_refuses hP hf lines with ⟨hpass, -⟩ | ⟨x, hfail, -⟩
        · rw [hpass]
          rintro ⟨⟩
        · rw [hfail]
          rintro ⟨⟩
  | setUncacheable id isUncacheable =>
    rw [build]
    cases hf : P.function? id with
    | none =>
      rw [Build.outcome, setUncacheable_of_none isUncacheable hf]
      rintro ⟨⟩
    | some f =>
      rw [outcome_of_guarded (setUncacheable_eq isUncacheable hf)]
      rintro ⟨⟩

end Edit

/-! ## Operations that only add to a program -/

namespace Build

/-- An operation does what some edits do that change no function, and breaks no contract. -/
def Adds (x : Build σ α) : Prop :=
  ∀ P, (∃ edits : List (Edit σ), (∀ e ∈ edits, e.target? = none) ∧
      x.program P = edits.foldl (fun P e => e.apply P) P) ∧
    ∀ v, x.outcome P ≠ .error (.violation v)

namespace Adds

/-- A result alone adds nothing, so it adds edits. -/
protected theorem pure (a : α) : Adds (pure a : Build σ α) := by
  intro P
  refine ⟨⟨[], List.forall_mem_nil _, rfl⟩, ?_⟩
  rintro _ ⟨⟩

/-- Steps that add edits do so in sequence. -/
protected theorem bind {x : Build σ α} {f : α → Build σ β} (hx : x.Adds) (hf : ∀ a, (f a).Adds) :
    Adds (x >>= f) := by
  intro P
  obtain ⟨⟨edits, hadds, hprogram⟩, houtcome⟩ := hx P
  have hbind : (x >>= f) P = EStateM.bind x f P := rfl
  rw [EStateM.bind] at hbind
  rw [program] at hprogram
  rw [outcome] at houtcome
  cases hrun : x P with
  | ok a P' =>
    rw [hrun] at hbind hprogram
    obtain ⟨⟨edits', hadds', hprogram'⟩, houtcome'⟩ := hf a P'
    refine ⟨⟨edits ++ edits', List.forall_mem_append.mpr ⟨hadds, hadds'⟩, ?_⟩, fun v => ?_⟩
    · rw [List.foldl_append, ← hprogram, ← hprogram', program, program, hbind]
    · rw [outcome, hbind]
      exact houtcome' v
  | error e P' =>
    rw [hrun] at hbind hprogram houtcome
    dsimp only at hbind houtcome
    refine ⟨⟨edits, hadds, ?_⟩, fun v => ?_⟩
    · rw [← hprogram, program, hbind]
    · -- the same failure, at the type of the second operation
      rw [outcome, hbind]
      exact fun h => houtcome v (congrArg Except.error (Except.error.inj h))

/-- A step adds the same edits without its result. -/
protected theorem discard {x : Build σ α} (hx : x.Adds) : Adds (discard x) := by
  intro P
  obtain ⟨⟨edits, hadds, hprogram⟩, houtcome⟩ := hx P
  refine ⟨⟨edits, hadds, ?_⟩, fun v => ?_⟩
  · rw [program_discard, hprogram]
  · rw [Ne, outcome_discard_eq_error]
    exact houtcome v

/-- An operation adds what one edit adds. -/
theorem of_edit {x : Build σ α} {e : Edit σ} (he : e.target? = none) (hbuild : e.build = discard x)
    (houtcome : ∀ P v, x.outcome P ≠ .error (.violation v)) : x.Adds := by
  intro P
  refine ⟨⟨[e], List.forall_mem_singleton.mpr he, ?_⟩, houtcome P⟩
  rw [List.foldl_cons, List.foldl_nil, Edit.apply_eq, hbuild, program_discard]

/-- Adding a variable is one edit. -/
theorem addVariable (name : String) (ty : Ty) :
    Adds (addVariable name ty : Build σ ReferenceId) := by
  refine of_edit (e := .addReference (.variableSlot name ty)) rfl rfl ?_
  rintro _ _ ⟨⟩

theorem defineNative (name : String) (signature : Signature) (run : Native σ) :
    Adds (defineNative name signature run) :=
  of_edit (e := .defineNative name signature run) rfl rfl fun _ _ => Edit.addFunction_outcome_ne

end Adds

end Build

namespace Library

open Build

/-- Adding parameters is an edit for each of them. -/
theorem addParameters_adds (parameters : List Parameter) :
    Adds (addParameters parameters : Build σ (List Slot)) := by
  induction parameters with
  | nil => exact .pure []
  | cons p rest ih => exact .bind (.addVariable p.name p.ty) fun _ => .bind ih fun _ => .pure _

/-- Registering an entry adds edits: those of its slots and one for its function. -/
theorem define_adds (e : Entry) : Adds (define e : Build σ FunctionId) :=
  .bind (.addVariable resultName e.resultTy) fun _ =>
    .bind (addParameters_adds e.parameters) fun _ => .defineNative _ _ _

theorem registerLogic_adds : Adds (registerLogic : Build σ LogicIds) :=
  .bind (define_adds _) fun _ => .bind (define_adds _) fun _ => .bind (define_adds _) fun _ =>
    .pure _

theorem registerNumbers_adds : Adds (registerNumbers : Build σ NumberIds) :=
  .bind (define_adds _) fun _ => .bind (define_adds _) fun _ => .bind (define_adds _) fun _ =>
    .bind (define_adds _) fun _ => .pure _

theorem registerSequences_adds (kind : Kind) :
    Adds (registerSequences kind : Build σ SequenceIds) :=
  .bind (define_adds _) fun _ => .bind (define_adds _) fun _ => .bind (define_adds _) fun _ =>
    .bind (define_adds _) fun _ => .bind (define_adds _) fun _ => .pure _

/-- Registering the whole library adds edits. -/
theorem registerStandard_adds (kind : Kind) : Adds (registerStandard kind : Build σ StandardIds) :=
  .bind registerLogic_adds fun _ => .bind registerNumbers_adds fun _ =>
    .bind (registerSequences_adds kind) fun _ => .pure _

end Library

/-! ## Operations -/

/-- An operation on a program with its arguments. -/
inductive Operation (σ : Type) where
  | edit (e : Edit σ)
  | registerLogic
  | registerNumbers
  | registerSequences (kind : Kind)
  | registerStandard (kind : Kind)

namespace Operation

/-- What an operation does. -/
def build : Operation σ → Build σ Unit
  | edit e => e.build
  | registerLogic => discard Library.registerLogic
  | registerNumbers => discard Library.registerNumbers
  | registerSequences kind => discard (Library.registerSequences kind)
  | registerStandard kind => discard (Library.registerStandard kind)

/-- The program after an operation. -/
def apply (P : Program σ) (o : Operation σ) : Program σ := o.build.program P

/-- The function that an operation changes. -/
def target? : Operation σ → Option FunctionId
  | edit e => e.target?
  | registerLogic | registerNumbers | registerSequences _ | registerStandard _ => none

/-- Registrations only add to a program. -/
theorem edit_or_adds (o : Operation σ) : (∃ e, o = edit e) ∨ o.build.Adds := by
  cases o with
  | edit e => exact .inl ⟨e, rfl⟩
  | registerLogic => exact .inr Library.registerLogic_adds.discard
  | registerNumbers => exact .inr Library.registerNumbers_adds.discard
  | registerSequences kind => exact .inr (Library.registerSequences_adds kind).discard
  | registerStandard kind => exact .inr (Library.registerStandard_adds kind).discard

/-- An operation does what some edits do that change no other function. -/
theorem exists_edits (P : Program σ) (o : Operation σ) :
    ∃ edits : List (Edit σ), (∀ e ∈ edits, ∀ id, e.target? = some id → o.target? = some id) ∧
      o.apply P = edits.foldl (fun P e => e.apply P) P := by
  rcases o.edit_or_adds with ⟨e, rfl⟩ | hadds
  · exact ⟨[e], List.forall_mem_singleton.mpr fun _ hid => hid, (Edit.apply_eq P e).symm⟩
  · obtain ⟨⟨edits, hnone, hprogram⟩, -⟩ := hadds P
    refine ⟨edits, fun e he id hid => ?_, hprogram⟩
    rw [hnone e he] at hid
    cases hid

/-- Operations one after another do what some edits do that change no other function. -/
theorem exists_edits_foldl (ops : List (Operation σ)) (P : Program σ) :
    ∃ edits : List (Edit σ),
      (∀ e ∈ edits, ∀ id, e.target? = some id → ∃ o ∈ ops, o.target? = some id) ∧
      ops.foldl apply P = edits.foldl (fun P e => e.apply P) P := by
  induction ops generalizing P with
  | nil => exact ⟨[], List.forall_mem_nil _, rfl⟩
  | cons o ops ih =>
    obtain ⟨first, hfirst, happly⟩ := o.exists_edits P
    obtain ⟨rest, hrest, hfoldl⟩ := ih (o.apply P)
    refine ⟨first ++ rest, List.forall_mem_append.mpr ⟨?_, ?_⟩, ?_⟩
    · exact fun e he id hid => ⟨o, List.mem_cons_self, hfirst e he id hid⟩
    · intro e he id hid
      obtain ⟨o', ho', htarget⟩ := hrest e he id hid
      exact ⟨o', List.mem_cons_of_mem _ ho', htarget⟩
    · rw [List.foldl_cons, List.foldl_append, hfoldl, happly]

end Operation

/-! ## The programs that operations reach -/

namespace Program

/-- The program that operations make out of the empty one. -/
def ofOperations (ops : List (Operation σ)) : Program σ := ops.foldl Operation.apply empty

/-- Operations that are all edits make the program of the edits. -/
theorem ofOperations_map_edit (edits : List (Edit σ)) :
    ofOperations (edits.map .edit) = ofEdits edits := by
  rw [ofOperations, List.foldl_map, ofEdits]
  exact congrArg (fun apply => edits.foldl apply empty) (funext₂ fun P e => (e.apply_eq P).symm)

/-- Every program that operations make is one that edits make. -/
theorem exists_ofEdits (ops : List (Operation σ)) :
    ∃ edits : List (Edit σ), ofOperations ops = ofEdits edits := by
  obtain ⟨edits, -, hfoldl⟩ := Operation.exists_edits_foldl ops empty
  exact ⟨edits, hfoldl⟩

/-- The references and callees of the lines of a body are in range. -/
theorem lines_in_range {P : Program σ} (hP : P.WellFormed) {id : FunctionId} {f : Function σ}
    (hf : P.function? id = some f) {lines : List Line} (hbody : f.body = .lines lines) {line : Line}
    (hline : line ∈ lines) :
    (∀ slot ∈ line.inputs, ∃ r, P.reference? slot = some r) ∧
      ∀ callee, line.call? = some callee → ∃ g, P.function? callee = some g := by
  rcases (hP id f hf).body lines hbody with rfl | hcheck
  · cases hline
  · rcases checkBody_passes_or_refuses hP hf lines with ⟨-, hobeys⟩ | ⟨x, hfail, -⟩
    · obtain ⟨index, hindex⟩ := List.getElem?_of_mem hline
      have hrules := hobeys.line index line hindex
      refine ⟨hrules.inputs, fun callee hcall => ?_⟩
      obtain ⟨g, hg, -⟩ := hrules.call callee hcall
      exact ⟨g, hg⟩
    · cases hcheck.symm.trans hfail

/-- The invariant of building. In every program that operations reach, each function names distinct
slots in its signature and has a body that passes the check in the program as it is now, or no lines
yet; what its lines mention is in range; and no operation on the program breaks a contract. -/
theorem ofOperations_wellFormed (ops : List (Operation σ)) :
    let P := ofOperations ops
    (∀ id f, P.function? id = some f → f.WellFormed P ∧
      ∀ lines, f.body = .lines lines → ∀ line ∈ lines,
        (∀ slot ∈ line.inputs, ∃ r, P.reference? slot = some r) ∧
        ∀ callee, line.call? = some callee → ∃ g, P.function? callee = some g) ∧
    ∀ (o : Operation σ) v, o.build.outcome P ≠ .error (.violation v) := by
  intro P
  obtain ⟨edits, hedits⟩ := exists_ofEdits ops
  have hP : P.WellFormed := by
    show (ofOperations ops).WellFormed
    rw [hedits]
    exact ofEdits_wellFormed edits
  refine ⟨fun id f hf => ⟨hP id f hf, fun lines hbody line hline => ?_⟩, fun o v => ?_⟩
  · exact lines_in_range hP hf hbody hline
  · rcases o.edit_or_adds with ⟨e, rfl⟩ | hadds
    · exact Edit.outcome_ne_violation hP e v
    · exact (hadds P).2 v

end Program

end Rulebook

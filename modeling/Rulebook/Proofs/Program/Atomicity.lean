import Rulebook.Proofs.Library.Registration
import Rulebook.Proofs.Program.WellFormed

/-!
# Operations in one piece

An operation on a program is either refused, and then the program is what it was, or it does one
thing: it adds a reference or a function behind those that there are, or it gives one function
another body or flag. So identities that were given out keep their meaning, and none is used up by
an operation that is refused. Library functions can be registered in any program, and as often as
one likes (`Program.handles_stable`).
-/

namespace Rulebook

variable {σ α : Type}

/-! ## Refused or done -/

/-- An operation is refused and changes nothing, or it succeeds, and then its answer and the program
after it satisfy `Q`. -/
def Build.Atomic (x : Build σ α) (P : Program σ) (Q : α → Program σ → Prop) : Prop :=
  (∃ e, x P = .error e P) ∨ ∃ a P', x P = .ok a P' ∧ Q a P'

/-- Two programs have the same references and functions, except that the second has `f` under an
identity. -/
structure Program.Places (P P' : Program σ) (id : FunctionId) (f : Function σ) : Prop where
  references : P'.references = P.references
  functions : ∀ j, P'.function? j = if j = id then some f else P.function? j

/-- Identities are different from one another, and only the second of two programs has functions
under them. -/
structure Program.Fresh (P P' : Program σ) (ids : List FunctionId) : Prop where
  nodup : ids.Nodup
  unused : ∀ id ∈ ids, P.function? id = none
  used : ∀ id ∈ ids, ∃ f, P'.function? id = some f

namespace Program

variable {P P' : Program σ}

theorem places_setFunction {id : FunctionId} {f : Function σ} (hf : P.function? id = some f)
    (g : Function σ) : P.Places (P.setFunction id g) id g where
  references := rfl
  functions _ := function?_setFunction hf

theorem places_pushFunction (P : Program σ) (f : Function σ) :
    P.Places (P.pushFunction f) ⟨P.functions.size⟩ f where
  references := rfl
  functions j := by
    unfold function? pushFunction
    rw [Array.getElem?_push]
    by_cases hj : j = ⟨P.functions.size⟩
    · simp [hj]
    · have hindex : j.index ≠ P.functions.size := fun h => hj (by cases j; simp at h; simp [h])
      simp [hj, hindex]

/-- The identities of registered entries are the next ones. -/
theorem Gains.fresh {ids : List FunctionId} {es : List Library.Entry} (h : P.Gains P' ids es) :
    P.Fresh P' ids where
  nodup := by
    rw [h.ids_eq]
    apply List.Nodup.map
    · exact fun m n hmn => congrArg FunctionId.index hmn
    · exact List.nodup_range'
  unused id hid := by
    rw [h.ids_eq] at hid
    obtain ⟨n, hn, rfl⟩ := List.mem_map.mp hid
    apply Array.getElem?_eq_none
    exact (List.mem_range'_1.mp hn).1
  used id hid := by
    obtain ⟨_, -, f, hf⟩ := h.exists_holds hid
    exact ⟨f, hf.function⟩

end Program

namespace Build

variable {P P' : Program σ} {Q : α → Program σ → Prop}

/-- An operation behind a check is refused if the check fails. -/
theorem atomic_of_guarded {x : Build σ Unit} {check : Program.Checked Unit}
    {Q : Unit → Program σ → Prop} (h : x P = Edit.guarded P P' check) (hQ : Q () P') :
    x.Atomic P Q := by
  cases check with
  | ok _ => exact .inr ⟨(), P', h, hQ⟩
  | error e => exact .inl ⟨e, h⟩

/-- A function is added under the next identity. -/
theorem addFunction_atomic (P : Program σ) (name : String) (signature : Signature)
    (body : Body σ) :
    (addFunction name signature body).Atomic P fun id P' =>
      id = ⟨P.functions.size⟩ ∧ P.Places P' id ⟨name, signature, body, false⟩ := by
  have happly := addFunction_apply P name signature body
  cases hcheck : P.checkSlots name [] signature.references with
  | ok _ =>
    rw [hcheck] at happly
    exact .inr ⟨_, _, happly, rfl, P.places_pushFunction _⟩
  | error e =>
    rw [hcheck] at happly
    exact .inl ⟨_, happly⟩

/-- A body takes the place of that of its function, and nothing else changes. -/
theorem setBody_atomic (P : Program σ) (id : FunctionId) (lines : List Line) :
    (setBody id lines).Atomic P fun _ P' =>
      ∃ f, P.function? id = some f ∧ P.Places P' id { f with body := .lines lines } := by
  cases hf : P.function? id with
  | none => exact .inl ⟨_, Edit.setBody_of_none lines hf⟩
  | some f =>
    cases hnative : f.isNative with
    | true => exact .inl ⟨_, Edit.setBody_of_native lines hf hnative⟩
    | false =>
      apply atomic_of_guarded (Edit.setBody_eq lines hf hnative)
      exact ⟨f, rfl, Program.places_setFunction hf _⟩

/-- A flag takes the place of that of its function, and nothing else changes. -/
theorem setUncacheable_atomic (P : Program σ) (id : FunctionId) (isUncacheable : Bool) :
    (setUncacheable id isUncacheable).Atomic P fun _ P' =>
      ∃ f, P.function? id = some f ∧ P.Places P' id { f with isUncacheable } := by
  cases hf : P.function? id with
  | none => exact .inl ⟨_, Edit.setUncacheable_of_none isUncacheable hf⟩
  | some f =>
    apply atomic_of_guarded (Edit.setUncacheable_eq isUncacheable hf)
    exact ⟨f, rfl, Program.places_setFunction hf _⟩

end Build

/-! ## Registrations -/

/-- A registration succeeds on any program, keeps all of it, and gives out new identities. -/
theorem Library.Registers.succeeds {x : Build σ α} {toList : α → List FunctionId}
    {es : List Library.Entry} (h : Registers x (fun a ids => ids = toList a) es)
    (P : Program σ) : ∃ a P', x P = .ok a P' ∧ P.Keeps P' ∧ P.Fresh P' (toList a) := by
  obtain ⟨a, P', ids, hrun, hgains, rfl⟩ := h P
  exact ⟨a, P', hrun, hgains.keeps, hgains.fresh⟩

namespace Program

open Library in
/-- Operations are atomic, and identities keep their meaning. On any program, each operation is
refused without a change or does what it is for and nothing else: a new reference or function has
the next index, and a body or a flag is that of its function alone. After any edit, accepted or
not, every reference is the one it was and every function has the name and the signature that it
had. A registration of library functions always succeeds, gives out identities that are new and
different from one another, and leaves every reference and every function exactly as it was. -/
theorem handles_stable (P : Program σ) :
    (∀ r, ∃ P', Build.addReference r P = .ok ⟨P.references.size⟩ P' ∧
      P'.references = P.references.push r ∧ P'.functions = P.functions) ∧
    (∀ name signature, (Build.declare name signature).Atomic P fun id P' =>
      id = ⟨P.functions.size⟩ ∧ P.Places P' id ⟨name, signature, .lines [], false⟩) ∧
    (∀ name signature run, (Build.defineNative name signature run).Atomic P fun id P' =>
      id = ⟨P.functions.size⟩ ∧ P.Places P' id ⟨name, signature, .native run, false⟩) ∧
    (∀ id lines, (Build.setBody id lines).Atomic P fun _ P' =>
      ∃ f, P.function? id = some f ∧ P.Places P' id { f with body := .lines lines }) ∧
    (∀ id isUncacheable, (Build.setUncacheable id isUncacheable).Atomic P fun _ P' =>
      ∃ f, P.function? id = some f ∧ P.Places P' id { f with isUncacheable }) ∧
    (∀ e : Edit σ, P.Extends (e.apply P)) ∧
    (∃ ids P', registerLogic P = .ok ids P' ∧ P.Keeps P' ∧ P.Fresh P' ids.toList) ∧
    (∃ ids P', registerNumbers P = .ok ids P' ∧ P.Keeps P' ∧ P.Fresh P' ids.toList) ∧
    (∀ kind, ∃ ids P', registerSequences kind P = .ok ids P' ∧ P.Keeps P' ∧
      P.Fresh P' ids.toList) ∧
    ∀ kind, ∃ ids P', registerStandard kind P = .ok ids P' ∧ P.Keeps P' ∧
      P.Fresh P' ids.toList := by
  refine ⟨fun r => ⟨_, rfl, rfl, rfl⟩, ?_, ?_, ?_, ?_, ?_, ?_, ?_, ?_, ?_⟩
  · exact fun name signature => Build.addFunction_atomic P name signature (.lines [])
  · exact fun name signature run => Build.addFunction_atomic P name signature (.native run)
  · exact fun id lines => Build.setBody_atomic P id lines
  · exact fun id isUncacheable => Build.setUncacheable_atomic P id isUncacheable
  · exact fun e => (e.changes_apply P).grows
  · exact registerLogic_registers.succeeds P
  · exact registerNumbers_registers.succeeds P
  · exact fun kind => (registerSequences_registers kind).succeeds P
  · exact fun kind => (registerStandard_registers kind).succeeds P

end Program

end Rulebook

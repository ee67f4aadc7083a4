import Rulebook.Program.Build
import Rulebook.Proofs.Outcome

/-!
# Checks in a program that has grown

A program extends another if it has every reference of it, and every function with the same name
and signature; bodies may differ. The check of a body looks at nothing else of a program, so in an
extension it has the outcome that it had before (`Extends.checkBody`), unless it was refused for
something that the smaller program did not have.
-/

namespace Rulebook.Program

variable {σ : Type}

/-- A program has every reference and every function's name and signature of another. -/
structure Extends (P P' : Program σ) : Prop where
  references : ∀ id r, P.reference? id = some r → P'.reference? id = some r
  functions : ∀ id f, P.function? id = some f →
    ∃ f', P'.function? id = some f' ∧ f'.name = f.name ∧ f'.signature = f.signature

/-! ## Outcomes that persist -/

/-- A check failed for something that a program does not have and another has. -/
inductive NamesNew (P P' : Program σ) : Failure BuildError → Prop where
  | reference {id r} (hold : P.reference? id = none) (hnew : P'.reference? id = some r) :
      NamesNew P P' (.error (.unknownReference id))
  | function {id f} (hold : P.function? id = none) (hnew : P'.function? id = some f) :
      NamesNew P P' (.error (.unknownFunction id))
  | violation {id r v} (hold : P.reference? id = none) (hnew : P'.reference? id = some r) :
      NamesNew P P' (.violation v)

/-- An outcome persists in the check by another program if both are similar, or if it names
something that only the other program has. -/
def Persists {α β : Type} (P P' : Program σ) (R : α → β → Prop) (x : Checked α)
    (y : Checked β) : Prop :=
  (∃ e, x = .error e ∧ NamesNew P P' e) ∨ Similar R x y

namespace Persists

variable {α β γ δ : Type} {R : α → β → Prop} {S : γ → δ → Prop} {P P' : Program σ}

protected theorem refl (x : Checked α) : Persists P P' Eq x x := .inr (.refl (fun _ => rfl) x)

/-- Outcomes of steps in sequence persist if those of the steps do. -/
protected theorem bind {x : Checked α} {y : Checked β} {f : α → Checked γ} {g : β → Checked δ}
    (h : Persists P P' R x y) (hf : ∀ a b, R a b → Persists P P' S (f a) (g b)) :
    Persists P P' S (x >>= f) (y >>= g) := by
  rcases h with ⟨e, rfl, he⟩ | h
  · exact .inl ⟨e, rfl, he⟩
  · cases x with
    | error e =>
      obtain rfl := h.of_error
      exact .inr (Eq.refl e)
    | ok a =>
      obtain ⟨b, rfl, hab⟩ := h.of_ok
      exact hf a b hab

/-- A check that passed passes with the same result. -/
theorem eq_ok {x y : Checked α} {a : α} (h : Persists P P' Eq x y) (hx : x = .ok a) :
    y = .ok a := by
  subst hx
  rcases h with ⟨e, ⟨⟩, _⟩ | h
  obtain ⟨b, rfl, rfl⟩ := h.of_ok
  rfl

/-- The other program has the same failure, unless it has what was unknown. -/
theorem eq_error {x y : Checked α} {e : Failure BuildError} (h : Persists P P' Eq x y)
    (hx : x = .error e) (he : ¬ NamesNew P P' e) : y = .error e := by
  subst hx
  rcases h with ⟨e', ⟨⟩, hnew⟩ | h
  · exact absurd hnew he
  · exact h.of_error

/-- A program that is extended in turn has nothing new. -/
theorem eq_of_extends {x y : Checked α} (h : Persists P P' Eq x y) (hback : P'.Extends P) :
    y = x := by
  cases hx : x with
  | ok a => exact h.eq_ok hx
  | error e =>
    apply h.eq_error hx
    intro hnew
    cases hnew with
    | reference hold hnew | violation hold hnew =>
      cases hold.symm.trans (hback.references _ _ hnew)
    | function hold hnew =>
      obtain ⟨f, hf, -⟩ := hback.functions _ _ hnew
      cases hold.symm.trans hf

end Persists

/-! ## The check of a body persists -/

namespace Extends

variable {P P' : Program σ} (h : P.Extends P')

include h

/-- A slot that a program has is the same in a program that extends it. -/
theorem reference (id : ReferenceId) :
    Persists P P' Eq (Failure.ofViolation (P.reference id))
      (Failure.ofViolation (P'.reference id)) := by
  rw [Program.reference, Program.reference]
  cases hr : P.reference? id with
  | none =>
    cases hr' : P'.reference? id with
    | none => exact .refl _
    | some r => exact .inl ⟨_, rfl, .violation hr hr'⟩
  | some r =>
    rw [h.references id r hr]
    exact .refl _

variable {name : String} {ty : Ty} {line : Nat} {bound : List ReferenceId}

theorem checkRead (id : ReferenceId) :
    Persists P P' Eq (BodyCheck.checkRead ⟨P, name, ty⟩ line bound id)
      (BodyCheck.checkRead ⟨P', name, ty⟩ line bound id) :=
  (h.reference id).bind fun _ _ hr => hr ▸ .refl _

theorem checkArgument (argument parameter : ReferenceId) :
    Persists P P' Eq (BodyCheck.checkArgument ⟨P, name, ty⟩ line bound argument parameter)
      (BodyCheck.checkArgument ⟨P', name, ty⟩ line bound argument parameter) :=
  (h.checkRead argument).bind fun _ _ _ => (h.reference argument).bind fun _ _ hgiven =>
    (h.reference parameter).bind fun _ _ hwanted => hgiven ▸ hwanted ▸ .refl _

theorem checkArguments (arguments parameters : List ReferenceId) :
    Persists P P' Eq (BodyCheck.checkArguments ⟨P, name, ty⟩ line bound arguments parameters)
      (BodyCheck.checkArguments ⟨P', name, ty⟩ line bound arguments parameters) := by
  induction arguments generalizing parameters with
  | nil => exact .refl _
  | cons argument arguments ih =>
    cases parameters with
    | nil => exact .refl _
    | cons parameter parameters =>
      exact (h.checkArgument argument parameter).bind fun _ _ _ => ih parameters

/-- The callee may have another body in the extension. -/
theorem checkCall (id : FunctionId) (arguments : List ReferenceId) :
    Persists P P' (fun x y => x.1.name = y.1.name ∧ x.2 = y.2)
      (BodyCheck.checkCall ⟨P, name, ty⟩ line bound id arguments)
      (BodyCheck.checkCall ⟨P', name, ty⟩ line bound id arguments) := by
  rw [BodyCheck.checkCall, BodyCheck.checkCall]
  cases hf : P.function? id with
  | none =>
    cases hf' : P'.function? id with
    | none => exact .inr (Eq.refl _)
    | some f' => exact .inl ⟨_, rfl, .function hf hf'⟩
  | some f =>
    obtain ⟨f', hf', hname, hsignature⟩ := h.functions id f hf
    rw [hf']
    dsimp only
    -- the same signature means the same arity, parameters and result
    rw [Function.arity, Function.arity, hsignature, hname]
    by_cases harity : arguments.length = f.signature.parameters.length
    · rw [if_pos harity, if_pos harity]
      refine (h.checkArguments arguments _).bind fun _ _ _ => ?_
      exact (h.reference _).bind fun r _ hr => hr ▸ .inr ⟨hname.symm, rfl⟩
    · rw [if_neg harity, if_neg harity]
      exact .inr (Eq.refl _)

theorem checkReturned (id : ReferenceId) :
    Persists P P' Eq (BodyCheck.checkReturned ⟨P, name, ty⟩ line bound id)
      (BodyCheck.checkReturned ⟨P', name, ty⟩ line bound id) :=
  (h.checkRead id).bind fun _ _ _ => (h.reference id).bind fun _ _ hr => hr ▸ .refl _

theorem checkDestination (target : ReferenceId) (given : Ty) :
    Persists P P' Eq (BodyCheck.checkDestination ⟨P, name, ty⟩ line target given)
      (BodyCheck.checkDestination ⟨P', name, ty⟩ line target given) :=
  (h.reference target).bind fun _ _ hr => hr ▸ .refl _

theorem checkInputs (ids : List ReferenceId) :
    Persists P P' Eq (BodyCheck.checkInputs ⟨P, name, ty⟩ ids)
      (BodyCheck.checkInputs ⟨P', name, ty⟩ ids) := by
  induction ids with
  | nil => exact .refl _
  | cons id ids ih =>
    rw [BodyCheck.checkInputs, BodyCheck.checkInputs]
    cases hr : P.reference? id with
    | none =>
      cases hr' : P'.reference? id with
      | none => exact .refl _
      | some r => exact .inl ⟨_, rfl, .reference hr hr'⟩
    | some r =>
      rw [h.references id r hr]
      exact ih

/-- The check of a line persists. -/
theorem checkLine (l : Line) :
    Persists P P' Eq (BodyCheck.checkLine ⟨P, name, ty⟩ line bound l)
      (BodyCheck.checkLine ⟨P', name, ty⟩ line bound l) := by
  refine (h.checkInputs l.inputs).bind fun _ _ _ => ?_
  cases l with
  | assign target callee arguments =>
    refine (h.checkCall callee arguments).bind fun x y hxy => ?_
    obtain ⟨g, given⟩ := x
    obtain ⟨g', given'⟩ := y
    obtain ⟨-, rfl⟩ := hxy
    exact (h.checkDestination target given).bind fun _ _ _ => .refl _
  | returnIf target gate arguments =>
    refine (h.checkCall gate arguments).bind fun x y hxy => ?_
    obtain ⟨g, given⟩ := x
    obtain ⟨g', given'⟩ := y
    obtain ⟨hname, rfl⟩ := hxy
    dsimp only at hname ⊢
    -- the gate's name stands in the report of a gate that is not Boolean
    rw [← hname]
    refine (Persists.refl _).bind fun _ _ _ => ?_
    exact (h.checkReturned target).bind fun _ _ _ => .refl _
  | ret target => exact (h.checkReturned target).bind fun _ _ _ => .refl _

/-- The check of all lines persists. -/
theorem checkLines (lines : List Line) :
    Persists P P' Eq (BodyCheck.checkLines ⟨P, name, ty⟩ line bound lines)
      (BodyCheck.checkLines ⟨P', name, ty⟩ line bound lines) := by
  induction lines generalizing line bound with
  | nil => exact .refl _
  | cons l lines ih => exact (h.checkLine l).bind fun bound' _ hbound => hbound ▸ ih

/-- The check of the end of a body persists. -/
theorem checkEnd (lines : List Line) :
    Persists P P' Eq (BodyCheck.checkEnd ⟨P, name, ty⟩ lines)
      (BodyCheck.checkEnd ⟨P', name, ty⟩ lines) := by
  rw [BodyCheck.checkEnd, BodyCheck.checkEnd]
  by_cases hreturn : (lines.any fun line => line.kind = .unconditionalReturn) = true
  · rw [if_pos hreturn, if_pos hreturn]
    exact .refl _
  · rw [if_neg hreturn, if_neg hreturn]
    cases BodyCheck.lastAssignment? lines with
    | none => exact .refl _
    | some assignment => exact (h.reference assignment.2).bind fun r _ hr => hr ▸ .refl _

/-- The check of a body has the same outcome in an extension, unless it names something unknown. -/
theorem checkBody {f f' : Function σ} (hname : f'.name = f.name)
    (hsignature : f'.signature = f.signature) (lines : List Line) :
    Persists P P' Eq (P.checkBody f lines) (P'.checkBody f' lines) := by
  rw [Program.checkBody, Program.checkBody, hname, hsignature]
  refine (h.reference _).bind fun result _ hresult => hresult ▸ ?_
  exact (h.checkLines lines).bind fun _ _ _ => h.checkEnd lines

end Extends

end Rulebook.Program

import Rulebook.Proofs.Program.Edit
import Rulebook.Proofs.Program.Extension
import Rulebook.Proofs.Program.Typing

/-!
# Well-formed programs

The invariant of building: the slots of every signature exist, are no literals and differ from one
another, and every body is either still without lines or passes the check in the program as it is
now. It is kept by every edit because the check of a body persists in the larger program.
-/

namespace Rulebook

variable {σ : Type}

/-! ## The invariant -/

/-- A function's signature names distinct slots of a program, and its body passes the check there
unless it has no lines yet. -/
structure Function.WellFormed (P : Program σ) (f : Function σ) : Prop where
  slots : ∀ id ∈ f.signature.references, ∃ r, P.reference? id = some r ∧ r.isLiteral = false
  nodup : f.signature.references.Nodup
  body : ∀ lines, f.body = .lines lines → lines = [] ∨ P.checkBody f lines = .ok ()

/-- Every function of a program is well-formed in it. -/
def Program.WellFormed (P : Program σ) : Prop :=
  ∀ id f, P.function? id = some f → f.WellFormed P

namespace Program

variable {P P' : Program σ}

/-- What the check of a signature establishes, with the slots that were seen before. -/
theorem checkSlots_eq_ok {name : String} {seen ids : List ReferenceId}
    (h : P.checkSlots name seen ids = .ok ()) :
    (∀ id ∈ ids, ∃ r, P.reference? id = some r ∧ r.isLiteral = false) ∧ ids.Nodup ∧
      ∀ id ∈ ids, id ∉ seen := by
  induction ids generalizing seen with
  | nil => simp
  | cons id ids ih =>
    rw [checkSlots] at h
    cases hr : P.reference? id with
    | none =>
      rw [hr] at h
      cases h
    | some r =>
      rw [hr] at h
      dsimp only at h
      cases hliteral : r.isLiteral with
      | true =>
        rw [hliteral, if_pos rfl] at h
        cases h
      | false =>
        rw [hliteral, if_neg Bool.false_ne_true] at h
        by_cases hseen : id ∈ seen
        · rw [if_pos hseen] at h
          cases h
        · rw [if_neg hseen] at h
          obtain ⟨hslots, hnodup, hnew⟩ := ih h
          refine ⟨?_, ?_, ?_⟩
          · exact List.forall_mem_cons.mpr ⟨⟨r, hr, hliteral⟩, hslots⟩
          · exact List.nodup_cons.mpr ⟨fun hid => hnew id hid List.mem_cons_self, hnodup⟩
          · -- what is new besides `id :: seen` is new besides `seen`
            refine List.forall_mem_cons.mpr ⟨hseen, fun j hj => ?_⟩
            exact fun hmem => hnew j hj (List.mem_cons_of_mem _ hmem)

theorem Extends.wellFormed (h : P.Extends P') {f f' : Function σ} (hf : f.WellFormed P)
    (hname : f'.name = f.name) (hsignature : f'.signature = f.signature)
    (hbody : f'.body = f.body) : f'.WellFormed P' := by
  refine ⟨?_, ?_, fun lines hlines => ?_⟩
  · intro id hid
    rw [hsignature] at hid
    obtain ⟨r, hr, hslot⟩ := hf.slots id hid
    exact ⟨r, h.references id r hr, hslot⟩
  · rw [hsignature]
    exact hf.nodup
  · rw [hbody] at hlines
    exact (hf.body lines hlines).imp_right (h.checkBody hname hsignature lines).eq_ok

end Program

/-! ## Every edit keeps it -/

namespace Edit.Changes

open Program

variable {P P' : Program σ} {e : Edit σ}

/-- A program that loses nothing but the body or the flag of a function is extended. -/
theorem extends_setFunction {id : FunctionId} {f g : Function σ} (hf : P.function? id = some f)
    (hname : g.name = f.name) (hsignature : g.signature = f.signature) :
    P.Extends (P.setFunction id g) := by
  refine ⟨fun _ _ hr => hr, fun j f' hf' => ?_⟩
  rw [function?_setFunction hf]
  by_cases hj : j = id
  · subst hj
    obtain rfl := Option.some.inj (hf.symm.trans hf')
    exact ⟨g, if_pos rfl, hname, hsignature⟩
  · exact ⟨f', (if_neg hj).trans hf', rfl, rfl⟩

/-- Edits only add to a program or change bodies and flags. -/
theorem grows (h : e.Changes P P') : P.Extends P' := by
  cases h with
  | refused => exact ⟨fun _ _ hr => hr, fun _ f hf => ⟨f, hf, rfl, rfl⟩⟩
  | reference =>
    exact ⟨fun _ _ => reference?_pushReference_of_some, fun _ f hf => ⟨f, hf, rfl, rfl⟩⟩
  | declared | native =>
    exact ⟨fun _ _ hr => hr, fun _ f hf => ⟨f, function?_pushFunction_of_some hf, rfl, rfl⟩⟩
  | body hf | flag hf => exact extends_setFunction hf rfl rfl

/-- A new function is well-formed if its signature passes the check and it has no lines yet. -/
theorem wellFormed_pushFunction (hP : P.WellFormed) {f : Function σ}
    (hslots : P.checkSlots f.name [] f.signature.references = .ok ())
    (hbody : ∀ lines, f.body = .lines lines → lines = [])
    (hextends : P.Extends (P.pushFunction f)) : (P.pushFunction f).WellFormed := by
  intro id g hg
  rcases function?_pushFunction hg with hold | ⟨-, -, rfl⟩
  · exact hextends.wellFormed (hP id g hold) rfl rfl rfl
  · obtain ⟨hslots, hnodup, -⟩ := checkSlots_eq_ok hslots
    exact ⟨hslots, hnodup, fun lines hlines => .inl (hbody lines hlines)⟩

theorem wellFormed (h : e.Changes P P') (hP : P.WellFormed) : P'.WellFormed := by
  have hextends := h.grows
  cases h with
  | refused => exact hP
  | reference => exact fun id f hf => hextends.wellFormed (hP id f hf) rfl rfl rfl
  | declared hslots =>
    refine wellFormed_pushFunction hP hslots (fun lines hlines => ?_) hextends
    exact (Body.lines.inj hlines).symm
  | native hslots => exact wellFormed_pushFunction hP hslots (fun lines => nofun) hextends
  | @body id f lines hf hnative hcheck =>
    intro j g hg
    rw [function?_setFunction hf] at hg
    by_cases hj : j = id
    · -- the new body passed the check before the edit, and so it does after it
      rw [if_pos hj, Option.some.injEq] at hg
      have hwf := hP id f hf
      subst hg
      have hcheck' : Program.checkBody _ { f with body := .lines lines } lines = .ok () :=
        (hextends.checkBody rfl rfl lines).eq_ok hcheck
      refine ⟨hwf.slots, hwf.nodup, fun lines' hlines => .inr ?_⟩
      rw [← Body.lines.inj hlines]
      exact hcheck'
    · rw [if_neg hj] at hg
      exact hextends.wellFormed (hP j g hg) rfl rfl rfl
  | @flag id f isUncacheable hf =>
    intro j g hg
    rw [function?_setFunction hf] at hg
    by_cases hj : j = id
    · rw [if_pos hj, Option.some.injEq] at hg
      subst hg
      exact hextends.wellFormed (hP id f hf) rfl rfl rfl
    · rw [if_neg hj] at hg
      exact hextends.wellFormed (hP j g hg) rfl rfl rfl

end Edit.Changes

namespace Program

/-- Every program that edits build is well-formed. -/
theorem ofEdits_wellFormed (edits : List (Edit σ)) : (ofEdits edits).WellFormed :=
  ofEdits_induction (fun _ _ hf => by cases hf) (fun _ _ _ hP h => h.wellFormed hP) edits

end Program

/-! ## Accepted bodies -/

namespace Program

variable {P P' : Program σ} {id : FunctionId}

/-- Whether a function of a program has at least one line. -/
def HasLines (P : Program σ) (id : FunctionId) : Prop :=
  ∃ f lines, P.function? id = some f ∧ f.body = .lines lines ∧ lines ≠ []

/-- The check refuses the empty body. -/
theorem ne_nil_of_checkBody {f : Function σ} {lines : List Line}
    (h : P.checkBody f lines = .ok ()) : lines ≠ [] := by
  rintro rfl
  obtain ⟨ty, -, hlines⟩ := linesTyped_of_checkBody h
  cases hlines

theorem hasLines_setFunction {j : FunctionId} {f g : Function σ} (hf : P.function? j = some f)
    (hbody : ∀ lines, f.body = .lines lines → lines ≠ [] →
      ∃ lines', g.body = .lines lines' ∧ lines' ≠ []) (h : P.HasLines id) :
    (P.setFunction j g).HasLines id := by
  obtain ⟨f', lines, hf', hlines, hne⟩ := h
  by_cases hid : id = j
  · subst hid
    obtain rfl := Option.some.inj (hf.symm.trans hf')
    obtain ⟨lines', hlines', hne'⟩ := hbody lines hlines hne
    exact ⟨g, lines', by rw [function?_setFunction hf, if_pos rfl], hlines', hne'⟩
  · exact ⟨f', lines, by rw [function?_setFunction hf, if_neg hid, hf'], hlines, hne⟩

/-- No edit takes the lines of a function away. -/
theorem HasLines.changes {e : Edit σ} (hid : P.HasLines id) (h : e.Changes P P') :
    P'.HasLines id := by
  cases h with
  | refused | reference => exact hid
  | declared | native =>
    obtain ⟨f, lines, hf, hlines, hne⟩ := hid
    exact ⟨f, lines, function?_pushFunction_of_some hf, hlines, hne⟩
  | body hf hnative hcheck =>
    exact hasLines_setFunction hf (fun _ _ _ => ⟨_, rfl, ne_nil_of_checkBody hcheck⟩) hid
  | flag hf => exact hasLines_setFunction hf (fun lines hlines hne => ⟨lines, hlines, hne⟩) hid

/-- A function that some lines have been accepted for has lines. -/
theorem hasLines_of_bodyAccepted {edits : List (Edit σ)} (h : BodyAccepted edits id) :
    (ofEdits edits).HasLines id := by
  induction edits using List.reverseRecOn with
  | nil =>
    obtain ⟨earlier, lines, later, hedits, -⟩ := h
    exact absurd hedits.symm (List.append_ne_nil_of_right_ne_nil _ (List.cons_ne_nil _ _))
  | append_singleton edits e ih =>
    rw [ofEdits_append_singleton]
    have hchanges := e.changes_apply (ofEdits edits)
    rcases bodyAccepted_append_singleton h with hbefore | ⟨lines, rfl, haccepted⟩
    · exact (ih hbefore).changes hchanges
    · -- an accepted edit is not refused, so it is the one that puts the lines there
      generalize (Edit.setBody id lines).apply (ofEdits edits) = P' at hchanges ⊢
      cases hchanges with
      | refused he => exact absurd haccepted he
      | body hf hnative hcheck =>
        exact ⟨_, lines, by rw [function?_setFunction hf, if_pos rfl], rfl,
          ne_nil_of_checkBody hcheck⟩

end Program

end Rulebook

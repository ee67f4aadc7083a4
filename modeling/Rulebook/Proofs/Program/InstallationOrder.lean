import Rulebook.Proofs.Eval.Endless
import Rulebook.Proofs.Program.Atomicity
import Rulebook.Proofs.Program.Operation

/-!
# Bodies in any order

Whether lines are accepted as the body of a function depends on the references of the program and
on the names and signatures of its functions, and on no body. So offers of bodies get the same
answers in any order, and as long as each is for another function they make the same program
(`Program.bodies_in_any_order`). Functions that call one another can be given their bodies one at a
time.
-/

namespace Rulebook

variable {σ : Type}

/-! ## Programs that have grown -/

/-- A program extends another, and the functions of the host in it are those of the other. -/
structure Program.Outgrown (P P' : Program σ) : Prop where
  grows : P.Extends P'
  natives : ∀ id f f', P.function? id = some f → P'.function? id = some f' →
    f'.isNative = f.isNative

namespace Program.Outgrown

variable {P P' P'' : Program σ}

protected theorem refl (P : Program σ) : P.Outgrown P where
  grows := ⟨fun _ _ hr => hr, fun _ f hf => ⟨f, hf, rfl, rfl⟩⟩
  natives _ f f' hf hf' := by rw [Option.some.inj (hf.symm.trans hf')]

theorem trans (h : P.Outgrown P') (h' : P'.Outgrown P'') : P.Outgrown P'' where
  grows := {
    references := fun id r hr => h'.grows.references id r (h.grows.references id r hr)
    functions := fun id f hf => by
      obtain ⟨f', hf', hname, hsignature⟩ := h.grows.functions id f hf
      obtain ⟨f'', hf'', hname', hsignature'⟩ := h'.grows.functions id f' hf'
      exact ⟨f'', hf'', hname'.trans hname, hsignature'.trans hsignature⟩ }
  natives id f f'' hf hf'' := by
    obtain ⟨f', hf', -⟩ := h.grows.functions id f hf
    exact (h'.natives id f' f'' hf' hf'').trans (h.natives id f f' hf hf')

end Program.Outgrown

/-- Another body or flag leaves a function with the host or without it. -/
theorem Program.outgrown_setFunction {P : Program σ} {id : FunctionId} {f g : Function σ}
    (hf : P.function? id = some f) (hname : g.name = f.name)
    (hsignature : g.signature = f.signature) (hnative : g.isNative = f.isNative) :
    P.Outgrown (P.setFunction id g) where
  grows := Edit.Changes.extends_setFunction hf hname hsignature
  natives j f₁ f₂ hf₁ hf₂ := by
    rw [function?_setFunction hf] at hf₂
    by_cases hj : j = id
    · rw [if_pos hj] at hf₂
      rw [hj] at hf₁
      rw [← Option.some.inj hf₂, hnative, Option.some.inj (hf.symm.trans hf₁)]
    · rw [if_neg hj] at hf₂
      rw [Option.some.inj (hf₂.symm.trans hf₁)]

/-- No edit gives a function to the host or takes it from the host. -/
theorem Edit.Changes.outgrown {P P' : Program σ} {e : Edit σ} (h : e.Changes P P') :
    P.Outgrown P' := by
  have hgrows := h.grows
  cases h with
  | refused => exact .refl P
  | reference => exact ⟨hgrows, fun _ f f' hf hf' => by rw [Option.some.inj (hf.symm.trans hf')]⟩
  | declared | native =>
    refine ⟨hgrows, fun _ f f' hf hf' => ?_⟩
    rw [Option.some.inj (hf'.symm.trans (Program.function?_pushFunction_of_some hf))]
  | body hf hnative => exact Program.outgrown_setFunction hf rfl rfl hnative.symm
  | flag hf => exact Program.outgrown_setFunction hf rfl rfl rfl

theorem Operation.outgrown_foldl (later : List (Operation σ)) (P : Program σ) :
    P.Outgrown (later.foldl Operation.apply P) := by
  obtain ⟨edits, -, hfoldl⟩ := Operation.exists_edits_foldl later P
  rw [hfoldl]
  clear hfoldl
  induction edits generalizing P with
  | nil => exact .refl P
  | cons e edits ih => exact (e.changes_apply P).outgrown.trans (ih (e.apply P))

/-- Programs are equal if they have the same references and the same functions. -/
theorem Program.ext_lookups {P P' : Program σ} (hreferences : P.references = P'.references)
    (hfunctions : ∀ j, P.function? j = P'.function? j) : P = P' := by
  have hequal : P.functions = P'.functions := Array.ext_getElem? fun n => hfunctions ⟨n⟩
  cases P
  cases P'
  simp_all

/-! ## Offers -/

/-- Lines that are offered as the body of a function. -/
structure Offer where
  function : FunctionId
  lines : List Line

namespace Offer

/-- The operation that takes an offer or refuses it. -/
def build (o : Offer) : Build σ Unit := Build.setBody o.function o.lines

/-- What a program answers to an offer. -/
def answer (P : Program σ) (o : Offer) : Program.Checked Unit := o.build.outcome P

/-- The program after an offer. -/
def apply (P : Program σ) (o : Offer) : Program σ := o.build.program P

/-- What a program answers to offers that are made one after another. -/
def answers (P : Program σ) : List Offer → List (Program.Checked Unit)
  | [] => []
  | o :: rest => o.answer P :: answers (o.apply P) rest

variable {P P' : Program σ}

/-- The answer to an offer stays the same in a program that has grown. -/
theorem answer_persists (h : P.Outgrown P') (o : Offer) :
    Program.Persists P P' Eq (o.answer P) (o.answer P') := by
  unfold answer build
  cases hf : P.function? o.function with
  | none =>
    have hanswer : (Build.setBody o.function o.lines).outcome P =
        .error (.error (.unknownFunction o.function)) := by
      rw [Build.outcome, Edit.setBody_of_none o.lines hf]
    cases hf' : P'.function? o.function with
    | none =>
      rw [hanswer, Build.outcome, Edit.setBody_of_none o.lines hf']
      exact .refl _
    | some f' => exact .inl ⟨_, hanswer, .function hf hf'⟩
  | some f =>
    obtain ⟨f', hf', hname, hsignature⟩ := h.grows.functions _ f hf
    have hsame := h.natives _ f f' hf hf'
    cases hnative : f.isNative with
    | true =>
      rw [Build.outcome, Build.outcome, Edit.setBody_of_native o.lines hf hnative,
        Edit.setBody_of_native o.lines hf' (hsame.trans hnative), hname]
      exact .refl _
    | false =>
      rw [Edit.outcome_of_guarded (Edit.setBody_eq o.lines hf hnative),
        Edit.outcome_of_guarded (Edit.setBody_eq o.lines hf' (hsame.trans hnative))]
      exact h.grows.checkBody hname hsignature o.lines

/-- What an offer does to the functions of a program. -/
theorem function?_apply (P : Program σ) (o : Offer) (j : FunctionId) :
    (o.apply P).function? j =
      if j = o.function ∧ o.answer P = .ok () then
        (P.function? j).map fun f => { f with body := .lines o.lines }
      else P.function? j := by
  unfold apply answer build Build.program Build.outcome
  rcases Build.setBody_atomic P o.function o.lines with ⟨e, h⟩ | ⟨_, P', h, f, hf, hplaces⟩
  · simp [h]
  · by_cases hj : j = o.function
    · subst hj
      simp [h, hplaces.functions, hf]
    · simp [h, hplaces.functions, hj]

/-- An offer leaves the slots of the program alone. -/
theorem references_apply (P : Program σ) (o : Offer) :
    (o.apply P).references = P.references := by
  unfold apply build Build.program
  rcases Build.setBody_atomic P o.function o.lines with ⟨e, h⟩ | ⟨_, P', h, f, hf, hplaces⟩
  · rw [h]
  · rw [h]
    exact hplaces.references

/-- A program is outgrown by what an offer makes of it. -/
theorem outgrown_apply (P : Program σ) (o : Offer) : P.Outgrown (o.apply P) := by
  have hchanges := (Edit.setBody o.function o.lines).changes_apply P
  rw [Edit.apply_eq] at hchanges
  exact hchanges.outgrown

/-- An offer adds nothing to a program. -/
theorem apply_extends (P : Program σ) (o : Offer) : (o.apply P).Extends P where
  references id r hr := by
    unfold Program.reference? at hr ⊢
    rwa [o.references_apply P] at hr
  functions id f hf := by
    rw [o.function?_apply P] at hf
    split at hf
    · obtain ⟨f', hf', rfl⟩ := Option.map_eq_some_iff.mp hf
      exact ⟨f', hf', rfl, rfl⟩
    · exact ⟨f, hf, rfl, rfl⟩

/-- No offer changes the answer to another. -/
theorem answer_apply (P : Program σ) (o o' : Offer) : o'.answer (o.apply P) = o'.answer P :=
  (answer_persists (o.outgrown_apply P) o').eq_of_extends (o.apply_extends P)

theorem answers_eq_map (P : Program σ) (offers : List Offer) :
    answers P offers = offers.map (answer P) := by
  induction offers generalizing P with
  | nil => rfl
  | cons o rest ih =>
    have hrest : rest.map (answer (o.apply P)) = rest.map (answer P) :=
      List.map_congr_left fun o' _ => o.answer_apply P o'
    rw [answers, ih, hrest, List.map_cons]

/-- Offers for two functions can change places. -/
theorem apply_comm (P : Program σ) {o o' : Offer} (hne : o.function ≠ o'.function) :
    o'.apply (o.apply P) = o.apply (o'.apply P) := by
  apply Program.ext_lookups
  · rw [references_apply, references_apply, references_apply, references_apply]
  · intro j
    simp only [function?_apply, answer_apply]
    -- at most one of the two offers is for this function
    by_cases hj : j = o.function
    · have hj' : j ≠ o'.function := fun h => hne (hj.symm.trans h)
      simp [hj']
    · simp [hj]

/-- Offers for different functions make the same program in any order. -/
theorem foldl_apply_perm (P : Program σ) {offers order : List Offer}
    (hdistinct : (offers.map Offer.function).Nodup) (horder : order.Perm offers) :
    order.foldl apply P = offers.foldl apply P := by
  apply horder.foldl_eq'
  intro o ho o' ho' P
  by_cases h : o.function = o'.function
  · have hinjective := List.inj_on_of_nodup_map hdistinct
    rw [hinjective (horder.mem_iff.mp ho) (horder.mem_iff.mp ho') h]
  · exact apply_comm P h

end Offer

namespace Program

/-- Bodies can be installed in any order. Lines that are offered as bodies of functions, one offer
after another, get the answers that each of them gets if it is the only one; and if each is for
another function, then every order makes the same program. Whatever operations follow, lines that
are accepted would be accepted again, and lines that are refused would be refused with the same
error, unless it is that a reference or a function is unknown. -/
theorem bodies_in_any_order (P : Program σ) (offers order : List Offer)
    (hdistinct : (offers.map Offer.function).Nodup) (horder : order.Perm offers) :
    Offer.answers P order = order.map (Offer.answer P) ∧
    order.foldl Offer.apply P = offers.foldl Offer.apply P ∧
    ∀ (o : Offer) (later : List (Operation σ)),
      let P' := later.foldl Operation.apply P
      (o.answer P = .ok () → o.answer P' = .ok ()) ∧
      ∀ e, o.answer P = .error (.error e) → (∀ id, e ≠ .unknownReference id) →
        (∀ id, e ≠ .unknownFunction id) → o.answer P' = .error (.error e) := by
  refine ⟨Offer.answers_eq_map P order, Offer.foldl_apply_perm P hdistinct horder, ?_⟩
  intro o later P'
  have hpersists : Persists P P' Eq (o.answer P) (o.answer P') :=
    Offer.answer_persists (Operation.outgrown_foldl later P) o
  refine ⟨hpersists.eq_ok, fun e he hreference hfunction => hpersists.eq_error he ?_⟩
  intro hnew
  cases hnew with
  | reference => exact hreference _ rfl
  | function => exact hfunction _ rfl

end Program

namespace PingPong

/-- Offers of both bodies, and of lines for a function of the host and for an unknown one. -/
def offers : List Offer := [⟨⟨1⟩, pingLines⟩, ⟨⟨2⟩, pongLines⟩, ⟨⟨0⟩, []⟩, ⟨⟨3⟩, pongLines⟩]

/-- The offers of bodies are taken, the others change nothing. -/
theorem foldl_offers : offers.foldl Offer.apply (programWith [] [] : Program Unit) = program := by
  have hping : Offer.apply (programWith [] [] : Program Unit) ⟨⟨1⟩, pingLines⟩ =
      programWith pingLines [] :=
    (Edit.apply_eq _ (Edit.setBody ⟨1⟩ pingLines)).symm.trans setBody_ping
  have hpong : Offer.apply (programWith pingLines [] : Program Unit) ⟨⟨2⟩, pongLines⟩ = program :=
    (Edit.apply_eq _ (Edit.setBody ⟨2⟩ pongLines)).symm.trans setBody_pong
  rw [offers, List.foldl_cons, hping, List.foldl_cons, hpong]
  rfl

/-- In reverse order the offers get the same answers and make the same program, in which `ping` and
`pong` have the lines that were offered for them. -/
theorem offers_in_reverse :
    let P : Program Unit := programWith [] []
    (offers.map Offer.function).Nodup ∧ offers.reverse.Perm offers ∧
    Offer.answers P offers =
      [.ok (), .ok (), .error (.error (.nativeBody "not")),
        .error (.error (.unknownFunction ⟨3⟩))] ∧
    Offer.answers P offers.reverse = (Offer.answers P offers).reverse ∧
    offers.reverse.foldl Offer.apply P = offers.foldl Offer.apply P ∧
    offers.foldl Offer.apply P = programWith pingLines pongLines := by
  intro P
  have hdistinct : (offers.map Offer.function).Nodup := by decide
  have hreverse : offers.reverse.Perm offers := offers.reverse_perm
  obtain ⟨hanswers, -, -⟩ := Program.bodies_in_any_order P offers offers hdistinct (.refl _)
  obtain ⟨hanswers', hprogram, -⟩ :=
    Program.bodies_in_any_order P offers offers.reverse hdistinct hreverse
  refine ⟨hdistinct, hreverse, ?_, ?_, hprogram, foldl_offers⟩
  · rw [hanswers]
    rfl
  · rw [hanswers, hanswers', List.map_reverse]

end PingPong

end Rulebook

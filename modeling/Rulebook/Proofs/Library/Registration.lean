import Mathlib.Data.List.Forall2
import Mathlib.Data.List.Nodup
import Rulebook.Library.Standard
import Rulebook.Proofs.Program.Edit
import Rulebook.Proofs.Program.Typing

/-!
# Registration of library functions

Registering an entry adds slots of its own and a function of the host, and it never fails: the
slots are new, so the check of the signature accepts them. `Registers x R es` says that an operation
registers entries one after another on any program at all, under the next free identities; it is
closed under sequencing, and so holds of every pack of the library.
-/

namespace Rulebook

variable {σ α β : Type}

/-! ## What a program has after a registration -/

namespace Library

/-- The reference that a registration adds for a slot. -/
def Parameter.slotReference (p : Parameter) : Reference := .variableSlot p.name p.ty

/-- The slots of parameters, their references from an index on. -/
def slotsFrom : Nat → List Parameter → List Slot
  | _, [] => []
  | n, p :: rest => ⟨⟨n⟩, p.comment⟩ :: slotsFrom (n + 1) rest

/-- The slots of parameters are declared at consecutive ids. -/
theorem map_reference_slotsFrom (n : Nat) (ps : List Parameter) :
    (slotsFrom n ps).map Slot.reference = (List.range' n ps.length).map ReferenceId.mk := by
  induction ps generalizing n with
  | nil => rfl
  | cons p ps ih => simp [slotsFrom, ih, List.range'_succ]

end Library

namespace Program

/-- A program has a library function under an identity, with the types that its entry gives. -/
structure Holds (P : Program σ) (id : FunctionId) (e : Library.Entry) (f : Function σ) :
    Prop where
  function : P.function? id = some f
  name : f.name = e.name
  body : f.body = .native (.ofPure e.apply)
  isUncacheable : f.isUncacheable = false
  result : P.ty? f.signature.result.reference = some e.resultTy
  parameters : List.Forall₂ (fun slot (p : Library.Parameter) => P.ty? slot = some p.ty)
    f.signature.parameterIds e.parameters

/-- A program has every reference and every function of another, as they are there. -/
structure Keeps (P P' : Program σ) : Prop where
  references : ∀ id r, P.reference? id = some r → P'.reference? id = some r
  functions : ∀ id f, P.function? id = some f → P'.function? id = some f

/-- A program has entries under the first identities that another has not given out, and keeps
everything else of it. -/
structure Gains (P P' : Program σ) (ids : List FunctionId) (es : List Library.Entry) : Prop where
  keeps : P.Keeps P'
  ids_eq : ids = (List.range' P.functions.size es.length).map FunctionId.mk
  size_eq : P'.functions.size = P.functions.size + es.length
  holds : List.Forall₂ (fun id e => ∃ f, P'.Holds id e f) ids es

variable {P P' P'' : Program σ}

/-- A program that keeps what another has keeps what that one had kept. -/
theorem Keeps.trans (h : P.Keeps P') (h' : P'.Keeps P'') : P.Keeps P'' where
  references id r hr := h'.references id r (h.references id r hr)
  functions id f hf := h'.functions id f (h.functions id f hf)

/-- A slot keeps its type in a program that keeps what was declared. -/
theorem Keeps.ty? (h : P.Keeps P') {id : ReferenceId} {ty : Ty} (hty : P.ty? id = some ty) :
    P'.ty? id = some ty := by
  obtain ⟨r, hr, rfl⟩ := ty?_eq_some.mp hty
  exact ty?_eq_some.mpr ⟨r, h.references id r hr, rfl⟩

/-- An entry that was registered stays registered in a program that keeps what it had. -/
theorem Holds.keeps {id : FunctionId} {e : Library.Entry} {f : Function σ} (h : P.Holds id e f)
    (hP : P.Keeps P') : P'.Holds id e f where
  function := hP.functions id f h.function
  name := h.name
  body := h.body
  isUncacheable := h.isUncacheable
  result := hP.ty? h.result
  parameters := h.parameters.imp fun _ _ => hP.ty?

theorem Gains.refl (P : Program σ) : P.Gains P [] [] where
  keeps := ⟨fun _ _ hr => hr, fun _ _ hf => hf⟩
  ids_eq := rfl
  size_eq := rfl
  holds := .nil

/-- Gains add up, in the order of the registrations. -/
theorem Gains.trans {ids ids' : List FunctionId} {es es' : List Library.Entry}
    (h : P.Gains P' ids es) (h' : P'.Gains P'' ids' es') :
    P.Gains P'' (ids ++ ids') (es ++ es') where
  keeps := h.keeps.trans h'.keeps
  ids_eq := by
    rw [h.ids_eq, h'.ids_eq, h.size_eq, ← List.map_append, List.range'_append_1,
      List.length_append]
  size_eq := by
    rw [h'.size_eq, h.size_eq, List.length_append]
    omega
  holds := by
    apply List.rel_append
    · exact h.holds.imp fun _ _ ⟨f, hf⟩ => ⟨f, hf.keeps h'.keeps⟩
    · exact h'.holds

/-- Every identity that was gained has one of the entries. -/
theorem Gains.exists_holds {ids : List FunctionId} {es : List Library.Entry}
    (h : P.Gains P' ids es) {id : FunctionId} (hid : id ∈ ids) :
    ∃ e ∈ es, ∃ f, P'.Holds id e f := by
  obtain ⟨k, hk, rfl⟩ := List.getElem_of_mem hid
  have hk' : k < es.length := h.holds.length_eq ▸ hk
  exact ⟨_, List.get_mem es ⟨k, hk'⟩, h.holds.get hk hk'⟩

end Program

/-! ## Registering one entry -/

namespace Program

variable {P : Program σ}

/-- The check of a signature accepts slots that exist, are no literals and differ from one
another. -/
theorem checkSlots_of_nodup {name : String} {seen ids : List ReferenceId}
    (hslots : ∀ id ∈ ids, ∃ r, P.reference? id = some r ∧ r.isLiteral = false) (hnodup : ids.Nodup)
    (hnew : ∀ id ∈ ids, id ∉ seen) : P.checkSlots name seen ids = .ok () := by
  induction ids generalizing seen with
  | nil => rfl
  | cons id ids ih =>
    obtain ⟨⟨r, hr, hliteral⟩, hslots⟩ := List.forall_mem_cons.mp hslots
    obtain ⟨hid, hnew⟩ := List.forall_mem_cons.mp hnew
    have hrest : ∀ j ∈ ids, j ∉ id :: seen := by
      intro j hj hmem
      rcases List.mem_cons.mp hmem with rfl | hmem
      · exact (List.nodup_cons.mp hnodup).1 hj
      · exact hnew j hj hmem
    unfold checkSlots
    simp only [hr, hliteral, Bool.false_eq_true, if_false, if_neg hid]
    exact ih hslots (List.nodup_cons.mp hnodup).2 hrest

/-- The program with more references. -/
def addReferences (P : Program σ) (rs : List Reference) : Program σ :=
  { P with references := P.references ++ rs.toArray }

/-- New references stand behind those that the program has. -/
theorem reference?_addReferences (P : Program σ) (rs : List Reference) (j : Nat) :
    (P.addReferences rs).reference? ⟨P.references.size + j⟩ = rs[j]? := by
  simp [addReferences, reference?, Array.getElem?_append_right]

/-- A slot is still found after slots have been added. -/
theorem reference?_addReferences_of_some {rs : List Reference} {id : ReferenceId} {r : Reference}
    (h : P.reference? id = some r) : (P.addReferences rs).reference? id = some r := by
  have hid : id.index < P.references.size := (Array.getElem?_eq_some_iff.mp h).1
  simpa [addReferences, reference?, Array.getElem?_append_left hid] using h

end Program

namespace Build

/-- A step that succeeded hands its result and its program to the next one. -/
theorem bind_apply {x : Build σ α} {P P' : Program σ} {a : α} (h : x P = .ok a P')
    (f : α → Build σ β) : (x >>= f) P = f a P' := by
  show EStateM.bind x f P = _
  rw [EStateM.bind, h]

/-- A function is added if the check of its signature lets it. -/
theorem addFunction_apply (P : Program σ) (name : String) (signature : Signature) (body : Body σ) :
    addFunction name signature body P =
      match P.checkSlots name [] signature.references with
      | .ok _ => .ok ⟨P.functions.size⟩ (P.pushFunction ⟨name, signature, body, false⟩)
      | .error e => .error (.error e) P := by
  show EStateM.bind (Failure.liftState (Failure.ofError _)) _ P = _
  unfold EStateM.bind
  cases P.checkSlots name [] signature.references <;> rfl

end Build

namespace Library

/-- Declaring parameters always succeeds: it adds their slots and answers them in order. -/
theorem addParameters_apply (ps : List Parameter) (P : Program σ) :
    addParameters ps P = .ok (slotsFrom P.references.size ps)
      (P.addReferences (ps.map Parameter.slotReference)) := by
  induction ps generalizing P with
  | nil => simp [addParameters, slotsFrom, Program.addReferences]; rfl
  | cons p ps ih =>
    have hadd : Build.addVariable p.name p.ty P =
        .ok ⟨P.references.size⟩ (P.pushReference p.slotReference) := rfl
    rw [addParameters, Build.bind_apply hadd, Build.bind_apply (ih _)]
    simp [slotsFrom, Program.addReferences, Program.pushReference]
    rfl

/-- The slots of a registration refer to the references that it adds. -/
theorem forall₂_slotsFrom {P : Program σ} {n : Nat} {ps : List Parameter}
    (h : ∀ j, P.reference? ⟨n + j⟩ = (ps.map Parameter.slotReference)[j]?) :
    List.Forall₂ (fun slot p => P.reference? slot = some p.slotReference)
      ((slotsFrom n ps).map Slot.reference) ps := by
  induction ps generalizing n with
  | nil => exact .nil
  | cons p ps ih =>
    apply List.Forall₂.cons
    · exact h 0
    · apply ih
      intro j
      have hj := h (j + 1)
      rwa [← Nat.add_assoc, Nat.add_right_comm] at hj

/-- The slots of an entry as parameters, that of the result first. -/
def Entry.slots (e : Entry) : List Parameter := ⟨resultName, e.resultTy, e.comment⟩ :: e.parameters

/-- The function of an entry, its slots from an index on. -/
def Entry.toFunction (e : Entry) (n : Nat) : Function σ :=
  ⟨e.name, ⟨⟨⟨n⟩, e.comment⟩, slotsFrom (n + 1) e.parameters⟩, .native (.ofPure e.apply), false⟩

/-- A registered entry uses the slots from the first free id on, one after another. -/
theorem references_toFunction (e : Entry) (n : Nat) :
    (e.toFunction n : Function σ).signature.references =
      (List.range' n e.slots.length).map ReferenceId.mk :=
  map_reference_slotsFrom n e.slots

/-- The check of a signature accepts the slots of an entry, which are all new. -/
theorem checkSlots_toFunction (e : Entry) (P : Program σ) :
    (P.addReferences (e.slots.map Parameter.slotReference)).checkSlots e.name []
      (e.toFunction P.references.size : Function σ).signature.references = .ok () := by
  rw [references_toFunction]
  apply Program.checkSlots_of_nodup
  · intro id hid
    obtain ⟨n, hn, rfl⟩ := List.mem_map.mp hid
    obtain ⟨j, hj, rfl⟩ := List.mem_range'.mp hn
    rw [Nat.one_mul, Program.reference?_addReferences, List.getElem?_map,
      List.getElem?_eq_getElem hj]
    exact ⟨_, rfl, rfl⟩
  · apply List.Nodup.map
    · exact fun m n h => congrArg ReferenceId.index h
    · exact List.nodup_range'
  · simp

/-- An entry can be registered in any program. -/
theorem define_apply (e : Entry) (P : Program σ) :
    define e P = .ok ⟨P.functions.size⟩
      ((P.addReferences (e.slots.map Parameter.slotReference)).pushFunction
        (e.toFunction P.references.size)) := by
  let result : Reference := .variableSlot resultName e.resultTy
  have hresult : Build.addVariable resultName e.resultTy P =
      .ok ⟨P.references.size⟩ (P.pushReference result) := rfl
  have hsize : (P.pushReference result).references.size = P.references.size + 1 :=
    Array.size_push result
  have hreferences : (P.pushReference result).addReferences
      (e.parameters.map Parameter.slotReference) =
        P.addReferences (e.slots.map Parameter.slotReference) := by
    simp [Program.addReferences, Program.pushReference, Entry.slots, Parameter.slotReference,
      result]
  have hcheck := checkSlots_toFunction e P
  unfold Entry.toFunction at hcheck
  rw [define, Build.bind_apply hresult, Build.bind_apply (addParameters_apply _ _), hreferences,
    Build.defineNative, Build.addFunction_apply, hsize, hcheck]
  rfl

/-- Registering an entry always succeeds, and the entry is then held under the next function id. -/
theorem define_gains (e : Entry) (P : Program σ) :
    ∃ P', define e P = .ok ⟨P.functions.size⟩ P' ∧ P.Gains P' [⟨P.functions.size⟩] [e] := by
  refine ⟨_, define_apply e P, ?_⟩
  let P' := (P.addReferences (e.slots.map Parameter.slotReference)).pushFunction
    (e.toFunction P.references.size)
  have hslots : List.Forall₂ (fun slot p => P'.reference? slot = some p.slotReference)
      (e.toFunction P.references.size : Function σ).signature.references e.slots :=
    forall₂_slotsFrom (P.reference?_addReferences _)
  have hty : List.Forall₂ (fun slot (p : Parameter) => P'.ty? slot = some p.ty)
      (e.toFunction P.references.size : Function σ).signature.references e.slots :=
    hslots.imp fun _ _ hr => Program.ty?_eq_some.mpr ⟨_, hr, rfl⟩
  obtain ⟨hresult, hparameters⟩ := List.forall₂_cons.mp hty
  have hholds : P'.Holds ⟨P.functions.size⟩ e (e.toFunction P.references.size) :=
    { function := Array.getElem?_push_size, name := rfl, body := rfl, isUncacheable := rfl,
      result := hresult, parameters := hparameters }
  constructor
  · constructor
    · exact fun id r hr => Program.reference?_addReferences_of_some hr
    · exact fun id f hf => Program.function?_pushFunction_of_some hf
  · rfl
  · exact Array.size_push _
  · exact .cons ⟨_, hholds⟩ .nil

/-! ## Registering entries one after another -/

/-- On any program at all, an operation registers entries and answers something that stands in a
relation to their identities. -/
def Registers (x : Build σ α) (R : α → List FunctionId → Prop) (es : List Entry) : Prop :=
  ∀ P, ∃ a P' ids, x P = .ok a P' ∧ P.Gains P' ids es ∧ R a ids

namespace Registers

variable {R : β → List FunctionId → Prop} {S : α → List FunctionId → Prop} {es es' : List Entry}

protected theorem pure {b : β} (h : R b []) : Registers (pure b : Build σ β) R [] :=
  fun P => ⟨b, P, [], rfl, .refl P, h⟩

/-- Registrations in sequence: the ids and the entries of the second follow those of the first. -/
protected theorem bind {x : Build σ α} {f : α → Build σ β} (hx : Registers x S es)
    (hf : ∀ a ids, S a ids → Registers (f a) (fun b ids' => R b (ids ++ ids')) es') :
    Registers (x >>= f) R (es ++ es') := by
  intro P
  obtain ⟨a, P', ids, hrun, hgains, hS⟩ := hx P
  obtain ⟨b, P'', ids', hrun', hgains', hR⟩ := hf a ids hS P'
  refine ⟨b, P'', ids ++ ids', ?_, hgains.trans hgains', hR⟩
  rw [Build.bind_apply hrun, hrun']

/-- One entry is registered under the one id that is answered. -/
theorem define (e : Entry) :
    Registers (define e : Build σ FunctionId) (fun id ids => ids = [id]) [e] := by
  intro P
  obtain ⟨P', hrun, hgains⟩ := define_gains e P
  exact ⟨_, P', _, hrun, hgains, rfl⟩

end Registers

/-- The identities of a pack in order of registration. -/
def LogicIds.toList (l : LogicIds) : List FunctionId := [l.and, l.or, l.not]

@[inherit_doc LogicIds.toList]
def NumberIds.toList (n : NumberIds) : List FunctionId := [n.add, n.subtract, n.lessThan, n.equal]

@[inherit_doc LogicIds.toList]
def SequenceIds.toList (s : SequenceIds) : List FunctionId :=
  [s.length, s.shorterThan, s.element, s.first, s.skip]

/-- The identities of the whole library in order of registration. -/
def StandardIds.toList (s : StandardIds) : List FunctionId :=
  s.logic.toList ++ s.numbers.toList ++ s.sequences.toList

/-- The pack of logic registers its entries under the ids it answers. -/
theorem registerLogic_registers :
    Registers (registerLogic : Build σ LogicIds) (fun l ids => ids = l.toList) Entry.logic := by
  refine .bind (.define .and) fun _ _ hand => .bind (.define .or) fun _ _ hor =>
    .bind (.define .not) fun _ _ hnot => .pure ?_
  simp [hand, hor, hnot, LogicIds.toList]

theorem registerNumbers_registers :
    Registers (registerNumbers : Build σ NumberIds) (fun n ids => ids = n.toList)
      Entry.numbers := by
  refine .bind (.define .add) fun _ _ hadd => .bind (.define .subtract) fun _ _ hsubtract =>
    .bind (.define .lessThan) fun _ _ hlessThan => .bind (.define .equal) fun _ _ hequal =>
      .pure ?_
  simp [hadd, hsubtract, hlessThan, hequal, NumberIds.toList]

theorem registerSequences_registers (kind : Kind) :
    Registers (registerSequences kind : Build σ SequenceIds) (fun s ids => ids = s.toList)
      (Entry.sequences kind) := by
  refine .bind (.define (.length kind)) fun _ _ hlength =>
    .bind (.define (.shorterThan kind)) fun _ _ hshorterThan =>
      .bind (.define (.element kind)) fun _ _ helement =>
        .bind (.define (.first kind)) fun _ _ hfirst =>
          .bind (.define (.skip kind)) fun _ _ hskip => .pure ?_
  simp [hlength, hshorterThan, helement, hfirst, hskip, SequenceIds.toList]

/-- The whole library registers its entries under the ids it answers. -/
theorem registerStandard_registers (kind : Kind) :
    Registers (registerStandard kind : Build σ StandardIds) (fun s ids => ids = s.toList)
      (Entry.standard kind) := by
  show Registers _ _ (Entry.logic ++ (Entry.numbers ++ (Entry.sequences kind ++ [])))
  refine .bind registerLogic_registers fun _ _ hlogic =>
    .bind registerNumbers_registers fun _ _ hnumbers =>
      .bind (registerSequences_registers kind) fun _ _ hsequences => .pure ?_
  simp [hlogic, hnumbers, hsequences, StandardIds.toList]

end Library

end Rulebook

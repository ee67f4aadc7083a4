import Rulebook.Proofs.Eval.Discipline
import Rulebook.Proofs.Library.Registration
import Rulebook.Proofs.Value.Fits

/-!
# Types of library functions

Every library function answers a value of its declared type on all arguments of the declared types,
whatever the numbers and however long the sequences. Only `element` and `first` may answer the
out-of-range error in its place. None breaks a contract on such arguments
(`Program.library_keeps_types`).
-/

namespace Rulebook

variable {σ α : Type}

/-! ## Values that fit, by their types -/

namespace Value.Fits

variable {v : Value} {kind : Kind}

/-- A value that fits the truth values is one of the two. -/
theorem eq_bool (h : v.Fits (.single .boolean)) : ∃ b, v = .bool b := by
  cases h with
  | bool b => exact ⟨b, rfl⟩
  | handle hkind =>
    -- Boolean is not a handle kind
    cases hkind

/-- A value that fits the numbers is an integer or a float. -/
theorem eq_toValue (h : v.Fits (.single .number)) : ∃ n : Library.Numeric, v = n.toValue := by
  cases h with
  | int n => exact ⟨.int n, rfl⟩
  | float x => exact ⟨.float x, rfl⟩
  | handle hkind => cases hkind

/-- A value that fits a collection is a sequence of values that fit its kind. -/
theorem eq_sequence (h : v.Fits (.collection kind)) :
    ∃ items, v = ⟨.collection kind, .sequence items⟩ ∧ ∀ w ∈ items, w.Fits (.single kind) := by
  cases h with
  | sequence hitems => exact ⟨_, rfl, hitems⟩

end Value.Fits

namespace Library

/-! ## Reading and building -/

/-- A number is read back from its value. -/
@[simp] theorem Numeric.ofValue_toValue (n : Numeric) : ofValue n.toValue = .ok n := by
  cases n <;> rfl

/-- The value of a number fits the numbers. -/
theorem Numeric.toValue_fits (n : Numeric) : n.toValue.Fits (.single .number) := by
  cases n with
  | int n => exact .int n
  | float x => exact .float x

/-- Two numbers are read back from their values, in order. -/
theorem numericPair_toValue (m n : Numeric) : numericPair [m.toValue, n.toValue] = .ok (m, n) := by
  show (do
    let a ← Numeric.ofValue m.toValue
    let b ← Numeric.ofValue n.toValue
    return (a, b)) = _
  simp only [Numeric.ofValue_toValue]
  rfl

/-- Items of one kind make a sequence. -/
theorem sequence_eq_ok {kind : Kind} {items : List Value}
    (h : ∀ w ∈ items, w.ty = .single kind) :
    Value.sequence (.single kind) items = .ok ⟨.collection kind, .sequence items⟩ :=
  Value.sequence_eq_ok_iff.mpr ⟨kind, rfl, h, rfl⟩

/-- The item at an offset, counted from 1. -/
theorem itemAt_sequence (kind : Kind) (items : List Value) (offset : Int64) :
    itemAt ⟨.collection kind, .sequence items⟩ offset =
      .ok (if 0 < offset.toInt then items[offset.toInt.toNat - 1]?.getD .outOfRange
        else .outOfRange) := by
  unfold itemAt
  cases hoffset : offset.toInt.toNat with
  | zero => rw [if_neg (by omega)]
  | succ index =>
    rw [if_pos (by omega)]
    rfl

/-- An element is asked for at a whole offset, and any other offset is out of range. -/
theorem element_toValue (offset : Numeric) (sequence : Value) :
    element [offset.toValue, sequence] =
      match offset.whole? with
      | some n => itemAt sequence n
      | none => .ok .outOfRange := by
  cases offset <;> rfl

/-- To skip is to drop as many items as the count truncates to, and none for a negative count. -/
theorem skip_toValue (kind : Kind) (items : List Value) (count : Numeric) :
    skip [⟨.collection kind, .sequence items⟩, count.toValue] =
      Value.sequence (.single kind) (items.drop count.truncate.toInt.toNat) := by
  cases count <;> rfl

/-! ## Entries -/

/-- The functions that look for one item of a sequence, which may not have it. -/
def MayMiss (name : String) : Prop := name = "element" ∨ name = "first"

/-- On arguments that fit its parameters an entry answers a value that fits its result type, or the
out-of-range error if it may. -/
def Entry.Typed (e : Entry) : Prop :=
  ∀ arguments, List.Forall₂ (fun v (p : Parameter) => v.Fits p.ty) arguments e.parameters →
    ∃ v, e.apply arguments = .ok v ∧ (v.Fits e.resultTy ∨ MayMiss e.name ∧ v = .outOfRange)

namespace Entry

/-- To type an entry of two parameters, look at any two values that fit them. -/
theorem typed_of_two {e : Entry} {p q : Parameter} (hparameters : e.parameters = [p, q])
    (h : ∀ v w : Value, v.Fits p.ty → w.Fits q.ty →
      ∃ x, e.apply [v, w] = .ok x ∧ (x.Fits e.resultTy ∨ MayMiss e.name ∧ x = .outOfRange)) :
    e.Typed := by
  intro arguments hfits
  rw [hparameters] at hfits
  obtain _ | ⟨hv, _ | ⟨hw, _ | _⟩⟩ := hfits
  exact h _ _ hv hw

/-- To type an entry of one parameter, look at any value that fits it. -/
theorem typed_of_one {e : Entry} {p : Parameter} (hparameters : e.parameters = [p])
    (h : ∀ v : Value, v.Fits p.ty →
      ∃ x, e.apply [v] = .ok x ∧ (x.Fits e.resultTy ∨ MayMiss e.name ∧ x = .outOfRange)) :
    e.Typed := by
  intro arguments hfits
  rw [hparameters] at hfits
  obtain _ | ⟨hv, _ | _⟩ := hfits
  exact h _ hv

theorem typed_and : Entry.and.Typed := by
  apply typed_of_two rfl
  intro v w hv hw
  obtain ⟨a, rfl⟩ := hv.eq_bool
  obtain ⟨b, rfl⟩ := hw.eq_bool
  cases a with
  | false => exact ⟨.bool false, rfl, .inl (.bool false)⟩
  | true => exact ⟨.bool b, rfl, .inl (.bool b)⟩

theorem typed_or : Entry.or.Typed := by
  apply typed_of_two rfl
  intro v w hv hw
  obtain ⟨a, rfl⟩ := hv.eq_bool
  obtain ⟨b, rfl⟩ := hw.eq_bool
  cases a with
  | false => exact ⟨.bool b, rfl, .inl (.bool b)⟩
  | true => exact ⟨.bool true, rfl, .inl (.bool true)⟩

theorem typed_not : Entry.not.Typed := by
  apply typed_of_one rfl
  intro v hv
  obtain ⟨a, rfl⟩ := hv.eq_bool
  exact ⟨.bool !a, rfl, .inl (.bool _)⟩

/-- A function of two numbers is typed if all its answers fit its result type. -/
theorem typed_ofNumbers {name comment between : String} {resultTy : Ty}
    {apply : List Value → Except Violation Value} (answer : Numeric → Numeric → Value)
    (happly : ∀ m n : Numeric, apply [m.toValue, n.toValue] = .ok (answer m n))
    (hanswer : ∀ m n, (answer m n).Fits resultTy) :
    (ofNumbers name resultTy comment between apply).Typed := by
  apply typed_of_two rfl
  intro v w hv hw
  obtain ⟨m, rfl⟩ := hv.eq_toValue
  obtain ⟨n, rfl⟩ := hw.eq_toValue
  exact ⟨answer m n, happly m n, .inl (hanswer m n)⟩

theorem typed_add : Entry.add.Typed := by
  apply typed_ofNumbers (fun m n => (m.add n).toValue)
  · intro m n
    rw [sum, numericPair_toValue]
    rfl
  · exact fun m n => (m.add n).toValue_fits

theorem typed_subtract : Entry.subtract.Typed := by
  apply typed_ofNumbers (fun m n => (m.sub n).toValue)
  · intro m n
    rw [difference, numericPair_toValue]
    rfl
  · exact fun m n => (m.sub n).toValue_fits

theorem typed_lessThan : Entry.lessThan.Typed := by
  apply typed_ofNumbers (fun m n => .bool (m.lt n))
  · intro m n
    rw [Library.lessThan, numericPair_toValue]
    rfl
  · exact fun m n => .bool (m.lt n)

theorem typed_equal : Entry.equal.Typed := by
  apply typed_ofNumbers (fun m n => .bool (m.eq n))
  · intro m n
    rw [Library.equal, numericPair_toValue]
    rfl
  · exact fun m n => .bool (m.eq n)

theorem typed_length (kind : Kind) : (Entry.length kind).Typed := by
  apply typed_of_one rfl
  intro v hv
  obtain ⟨items, rfl, -⟩ := hv.eq_sequence
  exact ⟨_, rfl, .inl (.int _)⟩

theorem typed_shorterThan (kind : Kind) : (Entry.shorterThan kind).Typed := by
  apply typed_of_two rfl
  intro v w hv hw
  obtain ⟨items, rfl, -⟩ := hv.eq_sequence
  obtain ⟨count, rfl⟩ := hw.eq_toValue
  cases count with
  | int count => exact ⟨_, rfl, .inl (.bool _)⟩
  | float count => exact ⟨_, rfl, .inl (.bool _)⟩

/-- An item of a sequence that fits, or the error that stands for one it does not have. -/
theorem getD_outOfRange_fits {kind : Kind} {items : List Value}
    (hitems : ∀ w ∈ items, w.Fits (.single kind)) (index : Nat) :
    (items[index]?.getD .outOfRange).Fits (.single kind) ∨
      items[index]?.getD .outOfRange = .outOfRange := by
  cases hitem : items[index]? with
  | none => exact .inr rfl
  | some w => exact .inl (hitems w (List.mem_of_getElem? hitem))

/-- `element` answers an item of the sequence, or that the offset is out of range. -/
theorem typed_element (kind : Kind) : (Entry.element kind).Typed := by
  apply typed_of_two rfl
  intro v w hv hw
  obtain ⟨offset, rfl⟩ := hv.eq_toValue
  obtain ⟨items, rfl, hitems⟩ := hw.eq_sequence
  show ∃ x, Library.element [offset.toValue, ⟨.collection kind, .sequence items⟩] = .ok x ∧ _
  rw [element_toValue]
  cases offset.whole? with
  | none => exact ⟨_, rfl, .inr ⟨.inl rfl, rfl⟩⟩
  | some n =>
    dsimp only
    rw [itemAt_sequence]
    by_cases hn : 0 < n.toInt
    · rw [if_pos hn]
      exact ⟨_, rfl, (getD_outOfRange_fits hitems _).imp_right fun h => ⟨.inl rfl, h⟩⟩
    · rw [if_neg hn]
      exact ⟨_, rfl, .inr ⟨.inl rfl, rfl⟩⟩

/-- `first` answers the first item, or that an empty sequence has none. -/
theorem typed_first (kind : Kind) : (Entry.first kind).Typed := by
  apply typed_of_one rfl
  intro v hv
  obtain ⟨items, rfl, hitems⟩ := hv.eq_sequence
  refine ⟨items[0]?.getD .outOfRange, rfl, ?_⟩
  exact (getD_outOfRange_fits hitems 0).imp_right fun h => ⟨.inr rfl, h⟩

/-- `skip` answers a sequence of items that the given one has, so they fit the same kind. -/
theorem typed_skip (kind : Kind) : (Entry.skip kind).Typed := by
  apply typed_of_two rfl
  intro v w hv hw
  obtain ⟨items, rfl, hitems⟩ := hv.eq_sequence
  obtain ⟨count, rfl⟩ := hw.eq_toValue
  have hrest : ∀ x ∈ items.drop count.truncate.toInt.toNat, x.Fits (.single kind) :=
    fun x hx => hitems x (List.mem_of_mem_drop hx)
  refine ⟨⟨.collection kind, .sequence (items.drop count.truncate.toInt.toNat)⟩, ?_, ?_⟩
  · show Library.skip _ = _
    rw [skip_toValue, sequence_eq_ok fun x hx => (hrest x hx).ty_eq]
  · exact .inl (.sequence hrest)

/-- Every entry of the pack of logic is typed. -/
theorem typed_of_mem_logic {e : Entry} (he : e ∈ Entry.logic) : e.Typed := by
  simp only [Entry.logic, List.mem_cons, List.not_mem_nil, or_false] at he
  rcases he with rfl | rfl | rfl
  exacts [typed_and, typed_or, typed_not]

/-- Every entry of the pack of numbers is typed. -/
theorem typed_of_mem_numbers {e : Entry} (he : e ∈ Entry.numbers) : e.Typed := by
  simp only [Entry.numbers, List.mem_cons, List.not_mem_nil, or_false] at he
  rcases he with rfl | rfl | rfl | rfl
  exacts [typed_add, typed_subtract, typed_lessThan, typed_equal]

/-- Every entry of the pack of sequences is typed, for any kind of items. -/
theorem typed_of_mem_sequences {kind : Kind} {e : Entry} (he : e ∈ Entry.sequences kind) :
    e.Typed := by
  simp only [Entry.sequences, List.mem_cons, List.not_mem_nil, or_false] at he
  rcases he with rfl | rfl | rfl | rfl | rfl
  exacts [typed_length kind, typed_shorterThan kind, typed_element kind, typed_first kind,
    typed_skip kind]

/-- Every entry of the library is typed. -/
theorem typed_of_mem_standard {kind : Kind} {e : Entry} (he : e ∈ Entry.standard kind) :
    e.Typed := by
  simp only [Entry.standard, List.mem_append] at he
  rcases he with (he | he) | he
  · exact typed_of_mem_logic he
  · exact typed_of_mem_numbers he
  · exact typed_of_mem_sequences he

end Entry

end Library

/-! ## Registered functions -/

namespace Program

/-- A function of the host answers a value that fits its declared result type on all arguments that
fit its declared parameter types; `element` and `first` may answer the out-of-range error in its
place. -/
def KeepsTypes (P : Program σ) (id : FunctionId) : Prop :=
  ∃ f run ty, P.function? id = some f ∧ f.body = .native run ∧
    P.ty? f.signature.result.reference = some ty ∧
    ∀ arguments host, P.Takes (fun ty v => v.Fits ty) f arguments →
      ∃ v, (run arguments host).1 = .ok v ∧
        (v.Fits ty ∨ (f.name = "element" ∨ f.name = "first") ∧ v = .error "OUT OF RANGE")

variable {P : Program σ} {id : FunctionId} {e : Library.Entry} {f : Function σ}

/-- Arguments that fit the slots of an entry's function fit the entry's parameters. -/
theorem Holds.fits_of_takes (h : P.Holds id e f) {arguments : List Value}
    (harguments : P.Takes (fun ty v => v.Fits ty) f arguments) :
    List.Forall₂ (fun v (p : Library.Parameter) => v.Fits p.ty) arguments e.parameters := by
  have hparameters := h.parameters
  unfold Takes at harguments
  generalize f.signature.parameterIds = slots at harguments hparameters
  generalize e.parameters = parameters at hparameters ⊢
  induction harguments generalizing parameters with
  | nil =>
    cases hparameters
    exact .nil
  | cons hv _ ih =>
    obtain ⟨ty, hty, hfits⟩ := hv
    cases hparameters with
    | cons hp hrest =>
      obtain rfl := Option.some.inj (hty.symm.trans hp)
      exact .cons hfits (ih _ hrest)

/-- A function that holds a typed entry keeps the types of its signature. -/
theorem Holds.keepsTypes (h : P.Holds id e f) (he : e.Typed) : P.KeepsTypes id := by
  refine ⟨f, .ofPure e.apply, e.resultTy, h.function, h.body, h.result, ?_⟩
  intro arguments host harguments
  rw [h.name]
  exact he arguments (h.fits_of_takes harguments)

end Program

/-- A registration succeeds on any program, and what it registers keeps its types. -/
theorem Library.Registers.keepsTypes {x : Build σ α} {toList : α → List FunctionId}
    {es : List Library.Entry} (h : Registers x (fun a ids => ids = toList a) es)
    (hes : ∀ e ∈ es, e.Typed) (P : Program σ) :
    ∃ a P', x P = .ok a P' ∧ ∀ id ∈ toList a, P'.KeepsTypes id := by
  obtain ⟨a, P', ids, hrun, hgains, rfl⟩ := h P
  refine ⟨a, P', hrun, fun id hid => ?_⟩
  obtain ⟨e, he, f, hf⟩ := hgains.exists_holds hid
  exact hf.keepsTypes (hes e he)

open Library in
/-- The library keeps its declared types and breaks no contract on arguments of the declared types.
Each pack can be registered in any program, for items of any kind, and then each of its functions
answers every list of arguments that fit its parameters with a value that fits its result type;
only `element` and `first` may answer the out-of-range error in its place. -/
theorem Program.library_keeps_types (P : Program σ) (kind : Kind) :
    (∃ ids P', registerLogic P = .ok ids P' ∧ ∀ id ∈ ids.toList, P'.KeepsTypes id) ∧
    (∃ ids P', registerNumbers P = .ok ids P' ∧ ∀ id ∈ ids.toList, P'.KeepsTypes id) ∧
    (∃ ids P', registerSequences kind P = .ok ids P' ∧ ∀ id ∈ ids.toList, P'.KeepsTypes id) ∧
    ∃ ids P', registerStandard kind P = .ok ids P' ∧ ∀ id ∈ ids.toList, P'.KeepsTypes id := by
  refine ⟨?_, ?_, ?_, ?_⟩
  · exact registerLogic_registers.keepsTypes (fun _ => Entry.typed_of_mem_logic) P
  · exact registerNumbers_registers.keepsTypes (fun _ => Entry.typed_of_mem_numbers) P
  · exact (registerSequences_registers kind).keepsTypes
      (fun _ => Entry.typed_of_mem_sequences) P
  · exact (registerStandard_registers kind).keepsTypes (fun _ => Entry.typed_of_mem_standard) P

end Rulebook

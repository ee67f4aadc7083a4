import Mathlib.Data.List.Forall2
import Mathlib.Data.Set.Card
import Rulebook.Equality
import Rulebook.Eval.State

/-!
# Equality as a key

Equality of values is decided by a recursion over types, payloads and items, and hashes by another.
Memoized results and sets of values rely on both: equality has to be an equivalence that hashes
respect. Then a hash set keeps one member of each class of equal members (`encard_classes`). The
main statement, `Value.equality_sound`, says so of values, of payloads and of invocations, beside
what equality means for each.
-/

namespace Rulebook

/-! ## Classes of equal members -/

section Classes

variable {α : Type} [BEq α]

/-- The members of a list that are equal to `x`. -/
def classOf (xs : List α) (x : α) : Set α := {y | y ∈ xs ∧ (y == x) = true}

/-- The classes of equal members of a list. -/
def classes (xs : List α) : Set (Set α) := {c | ∃ x ∈ xs, c = classOf xs x}

/-- Equal members are in the same class. -/
theorem classOf_eq_of_beq [EquivBEq α] {xs : List α} {x y : α} (h : (x == y) = true) :
    classOf xs x = classOf xs y := by
  ext z
  unfold classOf
  constructor
  · rintro ⟨hz, hzx⟩
    exact ⟨hz, BEq.trans hzx h⟩
  · rintro ⟨hz, hzy⟩
    exact ⟨hz, BEq.trans hzy (BEq.symm h)⟩

variable [Hashable α] [EquivBEq α] [LawfulHashable α]

/-- A set of the members of a list keeps only what equals a member, -/
theorem exists_beq_of_mem_toList {xs : List α} {r : α} (h : r ∈ (Std.HashSet.ofList xs).toList) :
    ∃ x ∈ xs, (r == x) = true := by
  have hcontains : (Std.HashSet.ofList xs).toList.contains r = true :=
    List.contains_iff_exists_mem_beq.mpr ⟨r, h, BEq.refl r⟩
  rw [Std.HashSet.contains_toList, Std.HashSet.contains_ofList] at hcontains
  exact List.contains_iff_exists_mem_beq.mp hcontains

/-- and for every member something that equals it. -/
theorem exists_mem_toList_of_mem {xs : List α} {x : α} (h : x ∈ xs) :
    ∃ r ∈ (Std.HashSet.ofList xs).toList, (x == r) = true := by
  have hcontains : xs.contains x = true :=
    List.contains_iff_exists_mem_beq.mpr ⟨x, h, BEq.refl x⟩
  rw [← Std.HashSet.contains_ofList, ← Std.HashSet.contains_toList] at hcontains
  exact List.contains_iff_exists_mem_beq.mp hcontains

/-- What a set keeps stands for the classes of the list. -/
theorem classes_eq_image (xs : List α) :
    classes xs = classOf xs '' {r | r ∈ (Std.HashSet.ofList xs).toList} := by
  ext c
  constructor
  · rintro ⟨x, hx, rfl⟩
    obtain ⟨r, hr, hxr⟩ := exists_mem_toList_of_mem hx
    exact ⟨r, hr, (classOf_eq_of_beq hxr).symm⟩
  · rintro ⟨r, hr, rfl⟩
    obtain ⟨x, hx, hrx⟩ := exists_beq_of_mem_toList hr
    exact ⟨x, hx, classOf_eq_of_beq hrx⟩

/-- No two that a set keeps stand for one class. -/
theorem injOn_classOf (xs : List α) :
    Set.InjOn (classOf xs) {r | r ∈ (Std.HashSet.ofList xs).toList} := by
  intro r hr s hs heq
  have hrs : (r == s) = true := by
    obtain ⟨x, hx, hrx⟩ := exists_beq_of_mem_toList hr
    have hmem : x ∈ classOf xs s := heq ▸ ⟨hx, BEq.symm hrx⟩
    exact BEq.trans hrx hmem.2
  have hsymm : Std.Symm fun a b : α => (a == b) = false := ⟨fun a b h => by rw [BEq.comm, h]⟩
  by_contra hne
  have hdistinct : (r == s) = false := Std.HashSet.distinct_toList.forall hr hs hne
  rw [hrs] at hdistinct
  cases hdistinct

/-- A hash set of the members of a list has as many members as there are classes. -/
theorem encard_classes (xs : List α) : (classes xs).encard = distinctCount xs := by
  classical
  have hnodup : (Std.HashSet.ofList xs).toList.Nodup := by
    apply Std.HashSet.distinct_toList.imp
    intro a b hab heq
    rw [heq, BEq.refl] at hab
    cases hab
  calc (classes xs).encard
      = {r | r ∈ (Std.HashSet.ofList xs).toList}.encard := by
        rw [classes_eq_image, (injOn_classOf xs).encard_image]
    _ = (Std.HashSet.ofList xs).toList.length := by
        rw [← List.coe_toFinset, Set.encard_coe_eq_coe_finsetCard,
          List.toFinset_card_of_nodup hnodup]
    _ = distinctCount xs := by
        rw [Std.HashSet.length_toList]
        rfl

end Classes

/-- The classes of a list do not depend on its order. -/
theorem classes_perm {α : Type} [BEq α] {xs ys : List α} (h : xs.Perm ys) :
    classes xs = classes ys := by
  have hclassOf : ∀ x, classOf xs x = classOf ys x := by
    intro x
    ext y
    unfold classOf
    rw [Set.mem_ofPred_eq, Set.mem_ofPred_eq, h.mem_iff]
  ext c
  unfold classes
  simp only [Set.mem_ofPred_eq, hclassOf, h.mem_iff]

/-- Equality makes sound keys: it is an equivalence that hashes respect, and a hash set keeps as
many members of a list as there are classes of equal ones, in whatever order they come. -/
structure SoundKey (α : Type) [BEq α] [Hashable α] : Prop where
  refl : ∀ x : α, (x == x) = true
  symm : ∀ x y : α, (x == y) = true → (y == x) = true
  trans : ∀ x y z : α, (x == y) = true → (y == z) = true → (x == z) = true
  hash : ∀ x y : α, (x == y) = true → hash x = hash y
  distinct : ∀ xs ys : List α, ys.Perm xs → (distinctCount ys : ℕ∞) = (classes xs).encard

/-- Equality that is an equivalence and that hashes respect is a sound key. -/
theorem SoundKey.of_lawful {α : Type} [BEq α] [Hashable α] [EquivBEq α] [LawfulHashable α] :
    SoundKey α where
  refl _ := BEq.refl _
  symm _ _ := BEq.symm
  trans _ _ _ := BEq.trans
  hash := LawfulHashable.hash_eq
  distinct xs ys h := by rw [← encard_classes ys, classes_perm h]

/-! ## What equality means -/

namespace Value

/-- Payloads of one form with equal contents: floats with the same bits, and sequences whose items
are equal one by one. -/
inductive SamePayload : Payload Value → Payload Value → Prop where
  | bool (b : Bool) : SamePayload (.bool b) (.bool b)
  | int (n : Int64) : SamePayload (.int n) (.int n)
  | float {x y : Binary64} (hbits : x.bits = y.bits) : SamePayload (.float x) (.float y)
  | handle (text : String) : SamePayload (.handle text) (.handle text)
  | sequence {vs ws : List Value} (hitems : List.Forall₂ (fun v w => (v == w) = true) vs ws) :
      SamePayload (.sequence vs) (.sequence ws)

theorem forall₂_beq {vs ws : List Value} :
    List.Forall₂ (fun v w => (v == w) = true) vs ws ↔ vs = ws := by
  simp only [beq_iff_eq, List.forall₂_eq_eq_eq]

/-- Payloads are equal if they have the same form and equal contents. -/
theorem payload_beq_iff {p q : Payload Value} : (p == q) = true ↔ SamePayload p q := by
  rw [beq_iff_eq]
  constructor
  · intro h
    subst h
    cases p with
    | bool b => exact .bool b
    | int n => exact .int n
    | float x => exact .float rfl
    | handle text => exact .handle text
    | sequence items => exact .sequence (forall₂_beq.mpr rfl)
  · intro h
    cases h with
    | bool | int | handle => rfl
    | @float x y hbits =>
      cases x
      cases y
      exact congrArg (Payload.float ∘ Binary64.mk) hbits
    | sequence hitems => rw [forall₂_beq.mp hitems]

/-- Values are equal if their types and their payloads are. -/
theorem beq_iff {v w : Value} :
    (v == w) = true ↔ v.ty = w.ty ∧ SamePayload v.payload w.payload := by
  rw [← payload_beq_iff, beq_iff_eq, beq_iff_eq]
  constructor
  · intro h
    subst h
    exact ⟨rfl, rfl⟩
  · rintro ⟨hty, hpayload⟩
    cases v
    cases w
    exact congrArg₂ Value.mk hty hpayload

end Value

/-- Invocations are equal if their functions and their arguments, in order, are. -/
theorem Invocation.beq_iff {i j : Invocation} :
    (i == j) = true ↔
      i.function = j.function ∧
        List.Forall₂ (fun v w => (v == w) = true) i.arguments j.arguments := by
  rw [Value.forall₂_beq, beq_iff_eq]
  constructor
  · intro h
    subst h
    exact ⟨rfl, rfl⟩
  · rintro ⟨hfunction, harguments⟩
    cases i
    cases j
    exact congrArg₂ Invocation.mk hfunction harguments

/-- Equality of values, of payloads and of invocations makes sound keys, whatever types the values
are marked with, however deep they nest and whatever bits their floats have. Values are equal if
and only if their types are and their payloads have one form and equal contents, floats by their
bits and sequences item by item; invocations if and only if they call one function on equal
arguments. -/
theorem Value.equality_sound :
    SoundKey Value ∧ SoundKey (Payload Value) ∧ SoundKey Invocation ∧
    (∀ v w : Value, (v == w) = true ↔ v.ty = w.ty ∧ SamePayload v.payload w.payload) ∧
    (∀ p q : Payload Value, (p == q) = true ↔ SamePayload p q) ∧
    ∀ i j : Invocation, (i == j) = true ↔
      i.function = j.function ∧
        List.Forall₂ (fun v w => (v == w) = true) i.arguments j.arguments := by
  refine ⟨.of_lawful, .of_lawful, .of_lawful, ?_, ?_, ?_⟩
  · intro v w
    exact beq_iff
  · intro p q
    exact payload_beq_iff
  · intro i j
    exact Invocation.beq_iff

/-- The two zeros are different values. -/
example : (Value.float ⟨0⟩ == Value.float ⟨UInt64.ofNat Binary64.signBit⟩) = false := by decide

end Rulebook

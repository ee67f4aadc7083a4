import Rulebook.Proofs.Library.Typing

/-!
# Laws of the sequence functions

`length`, `shorterthan`, `element`, `first` and `skip` count from 1, take 64-bit offsets and counts
and convert between them and positions in a list, each on its own. On a sequence value they are
nevertheless the list functions (`skip` is `List.drop` and `element` is `List.get` one place on), so
the laws of lists tie them together (`sequence_laws`): a length after skipping, an item after
skipping, skipping twice, and taking a sequence apart at its first item. No offset or count is left
out, neither negative ones nor the limits of the range.
-/

namespace Rulebook.Library

/-- The sequence value of items of a kind. -/
def sequenceOf (kind : Kind) (items : List Value) : Value := ⟨.collection kind, .sequence items⟩

variable {kind : Kind} {items : List Value}

/-! ## The functions on a list of items -/

/-- A length in 64 bits is the length if it is in range. -/
theorem toInt_ofNat_length (h : (items.length : Int) ≤ int64Max) :
    (Int64.ofNat items.length).toInt = items.length := by
  unfold int64Max at h
  exact Int64.toInt_ofNat_of_lt (by omega)

theorem length_sequenceOf (kind : Kind) (items : List Value) :
    length [sequenceOf kind items] = .ok (.int (Int64.ofNat items.length)) := rfl

/-- Skipping drops as many items as the count says, and none for a negative count. -/
theorem skip_sequenceOf (hitems : ∀ w ∈ items, w.ty = .single kind) (k : Int64) :
    skip [sequenceOf kind items, .int k] = .ok (sequenceOf kind (items.drop k.toInt.toNat)) := by
  have hrest : ∀ w ∈ items.drop k.toInt.toNat, w.ty = .single kind :=
    fun w hw => hitems w (List.mem_of_mem_drop hw)
  show skip [sequenceOf kind items, (Numeric.int k).toValue] = _
  unfold sequenceOf
  rw [skip_toValue]
  exact sequence_eq_ok hrest

/-- The item at a positive offset is that at the index one less, if there is one. -/
theorem element_sequenceOf (kind : Kind) (items : List Value) (i : Int64) :
    element [.int i, sequenceOf kind items] =
      .ok (if 1 ≤ i.toInt then items[i.toInt.toNat - 1]?.getD .outOfRange else .outOfRange) := by
  show element [(Numeric.int i).toValue, sequenceOf kind items] = _
  rw [element_toValue]
  exact itemAt_sequence kind items i

/-- The first item is that at offset 1. -/
theorem first_sequenceOf (kind : Kind) (items : List Value) :
    first [sequenceOf kind items] = element [.int 1, sequenceOf kind items] := rfl

/-! ## The laws -/

/-- Offsets from 1 to the length have an item, and the others have none. -/
theorem element_sequenceOf_of_length (kind : Kind) (items : List Value) (i : Int64) :
    element [.int i, sequenceOf kind items] =
      .ok (if h : 1 ≤ i.toInt ∧ i.toInt ≤ items.length then items[i.toInt.toNat - 1]
        else .outOfRange) := by
  rw [element_sequenceOf]
  by_cases hpos : 1 ≤ i.toInt
  · rw [if_pos hpos]
    by_cases hle : i.toInt ≤ items.length
    · have hindex : i.toInt.toNat - 1 < items.length := by omega
      rw [dif_pos ⟨hpos, hle⟩, List.getElem?_eq_getElem hindex]
      rfl
    · have hindex : items.length ≤ i.toInt.toNat - 1 := by omega
      rw [dif_neg fun h => hle h.2, List.getElem?_eq_none hindex]
      rfl
  · rw [if_neg hpos, dif_neg fun h => hpos h.1]

/-- What is left after skipping is as long as the items that are not skipped. -/
theorem toInt_length_drop (h : (items.length : Int) ≤ int64Max) (k : Int64) :
    (Int64.ofNat (items.drop k.toInt.toNat).length).toInt =
      max 0 ((items.length : Int) - max k.toInt 0) := by
  have hdrop : (items.drop k.toInt.toNat).length = items.length - k.toInt.toNat :=
    List.length_drop
  have hle : ((items.drop k.toInt.toNat).length : Int) ≤ int64Max := by omega
  rw [toInt_ofNat_length hle, hdrop]
  omega

/-- An item of what is left after skipping stands as many places later in the whole sequence. -/
theorem element_drop {i j k : Int64} (hi : 1 ≤ i.toInt) (hj : j.toInt = i.toInt + max k.toInt 0) :
    element [.int i, sequenceOf kind (items.drop k.toInt.toNat)] =
      element [.int j, sequenceOf kind items] := by
  have hindex : k.toInt.toNat + (i.toInt.toNat - 1) = j.toInt.toNat - 1 := by omega
  have hj1 : 1 ≤ j.toInt := by omega
  rw [element_sequenceOf, element_sequenceOf, if_pos hi, if_pos hj1, List.getElem?_drop, hindex]

/-- Skipping twice skips the sum. -/
theorem drop_drop_toNat {a b c : Int64} (hc : c.toInt = max a.toInt 0 + max b.toInt 0) :
    (items.drop a.toInt.toNat).drop b.toInt.toNat = items.drop c.toInt.toNat := by
  have hcount : a.toInt.toNat + b.toInt.toNat = c.toInt.toNat := by omega
  rw [List.drop_drop, hcount]

/-- Comparing the length with a number is a comparison of numbers. -/
theorem shorterThan_sequenceOf (h : (items.length : Int) ≤ int64Max) (c : Numeric) :
    shorterThan [sequenceOf kind items, c.toValue] =
      lessThan [.int (Int64.ofNat items.length), c.toValue] := by
  have hpair : numericPair [.int (Int64.ofNat items.length), c.toValue] =
      .ok (.int (Int64.ofNat items.length), c) :=
    numericPair_toValue (.int (Int64.ofNat items.length)) c
  have hlength := toInt_ofNat_length h
  unfold lessThan
  rw [hpair]
  cases c with
  | int c => rfl
  | float c =>
    show Except.ok (Value.bool ((Binary64.ofInt items.length).lt c)) =
      .ok (.bool ((Binary64.ofInt (Int64.ofNat items.length).toInt).lt c))
    rw [hlength]

/-- The sequence functions are the list functions on every sequence value `s` that the constructor
builds of items of one kind, as long as its length is in range. With `k⁺` for `max k 0`: `length s`
is the number of items; `skip s k` keeps the type and has length `max 0 (length s - k⁺)`;
`element i s` is the item with number `i`, or the out-of-range error; `element i (skip s k)` is
`element (i + k⁺) s` for a positive `i`, and `skip (skip s a) b` is `skip s (a⁺ + b⁺)`, where the
sum is in range; `first s` is `element 1 s`, and an `s` that is not empty is `first s` followed by
the items of `skip s 1`; `shorterthan s c` is `lessthan (length s) c` for every number `c`. -/
theorem sequence_laws {s : Value} (hs : Value.sequence (.single kind) items = .ok s)
    (hlength : (items.length : Int) ≤ int64Max) :
    (∃ n : Int64, length [s] = .ok (.int n) ∧ n.toInt = items.length ∧
      ∀ c : Numeric, shorterThan [s, c.toValue] = lessThan [.int n, c.toValue]) ∧
    (∀ k : Int64, ∃ rest, skip [s, .int k] = .ok rest ∧ rest.ty = s.ty ∧
      (∃ n : Int64, length [rest] = .ok (.int n) ∧
        n.toInt = max 0 ((items.length : Int) - max k.toInt 0)) ∧
      (∀ i j : Int64, 1 ≤ i.toInt → j.toInt = i.toInt + max k.toInt 0 →
        element [.int i, rest] = element [.int j, s]) ∧
      ∀ b c : Int64, c.toInt = max k.toInt 0 + max b.toInt 0 →
        skip [rest, .int b] = skip [s, .int c]) ∧
    (∀ i : Int64, element [.int i, s] =
      .ok (if h : 1 ≤ i.toInt ∧ i.toInt ≤ items.length then items[i.toInt.toNat - 1]
        else .error "OUT OF RANGE")) ∧
    first [s] = element [.int 1, s] ∧
    (items ≠ [] → ∃ head rest tail, first [s] = .ok head ∧ skip [s, .int 1] = .ok rest ∧
      rest.asSequence = .ok tail ∧ items = head :: tail) := by
  obtain ⟨_, ⟨⟩, hitems, rfl⟩ := Value.sequence_eq_ok_iff.mp hs
  have hrest : ∀ (k : Int64), ∀ w ∈ items.drop k.toInt.toNat, w.ty = .single kind :=
    fun k w hw => hitems w (List.mem_of_mem_drop hw)
  refine ⟨⟨_, length_sequenceOf kind items, toInt_ofNat_length hlength, ?_⟩, ?_,
    element_sequenceOf_of_length kind items, first_sequenceOf kind items, ?_⟩
  · exact shorterThan_sequenceOf hlength
  · intro k
    refine ⟨_, skip_sequenceOf hitems k, rfl,
      ⟨_, length_sequenceOf kind _, toInt_length_drop hlength k⟩, ?_, ?_⟩
    · intro i j hi hj
      exact element_drop hi hj
    · intro b c hc
      have hskip := skip_sequenceOf (hrest k) b
      rw [drop_drop_toNat hc] at hskip
      exact hskip.trans (skip_sequenceOf hitems c).symm
  · intro hne
    cases items with
    | nil => exact absurd rfl hne
    | cons head tail => exact ⟨head, _, tail, rfl, skip_sequenceOf hitems 1, rfl, rfl⟩

/-- Three numbers: the least count of all skips none of them, item 3 is the last, and their length
compares with every number as 3 does. -/
theorem sequence_laws_three :
    let items : List Value := [.int 10, .int 20, .int 30]
    let s := sequenceOf .number items
    let least : Int64 := -9223372036854775808
    Value.sequence (.single .number) items = .ok s ∧ (items.length : Int) ≤ int64Max ∧
    (∃ rest, skip [s, .int least] = .ok rest ∧ skip [rest, .int 1] = skip [s, .int 1]) ∧
    element [.int 3, s] = .ok (.int 30) ∧
    ∃ n : Int64, n.toInt = 3 ∧
      ∀ c : Numeric, shorterThan [s, c.toValue] = lessThan [.int n, c.toValue] := by
  intro items s least
  have hs : Value.sequence (.single .number) items = .ok s := rfl
  have hlength : (items.length : Int) ≤ int64Max := by decide
  obtain ⟨⟨n, -, hn, hshorter⟩, hskip, helement, -⟩ := sequence_laws hs hlength
  obtain ⟨rest, hrest, -, -, -, htwice⟩ := hskip least
  refine ⟨hs, hlength, ⟨rest, hrest, htwice 1 1 (by decide)⟩, (helement 3).trans ?_,
    n, hn, hshorter⟩
  rfl

end Rulebook.Library

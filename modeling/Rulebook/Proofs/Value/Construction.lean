import Mathlib.Logic.ExistsUnique
import Rulebook.Proofs.Outcome
import Rulebook.Proofs.Value.Fits
import Rulebook.Value.Access

/-!
# Built values

What the constructors build, one from another, are exactly the values that fit the type they are
marked with (`Value.built_iff`). On these one accessor reads what is there and the text is shown. On
other values, whose marks were overwritten, reading and showing may break a contract:
`Value.display_fails_iff` says when showing does, and `Accessor.Reads.unique` that never two
accessors read one value.
-/

namespace Rulebook

/-! ## Accessors -/

namespace Accessor

/-- The accessor finds in the value what it reads. -/
def Reads (a : Accessor) (v : Value) : Prop :=
  match a with
  | bool => ∃ b, v.asBool = .ok b
  | int => ∃ n, v.asInt = .ok n
  | float => ∃ x, v.asFloat = .ok x
  | handle => ∃ text, v.asHandle = .ok text
  | sequence => ∃ items, v.asSequence = .ok items
  | errorMessage => ∃ message, v.errorMessage = .ok message

/-- The accessor reads payloads of this form. -/
def Holds (a : Accessor) (p : Payload Value) : Prop :=
  match a with
  | bool => ∃ b, p = .bool b
  | int => ∃ n, p = .int n
  | float => ∃ x, p = .float x
  | handle | errorMessage => ∃ text, p = .handle text
  | sequence => ∃ items, p = .sequence items

end Accessor

namespace Value

variable {v : Value} {ty : Ty}

/-- An accessor finds something if it reads the type and the payload has the form. -/
theorem access_eq_ok_iff {α : Type} {a : Accessor} {read : Payload Value → Option α} {x : α} :
    v.access a read = .ok x ↔ a.accepts v.ty = true ∧ read v.payload = some x := by
  unfold access
  by_cases haccepts : a.accepts v.ty = true
  · rw [if_pos haccepts]
    cases read v.payload with
    | none => exact ⟨nofun, fun h => nomatch h.2⟩
    | some y => simp [haccepts]
  · rw [if_neg haccepts]
    exact ⟨nofun, fun h => absurd h.1 haccepts⟩

end Value

namespace Accessor

variable {a b : Accessor} {v : Value}

/-- An accessor answers if it accepts the type and the payload is of its form. -/
theorem reads_iff : a.Reads v ↔ a.accepts v.ty = true ∧ a.Holds v.payload := by
  obtain ⟨ty, payload⟩ := v
  cases a <;> cases payload <;>
    simp [Reads, Holds, Value.asBool, Value.asInt, Value.asFloat, Value.asHandle,
      Value.asSequence, Value.errorMessage, Value.access_eq_ok_iff]

/-- A payload of one form is read by one accessor, but for texts. -/
theorem Holds.eq_or {p : Payload Value} (ha : a.Holds p) (hb : b.Holds p) :
    a = b ∨ a = .handle ∧ b = .errorMessage ∨ a = .errorMessage ∧ b = .handle := by
  cases p <;> cases a <;> cases b <;> simp [Holds] at ha hb ⊢

/-- No type is both that of an error and that of another handle. -/
theorem not_accepts_both (ty : Ty) :
    ¬ (handle.accepts ty = true ∧ errorMessage.accepts ty = true) := by
  cases ty with
  | collection kind => cases kind <;> decide
  | single kind => cases kind <;> decide

/-- No two accessors read one value. -/
theorem Reads.unique (ha : a.Reads v) (hb : b.Reads v) : a = b := by
  rw [reads_iff] at ha hb
  rcases ha.2.eq_or hb.2 with h | ⟨rfl, rfl⟩ | ⟨rfl, rfl⟩
  · exact h
  · exact absurd ⟨ha.1, hb.1⟩ (not_accepts_both v.ty)
  · exact absurd ⟨hb.1, ha.1⟩ (not_accepts_both v.ty)

end Accessor

namespace Value

variable {v : Value} {ty : Ty}

/-- A value that fits its type is read by an accessor. -/
theorem Fits.exists_reads (h : v.Fits ty) : ∃ a : Accessor, a.Reads v := by
  cases h with
  | bool b => exact ⟨.bool, b, rfl⟩
  | int n => exact ⟨.int, n, rfl⟩
  | float x => exact ⟨.float, x, rfl⟩
  | @handle kind hkind text =>
    refine ⟨.handle, Accessor.reads_iff.mpr ⟨?_, text, rfl⟩⟩
    simp [Accessor.accepts, Ty.isCollection, hkind]
  | error message => exact ⟨.errorMessage, message, rfl⟩
  | sequence hitems => exact ⟨.sequence, _, rfl⟩

/-! ## Showing values -/

/-- Items cannot be shown if and only if one of them cannot. -/
theorem displayItems_fails_iff {items : List Value} :
    (∃ e, displayItems items = .error e) ↔ ∃ w ∈ items, ∃ e, w.display = .error e := by
  induction items with
  | nil => simp [displayItems]
  | cons w rest ih =>
    simp only [List.mem_cons, exists_eq_or_imp, ← ih, displayItems]
    cases w.display with
    | error e => exact ⟨fun _ => .inl ⟨e, rfl⟩, fun _ => ⟨e, rfl⟩⟩
    | ok text =>
      cases displayItems rest with
      | error e => exact ⟨fun _ => .inr ⟨e, rfl⟩, fun _ => ⟨e, rfl⟩⟩
      | ok texts =>
        constructor
        · rintro ⟨e, h⟩
          cases h
        · rintro (⟨e, h⟩ | ⟨e, h⟩) <;> cases h

/-- An error cannot be shown without a message, -/
theorem display_error_fails_iff {payload : Payload Value} :
    (∃ e, (⟨.single .error, payload⟩ : Value).display = .error e) ↔
      ∀ text, payload ≠ .handle text := by
  cases payload with
  | handle text =>
    constructor
    · rintro ⟨e, h⟩
      cases h
    · intro h
      exact absurd rfl (h text)
  | bool | int | float | sequence =>
    constructor
    · intro _ text h
      cases h
    · intro _
      exact ⟨_, rfl⟩

/-- and a payload not with an item that cannot. -/
theorem displayPayload_fails_iff {payload : Payload Value} :
    (∃ e, displayPayload payload = .error e) ↔
      ∃ items, payload = .sequence items ∧ ∃ w ∈ items, ∃ e, w.display = .error e := by
  cases payload with
  | sequence items =>
    simp only [Payload.sequence.injEq, exists_eq_left', ← displayItems_fails_iff, displayPayload]
    cases displayItems items with
    | error e => exact ⟨fun _ => ⟨e, rfl⟩, fun _ => ⟨e, rfl⟩⟩
    | ok texts =>
      constructor
      · rintro ⟨e, h⟩
        cases h
      · rintro ⟨e, h⟩
        cases h
  | bool | int | float | handle =>
    constructor
    · rintro ⟨e, h⟩
      cases h
    · rintro ⟨items, h, _⟩
      cases h

/-- A display fails for an error without a text, and for a sequence if it does for an item. -/
theorem display_fails_iff :
    (∃ e, v.display = .error e) ↔
      (v.ty = .single .error ∧ ∀ text, v.payload ≠ .handle text) ∨
      (v.ty ≠ .single .error ∧ ∃ items, v.payload = .sequence items ∧
        ∃ w ∈ items, ∃ e, w.display = .error e) := by
  obtain ⟨ty, payload⟩ := v
  by_cases hty : ty = .single .error
  · subst hty
    rw [display_error_fails_iff]
    simp
  · have hdisplay : (⟨ty, payload⟩ : Value).display = displayPayload payload := by
      simp [display, Ty.isError, hty]
    rw [hdisplay, displayPayload_fails_iff]
    simp [hty]

/-- A value that fits its type can be shown. -/
theorem Fits.not_display_fails (h : v.Fits ty) : ¬ ∃ e, v.display = .error e := by
  rw [display_fails_iff]
  induction h with
  | bool | int | float | handle | error => simp
  | sequence hitems ih =>
    rintro (⟨hty, _⟩ | ⟨_, items, hpayload, w, hw, hfails⟩)
    · cases hty
    · cases hpayload
      exact ih w hw (display_fails_iff.mp hfails)

/-- A value that fits its type can be displayed. -/
theorem Fits.exists_display (h : v.Fits ty) : ∃ text, v.display = .ok text := by
  cases hdisplay : v.display with
  | ok text => exact ⟨text, rfl⟩
  | error e => exact absurd ⟨e, hdisplay⟩ h.not_display_fails

/-! ## Built values -/

/-- The values that the constructors build, of items that they built before. -/
inductive Built : Value → Prop where
  | bool (b : Bool) : Built (.bool b)
  | int (n : Int64) : Built (.int n)
  | float (x : Binary64) : Built (.float x)
  | handle {kind : Kind} {text : String} {v : Value} (h : Value.handle kind text = .ok v) : Built v
  | handles {kind : Kind} {texts : List String} {v : Value}
      (h : Value.handles kind texts = .ok v) : Built v
  | sequence {element : Ty} {items : List Value} {v : Value} (hitems : ∀ w ∈ items, Built w)
      (h : Value.sequence element items = .ok v) : Built v
  | empty {ty : Ty} {v : Value} (h : Value.empty ty = .ok v) : Built v
  | error (message : String) : Built (.error message)

/-- A handle can be built for the kinds that have handles, and for no others. -/
theorem handle_eq_ok_iff {kind : Kind} {text : String} :
    Value.handle kind text = .ok v ↔ kind.isHandle = true ∧ v = ⟨.single kind, .handle text⟩ := by
  unfold Value.handle
  by_cases hkind : kind.isHandle = true
  · simp [hkind, eq_comm]
  · simp [hkind]

theorem empty_eq_ok_iff :
    Value.empty ty = .ok v ↔ ∃ kind, ty = .collection kind ∧ v = emptyOf kind := by
  cases ty with
  | single kind =>
    constructor
    · intro h
      cases h
    · rintro ⟨_, ⟨⟩, _⟩
  | collection kind =>
    constructor
    · intro h
      cases h
      exact ⟨kind, rfl, rfl⟩
    · rintro ⟨_, ⟨⟩, rfl⟩
      rfl

/-- Handles of one kind fit it. -/
theorem fits_of_mapM_handle {kind : Kind} {texts : List String} {items : List Value}
    (h : texts.mapM (Value.handle kind) = .ok items) : ∀ w ∈ items, w.Fits (.single kind) := by
  induction texts generalizing items with
  | nil =>
    cases h
    exact List.forall_mem_nil _
  | cons text texts ih =>
    rw [List.mapM_cons, bind_eq_ok] at h
    obtain ⟨v, hv, h⟩ := h
    obtain ⟨rest, hrest, h⟩ := bind_eq_ok.mp h
    cases h
    obtain ⟨hkind, rfl⟩ := handle_eq_ok_iff.mp hv
    rw [List.forall_mem_cons]
    exact ⟨.handle hkind text, ih hrest⟩

/-- A sequence of items that fit the types they are marked with fits its type. -/
theorem fits_of_sequence {element : Ty} {items : List Value} (hitems : ∀ w ∈ items, w.Fits w.ty)
    (h : Value.sequence element items = .ok v) : v.Fits v.ty := by
  obtain ⟨kind, rfl, hty, rfl⟩ := sequence_eq_ok_iff.mp h
  apply Fits.sequence
  intro w hw
  have hfits := hitems w hw
  rw [hty w hw] at hfits
  exact hfits

/-- What the constructors build fits its type. -/
theorem Built.fits (h : v.Built) : v.Fits v.ty := by
  induction h with
  | bool b => exact .bool b
  | int n => exact .int n
  | float x => exact .float x
  | error message => exact .error message
  | handle h =>
    obtain ⟨hkind, rfl⟩ := handle_eq_ok_iff.mp h
    exact .handle hkind _
  | empty h =>
    obtain ⟨kind, rfl, rfl⟩ := empty_eq_ok_iff.mp h
    exact .emptyOf kind
  | sequence _ h ih => exact fits_of_sequence ih h
  | handles h =>
    obtain ⟨items, hitems, hsequence⟩ := bind_eq_ok.mp h
    apply fits_of_sequence _ hsequence
    intro w hw
    have hfits := fits_of_mapM_handle hitems w hw
    rw [hfits.ty_eq]
    exact hfits

/-- What fits its type can be built. -/
theorem Fits.built (h : v.Fits ty) : v.Built := by
  induction h with
  | bool b => exact .bool b
  | int n => exact .int n
  | float x => exact .float x
  | error message => exact .error message
  | handle hkind text => exact .handle (handle_eq_ok_iff.mpr ⟨hkind, rfl⟩)
  | sequence hitems ih =>
    exact .sequence ih (sequence_eq_ok_iff.mpr ⟨_, rfl, fun w hw => (hitems w hw).ty_eq, rfl⟩)

/-- The constructors build the values that fit the type they are marked with, and no others. -/
theorem built_iff : v.Built ↔ v.Fits v.ty := ⟨Built.fits, Fits.built⟩

/-- A value that fits its type is a collection if and only if its payload is a sequence. -/
theorem Fits.isCollection_iff (h : v.Fits v.ty) :
    v.ty.isCollection = true ↔ ∃ items, v.payload = .sequence items := by
  obtain ⟨ty, payload⟩ := v
  cases h <;> simp [Ty.isCollection]

/-- The items of a value that fits its type are single values of its element type. -/
theorem Fits.items {items : List Value} (h : v.Fits v.ty) (hpayload : v.payload = .sequence items) :
    ∀ w ∈ items, w.ty.isCollection = false ∧ w.ty = v.ty.element := by
  obtain ⟨ty, payload⟩ := v
  cases h with
  | bool | int | float | handle | error => cases hpayload
  | sequence hitems =>
    cases hpayload
    intro w hw
    have hty := (hitems w hw).ty_eq
    rw [hty]
    exact ⟨rfl, rfl⟩

/-- The constructors build consistent values: the payload of a built value agrees with its type at
every depth, a collection is the same as a sequence, its items are single values of the element
type, it can be shown, and exactly one accessor reads it. Of every value whatsoever, built or with
any mark overwritten, at most one accessor reads it, and it cannot be shown if and only if it is an
error without a message, or is marked otherwise and is a sequence with an item that cannot. -/
theorem built_consistent (v : Value) :
    (v.Built ↔ v.Fits v.ty) ∧
    (v.Built →
      (v.ty.isCollection = true ↔ ∃ items, v.payload = .sequence items) ∧
      (∀ items, v.payload = .sequence items →
        ∀ w ∈ items, w.ty.isCollection = false ∧ w.ty = v.ty.element) ∧
      (∃ text, v.display = .ok text) ∧ ∃! a : Accessor, a.Reads v) ∧
    (∀ a b : Accessor, a.Reads v → b.Reads v → a = b) ∧
    ((∃ e, v.display = .error e) ↔
      (v.ty = .single .error ∧ ∀ text, v.payload ≠ .handle text) ∨
      (v.ty ≠ .single .error ∧ ∃ items, v.payload = .sequence items ∧
        ∃ w ∈ items, ∃ e, w.display = .error e)) := by
  refine ⟨built_iff, ?_, ?_, display_fails_iff⟩
  · intro hbuilt
    have hfits := hbuilt.fits
    obtain ⟨a, ha⟩ := hfits.exists_reads
    refine ⟨hfits.isCollection_iff, ?_, hfits.exists_display, a, ha, ?_⟩
    · intro items hpayload
      exact hfits.items hpayload
    · intro b hb
      exact hb.unique ha
  · intro a b ha hb
    exact ha.unique hb

/-- A path of two positions is built by `handles`, so it can be shown and read in one way. -/
theorem path_consistent :
    let path : Value := ⟨.collection .position,
      .sequence [⟨.single .position, .handle "P0"⟩, ⟨.single .position, .handle "P1"⟩]⟩
    Value.handles .position ["P0", "P1"] = .ok path ∧ path.Built ∧
    (∃ text, path.display = .ok text) ∧ ∃! a : Accessor, a.Reads path := by
  intro path
  have hhandles : Value.handles .position ["P0", "P1"] = .ok path := rfl
  have hbuilt : path.Built := .handles hhandles
  exact ⟨hhandles, hbuilt, ((built_consistent path).2.1 hbuilt).2.2⟩

end Value

end Rulebook

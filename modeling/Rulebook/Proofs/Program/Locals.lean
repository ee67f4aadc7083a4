import Rulebook.Proofs.Program.Acceptance

/-!
# Locals

The locals at a line are the slots that the lines before it assign. Two places of the library find
them: `Program.localsFor` lists each slot once, for editors, and the check of a body carries the
bound slots from line to line. Both come down to `Line.assignments`, the targets of the assignments
in order, with all their repetitions.
-/

namespace Rulebook

variable {σ : Type}

namespace Line

/-- The slots that lines assign, in order and as often as they do. -/
def assignments (lines : List Line) : List ReferenceId := lines.filterMap assigned?

/-- The index of the first line that assigns a slot, or the number of lines if none does. -/
def firstAssignment (lines : List Line) (slot : ReferenceId) : Nat :=
  lines.findIdx fun line => line.assigned? = some slot

theorem assignments_append (lines more : List Line) :
    assignments (lines ++ more) = assignments lines ++ assignments more := List.filterMap_append

theorem assignments_singleton (line : Line) : assignments [line] = line.assigned?.toList := by
  cases h : line.assigned? <;> simp [assignments, h]

/-- One line more adds what it assigns. -/
theorem assignments_take_succ {lines : List Line} {line : Line} {n : Nat}
    (h : lines[n]? = some line) :
    assignments (lines.take (n + 1)) = assignments (lines.take n) ++ line.assigned?.toList := by
  rw [List.take_add_one, h, Option.toList_some, assignments_append, assignments_singleton]

theorem mem_assignments {lines : List Line} {slot : ReferenceId} :
    slot ∈ assignments lines ↔ ∃ line ∈ lines, line.assigned? = some slot := List.mem_filterMap

/-- The assignments of the first `n` lines are the slots assigned before line `n`. -/
theorem mem_assignments_take {lines : List Line} {n : Nat} {slot : ReferenceId} :
    slot ∈ assignments (lines.take n) ↔ Program.AssignedBefore lines n slot := by
  rw [mem_assignments]
  constructor
  · rintro ⟨line, hline, hslot⟩
    obtain ⟨j, hj⟩ := List.mem_iff_getElem?.mp hline
    have hlt : j < n := by
      have hlength := (List.getElem?_eq_some_iff.mp hj).1
      rw [List.length_take] at hlength
      omega
    exact ⟨j, line, hlt, by rwa [List.getElem?_take_of_lt hlt] at hj, hslot⟩
  · rintro ⟨j, line, hlt, hj, hslot⟩
    exact ⟨line, List.mem_of_getElem? ((List.getElem?_take_of_lt hlt).trans hj), hslot⟩

/-- A slot is first assigned within the lines if any of them assigns it. -/
theorem firstAssignment_lt_length {lines : List Line} {slot : ReferenceId} :
    firstAssignment lines slot < lines.length ↔ slot ∈ assignments lines := by
  rw [firstAssignment, List.findIdx_lt_length, mem_assignments]
  simp only [decide_eq_true_eq]

/-- Lines behind the first assignment of a slot do not change where it is. -/
theorem firstAssignment_append {lines : List Line} {slot : ReferenceId}
    (h : slot ∈ assignments lines) (more : List Line) :
    firstAssignment (lines ++ more) slot = firstAssignment lines slot := by
  have hlt : firstAssignment lines slot < lines.length := firstAssignment_lt_length.mpr h
  rw [firstAssignment, List.findIdx_append]
  exact if_pos hlt

/-- A slot that the lines do not assign is first assigned behind them, if at all. -/
theorem length_le_firstAssignment_append {lines : List Line} {slot : ReferenceId}
    (h : slot ∉ assignments lines) (more : List Line) :
    lines.length ≤ firstAssignment (lines ++ more) slot := by
  have hlt : ¬ firstAssignment lines slot < lines.length := mt firstAssignment_lt_length.mp h
  rw [firstAssignment, List.findIdx_append]
  exact (if_neg hlt).symm ▸ Nat.le_add_left _ _

end Line

namespace Program

/-! ## The list of locals -/

/-- What one line more does to the list of assigned slots: nothing, or it adds a new slot. -/
theorem assignedSlots_concat (lines : List Line) (line : Line) :
    (assignedSlots (lines ++ [line]) = assignedSlots lines ∧
      ∀ slot, line.assigned? = some slot → slot ∈ assignedSlots lines) ∨
    ∃ slot, line.assigned? = some slot ∧ slot ∉ assignedSlots lines ∧
      assignedSlots (lines ++ [line]) = assignedSlots lines ++ [slot] := by
  have hstep : assignedSlots (lines ++ [line]) = line.assigned?.toList.foldl
      (fun slots target => if target ∈ slots then slots else slots ++ [target])
      (assignedSlots lines) := by
    rw [← Line.assignments_singleton, assignedSlots, List.filterMap_append, List.foldl_append]
    rfl
  rw [hstep]
  cases hassigned : line.assigned? with
  | none => exact .inl ⟨rfl, nofun⟩
  | some slot =>
    by_cases hmem : slot ∈ assignedSlots lines
    · refine .inl ⟨if_pos hmem, fun slot' hslot' => ?_⟩
      rwa [← Option.some.inj hslot']
    · exact .inr ⟨slot, rfl, hmem, if_neg hmem⟩

/-- The assigned slots are those that the assignments mention. -/
theorem mem_assignedSlots {lines : List Line} {slot : ReferenceId} :
    slot ∈ assignedSlots lines ↔ slot ∈ Line.assignments lines := by
  induction lines using List.reverseRecOn with
  | nil => exact Iff.rfl
  | append_singleton lines line ih =>
    rw [Line.assignments_append, Line.assignments_singleton, List.mem_append, Option.mem_toList,
      ← ih]
    rcases assignedSlots_concat lines line with ⟨heq, hold⟩ | ⟨new, hnew, -, heq⟩
    · rw [heq]
      exact ⟨.inl, fun h => h.elim id (hold slot)⟩
    · rw [heq, hnew, List.mem_append, List.mem_singleton, Option.some.injEq]
      exact or_congr_right eq_comm

/-- More lines add assigned slots at the end only. -/
theorem assignedSlots_prefix (lines more : List Line) :
    assignedSlots lines <+: assignedSlots (lines ++ more) := by
  induction more using List.reverseRecOn with
  | nil => exact (List.append_nil lines).symm ▸ List.prefix_refl _
  | append_singleton more line ih =>
    rw [← List.append_assoc]
    refine ih.trans ?_
    rcases assignedSlots_concat (lines ++ more) line with ⟨heq, -⟩ | ⟨new, -, -, heq⟩
    · exact heq.symm ▸ List.prefix_refl _
    · exact heq.symm ▸ List.prefix_append _ _

/-- Assigned slots are listed in the order of the lines that assign them first. -/
theorem assignedSlots_pairwise (lines : List Line) : (assignedSlots lines).Pairwise fun a b =>
    Line.firstAssignment lines a < Line.firstAssignment lines b := by
  induction lines using List.reverseRecOn with
  | nil => exact .nil
  | append_singleton lines line ih =>
    have hfirst : ∀ a ∈ assignedSlots lines,
        Line.firstAssignment (lines ++ [line]) a = Line.firstAssignment lines a :=
      fun a ha => Line.firstAssignment_append (mem_assignedSlots.mp ha) [line]
    have hold : (assignedSlots lines).Pairwise fun a b =>
        Line.firstAssignment (lines ++ [line]) a < Line.firstAssignment (lines ++ [line]) b := by
      refine ih.imp_of_mem fun {a b} ha hb hlt => ?_
      rwa [hfirst a ha, hfirst b hb]
    rcases assignedSlots_concat lines line with ⟨heq, -⟩ | ⟨new, -, hnew, heq⟩
    · rwa [heq]
    · rw [heq]
      refine List.pairwise_append.mpr ⟨hold, List.pairwise_singleton _ _, ?_⟩
      -- the new slot is assigned by the last line only
      intro a ha b hb
      rw [List.mem_singleton.mp hb, hfirst a ha]
      have hlt : Line.firstAssignment lines a < lines.length :=
        Line.firstAssignment_lt_length.mpr (mem_assignedSlots.mp ha)
      exact Nat.lt_of_lt_of_le hlt
        (Line.length_le_firstAssignment_append (mt mem_assignedSlots.mpr hnew) _)

section Locals

variable {P : Program σ} {id : FunctionId} {f : Function σ} {lines : List Line}

/-- The locals before a line are the slots that the lines before it assign, each once. -/
theorem localsFor_eq (hf : P.function? id = some f) (hbody : f.body = .lines lines) (n : Nat) :
    P.localsFor id n = assignedSlots (lines.take n) := by
  have hlines : (P.function? id).bind Function.lines? = some lines := by
    rw [hf, Option.bind_some, Function.lines?, hbody]
  rw [localsFor, hlines]

/-- A slot is a local before a line if an earlier line assigns it. -/
theorem mem_localsFor (hf : P.function? id = some f) (hbody : f.body = .lines lines) {n : Nat}
    {slot : ReferenceId} :
    slot ∈ P.localsFor id n ↔ slot ∈ Line.assignments (lines.take n) := by
  rw [localsFor_eq hf hbody, mem_assignedSlots]

/-- The locals before a line come first among those before a later one. -/
theorem localsFor_prefix (hf : P.function? id = some f) (hbody : f.body = .lines lines) {n k : Nat}
    (h : n ≤ k) : P.localsFor id n <+: P.localsFor id k := by
  obtain ⟨more, hmore⟩ : lines.take n <+: lines.take k := List.take_prefix_take_left h
  rw [localsFor_eq hf hbody, localsFor_eq hf hbody, ← hmore]
  exact assignedSlots_prefix _ more

/-- Past the last line the locals do not change any more. -/
theorem localsFor_of_length_le (hf : P.function? id = some f) (hbody : f.body = .lines lines)
    {n : Nat} (h : lines.length ≤ n) : P.localsFor id n = P.localsFor id lines.length := by
  rw [localsFor_eq hf hbody, localsFor_eq hf hbody, List.take_of_length_le h, List.take_length]

/-- Locals stand in the order of their first assignments. -/
theorem localsFor_pairwise (hf : P.function? id = some f) (hbody : f.body = .lines lines)
    (n : Nat) : (P.localsFor id n).Pairwise fun a b =>
      Line.firstAssignment lines a < Line.firstAssignment lines b := by
  have hprefix := assignedSlots_prefix (lines.take n) (lines.drop n)
  rw [List.take_append_drop] at hprefix
  rw [localsFor_eq hf hbody]
  exact (assignedSlots_pairwise lines).sublist hprefix.sublist

theorem localsFor_nodup (hf : P.function? id = some f) (hbody : f.body = .lines lines) (n : Nat) :
    (P.localsFor id n).Nodup := by
  refine (localsFor_pairwise hf hbody n).imp fun {a b} hlt heq => ?_
  rw [heq] at hlt
  exact Nat.lt_irrefl _ hlt

end Locals

/-! ## The slots that the check takes to be bound -/

namespace BodyCheck

variable {c : BodyCheck σ}

/-- A line that passes the check binds what it assigns, which is no literal. -/
theorem bound_of_checkLine {n : Nat} {bound bound' : List ReferenceId} {line : Line}
    (h : c.checkLine n bound line = .ok bound') :
    bound' = line.assigned?.toList ++ bound ∧ ∀ slot ∈ line.assigned?,
      ∃ r, c.program.reference? slot = some r ∧ r.isLiteral = false := by
  cases line with
  | assign target callee arguments =>
    rw [checkLine, check_bind_eq_ok, bind_eq_ok] at h
    obtain ⟨-, ⟨g, ty⟩, -, h⟩ := h
    rw [check_bind_eq_ok] at h
    obtain ⟨hdestination, ⟨⟩⟩ := h
    obtain ⟨r, hr, hslot, -⟩ := checkDestination_eq_ok.mp hdestination
    refine ⟨rfl, fun slot hmem => ?_⟩
    obtain rfl := Option.some.inj hmem
    exact ⟨r, hr, hslot⟩
  | returnIf target gate arguments =>
    rw [checkLine, check_bind_eq_ok, bind_eq_ok] at h
    obtain ⟨-, ⟨g, ty⟩, -, h⟩ := h
    rw [check_bind_eq_ok, check_bind_eq_ok] at h
    obtain ⟨-, -, ⟨⟩⟩ := h
    exact ⟨rfl, fun _ hmem => absurd hmem (Option.not_mem_none _)⟩
  | ret target =>
    rw [checkLine, check_bind_eq_ok, check_bind_eq_ok] at h
    obtain ⟨-, -, ⟨⟩⟩ := h
    exact ⟨rfl, fun _ hmem => absurd hmem (Option.not_mem_none _)⟩

/-- Lines that pass the check bind what they assign, by induction on the lines. -/
theorem bound_of_checkLines {n : Nat} {bound bound' : List ReferenceId} {lines : List Line}
    (h : c.checkLines n bound lines = .ok bound') :
    bound' = (Line.assignments lines).reverse ++ bound ∧ ∀ slot ∈ Line.assignments lines,
      ∃ r, c.program.reference? slot = some r ∧ r.isLiteral = false := by
  induction lines generalizing n bound with
  | nil =>
    obtain rfl := Except.ok.inj h
    exact ⟨rfl, List.forall_mem_nil _⟩
  | cons line rest ih =>
    rw [checkLines] at h
    obtain ⟨bound'', hline, hrest⟩ := bind_eq_ok.mp h
    obtain ⟨rfl, hslot⟩ := bound_of_checkLine hline
    obtain ⟨rfl, hslots⟩ := ih hrest
    rw [← List.singleton_append, Line.assignments_append, Line.assignments_singleton]
    refine ⟨?_, List.forall_mem_append.mpr ⟨?_, hslots⟩⟩
    · cases line.assigned? <;> simp
    · exact fun slot hmem => hslot slot (Option.mem_toList.mp hmem)

/-- To check lines one checks the first part, then the rest with what that part has bound. -/
theorem checkLines_append (n : Nat) (bound : List ReferenceId) (lines more : List Line) :
    c.checkLines n bound (lines ++ more) =
      c.checkLines n bound lines >>= fun bound => c.checkLines (n + lines.length) bound more := by
  induction lines generalizing n bound with
  | nil => rfl
  | cons line rest ih =>
    rw [List.cons_append, checkLines, checkLines, bind_assoc]
    congr 1
    funext bound
    rw [ih, List.length_cons, Nat.add_assoc, Nat.add_comm 1]

/-- The check of lines that pass gets to each of them, with some slots bound, and goes on from
there. -/
theorem exists_bound_at {bound bound' : List ReferenceId} {lines : List Line}
    (h : c.checkLines 0 bound lines = .ok bound') {n : Nat} (hn : n ≤ lines.length) :
    ∃ b, c.checkLines 0 bound (lines.take n) = .ok b ∧
      c.checkLines 0 bound lines = c.checkLines n b (lines.drop n) := by
  have hsplit := checkLines_append (c := c) 0 bound (lines.take n) (lines.drop n)
  rw [List.take_append_drop, List.length_take, Nat.min_eq_left hn, Nat.zero_add] at hsplit
  rw [hsplit] at h ⊢
  obtain ⟨b, hb, -⟩ := bind_eq_ok.mp h
  rw [hb]
  exact ⟨b, rfl, rfl⟩

end BodyCheck

end Program

/-- The lines of a well-formed function pass the check. -/
theorem Function.WellFormed.checkLines {P : Program σ} {f : Function σ} (h : f.WellFormed P)
    {lines : List Line} (hbody : f.body = .lines lines) :
    ∃ result bound, P.reference? f.signature.result.reference = some result ∧
      Program.BodyCheck.checkLines ⟨P, f.name, result.ty⟩ 0 f.signature.parameterIds lines =
        .ok bound := by
  rcases h.body lines hbody with rfl | hcheck
  · obtain ⟨r, hr, -⟩ := h.slots _ List.mem_cons_self
    exact ⟨r, f.signature.parameterIds, hr, rfl⟩
  · rw [Program.checkBody, bind_eq_ok] at hcheck
    obtain ⟨result, hresult, hcheck⟩ := hcheck
    obtain ⟨bound, hlines, -⟩ := bind_eq_ok.mp hcheck
    rw [Failure.ofViolation_eq_ok, Program.reference_eq_ok] at hresult
    exact ⟨result, bound, hresult, hlines⟩

end Rulebook

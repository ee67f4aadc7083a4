import Mathlib.Data.List.Forall2
import Rulebook.Proofs.Eval.Plain
import Rulebook.Proofs.Outcome

/-!
# Evaluation follows plain evaluation

An evaluation with a memo and a depth limit goes through the lines that plain evaluation goes
through, with a value in the place of each plain one that *approximates* it: the same value, or the
too-deep error if calls may be cut off (`cut`). An approximate error takes its effect no later than
the plain one, so arguments that hold no error, and verdicts that are none, are the plain ones.

`Simulates P cut K N sub` says this of the calls `sub` with plain heights below `N`, from memos
whose results stand in the relation `K` to their invocations. A step over such calls does the same
for heights below `N + 1` (`step_simulates`).
-/

namespace Rulebook

open Eval

/-! ## Approximate values -/

/-- A value approximates another if it is the same or, where calls may be cut off, too deep. -/
def Value.Approximates (cut : Prop) (w v : Value) : Prop := w = v ∨ cut ∧ w = .tooDeep

/-- A frame approximates another if it binds the same slots, to approximate values. -/
def Frame.Approximates (cut : Prop) (frame plain : Frame) : Prop :=
  ∀ id, Option.Rel (Value.Approximates cut) (frame.lookup id) (plain.lookup id)

section Approximates

variable {cut : Prop} {v w : Value}

namespace Value.Approximates

protected theorem refl : v.Approximates cut v := .inl rfl

protected theorem tooDeep (hcut : cut) : Value.tooDeep.Approximates cut v := .inr ⟨hcut, rfl⟩

/-- Only an error can differ from what it approximates. -/
theorem eq_of_isError_eq_false (h : w.Approximates cut v) (hw : w.isError = false) : w = v := by
  rcases h with h | ⟨_, rfl⟩
  · exact h
  · cases hw

/-- What approximates an error is an error. -/
theorem isError_eq_true (h : w.Approximates cut v) (hv : v.isError = true) : w.isError = true := by
  rcases h with rfl | ⟨_, rfl⟩
  · exact hv
  · rfl

/-- An error that approximates no error is too deep. -/
theorem eq_tooDeep (h : w.Approximates cut v) (hw : w.isError = true) (hv : v.isError = false) :
    cut ∧ w = .tooDeep := by
  rcases h with rfl | h
  · rw [hw] at hv
    cases hv
  · exact h

/-- The first error among approximate values is the plain one, or too deep. -/
theorem find?_isError {ws vs : List Value} (h : List.Forall₂ (Value.Approximates cut) ws vs)
    (hw : ws.find? Value.isError = some w) :
    vs.find? Value.isError = some w ∨ cut ∧ w = .tooDeep := by
  induction h with
  | nil => cases hw
  | @cons a b as bs hab _ ih =>
    rcases hab with rfl | ⟨hcut, rfl⟩
    · -- the heads are the same: both searches stop here, or both go on
      rw [List.find?_cons] at hw ⊢
      cases ha : a.isError with
      | true =>
        rw [ha] at hw
        exact .inl hw
      | false =>
        rw [ha] at hw
        exact ih hw
    · -- too deep is an error, so the search stops here
      rw [List.find?_cons_of_pos rfl, Option.some.injEq] at hw
      exact .inr ⟨hcut, hw.symm⟩

/-- Values without an error among them are those that they approximate. -/
theorem eq_of_find?_isError {ws vs : List Value}
    (h : List.Forall₂ (Value.Approximates cut) ws vs) (hw : ws.find? Value.isError = none) :
    ws = vs := by
  induction h with
  | nil => rfl
  | @cons a b as bs hab _ ih =>
    have hfalse : ∀ v ∈ a :: as, v.isError = false := by simpa using hw
    obtain ⟨ha, has⟩ := List.forall_mem_cons.mp hfalse
    rw [hab.eq_of_isError_eq_false ha, ih (by simpa using has)]

end Value.Approximates

/-- Too deep approximates every outcome that is a result. -/
theorem Similar.tooDeep {o : Except (Failure EvalError) Value} (hcut : cut)
    (ho : cut → ∃ v, o = .ok v) : Similar (Value.Approximates cut) (.ok .tooDeep) o := by
  obtain ⟨v, rfl⟩ := ho hcut
  exact Value.Approximates.tooDeep hcut

namespace Frame.Approximates

protected theorem refl (frame : Frame) : frame.Approximates cut frame := by
  intro id
  cases frame.lookup id with
  | none => exact .none
  | some v => exact .some .refl

/-- Frames stay approximate when a slot is bound to approximate values. -/
theorem bind {frame plain : Frame} (h : frame.Approximates cut plain)
    (hwv : w.Approximates cut v) (id : ReferenceId) :
    (frame.bind id w).Approximates cut (plain.bind id v) := by
  intro slot
  rw [Frame.lookup_bind, Frame.lookup_bind]
  by_cases hslot : slot = id
  · rw [if_pos hslot, if_pos hslot]
    exact .some hwv
  · rw [if_neg hslot, if_neg hslot]
    exact h slot

variable {σ : Type} {P : Program σ} {f : Function σ} {frame plain : Frame}

/-- A slot read from approximate frames has approximate values, or fails alike. -/
theorem resolve (h : frame.Approximates cut plain) (id : ReferenceId) :
    Similar (Value.Approximates cut) (Eval.resolve P f frame id) (Eval.resolve P f plain id) := by
  refine Similar.bind (Similar.refl (fun _ => rfl) _) fun r r' hr => ?_
  subst hr
  by_cases hr : r.isLiteral
  · rw [if_pos hr, if_pos hr]
    exact Similar.refl (fun _ => .refl) _
  · rw [if_neg hr, if_neg hr]
    have hid := h id
    generalize frame.lookup id = w, plain.lookup id = v at hid ⊢
    cases hid with
    | none => rfl
    | some hwv => exact hwv

/-- Slots read from approximate frames have approximate values, or fail alike. -/
theorem resolveAll (h : frame.Approximates cut plain) (ids : List ReferenceId) :
    Similar (List.Forall₂ (Value.Approximates cut)) (Eval.resolveAll P f frame ids)
      (Eval.resolveAll P f plain ids) := by
  induction ids with
  | nil => exact .nil
  | cons id ids ih =>
    exact Similar.bind (h.resolve id) fun w v hwv => Similar.bind ih fun ws vs h => .cons hwv h

end Frame.Approximates

end Approximates

/-! ## The simulation -/

/-- A result that the memo is given stands in a relation to its invocation, and only if calls may
be cut off is one cut off. -/
def Event.Respects (cut : Prop) (K : Invocation → Value → Prop) : Event → Prop
  | .keep _ i v => K i v
  | .cutOff _ _ => cut
  | _ => True

/-- An event that respects a relation keeps to it. -/
theorem Event.Respects.keeps {cut : Prop} {K : Invocation → Value → Prop} {e : Event}
    (h : e.Respects cut K) : e.Keeps K := by
  cases e with
  | keep d i v => exact h
  | cutOff | enter | line | verdict | leave | native => trivial

/-- An evaluation's outcome approximates a plain one, and its events respect a relation. -/
structure Mimics (cut : Prop) (K : Invocation → Value → Prop)
    (plain o : Except (Failure EvalError) Value) (t : Trace) : Prop where
  outcome : Similar (Value.Approximates cut) o plain
  events : ∀ e ∈ t, e.Respects cut K

namespace Mimics

variable {cut : Prop} {K : Invocation → Value → Prop} {e : Event} {t u : Trace}
variable {plain o : Except (Failure EvalError) Value}

theorem keeps (h : Mimics cut K plain o t) : ∀ e ∈ t, e.Keeps K :=
  fun e he => (h.events e he).keeps

/-- Events that respect the relation may come before, -/
theorem after (h : Mimics cut K plain o u) (ht : ∀ e ∈ t, e.Respects cut K) :
    Mimics cut K plain o (t ++ u) :=
  ⟨h.outcome, List.forall_mem_append.mpr ⟨ht, h.events⟩⟩

theorem cons (h : Mimics cut K plain o t) (he : e.Respects cut K) : Mimics cut K plain o (e :: t) :=
  h.after (t := [e]) (List.forall_mem_singleton.mpr he)

/-- and one may come last. -/
theorem snoc (h : Mimics cut K plain o t) (he : e.Respects cut K) :
    Mimics cut K plain o (t ++ [e]) :=
  ⟨h.outcome, List.forall_mem_append.mpr ⟨h.events, List.forall_mem_singleton.mpr he⟩⟩

end Mimics

section Simulates

variable {σ : Type}

/-- A relation holds between an invocation and a value if and only if the value approximates the
plain outcome. Nothing is said where calls may be cut off and the plain outcome is a failure. -/
def Program.Describes (P : Program σ) (cut : Prop) (K : Invocation → Value → Prop) : Prop :=
  ∀ i n o w, PlainEval P i n o → (cut → ∃ v, o = .ok v) →
    (K i w ↔ Similar (Value.Approximates cut) (.ok w) o)

/-- Calls of invocations with plain heights below `N` follow their plain evaluations. -/
def Simulates (P : Program σ) (cut : Prop) (K : Invocation → Value → Prop) (N : Nat)
    (sub : Invocation → Eval σ Value) : Prop :=
  ∀ m i n o, Memo.All K m → PlainEval P i n o → n < N → (cut → ∃ v, o = .ok v) →
    Ensures m (sub i) (Mimics cut K o)

variable {P : Program σ} {cut : Prop} {K : Invocation → Value → Prop} {N : Nat}
variable {sub : Invocation → Eval σ Value} {f : Function σ} {depth : Nat}

/-- The call of a line mimics the plain call if the calls below do. -/
theorem callLine_simulates (hsub : Simulates P cut K N sub) {m : Memo} (hm : m.All K)
    {frame plain : Frame} (hframe : frame.Approximates cut plain) {callee : FunctionId}
    {arguments : List ReferenceId} {n : Nat} {o : Except (Failure EvalError) Value}
    (h : PlainCall P f plain callee arguments n o) (hn : n ≤ N) (ho : cut → ∃ v, o = .ok v) :
    Ensures m (callLine P f sub frame callee arguments) (Mimics cut K o) := by
  have hread := hframe.resolveAll (P := P) (f := f) arguments
  refine Ensures.callLine ?_ ?_ ?_
  · intro e he
    rw [he] at hread
    obtain ⟨-, rfl⟩ := h.of_unreadable hread.of_error
    exact ⟨rfl, List.forall_mem_nil _⟩
  · intro ws w hws hw
    rw [hws] at hread
    obtain ⟨vs, hvs, hrel⟩ := hread.of_ok
    refine ⟨?_, List.forall_mem_nil _⟩
    -- the plain call may have no error among its arguments, but then this one is too deep
    rcases Value.Approximates.find?_isError hrel hw with hv | ⟨hcut, rfl⟩
    · obtain ⟨-, rfl⟩ := h.of_error hvs hv
      exact Similar.refl (fun _ => .refl) _
    · exact .tooDeep hcut ho
  · intro ws hws hw
    rw [hws] at hread
    obtain ⟨vs, hvs, hrel⟩ := hread.of_ok
    -- no argument is an error, hence none is too deep: the plain call has the same arguments
    obtain rfl := Value.Approximates.eq_of_find?_isError hrel hw
    obtain ⟨k, rfl, hcall⟩ := h.of_call hvs hw
    exact hsub m _ k o hm hcall hn ho

/-- Past a plain verdict that is no error, it is enough to follow what the gate does with it: an
approximate verdict is the same or cuts the lines off. -/
theorem returnIf_simulates (hsub : Simulates P cut K N sub) {id gate : FunctionId}
    {target : ReferenceId} {arguments : List ReferenceId} {rest : List Line} {m : Memo}
    (hm : m.All K) {index : Nat} {frame plain : Frame} (hframe : frame.Approximates cut plain)
    {last : Option Value} {n : Nat} {v : Value} {o : Except (Failure EvalError) Value}
    (hcall : PlainCall P f plain gate arguments n (.ok v)) (hv : v.isError = false) (hn : n ≤ N)
    (ho : cut → ∃ v, o = .ok v) (hstuck : ∀ e, isOpen P f gate v = .error e → o = .error e)
    (hopen : isOpen P f gate v = .ok true →
      Similar (Value.Approximates cut) (resolve P f frame target) o)
    (hclosed : isOpen P f gate v = .ok false → ∀ m, Memo.All K m →
      Ensures m (runLines P f id depth sub rest (index + 1) frame last) (Mimics cut K o)) :
    Ensures m (runLines P f id depth sub (.returnIf target gate arguments :: rest) index frame last)
      (Mimics cut K o) := by
  -- the events of this line
  have hline : ∀ {w t}, Mimics cut K (.ok v) (.ok w) t →
      Mimics cut K (.ok v) (.ok w) (.line depth id index frame :: (t ++ [.verdict depth gate w])) :=
    fun ht => Mimics.cons (Mimics.snoc ht trivial) trivial
  refine .runLines_returnIf (callLine_simulates hsub hm hframe hcall hn fun _ => ⟨v, rfl⟩)
    ?_ ?_ ?_ ?_ ?_
  · intro e t ht
    exact ht.outcome.elim
  · intro w t ht hw
    -- the plain lines go on, but the outcome is too deep already
    obtain ⟨hcut, rfl⟩ := Value.Approximates.eq_tooDeep ht.outcome hw hv
    exact ⟨.tooDeep hcut ho, (hline ht).events⟩
  · intro w t e ht hw hgate
    obtain rfl := Value.Approximates.eq_of_isError_eq_false ht.outcome hw
    obtain rfl := hstuck e hgate
    exact ⟨rfl, (hline ht).events⟩
  · intro w t ht hw hgate
    obtain rfl := Value.Approximates.eq_of_isError_eq_false ht.outcome hw
    exact ⟨hopen hgate, (hline ht).events⟩
  · intro w t ht hw hgate
    obtain rfl := Value.Approximates.eq_of_isError_eq_false ht.outcome hw
    refine (hclosed hgate _ (hm.after ht.keeps)).mono fun o' u hu => ?_
    have hverdict : (Event.verdict depth gate w).Respects cut K := trivial
    exact ((hu.cons hverdict).after ht.events).cons trivial

/-- Lines follow the plain run of the same lines, by induction on the lines that are left. -/
theorem runLines_simulates (hsub : Simulates P cut K N sub) (id : FunctionId) {lines : List Line}
    {m : Memo} (hm : m.All K) (index : Nat) {frame plain : Frame}
    (hframe : frame.Approximates cut plain) {last plainLast : Option Value}
    (hlast : Option.Rel (Value.Approximates cut) last plainLast) {n : Nat}
    {o : Except (Failure EvalError) Value} (h : PlainLines P f lines plain plainLast n o)
    (hn : n ≤ N) (ho : cut → ∃ v, o = .ok v) :
    Ensures m (runLines P f id depth sub lines index frame last) (Mimics cut K o) := by
  induction lines generalizing m index frame plain last plainLast n o with
  | nil =>
    cases h with
    | last =>
      cases hlast with
      | some hwv =>
        refine .runLines_nil ?_ nofun
        rintro _ ⟨⟩
        exact ⟨hwv, List.forall_mem_nil _⟩
    | missing =>
      cases hlast with
      | none => exact .runLines_nil nofun fun _ => ⟨rfl, List.forall_mem_nil _⟩
  | cons line rest ih =>
    cases h with
    | ret =>
      exact .runLines_ret ⟨hframe.resolve _, List.forall_mem_singleton.mpr trivial⟩
    | assignError hcall =>
      refine .runLines_assign (callLine_simulates hsub hm hframe hcall hn ho) ?_ ?_
      · intro w t ht
        exact ht.outcome.elim
      · intro e t ht
        exact ht.cons trivial
    | assign hcall hrest =>
      refine .runLines_assign
        (callLine_simulates hsub hm hframe hcall (by omega) fun _ => ⟨_, rfl⟩) ?_ ?_
      · intro w t ht
        refine (ih (hm.after ht.keeps) (index + 1) (hframe.bind ht.outcome _) (.some ht.outcome)
          hrest (by omega) ho).mono fun o' u hu => ?_
        exact (hu.after ht.events).cons trivial
      · intro e t ht
        exact ht.outcome.elim
    | gateError hcall =>
      refine .runLines_returnIf (callLine_simulates hsub hm hframe hcall hn ho) ?_ ?_ ?_ ?_ ?_
      · intro e t ht
        exact ht.cons trivial
      · intro w t ht _
        exact ht.outcome.elim
      · intro w t e ht _ _
        exact ht.outcome.elim
      · intro w t ht _ _
        exact ht.outcome.elim
      · intro w t ht _ _
        exact ht.outcome.elim
    | @gateAnswersError _ _ gate _ _ _ _ _ v hcall hv =>
      -- what approximates an error is an error, so nothing but the verdict is returned
      have herror : ∀ {w t}, Mimics cut K (.ok v) (.ok w) t → w.isError ≠ false := by
        intro w t ht
        rw [Value.Approximates.isError_eq_true ht.outcome hv]
        exact Bool.noConfusion
      refine .runLines_returnIf (callLine_simulates hsub hm hframe hcall hn ho) ?_ ?_ ?_ ?_ ?_
      · intro e t ht
        exact ht.outcome.elim
      · intro w t ht _
        have hverdict : (Event.verdict depth gate w).Respects cut K := trivial
        exact (ht.snoc hverdict).cons trivial
      · intro w t e ht hw _
        exact (herror ht hw).elim
      · intro w t ht hw _
        exact (herror ht hw).elim
      · intro w t ht hw _
        exact (herror ht hw).elim
    | gateStuck hcall hv hgate =>
      refine returnIf_simulates hsub hm hframe hcall hv hn ho ?_ ?_ ?_
      · intro e he
        have heq := Except.error.inj (hgate.symm.trans he)
        rw [heq]
      · intro hopen
        cases hgate.symm.trans hopen
      · intro hclosed
        cases hgate.symm.trans hclosed
    | gateOpen hcall hv hgate =>
      refine returnIf_simulates hsub hm hframe hcall hv hn ho ?_ (fun _ => hframe.resolve _) ?_
      · intro e he
        cases hgate.symm.trans he
      · intro hclosed
        cases hgate.symm.trans hclosed
    | gateClosed hcall hv hgate hrest =>
      refine returnIf_simulates hsub hm hframe hcall hv (by omega) ho ?_ ?_ fun _ m hm =>
        ih hm (index + 1) hframe hlast hrest (by omega) ho
      · intro e he
        cases hgate.symm.trans he
      · intro hopen
        cases hgate.symm.trans hopen

/-- A step follows plain evaluation one level further than the calls below it: a body's calls have
smaller heights, and what the memo holds is described by the plain outcome. -/
theorem step_simulates (hP : P.NativesPure) (hK : P.Describes cut K)
    (hsub : Simulates P cut K N sub) : Simulates P cut K (N + 1) (step P depth sub) := by
  intro m i n o hm h hn ho
  refine .step ?_ ?_ ?_ ?_
  · intro hf
    obtain ⟨-, rfl⟩ := h.of_unknown hf
    exact ⟨rfl, List.forall_mem_nil _⟩
  · intro f v _ _ hfind
    exact ⟨(hK i n o v h ho).mp (hm i v hfind), List.forall_mem_nil _⟩
  · intro f hf hi
    rw [Invocation.isValid_of_function? hf, decide_eq_false_iff_not] at hi
    obtain ⟨-, rfl⟩ := h.of_arity hf hi
    exact ⟨rfl, List.forall_mem_nil _⟩
  · intro f hf hi _
    rw [Invocation.isValid_of_function? hf, decide_eq_true_eq] at hi
    have hrun : Ensures m (runBody P depth sub f i) (Mimics cut K o) := by
      cases hbody : f.body with
      | native run =>
        obtain ⟨-, host, rfl⟩ := h.of_native hf hi hbody
        refine .runBody_native hbody fun host' => ⟨?_, List.forall_mem_singleton.mpr trivial⟩
        rw [hP _ _ _ hf hbody i.arguments host' host]
        exact Similar.refl (fun _ => .refl) _
      | lines lines =>
        refine .runBody_lines hbody (runLines_simulates hsub i.function hm 0 (.refl _) .none
          (h.of_lines hf hi hbody) (by omega) ho) ?_ ?_
        · intro v t ht
          have hleave : (Event.leave depth i v).Respects cut K := trivial
          exact (ht.snoc hleave).cons trivial
        · intro e t ht
          exact ht.cons trivial
    refine hrun.mono fun o' t ht => ⟨ht.outcome, ?_⟩
    refine List.forall_mem_append.mpr ⟨ht.events, Ensures.forall_mem_keepEvents ?_⟩
    rintro v rfl _
    exact (hK i n o v h ho).mpr ht.outcome

/-- Evaluation follows plain evaluation as deep as it has levels, or to any depth if calls may be
cut off. -/
theorem evaluate_simulates (hP : P.NativesPure) (hK : P.Describes cut K) (levels depth : Nat)
    (hN : cut ∨ N ≤ levels) : Simulates P cut K N (evaluate P levels depth) := by
  induction levels generalizing N depth with
  | zero =>
    intro m i n o hm h hn ho
    -- a height below `N` leaves no room for `N ≤ 0`
    have hcut : cut := hN.resolve_right (by omega)
    exact .evaluate_zero ⟨.tooDeep hcut ho, List.forall_mem_singleton.mpr hcut⟩
  | succ levels ih =>
    cases N with
    | zero =>
      -- no height is below 0
      intro m i n o hm h hn
      omega
    | succ N => exact step_simulates hP hK (ih (depth + 1) (hN.imp_right Nat.le_of_succ_le_succ))

end Simulates

/-! ## Calls of a context -/

/-- A call follows the plain evaluation of its invocation if that is no higher than the limit, or if
calls may be cut off. -/
theorem Context.run_mimics {σ : Type} {cut : Prop} {K : Invocation → Value → Prop} {c : Context σ}
    (hP : c.program.NativesPure) (hK : c.program.Describes cut K) (hm : c.memo.All K)
    {i : Invocation} {n : Nat} {o : Except (Failure EvalError) Value}
    (h : PlainEval c.program i n o) (hn : cut ∨ n ≤ c.maxDepth) (ho : cut → ∃ v, o = .ok v)
    (host : σ) :
    Mimics cut K o (c.run host i).outcome (c.run host i).trace ∧
      (c.run host i).context = { c with memo := c.memo.after (c.run host i).trace } := by
  -- a limit of `maxDepth` leaves `maxDepth + 1` levels, one more than the height
  have hlevels : cut ∨ n + 1 ≤ c.maxDepth + 1 := hn.imp_right Nat.succ_le_succ
  refine run_of_ensures ?_ host
  exact evaluate_simulates hP hK _ 0 hlevels c.memo i n o hm h n.lt_succ_self ho

end Rulebook

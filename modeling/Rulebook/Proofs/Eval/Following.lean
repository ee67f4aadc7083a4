import Rulebook.Proofs.Eval.Given

/-!
# Evaluations that are not cut off

An evaluation that starts on a memo with a *consistent* choice of results follows the evaluation
from given results: it is cut off if and only if its invocation does not fit, and if it is not, its
outcome is that of `Program.outcome?` and it adds the footprint of its invocation to the memo.
`Program.Follows` says this of the calls of a part of an evaluation, and passes from parts that run
one after another to the whole (`Follows.append`).
-/

namespace Rulebook

open Eval

variable {σ : Type}

/-! ## Cuts -/

namespace Event

/-- Whether an event cuts a call off. -/
def isCutOff : Event → Bool
  | cutOff _ _ => true
  | _ => false

/-- Whether an event neither gives the memo a result nor cuts a call off. -/
def isSilent (e : Event) : Bool := !e.isKeep && !e.isCutOff

/-- A silent event neither gives the memo a result nor cuts a call off. -/
theorem isSilent_iff {e : Event} : e.isSilent = true ↔ e.isKeep = false ∧ e.isCutOff = false := by
  simp [isSilent]

end Event

namespace Trace

/-- No call is cut off. -/
def Uncut (t : Trace) : Prop := ∀ e ∈ t, e.isCutOff = false

instance (t : Trace) : Decidable (Uncut t) :=
  inferInstanceAs (Decidable (∀ e ∈ t, e.isCutOff = false))

theorem uncut_nil : Uncut [] := List.forall_mem_nil _

theorem uncut_append {t u : Trace} : Uncut (t ++ u) ↔ Uncut t ∧ Uncut u := List.forall_mem_append

theorem uncut_singleton {e : Event} : Uncut [e] ↔ e.isCutOff = false := List.forall_mem_singleton

end Trace

/-- The invocations that a memo has a result of. -/
def Memo.domain (m : Memo) : Set Invocation := {i | ∃ v, m.find? i = some v}

namespace Program

/-! ## Consistent memos -/

/-- A memo has the given results, and with a result it has the whole footprint of its invocation. -/
structure Consistent (P : Program σ) (host : σ) (known m : Memo) : Prop where
  known_le : known ≤ m
  memoizable : m.All fun i _ => i.IsMemoizable P
  outcome : ∀ i v, m.find? i = some v → P.outcome? host known i = some (.ok v)
  closed : ∀ i v j w, m.find? i = some v → P.Footprint host known i j w → m.find? j = some w

/-- What an evaluation does of which a list of calls is a part: it is cut off if and only if they do
not fit, and if it is not, it has a certain outcome and adds the footprints of the calls to the
memo. -/
structure Follows (P : Program σ) (host : σ) (known : Memo) (levels : Nat) (m : Memo)
    (calls : List Invocation) (outcome? : Option (Except (Failure EvalError) Value))
    (o : Except (Failure EvalError) Value) (t : Trace) : Prop where
  uncut_iff : Trace.Uncut t ↔ P.AllFit host known (P.Fits host known levels) m.domain calls
  outcome : Trace.Uncut t → outcome? = some o
  adds : Trace.Uncut t → ∀ j v, (m.after t).find? j = some v ↔
    m.find? j = some v ∨ ∃ k ∈ calls, P.Footprint host known k j v

variable {P : Program σ} {host : σ} {known m : Memo} {levels depth : Nat}

/-- For an invocation that may be memoized, the answer from the memo is what the memo has. -/
theorem memoized?_of_isMemoizable {f : Function σ} {i : Invocation}
    (hf : P.function? i.function = some f) (hi : i.IsMemoizable P) :
    memoized? f i m = m.find? i := by
  obtain ⟨g, hg, hcacheable, -⟩ := hi
  obtain rfl := Option.some.inj (hf.symm.trans hg)
  rw [memoized?, hcacheable]
  rfl

/-- Given results are consistent: nothing runs to find them, so they are their own footprints. -/
theorem consistent_self (h : known.All fun i _ => i.IsMemoizable P) :
    P.Consistent host known known := by
  have hgiven : ∀ i v, known.find? i = some v →
      P.outcome? host known i = some (.ok v) ∧ P.calls host known i = [] := by
    intro i v hv
    obtain ⟨f, hf, hcacheable, -⟩ := h i v hv
    exact outcome?_of_known hf (memoized?_eq_some.mpr ⟨hcacheable, hv⟩)
  refine ⟨le_refl known, h, fun i v hv => (hgiven i v hv).1, ?_⟩
  intro i v j w hv hw
  obtain ⟨houtcome, hcalls⟩ := hgiven i v hv
  rcases footprint_iff.mp hw with ⟨rfl, -, hj⟩ | ⟨k, hk, -⟩
  · rw [houtcome, Option.some.injEq, Except.ok.injEq] at hj
    rwa [← hj]
  · rw [hcalls] at hk
    cases hk

/-! ## Parts of an evaluation -/

namespace Follows

variable {ks ls calls : List Invocation}
variable {out out' outcome? : Option (Except (Failure EvalError) Value)}
variable {o o' : Except (Failure EvalError) Value} {t u : Trace} {e : Event}

theorem nil : P.Follows host known levels m [] (some o) o [] where
  uncut_iff := iff_of_true Trace.uncut_nil trivial
  outcome _ := rfl
  adds _ j v := by simp

/-- A silent event follows with any outcome and no calls. -/
theorem silent (he : e.isSilent = true) : P.Follows host known levels m [] (some o) o [e] where
  uncut_iff := iff_of_true (Trace.uncut_singleton.mpr (Event.isSilent_iff.mp he).2) trivial
  outcome _ := rfl
  adds _ j v := by simp [Memo.record_of_isKeep_eq_false (Event.isSilent_iff.mp he).1]

/-- Without a cut-off, the memo gains the footprints of the calls and nothing else. -/
theorem domain_after (h : P.Follows host known levels m ks out o t) (ht : Trace.Uncut t) :
    (m.after t).domain = m.domain ∪ {j | ∃ k ∈ ks, ∃ v, P.Footprint host known k j v} := by
  ext j
  have hadds := h.adds ht j
  simp only [Memo.domain, Set.mem_ofPred_eq, Set.mem_union, hadds, exists_or]
  constructor
  · rintro (hv | ⟨v, k, hk, hv⟩)
    · exact .inl hv
    · exact .inr ⟨k, hk, v, hv⟩
  · rintro (hv | ⟨k, hk, v, hv⟩)
    · exact .inl hv
    · exact .inr ⟨v, k, hk, hv⟩

/-- What is added to a consistent memo leaves it consistent. -/
theorem consistent (h : P.Follows host known levels m ks out o t)
    (hm : P.Consistent host known m) (ht : Trace.Uncut t) :
    P.Consistent host known (m.after t) where
  known_le i v hv := (h.adds ht i v).mpr (.inl (hm.known_le i v hv))
  memoizable i v hv := by
    rcases (h.adds ht i v).mp hv with hv | ⟨k, -, hv⟩
    · exact hm.memoizable i v hv
    · exact hv.memoizable
  outcome i v hv := by
    rcases (h.adds ht i v).mp hv with hv | ⟨k, -, hv⟩
    · exact hm.outcome i v hv
    · exact hv.outcome
  closed i v j w hv hw := by
    refine (h.adds ht j w).mpr ?_
    rcases (h.adds ht i v).mp hv with hv | ⟨k, hk, hv⟩
    · exact .inl (hm.closed i v j w hv hw)
    · exact .inr ⟨k, hk, hv.trans hw⟩

/-- Two parts run one after the other. How it goes on depends on the outcome of the first part,
which counts only if that is not cut off. -/
theorem append (h : P.Follows host known levels m ks out o t)
    (hu : Trace.Uncut t → P.Follows host known levels (m.after t) ls out' o' u)
    (hks : ks <+: calls) (hcalls : out = some o → calls = ks ++ ls ∧ outcome? = out') :
    P.Follows host known levels m calls outcome? o' (t ++ u) := by
  by_cases ht : Trace.Uncut t
  · obtain ⟨rfl, rfl⟩ := hcalls (h.outcome ht)
    have hu := hu ht
    constructor
    · rw [Trace.uncut_append, allFit_append, h.uncut_iff, hu.uncut_iff, h.domain_after ht]
    · intro htu
      exact hu.outcome (Trace.uncut_append.mp htu).2
    · intro htu j v
      rw [Memo.after_append, hu.adds (Trace.uncut_append.mp htu).2, h.adds ht]
      simp only [List.mem_append, or_and_right, exists_or, or_assoc]
  · have htu : ¬ Trace.Uncut (t ++ u) := fun htu => ht (Trace.uncut_append.mp htu).1
    refine ⟨?_, fun h => absurd h htu, fun h => absurd h htu⟩
    obtain ⟨ls', rfl⟩ := hks
    rw [allFit_append, ← h.uncut_iff]
    exact iff_of_false htu fun h => ht h.1

/-- A part is the last one. -/
theorem stop (h : P.Follows host known levels m ks out o t) (hks : ks <+: calls)
    (hcalls : out = some o → calls = ks ∧ outcome? = some o') :
    P.Follows host known levels m calls outcome? o' t := by
  have hend := h.append (fun _ => nil) hks fun hout => by
    rw [List.append_nil]
    exact hcalls hout
  rwa [List.append_nil] at hend

theorem cons (h : P.Follows host known levels m ks out o t) (he : e.isSilent = true) :
    P.Follows host known levels m ks out o (e :: t) := by
  have hfirst : P.Follows host known levels m [] (some o) o [e] := silent he
  refine hfirst.append (fun _ => ?_) ks.nil_prefix fun _ => ⟨rfl, rfl⟩
  rwa [Memo.after_cons, Memo.record_of_isKeep_eq_false (Event.isSilent_iff.mp he).1]

theorem snoc (h : P.Follows host known levels m ks out o t) (he : e.isSilent = true) :
    P.Follows host known levels m ks out o (t ++ [e]) :=
  h.append (fun _ => silent he) (List.prefix_refl ks) fun hout => ⟨ks.append_nil.symm, hout⟩

end Follows

/-! ## The evaluator -/

section Evaluator

variable {f : Function σ} {sub : Invocation → Eval σ Value}

/-- Calls one level deeper follow the evaluation from given results, on every memo that is
consistent with them. -/
def CallsFollow (P : Program σ) (host : σ) (known : Memo) (levels : Nat)
    (sub : Invocation → Eval σ Value) : Prop :=
  ∀ m i, Ensures m (sub i) fun o t => P.Consistent host known m →
    P.Follows host known levels m [i] (P.outcome? host known i) o t

/-- The call of a line follows the invocation that it makes, if it makes one. -/
theorem callLine_follows (hsub : P.CallsFollow host known levels sub) (m : Memo) (frame : Frame)
    (callee : FunctionId) (arguments : List ReferenceId) :
    Ensures m (callLine P f sub frame callee arguments) fun o t => P.Consistent host known m →
      P.Follows host known levels m (P.invoked f frame callee arguments)
        (P.callOutcome? host known f frame callee arguments) o t := by
  rw [invoked, callOutcome?]
  refine .callLine ?_ ?_ ?_
  · intro e hread _
    rw [hread]
    exact .nil
  · intro values v hread hfind _
    simp only [hread, hfind]
    exact .nil
  · intro values hread hfind
    simp only [hread, hfind]
    exact hsub m ⟨callee, values⟩

/-- Lines follow, by induction on the lines that are left: the call of the first one decides from
which frame the others go on, if they do. -/
theorem runLines_follows (hsub : P.CallsFollow host known levels sub) (id : FunctionId)
    (lines : List Line) (m : Memo) (n : Nat) (frame : Frame) (last : Option Value) :
    Ensures m (runLines P f id depth sub lines n frame last) fun o t =>
      P.Consistent host known m →
        P.Follows host known levels m (P.lineCalls host known f lines frame)
          (P.linesOutcome? host known f lines frame last) o t := by
  induction lines generalizing m n frame last with
  | nil =>
    refine .runLines_nil ?_ ?_
    · rintro v rfl _
      rw [lineCalls, linesOutcome?]
      exact .nil
    · rintro rfl _
      rw [lineCalls, linesOutcome?]
      exact .nil
  | cons line rest ih =>
    cases line with
    | assign target callee arguments =>
      rw [lineCalls, linesOutcome?]
      refine .runLines_assign (callLine_follows hsub m frame callee arguments) ?_ ?_
      · intro v t ht
        refine (ih _ _ _ _).mono fun o u hu hm => ?_
        refine .cons ((ht hm).append (fun huncut => hu ((ht hm).consistent hm huncut))
          (List.prefix_append _ _) fun hv => ?_) rfl
        simp [hv]
      · intro e t ht hm
        refine .cons ((ht hm).stop (List.prefix_append _ _) fun he => ?_) rfl
        simp [he]
    | returnIf target gate arguments =>
      rw [lineCalls, linesOutcome?]
      refine .runLines_returnIf (callLine_follows hsub m frame gate arguments) ?_ ?_ ?_ ?_ ?_
      · intro e t ht hm
        refine .cons ((ht hm).stop (List.prefix_append _ _) fun he => ?_) rfl
        simp [he]
      · intro v t ht herror hm
        refine .cons (.snoc ((ht hm).stop (List.prefix_append _ _) fun hv => ?_) rfl) rfl
        simp [hv, herror]
      · intro v t e ht herror hgate hm
        refine .cons (.snoc ((ht hm).stop (List.prefix_append _ _) fun hv => ?_) rfl) rfl
        simp [hv, herror, hgate]
      · intro v t ht herror hgate hm
        refine .cons (.snoc ((ht hm).stop (List.prefix_append _ _) fun hv => ?_) rfl) rfl
        simp [hv, herror, hgate]
      · intro v t ht herror hgate
        refine (ih _ _ _ _).mono fun o u hu hm => ?_
        refine .cons ((ht hm).append (fun huncut => (hu ((ht hm).consistent hm huncut)).cons rfl)
          (List.prefix_append _ _) fun hv => ?_) rfl
        simp [hv, herror, hgate]
    | ret target =>
      rw [lineCalls, linesOutcome?]
      exact .runLines_ret fun _ => .silent rfl

/-- A body follows: a function of the host by purity, the lines of one by `runLines_follows`. -/
theorem runBody_follows (hP : P.NativesPure) (hsub : P.CallsFollow host known levels sub)
    (m : Memo) {i : Invocation} (hf : P.function? i.function = some f) (hi : i.isValid P = true)
    (hknown : P.Consistent host known m → memoized? f i known = none) :
    Ensures m (runBody P depth sub f i) fun o t => P.Consistent host known m →
      P.Follows host known levels m (P.calls host known i) (P.outcome? host known i) o t := by
  cases hbody : f.body with
  | native run =>
    refine .runBody_native hbody fun host' hm => ?_
    obtain ⟨houtcome, hcalls⟩ := outcome?_of_native hf (hknown hm) hi hbody
    rw [houtcome, hcalls, hP _ f run hf hbody i.arguments host host']
    exact .silent rfl
  | lines lines =>
    refine .runBody_lines hbody (runLines_follows hsub i.function lines m 0 _ none) ?_ ?_
    · intro v t ht hm
      obtain ⟨houtcome, hcalls⟩ := outcome?_of_lines hf (hknown hm) hi hbody
      rw [houtcome, hcalls]
      exact ((ht hm).snoc rfl).cons rfl
    · intro e t ht hm
      obtain ⟨houtcome, hcalls⟩ := outcome?_of_lines hf (hknown hm) hi hbody
      rw [houtcome, hcalls]
      exact (ht hm).cons rfl

/-! ### Steps -/

/-- An invocation that is refused calls nothing and has no footprint. -/
theorem Follows.refused {i : Invocation} {e : Failure EvalError}
    (h : P.outcome? host known i = some (.error e) ∧ P.calls host known i = []) :
    P.Follows host known (levels + 1) m [i] (P.outcome? host known i) (.error e) [] where
  uncut_iff := by simp [Trace.uncut_nil, AllFit, Fits, h.2]
  outcome _ := h.1
  adds _ j v := by
    rw [exists_footprint_singleton, footprint_iff, h.1, h.2]
    simp

/-- An invocation that is answered from the memo has left its footprint there before. -/
theorem Follows.remembered {i : Invocation} {v : Value} (hm : P.Consistent host known m)
    (hv : m.find? i = some v) :
    P.Follows host known (levels + 1) m [i] (P.outcome? host known i) (.ok v) [] where
  uncut_iff := by
    have hi : i ∈ m.domain := ⟨v, hv⟩
    simp [Trace.uncut_nil, AllFit, Fits, hi]
  outcome _ := hm.outcome i v hv
  adds _ j w := by
    rw [exists_footprint_singleton]
    exact ⟨Or.inl, fun h => h.elim id (hm.closed i v j w hv)⟩

theorem uncut_keepEvents {i : Invocation} (o : Except (Failure EvalError) Value) :
    Trace.Uncut (Ensures.keepEvents f depth i o) := by
  unfold Trace.Uncut
  exact Ensures.forall_mem_keepEvents fun _ _ _ => rfl

/-- Keeping a result adds it to the memo, if what the memo had for the invocation was the same. -/
theorem find?_after_keepEvents {i j : Invocation} {v : Value}
    {o : Except (Failure EvalError) Value} (hi : ∀ w, m.find? i = some w → o = .ok w) :
    (m.after (Ensures.keepEvents f depth i o)).find? j = some v ↔
      m.find? j = some v ∨ j = i ∧ f.isUncacheable = false ∧ o = .ok v := by
  cases o with
  | error e => simp [Ensures.keepEvents]
  | ok w =>
    cases hf : f.isUncacheable with
    | true => simp [Ensures.keepEvents, hf]
    | false =>
      rw [Ensures.after_keepEvents_ok hf, Memo.find?_insert]
      by_cases hj : j = i
      · subst hj
        simp only [if_true, Option.some.injEq, Except.ok.injEq, true_and]
        exact ⟨Or.inr, fun h => h.elim (fun hv => Except.ok.inj (hi v hv)) id⟩
      · simp [hj]

/-- A body that follows makes its step follow one level further up: the result that the step keeps
is what the invocation has in its footprint besides the footprints of its calls. -/
theorem Follows.keep {i : Invocation} {o : Except (Failure EvalError) Value} {t : Trace}
    (hm : P.Consistent host known m) (hf : P.function? i.function = some f)
    (hi : i.isValid P = true) (hmiss : memoized? f i m = none)
    (h : P.Follows host known levels m (P.calls host known i) (P.outcome? host known i) o t) :
    P.Follows host known (levels + 1) m [i] (P.outcome? host known i) o
      (t ++ Ensures.keepEvents f depth i o) := by
  have huncut : Trace.Uncut (t ++ Ensures.keepEvents f depth i o) ↔ Trace.Uncut t := by
    rw [Trace.uncut_append, and_iff_left (uncut_keepEvents o)]
  have hmemoizable : i.IsMemoizable P ↔ f.isUncacheable = false := by
    rw [Invocation.isValid_of_function? hf, decide_eq_true_eq] at hi
    simp [Invocation.IsMemoizable, hf, hi]
  refine ⟨?_, fun ht => h.outcome (huncut.mp ht), ?_⟩
  · have hnew : i ∉ m.domain := by
      rintro ⟨v, hv⟩
      rw [memoized?_of_isMemoizable hf (hm.memoizable i v hv), hv] at hmiss
      cases hmiss
    rw [huncut, h.uncut_iff]
    simp [AllFit, Fits, hnew]
  · intro ht j v
    have ht := huncut.mp ht
    have houtcome := h.outcome ht
    -- a result that the calls of the body left for the invocation itself is the outcome
    have hsame : ∀ w, (m.after t).find? i = some w → o = .ok w := by
      intro w hw
      have hw := (h.consistent hm ht).outcome i w hw
      exact Option.some.inj (houtcome.symm.trans hw)
    rw [Memo.after_append, find?_after_keepEvents hsame, h.adds ht, exists_footprint_singleton,
      footprint_iff, hmemoizable, houtcome, Option.some.injEq, or_assoc]
    refine or_congr_right ?_
    rw [or_comm]

/-- If calls with fewer levels follow the evaluation from given results, those with one more do. -/
theorem step_follows (hP : P.NativesPure) (hsub : P.CallsFollow host known levels sub) :
    P.CallsFollow host known (levels + 1) (step P depth sub) := by
  intro m i
  refine .step ?_ ?_ ?_ ?_
  · intro hf _
    exact .refused (outcome?_of_unknown hf)
  · intro f v _ _ hv hm
    exact .remembered hm hv
  · intro f hf hi hm
    have hgiven : known.All fun i _ => i.IsMemoizable P :=
      fun j v hv => hm.memoizable j v (hm.known_le j v hv)
    exact .refused (outcome?_of_not_valid hf (memoized?_of_not_valid hgiven hi) hi)
  · intro f hf hi hmiss
    -- the memo has what is given
    have hknown : P.Consistent host known m → memoized? f i known = none := by
      intro hm
      cases hv : memoized? f i known with
      | none => rfl
      | some v =>
        obtain ⟨hcacheable, hv⟩ := memoized?_eq_some.mp hv
        rw [memoized?_eq_some.mpr ⟨hcacheable, hm.known_le i v hv⟩] at hmiss
        cases hmiss
    refine (runBody_follows hP hsub m hf hi hknown).mono fun o t ht hm => ?_
    exact .keep hm hf hi hmiss (ht hm)

/-- Every evaluation on a consistent memo follows the evaluation from given results. -/
theorem evaluate_follows (hP : P.NativesPure) (levels depth : Nat) :
    P.CallsFollow host known levels (evaluate P levels depth) := by
  induction levels generalizing depth with
  | zero =>
    intro m i
    have hcut : ¬ Trace.Uncut [.cutOff depth i] := by
      rw [Trace.uncut_singleton]
      exact Bool.noConfusion
    refine .evaluate_zero fun _ => ⟨?_, fun h => absurd h hcut, fun h => absurd h hcut⟩
    simp [hcut, AllFit, Fits]
  | succ levels ih => exact step_follows hP (ih (depth + 1))

end Evaluator

end Program

/-! ## Calls of a context -/

namespace Context

variable {P : Program σ} {maxDepth : Nat} {c : Context σ} {host : σ} {known : Memo}
variable {i : Invocation}

/-- A call of a context follows the evaluation from given results, if the memo is consistent with
them. -/
theorem run_follows (hprogram : c.program = P) (hmaxDepth : c.maxDepth = maxDepth)
    (hP : P.NativesPure) (hm : P.Consistent host known c.memo) (i : Invocation) (host' : σ) :
    P.Follows host known (maxDepth + 1) c.memo [i] (P.outcome? host known i)
      (c.run host' i).outcome (c.run host' i).trace := by
  subst hprogram hmaxDepth
  exact (run_of_ensures (Program.evaluate_follows hP (c.maxDepth + 1) 0 c.memo i) host').1 hm

/-- A call that is not cut off fits. -/
theorem fits_of_uncut (hprogram : c.program = P) (hmaxDepth : c.maxDepth = maxDepth)
    (hP : P.NativesPure) (hm : P.Consistent host known c.memo) {host' : σ}
    (h : Trace.Uncut (c.run host' i).trace) :
    P.Fits host known (maxDepth + 1) c.memo.domain i :=
  ((run_follows hprogram hmaxDepth hP hm i host').uncut_iff.mp h).1

/-- A call that fits, with whatever is in the memo, ends with the outcome of its invocation from the
given results and adds the footprint of it to the memo. -/
theorem run_of_fits (hprogram : c.program = P) (hmaxDepth : c.maxDepth = maxDepth)
    (hP : P.NativesPure) (hm : P.Consistent host known c.memo) {S : Set Invocation}
    (hS : S ⊆ c.memo.domain) (h : P.Fits host known (maxDepth + 1) S i) (host' : σ) :
    let r := c.run host' i
    Trace.Uncut r.trace ∧ P.outcome? host known i = some r.outcome ∧
    P.Consistent host known r.context.memo ∧
    ∀ j v, r.context.cached j = some v ↔
      c.cached j = some v ∨ P.Footprint host known i j v := by
  intro r
  have hfollows := run_follows hprogram hmaxDepth hP hm i host'
  have huncut : Trace.Uncut r.trace := hfollows.uncut_iff.mpr ⟨h.mono hS, trivial⟩
  have hmemo : r.context.memo = c.memo.after r.trace := by
    show (c.run host' i).context.memo = _
    rw [run_context]
  refine ⟨huncut, hfollows.outcome huncut, ?_, fun j v => ?_⟩
  · rw [hmemo]
    exact hfollows.consistent hm huncut
  · rw [cached, hmemo, hfollows.adds huncut j v, Program.exists_footprint_singleton]
    rfl

end Context

end Rulebook

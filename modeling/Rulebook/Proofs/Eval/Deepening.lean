import Rulebook.Proofs.Eval.Lagging
import Rulebook.Proofs.Eval.Sharing

/-!
# Larger depth limits

A larger depth limit runs more calls, and so it can memoize a result that was cut off where a
smaller one did not even come to the invocation. If the same invocation is called again, it is
answered with that result. This is the only way for a larger limit to lose an answer
(`Context.run_deepened`).

The proof runs both limits side by side. With the larger one, a result of an invocation that was not
cut off is *settled*: it is the outcome from no given results and the memo has the whole footprint
(`Program.Settles`). As long as only settled results are used again, the smaller limit lags behind.
-/

namespace Rulebook

open Eval

variable {σ : Type}

/-! ## Results of runs that were cut off -/

namespace Trace

/-- A result of an invocation has been memoized by a run of its body in which a call was cut off. -/
def KeptCut (t : Trace) (i : Invocation) : Prop :=
  ∃ before body after depth v,
    t = before ++ .enter depth i :: (body ++ .keep depth i v :: after) ∧ ¬ Uncut body

variable {t : Trace} {e : Event} {i : Invocation}

theorem not_keptCut_nil : ¬ KeptCut [] i := by
  rintro ⟨before, body, after, depth, v, ht, -⟩
  exact List.cons_ne_nil _ _ (List.append_eq_nil_iff.mp ht.symm).2

theorem KeptCut.append (h : KeptCut t i) (u : Trace) : KeptCut (t ++ u) i := by
  obtain ⟨before, body, after, depth, v, rfl, hcut⟩ := h
  exact ⟨before, body, after ++ u, depth, v, by simp, hcut⟩

/-- Only an event that gives the memo a result makes a difference. -/
theorem KeptCut.of_snoc (h : KeptCut (t ++ [e]) i) (he : e.isKeep = false) : KeptCut t i := by
  obtain ⟨before, body, after, depth, v, ht, hcut⟩ := h
  rcases List.eq_nil_or_concat after with rfl | ⟨after, e', rfl⟩
  · -- the last event would be the one that gives the result
    have hlast : t ++ [e] = (before ++ .enter depth i :: body) ++ [.keep depth i v] := by simp [ht]
    obtain ⟨-, hkeep⟩ := List.append_inj' hlast rfl
    rw [List.cons.inj hkeep |>.1] at he
    cases he
  · have hlast : t ++ [e] =
        (before ++ .enter depth i :: (body ++ .keep depth i v :: after)) ++ [e'] := by simp [ht]
    obtain ⟨rfl, -⟩ := List.append_inj' hlast rfl
    exact ⟨before, body, after, depth, v, rfl, hcut⟩

end Trace

namespace Program

variable {P : Program σ} {host : σ}

/-- The invocation that a line makes when it is reached. -/
def callsAt (P : Program σ) : Event → List Invocation
  | .line _ id index frame =>
    match P.function? id with
    | none => []
    | some f =>
      match (f.lines?.getD [])[index]? with
      | some (.assign _ callee arguments) => P.invoked f frame callee arguments
      | some (.returnIf _ gate arguments) => P.invoked f frame gate arguments
      | some (.ret _) => []
      | none => []
  | _ => []

/-- The invocation that a line makes is that of its call, in the frame it is reached with. -/
theorem callsAt_line {id : FunctionId} {f : Function σ} (hf : P.function? id = some f)
    {body : List Line} (hbody : f.body = .lines body) {n : Nat} {line : Line}
    (hline : body[n]? = some line) (depth : Nat) (frame : Frame) :
    P.callsAt (.line depth id n frame) = match line with
      | .assign _ callee arguments => P.invoked f frame callee arguments
      | .returnIf _ gate arguments => P.invoked f frame gate arguments
      | .ret _ => [] := by
  rw [callsAt, hf]
  simp only [Function.lines?, hbody, Option.getD_some, hline]
  cases line <;> rfl

/-- In the course of some events an invocation is called after a run of it that was cut off has been
memoized. -/
def ReusesCut (P : Program σ) (t : Trace) : Prop :=
  ∃ before e after i, t = before ++ e :: after ∧ i ∈ P.callsAt e ∧ Trace.KeptCut before i

/-- Events that come after others call no invocation of which a run that was cut off has been
memoized. -/
def Spares (P : Program σ) (history t : Trace) : Prop :=
  ∀ before e after i, t = before ++ e :: after → i ∈ P.callsAt e →
    ¬ Trace.KeptCut (history ++ before) i

/-- Events spare what they kept from runs that were cut off exactly if they do not use it again. -/
theorem spares_nil_iff {t : Trace} : P.Spares [] t ↔ ¬ P.ReusesCut t := by
  simp only [Spares, ReusesCut, List.nil_append, not_exists, not_and]

/-- Events in two parts spare results of runs that were cut off in each part, where the first counts
as history for the second. -/
theorem spares_append {history t u : Trace} (h : P.Spares history (t ++ u)) :
    P.Spares history t ∧ P.Spares (history ++ t) u := by
  constructor
  · rintro before e after i rfl hi
    exact h before e (after ++ u) i (by simp) hi
  · rintro before e after i rfl hi
    rw [List.append_assoc]
    exact h (t ++ before) e after i (by simp) hi

/-- Events spare results of runs that were cut off at the first event and from there on. -/
theorem spares_cons {history t : Trace} {e : Event} (h : P.Spares history (e :: t)) :
    (∀ i ∈ P.callsAt e, ¬ Trace.KeptCut (history ++ [e]) i) ∧ P.Spares (history ++ [e]) t := by
  constructor
  · intro i hi hkept
    -- an event that calls an invocation gives the memo no result
    have he : e.isKeep = false := by
      cases e with
      | keep => cases hi
      | _ => rfl
    have hfirst := h [] e t i rfl hi
    rw [List.append_nil] at hfirst
    exact hfirst (hkept.of_snoc he)
  · exact (spares_append (t := [e]) h).2

/-! ## Checking for results that are used again -/

end Program

/-- Whether an event gives the memo the result of an invocation at a depth. -/
def Event.isKeepOf (depth : Nat) (i : Invocation) : Event → Bool
  | .keep d j _ => d = depth && j = i
  | _ => false

/-- The result may be any, if it is of the invocation and at the depth. -/
theorem Event.isKeepOf_iff {depth : Nat} {i : Invocation} {e : Event} :
    e.isKeepOf depth i = true ↔ ∃ v, e = .keep depth i v := by
  cases e with
  | keep d j v => simp [isKeepOf]
  | cutOff | enter | line | verdict | leave | native => simp [isKeepOf]

namespace Trace

/-- Whether events give the memo the result of an invocation after a call was cut off. -/
def keepsCut (depth : Nat) (i : Invocation) : Trace → Bool
  | [] => false
  | .cutOff _ _ :: t => t.any (Event.isKeepOf depth i)
  | _ :: t => keepsCut depth i t

/-- The invocations of which a run that was cut off has been memoized. -/
def keptCuts : Trace → List Invocation
  | [] => []
  | .enter depth i :: t => if keepsCut depth i t then i :: keptCuts t else keptCuts t
  | _ :: t => keptCuts t

/-- The memo is given a result of the invocation, and a call was cut off before that. -/
theorem keepsCut_iff {depth : Nat} {i : Invocation} {t : Trace} :
    keepsCut depth i t = true ↔
      ∃ body after v, t = body ++ .keep depth i v :: after ∧ ¬ Uncut body := by
  induction t with
  | nil => simp [keepsCut]
  | cons e t ih =>
    by_cases he : e.isCutOff = true
    · -- any result after the event is one after a call was cut off
      have hany : keepsCut depth i (e :: t) = true ↔ ∃ v, .keep depth i v ∈ t := by
        cases e with
        | cutOff => simp [keepsCut, Event.isKeepOf_iff]
        | enter | line | verdict | leave | native | keep => cases he
      rw [hany]
      constructor
      · intro ⟨v, hv⟩
        obtain ⟨body, after, rfl⟩ := List.mem_iff_append.mp hv
        exact ⟨e :: body, after, v, rfl, fun h => by simp [h e List.mem_cons_self] at he⟩
      · intro ⟨body, after, v, ht, _⟩
        cases body with
        | nil =>
          rw [List.nil_append, List.cons.injEq] at ht
          rw [ht.1] at he
          cases he
        | cons e' body =>
          rw [List.cons_append, List.cons.injEq] at ht
          exact ⟨v, ht.2 ▸ List.mem_append_right body List.mem_cons_self⟩
    · have hcons : keepsCut depth i (e :: t) = keepsCut depth i t := by
        cases e with
        | cutOff => exact absurd rfl he
        | enter | line | verdict | leave | native | keep => rfl
      have huncut : ∀ body, Uncut (e :: body) ↔ Uncut body := by
        intro body
        simp [Uncut, he]
      rw [hcons, ih]
      constructor
      · intro ⟨body, after, v, ht, hcut⟩
        exact ⟨e :: body, after, v, by rw [ht, List.cons_append], mt (huncut body).mp hcut⟩
      · intro ⟨body, after, v, ht, hcut⟩
        cases body with
        | nil => exact absurd uncut_nil hcut
        | cons e' body =>
          rw [List.cons_append, List.cons.injEq] at ht
          obtain ⟨rfl, ht⟩ := ht
          exact ⟨body, after, v, ht, mt (huncut body).mpr hcut⟩

/-- A result of a run that was cut off is one of the first event's run or of a later one's. -/
theorem keptCut_cons {e : Event} {t : Trace} {i : Invocation} : KeptCut (e :: t) i ↔
    (∃ depth, e = .enter depth i ∧ keepsCut depth i t = true) ∨ KeptCut t i := by
  constructor
  · intro ⟨before, body, after, depth, v, ht, hcut⟩
    cases before with
    | nil =>
      rw [List.nil_append, List.cons.injEq] at ht
      exact .inl ⟨depth, ht.1, keepsCut_iff.mpr ⟨body, after, v, ht.2, hcut⟩⟩
    | cons e' before =>
      rw [List.cons_append, List.cons.injEq] at ht
      exact .inr ⟨before, body, after, depth, v, ht.2, hcut⟩
  · intro h
    cases h with
    | inl h =>
      obtain ⟨depth, rfl, hkeeps⟩ := h
      obtain ⟨body, after, v, rfl, hcut⟩ := keepsCut_iff.mp hkeeps
      exact ⟨[], body, after, depth, v, rfl, hcut⟩
    | inr h =>
      obtain ⟨before, body, after, depth, v, rfl, hcut⟩ := h
      exact ⟨e :: before, body, after, depth, v, rfl, hcut⟩

/-- The list has the invocations of which a run that was cut off has been memoized. -/
theorem mem_keptCuts {t : Trace} {i : Invocation} : i ∈ t.keptCuts ↔ KeptCut t i := by
  induction t with
  | nil => simp [keptCuts, not_keptCut_nil]
  | cons e t ih =>
    rw [keptCut_cons, ← ih]
    cases e with
    | enter depth j =>
      by_cases hj : j = i
      · subst hj
        cases hkeeps : keepsCut depth j t <;> simp [keptCuts, hkeeps]
      · have hij : i ≠ j := Ne.symm hj
        cases hkeeps : keepsCut depth j t <;> simp [keptCuts, hkeeps, hj, hij]
    | cutOff | line | verdict | leave | native | keep => simp [keptCuts]

end Trace

namespace Program

variable {P : Program σ} {host : σ}

instance (P : Program σ) (t : Trace) : Decidable (P.ReusesCut t) :=
  decidable_of_iff (∃ n ∈ List.range t.length, ∃ e ∈ t[n]?, ∃ i ∈ P.callsAt e,
    i ∈ Trace.keptCuts (t.take n)) <| by
  constructor
  · intro ⟨n, _, e, he, i, hi, hkept⟩
    obtain ⟨hn, rfl⟩ := List.getElem?_eq_some_iff.mp he
    refine ⟨t.take n, t[n], t.drop (n + 1), i, ?_, hi, Trace.mem_keptCuts.mp hkept⟩
    rw [List.getElem_cons_drop, List.take_append_drop]
  · intro ⟨before, e, after, i, ht, hi, hkept⟩
    refine ⟨before.length, ?_, e, ?_, i, hi, ?_⟩
    · simp [ht]
    · simp [ht]
    · rw [ht, List.take_left]
      exact Trace.mem_keptCuts.mpr hkept

/-! ## Settled results -/

/-- The memo has for an invocation its outcome from no given results, and results for its whole
footprint. -/
structure Settled (P : Program σ) (host : σ) (m : Memo) (i : Invocation) (v : Value) : Prop where
  find? : m.find? i = some v
  outcome : P.outcome? host .empty i = some (.ok v)
  footprint : ∀ j w, P.Footprint host .empty i j w → j ∈ m.domain

/-- Every result in the memo is settled, unless it comes from a run that was cut off. -/
def Settles (P : Program σ) (host : σ) (m : Memo) (history : Trace) : Prop :=
  ∀ i ∈ m.domain, ¬ Trace.KeptCut history i → ∃ v, P.Settled host m i v

theorem settles_empty : P.Settles host .empty [] := by
  rintro i ⟨v, hv⟩
  rw [Memo.find?_empty] at hv
  cases hv

/-- A settled memo stays so while events go by that give it nothing. -/
theorem Settles.snoc {m : Memo} {history : Trace} (h : P.Settles host m history) (e : Event) :
    P.Settles host m (history ++ [e]) :=
  fun i hi hkept => h i hi fun hcut => hkept (hcut.append [e])

/-- A result that the memo is given leaves the others settled. -/
theorem Settles.keep {m : Memo} {history : Trace} (h : P.Settles host m history) {depth : Nat}
    {i : Invocation} {v : Value} (hi : ¬ Trace.KeptCut (history ++ [.keep depth i v]) i →
      P.outcome? host .empty i = some (.ok v) ∧
        ∀ j w, P.Footprint host .empty i j w → j ∈ (m.insert i v).domain) :
    P.Settles host (m.insert i v) (history ++ [.keep depth i v]) := by
  intro j hj hkept
  by_cases hji : j = i
  · subst hji
    obtain ⟨houtcome, hfootprint⟩ := hi hkept
    exact ⟨v, by rw [Memo.find?_insert, if_pos rfl], houtcome, hfootprint⟩
  · obtain ⟨w, hw⟩ := hj
    rw [Memo.find?_insert, if_neg hji] at hw
    obtain ⟨u, hu⟩ := h j ⟨w, hw⟩ fun hcut => hkept (hcut.append _)
    refine ⟨u, by rw [Memo.find?_insert, if_neg hji, hu.find?], hu.outcome, fun k x hk => ?_⟩
    -- the footprint had results before, and none was taken away
    obtain ⟨y, hy⟩ := hu.footprint k x hk
    by_cases hki : k = i
    · exact ⟨v, by rw [Memo.find?_insert, if_pos hki]⟩
    · exact ⟨y, by rw [Memo.find?_insert, if_neg hki, hy]⟩

/-- What a part of an evaluation that gives a result does, if it starts with settled results and
only uses those. -/
structure Advances (P : Program σ) (host : σ) (m : Memo) (history : Trace)
    (calls : List Invocation) (outcome? : Option (Except (Failure EvalError) Value)) (v : Value)
    (t : Trace) : Prop where
  retains : m.domain ⊆ (m.after t).domain
  settles : P.Settles host (m.after t) (history ++ t)
  outcome : Trace.Uncut t → outcome? = some (.ok v)
  footprint : Trace.Uncut t → ∀ k ∈ calls, ∀ j w, P.Footprint host .empty k j w →
    j ∈ (m.after t).domain

namespace Advances

variable {m : Memo} {history t u : Trace} {e : Event} {ks ls calls : List Invocation}
variable {out out' outcome? : Option (Except (Failure EvalError) Value)} {v w : Value}

protected theorem nil (hm : P.Settles host m history) :
    P.Advances host m history [] (some (.ok v)) v [] where
  retains := subset_rfl
  settles := by rwa [List.append_nil]
  outcome _ := rfl
  footprint _ := List.forall_mem_nil _

/-- Two parts run one after the other. How it goes on depends on the first part, which counts only
if it is not cut off. -/
theorem append (h : P.Advances host m history ks out v t)
    (hu : P.Advances host (m.after t) (history ++ t) ls out' w u)
    (hcalls : out = some (.ok v) → calls = ks ++ ls ∧ outcome? = out') :
    P.Advances host m history calls outcome? w (t ++ u) where
  retains := by
    rw [Memo.after_append]
    exact h.retains.trans hu.retains
  settles := by
    rw [Memo.after_append, ← List.append_assoc]
    exact hu.settles
  outcome htu := by
    obtain ⟨ht, hu'⟩ := Trace.uncut_append.mp htu
    rw [(hcalls (h.outcome ht)).2]
    exact hu.outcome hu'
  footprint htu := by
    obtain ⟨ht, hu'⟩ := Trace.uncut_append.mp htu
    rw [(hcalls (h.outcome ht)).1, Memo.after_append]
    refine List.forall_mem_append.mpr ⟨fun k hk j w hj => ?_, hu.footprint hu'⟩
    exact hu.retains (h.footprint ht k hk j w hj)

/-- A part is the last one. -/
theorem stop (h : P.Advances host m history ks out v t)
    (hcalls : out = some (.ok v) → calls = ks ∧ outcome? = some (.ok w)) :
    P.Advances host m history calls outcome? w t := by
  have hend := h.append (.nil h.settles) fun hout => by
    rw [List.append_nil]
    exact hcalls hout
  rwa [List.append_nil] at hend

/-- A silent event advances by itself, whatever the value. -/
theorem silent (hm : P.Settles host m history) (he : e.isSilent = true) :
    P.Advances host m history [] (some (.ok v)) v [e] := by
  have hafter : m.after [e] = m := Memo.record_of_isKeep_eq_false (Event.isSilent_iff.mp he).1
  constructor
  · rw [hafter]
  · rw [hafter]
    exact hm.snoc e
  · exact fun _ => rfl
  · exact fun _ => List.forall_mem_nil _

theorem cons (h : P.Advances host m (history ++ [e]) ks out v t) (hm : P.Settles host m history)
    (he : e.isSilent = true) : P.Advances host m history ks out v (e :: t) := by
  have hfirst : P.Advances host m history [] (some (.ok v)) v [e] := silent hm he
  refine hfirst.append ?_ fun _ => ⟨rfl, rfl⟩
  rwa [Memo.after_cons, Memo.record_of_isKeep_eq_false (Event.isSilent_iff.mp he).1]

theorem snoc (h : P.Advances host m history ks out v t) (he : e.isSilent = true) :
    P.Advances host m history ks out v (t ++ [e]) :=
  h.append (silent h.settles he) fun hout => ⟨ks.append_nil.symm, hout⟩

end Advances

/-! ## The two limits side by side -/

section Evaluator

variable {f : Function σ} {sub sub' : Invocation → Eval σ Value} {depth : Nat}

/-- A part of an evaluation with the larger limit advances, and the same part with the smaller one,
of which `lag` speaks, lags behind it. -/
def Deepens (P : Program σ) (host : σ) (m : Memo) (history : Trace) (calls : List Invocation)
    (outcome? : Option (Except (Failure EvalError) Value)) (lag : Value → Set Invocation → Prop)
    (o : Except (Failure EvalError) Value) (t : Trace) : Prop :=
  P.Settles host m history → P.Spares history t → ∀ v, o = .ok v →
    P.Advances host m history calls outcome? v t ∧ lag v (m.after t).domain

/-- Calls one level deeper advance with the larger limit and lag behind with the smaller one. -/
def CallsDeepen (P : Program σ) (host : σ) (sub sub' : Invocation → Eval σ Value) : Prop :=
  ∀ m history i, Ensures m (sub' i) fun o t => ¬ Trace.KeptCut history i →
    P.Deepens host m history [i] (P.outcome? host .empty i) (P.Lags m.domain (sub i)) o t

/-- With calls below that advance and lag, the call of a line does. -/
theorem callLine_deepens (hsub : P.CallsDeepen host sub sub') (m : Memo) (history : Trace)
    (frame : Frame) (callee : FunctionId) (arguments : List ReferenceId) :
    Ensures m (callLine P f sub' frame callee arguments) fun o t =>
      (∀ i ∈ P.invoked f frame callee arguments, ¬ Trace.KeptCut history i) →
      P.Deepens host m history (P.invoked f frame callee arguments)
        (P.callOutcome? host .empty f frame callee arguments)
        (P.CallLags f sub frame callee arguments m.domain) o t := by
  rw [invoked, callOutcome?]
  refine .callLine ?_ ?_ ?_
  · rintro _ _ _ _ _ _ ⟨⟩
  · rintro values v hread hfind _ hm _ _ ⟨⟩
    simp only [hread, hfind]
    exact ⟨.nil hm, callLags_of_error hread hfind⟩
  · intro values hread hfind
    simp only [hread, hfind, List.forall_mem_singleton]
    refine (hsub m history ⟨callee, values⟩).mono fun o t ht hcut hm hspares v hv => ?_
    obtain ⟨hadvances, hlags⟩ := ht hcut hm hspares v hv
    exact ⟨hadvances, callLags_of_call hread hfind hlags hadvances.retains⟩

/-- The lines that are left of a body advance with the larger limit and lag behind with the smaller
one. -/
def LinesDeepen (P : Program σ) (host : σ) (f : Function σ) (id : FunctionId) (depth : Nat)
    (sub sub' : Invocation → Eval σ Value) (lines : List Line) (n : Nat) : Prop :=
  ∀ m history frame last, Ensures m (runLines P f id depth sub' lines n frame last)
    (P.Deepens host m history (P.lineCalls host .empty f lines frame)
      (P.linesOutcome? host .empty f lines frame last)
      (P.LinesLag f id depth sub lines frame last m.domain))

section Lines

variable {id callee gate : FunctionId} {n : Nat} {target : ReferenceId}
variable {arguments : List ReferenceId} {rest : List Line}

/-- With the rest of the lines, an assignment advances with the larger limit and lags with the
smaller one. -/
theorem assign_deepens (hsub : P.CallsDeepen host sub sub')
    (hcallsAt : ∀ frame, P.callsAt (.line depth id n frame) = P.invoked f frame callee arguments)
    (hrest : P.LinesDeepen host f id depth sub sub' rest (n + 1)) :
    P.LinesDeepen host f id depth sub sub' (.assign target callee arguments :: rest) n := by
  intro m history frame last
  rw [lineCalls, linesOutcome?]
  refine .runLines_assign (callLine_deepens hsub m (history ++ [.line depth id n frame]) frame
    callee arguments) ?_ ?_
  · intro g t ht
    refine (hrest _ (history ++ [.line depth id n frame] ++ t) _ _).mono ?_
    rintro o u hu hm hspares v rfl
    obtain ⟨hcut, hspares⟩ := spares_cons hspares
    rw [hcallsAt] at hcut
    obtain ⟨hspares, hspares'⟩ := spares_append hspares
    obtain ⟨hcall, hcallLags⟩ := ht hcut (hm.snoc _) hspares g rfl
    obtain ⟨hadvances, hlag⟩ := hu hcall.settles hspares' v rfl
    refine ⟨.cons (hcall.append hadvances fun hg => ?_) hm rfl, ?_⟩
    · simp [hg]
    · simpa [Memo.record] using linesLag_assign hcallLags hlag
  · rintro _ _ _ _ _ _ ⟨⟩

/-- The gate's verdict of the larger limit decides what the smaller one has to lag behind: the
verdict, the target or the rest. -/
theorem returnIf_deepens (hsub : P.CallsDeepen host sub sub')
    (hcallsAt : ∀ frame, P.callsAt (.line depth id n frame) = P.invoked f frame gate arguments)
    (hrest : P.LinesDeepen host f id depth sub sub' rest (n + 1)) :
    P.LinesDeepen host f id depth sub sub' (.returnIf target gate arguments :: rest) n := by
  intro m history frame last
  rw [lineCalls, linesOutcome?]
  refine .runLines_returnIf (callLine_deepens hsub m (history ++ [.line depth id n frame]) frame
    gate arguments) ?_ ?_ ?_ ?_ ?_
  · rintro _ _ _ _ _ _ ⟨⟩
  · rintro g t ht herror hm hspares v ⟨⟩
    obtain ⟨hcut, hspares⟩ := spares_cons hspares
    rw [hcallsAt] at hcut
    obtain ⟨hcall, hcallLags⟩ := ht hcut (hm.snoc _) (spares_append hspares).1 g rfl
    refine ⟨.cons (.snoc (hcall.stop fun hg => ?_) rfl) hm rfl, ?_⟩
    · simp [hg, herror]
    · have hlag : P.LinesLag f id depth sub (.returnIf target gate arguments :: rest) frame last
          m.domain g (m.after t).domain :=
        linesLag_returnIf hcallLags subset_rfl (fun _ => rfl) (by simp [herror]) (by simp [herror])
      simpa [Memo.record] using hlag
  · rintro _ _ _ _ _ _ _ _ _ ⟨⟩
  · intro g t ht herror hgate hm hspares v hv
    obtain ⟨hcut, hspares⟩ := spares_cons hspares
    rw [hcallsAt] at hcut
    obtain ⟨hcall, hcallLags⟩ := ht hcut (hm.snoc _) (spares_append hspares).1 g rfl
    refine ⟨.cons (.snoc (hcall.stop fun hg => ?_) rfl) hm rfl, ?_⟩
    · simp [hg, herror, hgate, hv]
    · have hlag : P.LinesLag f id depth sub (.returnIf target gate arguments :: rest) frame last
          m.domain v (m.after t).domain :=
        linesLag_returnIf hcallLags subset_rfl (by simp [herror]) (fun _ _ => hv) (by simp [hgate])
      simpa [Memo.record] using hlag
  · intro g t ht herror hgate
    refine (hrest _ (history ++ [.line depth id n frame] ++ t ++ [.verdict depth gate g])
      _ _).mono ?_
    rintro o u hu hm hspares v rfl
    obtain ⟨hcut, hspares⟩ := spares_cons hspares
    rw [hcallsAt] at hcut
    obtain ⟨hspares, hspares'⟩ := spares_append hspares
    obtain ⟨hcall, hcallLags⟩ := ht hcut (hm.snoc _) hspares g rfl
    obtain ⟨hadvances, hlag⟩ := hu (hcall.settles.snoc _) (spares_cons hspares').2 v rfl
    refine ⟨.cons (hcall.append (hadvances.cons hcall.settles rfl) fun hg => ?_) hm rfl, ?_⟩
    · simp [hg, herror, hgate]
    · have hlag : P.LinesLag f id depth sub (.returnIf target gate arguments :: rest) frame last
          m.domain v ((m.after t).after u).domain :=
        linesLag_returnIf hcallLags hadvances.retains (by simp [herror]) (by simp [hgate])
          fun _ _ => hlag
      simpa [Memo.record] using hlag

/-- Lines of the body of a function, by induction on the lines that are left. -/
theorem runLines_deepens (hsub : P.CallsDeepen host sub sub') (hf : P.function? id = some f)
    {body : List Line} (hbody : f.body = .lines body) (lines : List Line) (n : Nat)
    (hlines : body.drop n = lines) : P.LinesDeepen host f id depth sub sub' lines n := by
  induction lines generalizing n with
  | nil =>
    intro m history frame last
    refine .runLines_nil ?_ ?_
    · rintro v rfl hm _ _ ⟨⟩
      rw [lineCalls, linesOutcome?]
      exact ⟨.nil hm, linesLag_last⟩
    · rintro rfl _ _ _ ⟨⟩
  | cons line rest ih =>
    obtain ⟨hline, hrest⟩ := Line.of_drop_eq_cons hlines
    have hcallsAt := callsAt_line hf hbody hline depth
    cases line with
    | assign target callee arguments => exact assign_deepens hsub hcallsAt (ih (n + 1) hrest)
    | returnIf target gate arguments => exact returnIf_deepens hsub hcallsAt (ih (n + 1) hrest)
    | ret target =>
      intro m history frame last
      rw [lineCalls, linesOutcome?]
      refine .runLines_ret fun hm _ v hv => ?_
      rw [hv]
      exact ⟨.silent hm rfl, linesLag_ret hv⟩

end Lines

/-- A body with the larger limit. If a call was cut off in it, it started with entering the lines of
its function. -/
theorem runBody_deepens (hP : P.NativesPure) (hsub : P.CallsDeepen host sub sub') (m : Memo)
    (history : Trace) {i : Invocation} (hf : P.function? i.function = some f)
    (hi : i.isValid P = true) :
    Ensures m (runBody P depth sub' f i) fun o t =>
      P.Deepens host m history (P.calls host .empty i) (P.outcome? host .empty i)
          (P.Lags m.domain (runBody P depth sub f i)) o t ∧
        (Trace.Uncut t ∨ ∃ u, t = .enter depth i :: u) := by
  cases hbody : f.body with
  | native run =>
    obtain ⟨houtcome, hcalls⟩ := outcome?_empty_of_native host hf hi hbody
    refine .runBody_native hbody fun host' => ⟨fun hm _ v hv => ?_, .inl ?_⟩
    · rw [hP _ f run hf hbody i.arguments host' host] at hv
      rw [houtcome, hcalls, hv]
      exact ⟨.silent hm rfl, lags_runBody_of_native hP hf hbody hv⟩
    · exact Trace.uncut_singleton.mpr rfl
  | lines lines =>
    obtain ⟨houtcome, hcalls⟩ := outcome?_empty_of_lines host hf hi hbody
    rw [houtcome, hcalls]
    refine .runBody_lines hbody (runLines_deepens hsub hf hbody lines 0 rfl m
      (history ++ [.enter depth i]) _ none) ?_ ?_
    · rintro g t ht
      refine ⟨?_, .inr ⟨_, rfl⟩⟩
      rintro hm hspares v ⟨⟩
      obtain ⟨hspares, -⟩ := spares_append (spares_cons hspares).2
      obtain ⟨hadvances, hlag⟩ := ht (hm.snoc _) hspares g rfl
      refine ⟨.cons (hadvances.snoc rfl) hm rfl, ?_⟩
      simpa [Memo.record] using lags_runBody_of_lines hbody hlag
    · intro e t _
      refine ⟨?_, .inr ⟨_, rfl⟩⟩
      rintro _ _ _ ⟨⟩

/-- The result that a step keeps is settled, if no call was cut off in the run of the body. -/
theorem Advances.keep {m : Memo} {history t : Trace} {i : Invocation} {v : Value}
    (hf : P.function? i.function = some f) (hi : i.isValid P = true)
    (h : P.Advances host m history (P.calls host .empty i) (P.outcome? host .empty i) v t)
    (henter : Trace.Uncut t ∨ ∃ u, t = .enter depth i :: u) :
    P.Advances host m history [i] (P.outcome? host .empty i) v
      (t ++ Ensures.keepEvents f depth i (.ok v)) := by
  have hdomain : (m.after (t ++ Ensures.keepEvents f depth i (.ok v))).domain =
      (m.after t).domain ∪ {j | j = i ∧ f.isUncacheable = false} := by
    rw [Memo.after_append, domain_after_keepEvents]
  have huncut : Trace.Uncut (t ++ Ensures.keepEvents f depth i (.ok v)) ↔ Trace.Uncut t := by
    rw [Trace.uncut_append, and_iff_left (uncut_keepEvents _)]
  have hfootprint : Trace.Uncut t → ∀ j w, P.Footprint host .empty i j w →
      j ∈ (m.after (t ++ Ensures.keepEvents f depth i (.ok v))).domain := by
    intro ht j w hj
    rw [hdomain]
    rcases footprint_iff.mp hj with ⟨rfl, ⟨g, hg, hcacheable, -⟩, -⟩ | ⟨k, hk, hj⟩
    · obtain rfl := Option.some.inj (hf.symm.trans hg)
      exact .inr ⟨rfl, hcacheable⟩
    · exact .inl (h.footprint ht k hk j w hj)
  constructor
  · rw [hdomain]
    exact h.retains.trans Set.subset_union_left
  · cases hcacheable : f.isUncacheable with
    | true => simpa [Ensures.keepEvents, hcacheable] using h.settles
    | false =>
      rw [Ensures.keepEvents_ok hcacheable, Memo.after_append] at hfootprint ⊢
      rw [← List.append_assoc]
      refine h.settles.keep fun hkept => ?_
      have ht : Trace.Uncut t := by
        rcases henter with ht | ⟨u, rfl⟩
        · exact ht
        · -- a call that is cut off is one in the run that the memo is given the result of
          by_contra hcut
          refine hkept ⟨history, u, [], depth, v, by simp, fun hu => hcut ?_⟩
          exact List.forall_mem_cons.mpr ⟨rfl, hu⟩
      exact ⟨h.outcome ht, hfootprint ht⟩
  · exact fun ht => h.outcome (huncut.mp ht)
  · exact fun ht => List.forall_mem_singleton.mpr (hfootprint (huncut.mp ht))

/-- One level further up: an answer from the memo is settled, so the smaller limit lags behind it by
itself, and a body lags behind the same body. -/
theorem step_deepens (hP : P.NativesPure) {levels levels' : Nat}
    (hsub : P.CallsDeepen host (evaluate P levels (depth + 1)) (evaluate P levels' (depth + 1))) :
    P.CallsDeepen host (evaluate P (levels + 1) depth) (evaluate P (levels' + 1) depth) := by
  intro m history i
  refine .step ?_ ?_ ?_ ?_
  · rintro _ _ _ _ _ ⟨⟩
  · rintro f v hf hcacheable hv hcut hm _ _ ⟨⟩
    obtain ⟨u, hu⟩ := hm i ⟨v, hv⟩ hcut
    obtain rfl := Option.some.inj (hv.symm.trans hu.find?)
    refine ⟨⟨subset_rfl, by rwa [List.append_nil], fun _ => hu.outcome, fun _ => ?_⟩, ?_⟩
    · exact List.forall_mem_singleton.mpr hu.footprint
    · exact evaluate_lags hP (levels + 1) depth hu.outcome hu.footprint
  · rintro _ _ _ _ _ _ _ ⟨⟩
  · intro f hf hi hmiss
    refine (runBody_deepens hP hsub m history hf hi).mono ?_
    rintro _ t ⟨ht, henter⟩ _ hm hspares v rfl
    obtain ⟨hbody, hlags⟩ := ht hm (spares_append hspares).1 v rfl
    have hstep := hbody.keep hf hi henter
    refine ⟨hstep, lags_evaluate hP fun m' hm' => lags_step hm' hstep.retains ?_ ?_⟩
    · intro g w hg hcacheable hw
      -- the smaller limit has no result where the larger one has none
      obtain rfl := Option.some.inj (hf.symm.trans hg)
      obtain ⟨u, hu⟩ := hm'.domain ⟨w, hw⟩
      rw [memoized?, hcacheable, if_neg Bool.false_ne_true] at hmiss
      cases hmiss.symm.trans hu
    · intro g hg _
      obtain rfl := Option.some.inj (hf.symm.trans hg)
      rw [Memo.after_append, domain_after_keepEvents]
      refine ⟨fun m' hm' => (hlags m' hm').mono fun o u hu w hw => ?_, fun hcacheable => ?_⟩
      · obtain ⟨hwv, hwithin⟩ := hu w hw
        exact ⟨hwv, hwithin.mono Set.subset_union_left⟩
      · exact .inr ⟨rfl, hcacheable⟩

/-- An evaluation with more levels advances, and the one with fewer levels lags behind it. -/
theorem evaluate_deepens (hP : P.NativesPure) {levels levels' : Nat} (hle : levels ≤ levels')
    (depth : Nat) : P.CallsDeepen host (evaluate P levels depth) (evaluate P levels' depth) := by
  induction levels' generalizing levels depth with
  | zero =>
    obtain rfl := Nat.le_zero.mp hle
    intro m history i
    have hcut : ¬ Trace.Uncut [.cutOff depth i] := by
      rw [Trace.uncut_singleton]
      exact Bool.noConfusion
    refine .evaluate_zero fun _ hm _ v _ => ⟨⟨subset_rfl, hm.snoc _, ?_, ?_⟩, ?_⟩
    · exact fun h => absurd h hcut
    · exact fun h => absurd h hcut
    · exact lags_evaluate_zero subset_rfl depth i
  | succ levels' ih =>
    cases levels with
    | zero =>
      -- there is nothing to compare with a call that is cut off at once
      intro m history i
      have hstep := step_deepens hP (ih (Nat.zero_le levels') (depth + 1)) m history i
      refine hstep.mono fun o t ht hcut hm hspares v hv => ?_
      obtain ⟨hadvances, -⟩ := ht hcut hm hspares v hv
      exact ⟨hadvances, lags_evaluate_zero hadvances.retains depth i⟩
    | succ levels => exact step_deepens hP (ih (Nat.le_of_succ_le_succ hle) (depth + 1))

end Evaluator

/-! ## Calls that are not cut off -/

theorem AllFit.imp {fits fits' : Set Invocation → Invocation → Prop} {known : Memo}
    (hfits : ∀ S k, fits S k → fits' S k) {S : Set Invocation} {ks : List Invocation}
    (h : P.AllFit host known fits S ks) : P.AllFit host known fits' S ks := by
  induction ks generalizing S with
  | nil => trivial
  | cons k ks ih => exact ⟨hfits S k h.1, ih h.2⟩

/-- What fits some levels fits more. -/
theorem Fits.le {known : Memo} {levels levels' : Nat} (hle : levels ≤ levels')
    {S : Set Invocation} {i : Invocation} (h : P.Fits host known levels S i) :
    P.Fits host known levels' S i := by
  induction levels generalizing levels' S i with
  | zero => exact h.elim
  | succ levels ih =>
    cases levels' with
    | zero => cases hle
    | succ levels' =>
      have hlevels : levels ≤ levels' := Nat.le_of_succ_le_succ hle
      exact h.imp id fun hcalls => hcalls.imp fun S k hk => ih hlevels hk

end Program

/-- Where no call is cut off, no result of a run that was cut off is used again. -/
theorem Trace.Uncut.not_reusesCut {P : Program σ} {t : Trace} (h : Trace.Uncut t) :
    ¬ P.ReusesCut t := by
  rintro ⟨_, e, after, i, rfl, -, before, body, _, depth, v, rfl, hcut⟩
  exact hcut fun e he => h e (by simp [he])

/-! ## Calls of a context -/

namespace Context

variable {P : Program σ} {maxDepth maxDepth' : Nat}

/-- A call that is not cut off anywhere ends alike with every larger limit. -/
theorem run_of_uncut_smaller (hP : P.NativesPure) (hle : maxDepth ≤ maxDepth') {i : Invocation}
    (host host' : σ) (huncut : Trace.Uncut ((fresh P maxDepth).run host i).trace) :
    Trace.Uncut ((fresh P maxDepth').run host' i).trace ∧
      ((fresh P maxDepth').run host' i).outcome = ((fresh P maxDepth).run host i).outcome := by
  have hfits : P.Fits host .empty (maxDepth + 1) ∅ i := fits_of_uncut_fresh hP huncut
  obtain ⟨-, houtcome, -⟩ := run_of_fits (c := fresh P maxDepth) rfl rfl hP
    (consistent_fresh P host maxDepth) (Set.empty_subset _) hfits host
  have hfits' : P.Fits host .empty (maxDepth' + 1) ∅ i := hfits.le (Nat.succ_le_succ hle)
  obtain ⟨huncut', houtcome', -⟩ := run_of_fits (c := fresh P maxDepth') rfl rfl hP
    (consistent_fresh P host maxDepth') (Set.empty_subset _) hfits' host'
  exact ⟨huncut', Option.some.inj (houtcome'.symm.trans houtcome)⟩

/-- The value of a call with a smaller limit approximates that with a larger one, if that uses no
result again of a run that was cut off. -/
theorem approximates_of_not_reusesCut (hP : P.NativesPure) (hle : maxDepth ≤ maxDepth')
    {i : Invocation} (host host' : σ)
    (hreuses : ¬ P.ReusesCut ((fresh P maxDepth').run host' i).trace) {v w : Value}
    (hv : ((fresh P maxDepth).run host i).outcome = .ok v)
    (hw : ((fresh P maxDepth').run host' i).outcome = .ok w) : v.Approximates True w := by
  have hsides : P.CallsDeepen host (evaluate P (maxDepth + 1) 0) (evaluate P (maxDepth' + 1) 0) :=
    Program.evaluate_deepens hP (Nat.succ_le_succ hle) 0
  have hdeepens := (run_of_ensures (c := fresh P maxDepth') (hsides .empty [] i) host').1
  have hspares : P.Spares [] ((fresh P maxDepth').run host' i).trace :=
    Program.spares_nil_iff.mpr hreuses
  obtain ⟨-, hlags⟩ := hdeepens Trace.not_keptCut_nil Program.settles_empty hspares w hw
  have hwithin : P.Within (Memo.empty).domain .empty := ⟨.empty, subset_rfl⟩
  exact ((run_of_ensures (c := fresh P maxDepth) (hlags .empty hwithin) host).1 v hv).1

end Context

/-! ## An answer that is lost

`detour(a)` is `b = wrap(a)`, `c = not(a)`, `b = settle(c)`, where `wrap(a)` is `b = settle(a)`. On
a true argument `settle(false)` is the fourth level of the first line and the second of the
last. -/

namespace Detour

open Settle (references signature)

/-- The program with given lines for `wrap` and `detour`. -/
def programWith (wrap detour : List Line) : Program σ :=
  ⟨references.toArray, #[⟨"not", signature, .native (.ofPure Library.negation), false⟩,
    ⟨"settle", signature, .lines Settle.lines, false⟩, ⟨"wrap", signature, .lines wrap, false⟩,
    ⟨"detour", signature, .lines detour, false⟩]⟩

/-- The body of `wrap`. -/
def wrap : List Line := [.assign ⟨2⟩ ⟨1⟩ [⟨1⟩]]

/-- The body of `detour`. -/
def lines : List Line :=
  [.assign ⟨2⟩ ⟨2⟩ [⟨1⟩], .assign ⟨3⟩ ⟨0⟩ [⟨1⟩], .assign ⟨2⟩ ⟨1⟩ [⟨3⟩]]

/-- The edits that build the program. -/
def edits : List (Edit σ) :=
  Settle.edits ++ [.declare "wrap" signature, .declare "detour" signature] ++ [.setBody ⟨2⟩ wrap] ++
    [.setBody ⟨3⟩ lines]

/-- The program. -/
def program : Program σ := programWith wrap lines

theorem ofEdits_declarations : Program.ofEdits
    (Settle.edits ++ [.declare "wrap" signature, .declare "detour" signature] : List (Edit σ)) =
      programWith [] [] := by
  rw [Program.ofEdits, List.foldl_append]
  show List.foldl _ (Program.ofEdits Settle.edits) _ = _
  rw [Settle.ofEdits_edits]
  rfl

theorem ofEdits_edits : Program.ofEdits (edits : List (Edit σ)) = program := by
  have hwrap : Program.ofEdits
      (Settle.edits ++ [.declare "wrap" signature, .declare "detour" signature] ++
        [.setBody ⟨2⟩ wrap] : List (Edit σ)) = programWith wrap [] := by
    rw [Program.ofEdits_append_singleton, ofEdits_declarations, Edit.apply, Edit.build,
      Edit.setBody_eq (f := ⟨"wrap", signature, .lines [], false⟩) wrap rfl rfl]
    rfl
  rw [edits, Program.ofEdits_append_singleton, hwrap, Edit.apply, Edit.build,
    Edit.setBody_eq (f := ⟨"detour", signature, .lines [], false⟩) lines rfl rfl]
  rfl

/-- The only function of the host is `not`. -/
theorem programWith_nativesPure (wrap detour : List Line) :
    (programWith wrap detour : Program σ).NativesPure := by
  intro id f run hf hbody arguments host host'
  obtain ⟨index⟩ := id
  rcases index with _ | _ | _ | _ | index
  · obtain rfl := Option.some.inj hf
    obtain rfl := Body.native.inj hbody
    rfl
  · obtain rfl := Option.some.inj hf
    cases hbody
  · obtain rfl := Option.some.inj hf
    cases hbody
  · obtain rfl := Option.some.inj hf
    cases hbody
  · cases hf

theorem program_nativesPure : (program : Program σ).NativesPure :=
  programWith_nativesPure wrap lines

/-- The body of `detour` without its last line, so that what `wrap` answers is not used. -/
def aside : List Line := lines.take 2

end Detour

end Rulebook

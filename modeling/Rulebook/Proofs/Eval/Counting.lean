import Mathlib.Data.List.Dedup
import Rulebook.Proofs.Eval.History

/-!
# Counting the runs of a host function

`Yields` says what an evaluation answers and which calls of one function of the host its lines make,
whatever the memo has of them: those that it lacks are run, each once, and the memo has all of them
afterwards. There is a rule for each kind of line and one for parts in sequence, where a call in the
second part may be answered by a run in the first. From no results at all, the runs are as many as
there are different calls (`Trace.Serves.length_runsOf`).
-/

namespace Rulebook

open Eval

variable {σ : Type}

/-! ## Runs of one function -/

/-- The runs of a function of the host, in order. -/
def Trace.runsOf (t : Trace) (id : FunctionId) : List Invocation :=
  t.filterMap fun
    | .native _ i _ => if i.function = id then some i else none
    | _ => none

/-- Whether an event is a run of a function, or gives the memo a result of it. -/
def Event.regards (id : FunctionId) : Event → Bool
  | .native _ i _ | .keep _ i _ => i.function = id
  | _ => false

/-- The calls of one function that a part of an evaluation makes from a memo on: those that the memo
lacks are run, each once, and afterwards the memo has all of them. Results that the memo is given
keep to a relation. -/
structure Trace.Serves (K : Invocation → Value → Prop) (id : FunctionId) (m : Memo)
    (calls : List Invocation) (t : Trace) : Prop where
  function : ∀ j ∈ calls, j.function = id
  keeps : ∀ e ∈ t, e.Keeps K
  nodup : (t.runsOf id).Nodup
  mem_runsOf : ∀ j, j ∈ t.runsOf id ↔ j ∈ calls ∧ m.find? j = none
  find?_after : ∀ j, j.function = id →
    ((m.after t).find? j = none ↔ j ∉ calls ∧ m.find? j = none)

namespace Trace

variable {K K' : Invocation → Value → Prop} {id : FunctionId} {m : Memo} {t u : Trace}
variable {calls calls' : List Invocation}

/-- The runs of a function in two parts are those of the first, then those of the second. -/
theorem runsOf_append (t u : Trace) (id : FunctionId) :
    runsOf (t ++ u) id = t.runsOf id ++ u.runsOf id :=
  List.filterMap_append

/-- Events that have nothing to do with a function have no runs of it. -/
theorem runsOf_eq_nil (h : ∀ e ∈ t, e.regards id = false) : t.runsOf id = [] := by
  apply List.filterMap_eq_nil_iff.mpr
  intro e he
  have hregards := h e he
  cases e with
  | native d i o => simpa [Event.regards] using hregards
  | cutOff | enter | line | verdict | leave | keep => rfl

/-- Only results of a function itself change what the memo has of it. -/
theorem find?_after_of_regards (h : ∀ e ∈ t, e.regards id = false) {j : Invocation}
    (hj : j.function = id) : (m.after t).find? j = m.find? j := by
  induction t generalizing m with
  | nil => rfl
  | cons e t ih =>
    obtain ⟨he, ht⟩ := List.forall_mem_cons.mp h
    rw [Memo.after_cons, ih ht]
    cases e with
    | keep d i v =>
      have hne : j ≠ i := by
        intro hji
        simp [Event.regards, ← hji, hj] at he
      rw [Memo.record, Memo.find?_insert, if_neg hne]
    | cutOff | enter | line | verdict | leave | native => rfl

namespace Serves

theorem mono (h : ∀ i v, K i v → K' i v) (ht : Serves K id m calls t) :
    Serves K' id m calls t :=
  { ht with
    keeps := fun e he => by
      have hkeeps := ht.keeps e he
      cases e with
      | keep d i v => exact h i v hkeeps
      | cutOff | enter | line | verdict | leave | native => trivial }

/-- Events that have nothing to do with the function. -/
theorem of_regards (hkeeps : ∀ e ∈ t, e.Keeps K) (h : ∀ e ∈ t, e.regards id = false) :
    Serves K id m [] t where
  function := List.forall_mem_nil _
  keeps := hkeeps
  nodup := by
    rw [runsOf_eq_nil h]
    exact List.nodup_nil
  mem_runsOf j := by simp [runsOf_eq_nil h]
  find?_after j hj := by simp [find?_after_of_regards h hj]

theorem nil : Serves K id m [] [] := of_regards (List.forall_mem_nil _) (List.forall_mem_nil _)

/-- A call that the memo answers. -/
theorem found {i : Invocation} {v : Value} (hi : i.function = id) (hv : m.find? i = some v) :
    Serves K id m [i] [] where
  function := List.forall_mem_singleton.mpr hi
  keeps := List.forall_mem_nil _
  nodup := List.nodup_nil
  mem_runsOf j := by
    -- nothing was run, and what is not in the memo is another call
    have hne : j = i → m.find? j ≠ none := by
      intro hj
      simp [hj, hv]
    simpa [runsOf] using hne
  find?_after j _ := by
    have hne : m.find? j = none → j ≠ i := by
      intro hj hji
      simp [← hji, hj] at hv
    simpa using hne

/-- A call that is run and kept. -/
theorem run {depth : Nat} {i : Invocation} {o : Except Violation Value} {v : Value}
    (hi : i.function = id) (hmiss : m.find? i = none) (hv : K i v) :
    Serves K id m [i] [.native depth i o, .keep depth i v] where
  function := List.forall_mem_singleton.mpr hi
  keeps := by simpa [Event.Keeps] using hv
  nodup := by simp [runsOf, hi]
  mem_runsOf j := by
    have hsame : j = i → m.find? j = none := fun hj => hj ▸ hmiss
    simpa [runsOf, hi] using hsame
  find?_after j _ := by
    show (m.insert i v).find? j = none ↔ _
    rw [Memo.find?_insert]
    by_cases hj : j = i <;> simp [hj]

/-- The second part runs the calls that neither the memo nor the first part answers. -/
theorem append (ht : Serves K id m calls t) (hu : Serves K id (m.after t) calls' u) :
    Serves K id m (calls ++ calls') (t ++ u) where
  function := List.forall_mem_append.mpr ⟨ht.function, hu.function⟩
  keeps := List.forall_mem_append.mpr ⟨ht.keeps, hu.keeps⟩
  nodup := by
    rw [runsOf_append]
    apply List.nodup_append.mpr
    refine ⟨ht.nodup, hu.nodup, ?_⟩
    intro j hj k hk hjk
    subst hjk
    obtain ⟨hcalls', hafter⟩ := (hu.mem_runsOf j).mp hk
    have hnew := ((ht.find?_after j (hu.function j hcalls')).mp hafter).1
    exact hnew ((ht.mem_runsOf j).mp hj).1
  mem_runsOf j := by
    rw [runsOf_append, List.mem_append, List.mem_append, ht.mem_runsOf, hu.mem_runsOf]
    by_cases hcalls' : j ∈ calls'
    · rw [ht.find?_after j (hu.function j hcalls')]
      tauto
    · tauto
  find?_after j hj := by
    rw [Memo.after_append, hu.find?_after j hj, ht.find?_after j hj, List.mem_append]
    tauto

/-- An event before the others that only tells what happens. -/
theorem cons {e : Event} (hkeep : e.isKeep = false) (he : e.regards id = false)
    (ht : Serves K id m calls t) : Serves K id m calls (e :: t) := by
  have hfirst : Serves K id m [] [e] := by
    apply of_regards
    · exact List.forall_mem_singleton.mpr (Event.keeps_of_isKeep_eq_false hkeep)
    · exact List.forall_mem_singleton.mpr he
  apply hfirst.append
  rwa [Memo.after_cons, Memo.after_nil, Memo.record_of_isKeep_eq_false hkeep]

/-- Events after the others that have nothing to do with the function. -/
theorem append_of_regards (hkeeps : ∀ e ∈ u, e.Keeps K) (h : ∀ e ∈ u, e.regards id = false)
    (ht : Serves K id m calls t) : Serves K id m calls (t ++ u) := by
  rw [← List.append_nil calls]
  exact ht.append (of_regards hkeeps h)

theorem snoc {e : Event} (hkeep : e.isKeep = false) (he : e.regards id = false)
    (ht : Serves K id m calls t) : Serves K id m calls (t ++ [e]) := by
  apply append_of_regards _ _ ht
  · exact List.forall_mem_singleton.mpr (Event.keeps_of_isKeep_eq_false hkeep)
  · exact List.forall_mem_singleton.mpr he

/-- From a memo without results, as many runs as there are different calls. -/
theorem length_runsOf (h : Serves K id .empty calls t) :
    (t.runsOf id).length = calls.dedup.length := by
  apply List.Perm.length_eq
  apply (List.perm_ext_iff_of_nodup h.nodup calls.nodup_dedup).mpr
  intro j
  rw [h.mem_runsOf, List.mem_dedup, Memo.find?_empty]
  simp

end Serves

end Trace

/-! ## What functions of the host answer -/

namespace Program

/-- If every other function of the host leaves its state alone, the state is what the runs of one
function make of it. -/
theorem hostAfter_eq_foldl_runsOf {P : Program σ} {id : FunctionId} {run : Native σ}
    (hrun : P.native? id = some run)
    (hothers : ∀ j other, j ≠ id → P.native? j = some other →
      ∀ arguments host, (other arguments host).2 = host) (host : σ) (t : Trace) :
    P.hostAfter host t = (t.runsOf id).foldl (fun host j => (run j.arguments host).2) host := by
  rw [hostAfter, Trace.runsOf, List.foldl_filterMap]
  congr 1
  funext host e
  cases e with
  | native d j o =>
    by_cases hj : j.function = id
    · simp [hostRecord, hj, hrun]
    · unfold hostRecord
      cases hnative : P.native? j.function with
      | none => simp [hj, hnative]
      | some other => simp [hj, hnative, hothers _ other hj hnative]
  | cutOff | enter | line | verdict | leave | keep => rfl

/-- A cacheable function of the host answers an invocation with a value, in whatever state the host
is. -/
def Answers (P : Program σ) (i : Invocation) (v : Value) : Prop :=
  ∃ f run, P.function? i.function = some f ∧ f.body = .native run ∧ f.isUncacheable = false ∧
    f.arity = i.arguments.length ∧ ∀ host, (run i.arguments host).1 = .ok v

/-- A result is the one that the host answers, if it answers the invocation. -/
def Agrees (P : Program σ) (i : Invocation) (v : Value) : Prop := ∀ w, P.Answers i w → v = w

/-- Results keep to a relation that has the host's answers, and only these for the invocations that
the host answers. -/
structure Consults (P : Program σ) (K : Invocation → Value → Prop) : Prop where
  kept : ∀ i v, P.Answers i v → K i v
  found : ∀ i v w, P.Answers i v → K i w → w = v

variable {P : Program σ} {i : Invocation} {v w : Value}

/-- The host answers an invocation with one value. -/
theorem Answers.unique [Nonempty σ] (h : P.Answers i v) (h' : P.Answers i w) : v = w := by
  obtain ⟨f, run, hf, hbody, -, -, hrun⟩ := h
  obtain ⟨f', run', hf', hbody', -, -, hrun'⟩ := h'
  obtain rfl := Option.some.inj (hf.symm.trans hf')
  obtain rfl := Body.native.inj (hbody.symm.trans hbody')
  have host := Classical.arbitrary σ
  exact Except.ok.inj ((hrun host).symm.trans (hrun' host))

/-- An answer of the host contradicts none of its answers. -/
theorem Answers.agrees [Nonempty σ] (h : P.Answers i v) : P.Agrees i v := fun _ hw => h.unique hw

/-- The relation of the answers of the host has them and nothing else. -/
theorem consults_answers [Nonempty σ] (P : Program σ) : P.Consults P.Answers where
  kept _ _ h := h
  found _ _ _ h h' := h'.unique h

/-- The relation of what the host would not contradict has its answers. -/
theorem consults_agrees [Nonempty σ] (P : Program σ) : P.Consults P.Agrees where
  kept _ _ h := h.agrees
  found _ v _ h h' := h' v h

end Program

/-! ## What evaluations answer -/

namespace Eval

/-- From any memo whose results keep to `K`, an evaluation answers a value, its lines make given
calls of one function of the host, and the results of the memo keep to the weaker `K'` from then
on. -/
structure Yields (K K' : Invocation → Value → Prop) (id : FunctionId) (calls : List Invocation)
    (v : Value) (x : Eval σ Value) : Prop where
  weaker : ∀ i v, K i v → K' i v
  ensures : ∀ m, m.All K → Ensures m x fun o t => o = .ok v ∧ Trace.Serves K' id m calls t

namespace Yields

variable {K K' K'' : Invocation → Value → Prop} {id callee gate : FunctionId}
variable {calls calls' : List Invocation} {v w : Value} {P : Program σ} {f : Function σ}
variable {sub : Invocation → Eval σ Value} {levels depth n : Nat} {i : Invocation}

theorem mono {x : Eval σ Value} (h : Yields K K' id calls v x) (hK : ∀ i v, K' i v → K'' i v) :
    Yields K K'' id calls v x where
  weaker i v hi := hK i v (h.weaker i v hi)
  ensures m hm := (h.ensures m hm).mono fun _ _ ht => ⟨ht.1, ht.2.mono hK⟩

/-- What comes after a part of an evaluation starts on a memo that keeps to the weaker relation. -/
theorem all_after {x : Eval σ Value} (h : Yields K K' id calls v x) {m : Memo} (hm : m.All K)
    {t : Trace} (ht : Trace.Serves K' id m calls t) : (m.after t).All K' := by
  apply Memo.All.after
  · exact fun i v hi => h.weaker i v (hm i v hi)
  · exact ht.keeps

/-! ### Calls -/

/-- With no level left the answer is that the recursion is too deep, and no call is made. -/
theorem cutOff : Yields K K id [] .tooDeep (evaluate P 0 depth i) where
  weaker _ _ hi := hi
  ensures m _ := by
    apply Ensures.evaluate_zero
    refine ⟨rfl, .of_regards ?_ ?_⟩
    · exact List.forall_mem_singleton.mpr trivial
    · exact List.forall_mem_singleton.mpr rfl

/-- A function of the host is run and its answer kept, unless the memo has the answer. -/
theorem evaluate_answers (hK : P.Consults K) (hi : P.Answers i v) (levels depth : Nat) {m : Memo}
    (hm : m.All K) :
    Ensures m (evaluate P (levels + 1) depth i) fun o t => o = .ok v ∧
      (m.find? i = some v ∧ t = [] ∨
        m.find? i = none ∧ t = [.native depth i (.ok v), .keep depth i v]) := by
  have hfound : ∀ w, m.find? i = some w → w = v :=
    fun w hw => hK.found i v w hi (hm i w hw)
  obtain ⟨f, run, hf, hbody, hcacheable, harity, hrun⟩ := hi
  show Ensures m (Eval.step P depth _ i) _
  cases hfind : m.find? i with
  | some w =>
    obtain rfl := hfound w hfind
    apply Ensures.step_remembered hf (memoized?_eq_some.mpr ⟨hcacheable, hfind⟩)
    exact ⟨rfl, .inl ⟨rfl, rfl⟩⟩
  | none =>
    have hmiss : memoized? f i m = none := by simp [memoized?, hfind]
    have hvalid := Invocation.IsMemoizable.isValid ⟨f, hf, hcacheable, harity⟩
    apply Ensures.step_body hf hmiss hvalid
    apply Ensures.runBody_native hbody
    intro host
    rw [hrun host, Failure.ofViolation, Ensures.keepEvents_ok hcacheable]
    exact ⟨rfl, .inr ⟨rfl, rfl⟩⟩

/-- A call of another function of the host. -/
theorem host (hK : P.Consults K) (hi : P.Answers i v) (hid : i.function ≠ id) :
    Yields K K id [] v (evaluate P (levels + 1) depth i) where
  weaker _ _ hi := hi
  ensures m hm := by
    apply (evaluate_answers hK hi levels depth hm).mono
    intro o t h
    obtain ⟨ho, ⟨-, rfl⟩ | ⟨-, rfl⟩⟩ := h
    · exact ⟨ho, .nil⟩
    · refine ⟨ho, .of_regards ?_ ?_⟩
      · simpa [Event.Keeps] using hK.kept i v hi
      · simp [Event.regards, hid]

/-- A call of the function whose runs are counted. -/
theorem counted (hK : P.Consults K) (hi : P.Answers i v) (hid : i.function = id) :
    Yields K K id [i] v (evaluate P (levels + 1) depth i) where
  weaker _ _ hi := hi
  ensures m hm := by
    apply (evaluate_answers hK hi levels depth hm).mono
    intro o t h
    obtain ⟨ho, ⟨hfind, rfl⟩ | ⟨hfind, rfl⟩⟩ := h
    · exact ⟨ho, .found hid hfind⟩
    · exact ⟨ho, .run hid hfind (hK.kept i v hi)⟩

/-- A call of a function with lines that the memo cannot have a result of yet. -/
theorem step (hf : P.function? i.function = some f) (harity : f.arity = i.arguments.length)
    (hid : i.function ≠ id) (hmiss : ∀ m : Memo, m.All K → m.find? i = none) (hkeep : K' i v)
    (h : Yields K K' id calls v (runBody P depth sub f i)) :
    Yields K K' id calls v (Eval.step P depth sub i) where
  weaker := h.weaker
  ensures m hm := by
    have hvalid : i.isValid P = true := by
      rw [Invocation.isValid_of_function? hf, decide_eq_true_eq]
      exact harity
    have hmemoized : memoized? f i m = none := by simp [memoized?, hmiss m hm]
    apply Ensures.step_body hf hmemoized hvalid
    apply (h.ensures m hm).mono
    intro o t hbody
    obtain ⟨rfl, ht⟩ := hbody
    refine ⟨rfl, .append_of_regards ?_ ?_ ht⟩
    · apply Ensures.forall_mem_keepEvents
      intro w hw _
      rw [← Except.ok.inj hw]
      exact hkeep
    · apply Ensures.forall_mem_keepEvents
      intro w _ _
      simp [Event.regards, hid]

/-! ### Lines -/

variable {frame : Frame} {arguments : List ReferenceId} {target : ReferenceId} {values : List Value}
variable {rest lines : List Line} {last : Option Value} {own : FunctionId}

/-- The call of a line with readable arguments and no error among them is the call below. -/
theorem callLine (hread : resolveAll P f frame arguments = .ok values)
    (herror : values.find? Value.isError = none)
    (h : Yields K K' id calls v (sub ⟨callee, values⟩)) :
    Yields K K' id calls v (Eval.callLine P f sub frame callee arguments) := by
  rw [Eval.callLine, hread, liftState_ok_bind, herror]
  exact h

/-- An error among the arguments of a call is its result. -/
theorem callLine_error (hread : resolveAll P f frame arguments = .ok values)
    (herror : values.find? Value.isError = some v) :
    Yields K K id [] v (Eval.callLine P f sub frame callee arguments) where
  weaker _ _ hi := hi
  ensures m _ := by
    rw [Eval.callLine, hread, liftState_ok_bind, herror]
    exact Ensures.pure ⟨rfl, .nil⟩

/-- Past the last line the value of the last assignment is the answer. -/
theorem past_end : Yields K K id [] v (runLines P f own depth sub [] n frame (some v)) where
  weaker _ _ hi := hi
  ensures _ _ := Ensures.pure ⟨rfl, .nil⟩

/-- An assignment makes the calls of its own and then those of the rest of the lines. -/
theorem assign (hcall : Yields K K' id calls w (Eval.callLine P f sub frame callee arguments))
    (hrest : Yields K' K'' id calls' v
      (runLines P f own depth sub rest (n + 1) (frame.bind target w) (some w))) :
    Yields K K'' id (calls ++ calls') v
      (runLines P f own depth sub (.assign target callee arguments :: rest) n frame last) where
  weaker i v hi := hrest.weaker i v (hcall.weaker i v hi)
  ensures m hm := by
    apply Ensures.runLines_assign (hcall.ensures m hm)
    · intro w' t ht
      obtain ⟨hw, ht⟩ := ht
      obtain rfl := Except.ok.inj hw
      apply (hrest.ensures (m.after t) (hcall.all_after hm ht)).mono
      intro o u hu
      exact ⟨hu.1, ((ht.mono hrest.weaker).append hu.2).cons rfl rfl⟩
    · intro e t ht
      cases ht.1

/-- A line that calls another function of the host makes no calls of the given one. -/
theorem callLine_host (hK : P.Consults K) (hread : resolveAll P f frame arguments = .ok values)
    (herror : values.find? Value.isError = none) (hi : P.Answers ⟨callee, values⟩ v)
    (hid : callee ≠ id) :
    Yields K K id [] v
      (Eval.callLine P f (evaluate P (levels + 1) depth) frame callee arguments) :=
  callLine hread herror (host hK hi hid)

/-- A line that assigns what another function of the host answers. -/
theorem assign_host {d : Nat} (hK : P.Consults K)
    (hread : resolveAll P f frame arguments = .ok values)
    (herror : values.find? Value.isError = none) (hi : P.Answers ⟨callee, values⟩ w)
    (hid : callee ≠ id)
    (hrest : Yields K K' id calls v (runLines P f own d (evaluate P (levels + 1) depth) rest (n + 1)
      (frame.bind target w) (some w))) :
    Yields K K' id calls v (runLines P f own d (evaluate P (levels + 1) depth)
      (.assign target callee arguments :: rest) n frame last) :=
  assign (callLine_host hK hread herror hi hid) hrest

/-- A gate that answers an error makes it the result. -/
theorem gate_error (hcall : Yields K K' id calls v (Eval.callLine P f sub frame gate arguments))
    (hv : v.isError = true) :
    Yields K K' id calls v
      (runLines P f own depth sub (.returnIf target gate arguments :: rest) n frame last) where
  weaker := hcall.weaker
  ensures m hm := by
    -- the other cases are about a verdict that is no error
    have herror : ∀ w : Value, (.ok w : Except (Failure EvalError) Value) = .ok v →
        w.isError ≠ false := by
      intro w hw
      simp [Except.ok.inj hw, hv]
    apply Ensures.runLines_returnIf (hcall.ensures m hm)
    · intro e t ht
      cases ht.1
    · intro w t ht _
      exact ⟨ht.1, (ht.2.snoc rfl rfl).cons rfl rfl⟩
    · exact fun w t e ht hw _ => absurd hw (herror w ht.1)
    · exact fun w t ht hw _ => absurd hw (herror w ht.1)
    · exact fun w t ht hw _ => absurd hw (herror w ht.1)

/-- A gate that answers a truth value is open or closed by it. -/
theorem runLines_verdict {b : Bool} {m : Memo} {S : Trace → Prop}
    {Q : Except (Failure EvalError) Value → Trace → Prop}
    (hcall : Ensures m (Eval.callLine P f sub frame gate arguments)
      fun o t => o = .ok (.bool b) ∧ S t)
    (hopen : b = true → ∀ t, S t → Q (resolve P f frame target)
      (.line depth own n frame :: (t ++ [.verdict depth gate (.bool b)])))
    (hclosed : b = false → ∀ t, S t →
      Ensures (m.after t) (runLines P f own depth sub rest (n + 1) frame last)
        fun o u => Q o (.line depth own n frame :: (t ++ .verdict depth gate (.bool b) :: u))) :
    Ensures m
      (runLines P f own depth sub (.returnIf target gate arguments :: rest) n frame last) Q := by
  apply Ensures.runLines_returnIf hcall
  · intro e t ht
    cases ht.1
  · intro w t ht hw
    obtain rfl := Except.ok.inj ht.1
    cases hw
  · intro w t e ht _ hgate
    obtain rfl := Except.ok.inj ht.1
    cases hgate
  · intro w t ht _ hgate
    obtain rfl := Except.ok.inj ht.1
    exact hopen (Except.ok.inj hgate) t ht.2
  · intro w t ht _ hgate
    obtain rfl := Except.ok.inj ht.1
    exact hclosed (Except.ok.inj hgate) t ht.2

/-- An open gate returns the target of its line. -/
theorem gate_open
    (hcall : Yields K K' id calls (.bool true) (Eval.callLine P f sub frame gate arguments))
    (htarget : resolve P f frame target = .ok v) :
    Yields K K' id calls v
      (runLines P f own depth sub (.returnIf target gate arguments :: rest) n frame last) where
  weaker := hcall.weaker
  ensures m hm := by
    apply runLines_verdict (hcall.ensures m hm)
    · intro _ t ht
      exact ⟨htarget, (ht.snoc rfl rfl).cons rfl rfl⟩
    · nofun

/-- A closed gate passes on to the next line. -/
theorem gate_closed
    (hcall : Yields K K' id calls (.bool false) (Eval.callLine P f sub frame gate arguments))
    (hrest : Yields K' K'' id calls' v (runLines P f own depth sub rest (n + 1) frame last)) :
    Yields K K'' id (calls ++ calls') v
      (runLines P f own depth sub (.returnIf target gate arguments :: rest) n frame last) where
  weaker i v hi := hrest.weaker i v (hcall.weaker i v hi)
  ensures m hm := by
    apply runLines_verdict (hcall.ensures m hm)
    · nofun
    · intro _ t ht
      apply (hrest.ensures (m.after t) (hcall.all_after hm ht)).mono
      intro o u hu
      exact ⟨hu.1, ((ht.mono hrest.weaker).append (hu.2.cons rfl rfl)).cons rfl rfl⟩

/-- A body of lines answers as its lines do and makes their calls. -/
theorem body (hbody : f.body = .lines lines)
    (h : Yields K K' id calls v (runLines P f i.function depth sub lines 0
      (Frame.ofArguments f.signature.parameterIds i.arguments) none)) :
    Yields K K' id calls v (runBody P depth sub f i) where
  weaker := h.weaker
  ensures m hm := by
    apply Ensures.runBody_lines hbody (h.ensures m hm)
    · intro w t ht
      exact ⟨ht.1, (ht.2.snoc rfl rfl).cons rfl rfl⟩
    · intro e t ht
      cases ht.1

end Yields

end Eval

end Rulebook

import Rulebook.Proofs.Eval.Ensures
import Rulebook.Proofs.Program.WellFormed

/-!
# Evaluation of checked bodies

What the check of bodies is good for when they run. A *discipline* says which values may stand
where a type is announced: `V` is about slots and results, `A` about arguments of a call. If every
function of the host keeps to it, then so does a whole evaluation: every call is given arguments
that `A` admits, every result is one that `V` admits, and no read and no lookup ever fails, so that
an evaluation can end in failure only for a reason that its last event shows (`Event.Explains`).

The discipline that admits every value tells which errors there can be at all; that of values that
fit their types gives type soundness.
-/

namespace Rulebook

open Eval

variable {σ : Type}

/-! ## Disciplines -/

namespace Program

variable {P : Program σ} {V A : Ty → Value → Prop}

/-- Every argument is one that `A` admits at the type of its parameter. -/
def Takes (P : Program σ) (A : Ty → Value → Prop) (f : Function σ) (arguments : List Value) :
    Prop :=
  List.Forall₂ (fun id v => ∃ ty, P.ty? id = some ty ∧ A ty v) f.signature.parameterIds arguments

/-- `V` admits values of slots and results, and `A` those of arguments. Errors are admitted
anywhere once they are admitted somewhere, and the host gives admitted results. -/
structure Discipline (P : Program σ) (V A : Ty → Value → Prop) : Prop where
  literal : ∀ (r : Reference) v, r.literalValue = .ok v → V r.ty v
  tooDeep : ∀ ty, V ty .tooDeep
  error : ∀ ty ty' v, V ty v → v.isError = true → V ty' v
  slot : ∀ ty v, A ty v → V ty v
  argument : ∀ ty v, V ty v → v.isError = false → A ty v
  native : ∀ id f run arguments host v ty, P.function? id = some f → f.body = .native run →
    P.Takes A f arguments → P.ty? f.signature.result.reference = some ty →
    (run arguments host).1 = .ok v → V ty v

/-- A function is given as many arguments as it takes. -/
theorem Takes.length_eq {f : Function σ} {arguments : List Value} (h : P.Takes A f arguments) :
    f.arity = arguments.length := by
  rw [← f.length_parameterIds]
  exact List.Forall₂.length_eq h

/-- An invocation with admitted arguments has the right number of them. -/
theorem Takes.isValid {i : Invocation} {f : Function σ} (hf : P.function? i.function = some f)
    (h : P.Takes A f i.arguments) : i.isValid P = true := by
  rw [Invocation.isValid_of_function? hf, decide_eq_true_eq]
  exact h.length_eq

end Program

/-! ## What an evaluation shows -/

/-- A memoized result is admitted if the arguments are. -/
def Program.Remembers (P : Program σ) (V A : Ty → Value → Prop) (i : Invocation) (v : Value) :
    Prop :=
  ∀ f ty, P.function? i.function = some f → P.Takes A f i.arguments →
    P.ty? f.signature.result.reference = some ty → V ty v

/-- An event of an evaluation that keeps to a discipline. -/
def Event.Admitted (P : Program σ) (V A : Ty → Value → Prop) : Event → Prop
  | .native _ i o => ∃ f run host, P.function? i.function = some f ∧ f.body = .native run ∧
      P.Takes A f i.arguments ∧ o = (run i.arguments host).1
  | .verdict _ _ v => V (.single .boolean) v
  | .keep _ i v => P.Remembers V A i v
  | _ => True

/-- The event that an evaluation ends with shows why it failed: a function of the host or the
payload of a Boolean broke a contract, a gate answered neither a Boolean nor an error, or a function
without lines was run. -/
inductive Event.Explains (P : Program σ) : Event → Failure EvalError → Prop where
  | native {d i v} : Explains P (.native d i (.error v)) (.violation v)
  | payload {d g w v} (hty : w.ty = .single .boolean) (hw : w.asBool = .error v) :
      Explains P (.verdict d g w) (.violation v)
  | gate {d g w function gate} (herror : w.isError = false) (hty : w.ty ≠ .single .boolean) :
      Explains P (.verdict d g w) (.error (.gateNotBoolean function gate w.ty))
  | noLines {d i f} (hf : P.function? i.function = some f) (hbody : f.body = .lines []) :
      Explains P (.enter d i) (.error (.missingResult f.name))

/-- An evaluation keeps to a discipline, with a result of a type, and shows why it failed. -/
structure Sound (P : Program σ) (V A : Ty → Value → Prop) (ty : Ty)
    (o : Except (Failure EvalError) Value) (t : Trace) : Prop where
  result : ∀ v, o = .ok v → V ty v
  failure : ∀ e, o = .error e → ∃ last, t.getLast? = some last ∧ last.Explains P e
  events : ∀ e ∈ t, e.Admitted P V A

/-- Calls of functions with admitted arguments are sound. -/
def SoundCalls (P : Program σ) (V A : Ty → Value → Prop) (sub : Invocation → Eval σ Value) : Prop :=
  ∀ m i f ty, Memo.All (P.Remembers V A) m → P.function? i.function = some f →
    P.Takes A f i.arguments → P.ty? f.signature.result.reference = some ty →
    Ensures m (sub i) (Sound P V A ty)

/-- A frame has admitted values for the bound slots. -/
def Frame.Binds (P : Program σ) (V : Ty → Value → Prop) (bound : List ReferenceId)
    (frame : Frame) : Prop :=
  ∀ id ∈ bound, ∃ v, frame.lookup id = some v ∧ ∀ ty, P.ty? id = some ty → V ty v

section

variable {P : Program σ} {V A : Ty → Value → Prop} {ty : Ty}
variable {o : Except (Failure EvalError) Value} {t u : Trace} {e : Event}

namespace Sound

theorem keeps (h : Sound P V A ty o t) : ∀ e ∈ t, e.Keeps (P.Remembers V A) := by
  intro e he
  have hadmitted := h.events e he
  cases e with
  | keep d i v => exact hadmitted
  | cutOff | enter | line | verdict | leave | native => trivial

/-- Admitted events may come before. -/
theorem after (h : Sound P V A ty o u) (ht : ∀ e ∈ t, e.Admitted P V A) :
    Sound P V A ty o (t ++ u) := by
  refine ⟨h.result, fun e he => ?_, List.forall_mem_append.mpr ⟨ht, h.events⟩⟩
  obtain ⟨last, hlast, hexplains⟩ := h.failure e he
  refine ⟨last, ?_, hexplains⟩
  rw [List.getLast?_append, hlast, Option.some_or]

theorem cons (h : Sound P V A ty o t) (he : e.Admitted P V A) : Sound P V A ty o (e :: t) :=
  h.after (t := [e]) (List.forall_mem_singleton.mpr he)

theorem ok {v : Value} (hv : V ty v) (ht : ∀ e ∈ t, e.Admitted P V A) :
    Sound P V A ty (.ok v) t := by
  refine ⟨fun w hw => ?_, nofun, ht⟩
  cases hw
  exact hv

/-- A failure is sound if the last event explains it. -/
theorem error {x : Failure EvalError} (hlast : e.Explains P x) (ht : ∀ e ∈ t, e.Admitted P V A)
    (he : e.Admitted P V A) : Sound P V A ty (.error x) (t ++ [e]) := by
  refine ⟨nofun, fun y hy => ?_, List.forall_mem_append.mpr ⟨ht, List.forall_mem_singleton.mpr he⟩⟩
  cases hy
  exact ⟨e, List.getLast?_concat, hlast⟩

/-- A failure is a failure at any type. -/
theorem of_error {ty' : Ty} {x : Failure EvalError} (h : Sound P V A ty' (.error x) t) :
    Sound P V A ty (.error x) t := ⟨nofun, h.failure, h.events⟩

end Sound

end

/-! ## Reading -/

section Reading

variable {P : Program σ} {V A : Ty → Value → Prop} {bound : List ReferenceId} {frame : Frame}

/-- Parameters are bound to the arguments. -/
theorem Frame.binds_ofArguments (hD : P.Discipline V A) {f : Function σ} {arguments : List Value}
    (h : P.Takes A f arguments) :
    (Frame.ofArguments f.signature.parameterIds arguments).Binds P V f.signature.parameterIds := by
  obtain ⟨hlength, hzip⟩ := List.forall₂_iff_zip.mp h
  intro id hid
  -- the frame has an entry for every parameter, and every entry comes from the zipped lists
  have hkeys : id ∈ (f.signature.parameterIds.zip arguments).map Prod.fst := by
    rwa [List.map_fst_zip (Nat.le_of_eq hlength)]
  have hsome : ((Frame.ofArguments f.signature.parameterIds arguments).lookup id).isSome := by
    obtain ⟨entry, hentry, rfl⟩ := List.mem_map.mp hkeys
    exact List.lookup_isSome_iff.mpr ⟨entry, List.mem_reverse.mpr hentry, beq_self_eq_true _⟩
  obtain ⟨v, hv⟩ := Option.isSome_iff_exists.mp hsome
  refine ⟨v, hv, fun ty hty => ?_⟩
  have hmem : (id, v) ∈ f.signature.parameterIds.zip arguments := by
    obtain ⟨before, after, hsplit, -⟩ := List.lookup_eq_some_iff.mp hv
    have hreverse : (f.signature.parameterIds.zip arguments).reverse = before ++ (id, v) :: after :=
      hsplit
    rw [← List.mem_reverse, hreverse]
    exact List.mem_append_right _ List.mem_cons_self
  obtain ⟨ty', hty', hA⟩ := hzip hmem
  obtain rfl := Option.some.inj (hty.symm.trans hty')
  exact hD.slot ty v hA

/-- A binding adds its slot to the bound ones. -/
theorem Frame.Binds.bind (h : frame.Binds P V bound) {target : ReferenceId} {v : Value}
    (hv : ∀ ty, P.ty? target = some ty → V ty v) :
    (frame.bind target v).Binds P V (target :: bound) := by
  intro id hid
  rw [Frame.lookup_bind]
  by_cases htarget : id = target
  · rw [if_pos htarget, htarget]
    exact ⟨v, rfl, hv⟩
  · rw [if_neg htarget]
    exact h id ((List.mem_cons.mp hid).resolve_left htarget)

variable {f : Function σ}

/-- What the check lets a line read can be read. -/
theorem resolve_eq_ok (hD : P.Discipline V A) (hframe : frame.Binds P V bound) {id : ReferenceId}
    (h : P.Readable bound id) :
    ∃ v, resolve P f frame id = .ok v ∧ ∀ ty, P.ty? id = some ty → V ty v := by
  obtain ⟨r, hr, h⟩ := h
  have hty : ∀ ty, P.ty? id = some ty → r.ty = ty := by
    intro ty hty
    rw [Program.ty?, hr, Option.map_some, Option.some.injEq] at hty
    exact hty
  have hreference :
      (Failure.ofViolation (P.reference id) : Except (Failure EvalError) _) = .ok r := by
    rw [Failure.ofViolation_eq_ok, Program.reference_eq_ok, hr]
  rw [resolve, hreference]
  show ∃ v, (if r.isLiteral then _ else _) = _ ∧ _
  rcases h with ⟨hliteral, v, hv⟩ | ⟨hslot, hid⟩
  · rw [if_pos hliteral, hv]
    refine ⟨v, rfl, fun ty hty' => ?_⟩
    rw [← hty ty hty']
    exact hD.literal r v hv
  · obtain ⟨v, hv, hV⟩ := hframe id hid
    rw [hslot, if_neg Bool.false_ne_true, hv]
    exact ⟨v, rfl, hV⟩

/-- Arguments that passed the check can be read, and are admitted at the types of the parameters. -/
theorem resolveAll_eq_ok (hD : P.Discipline V A) (hframe : frame.Binds P V bound)
    {arguments parameters : List ReferenceId}
    (h : List.Forall₂ (P.ArgumentTyped bound) arguments parameters) :
    ∃ vs, resolveAll P f frame arguments = .ok vs ∧
      List.Forall₂ (fun id v => ∃ ty, P.ty? id = some ty ∧ V ty v) parameters vs := by
  induction h with
  | nil => exact ⟨[], rfl, .nil⟩
  | @cons argument parameter arguments parameters hargument _ ih =>
    obtain ⟨hread, ty, hty, hparameter⟩ := hargument
    obtain ⟨v, hv, hV⟩ := resolve_eq_ok (f := f) hD hframe hread
    obtain ⟨vs, hvs, hVs⟩ := ih
    refine ⟨v :: vs, ?_, .cons ⟨ty, hparameter, hV ty hty⟩ hVs⟩
    rw [resolveAll, hv]
    show (resolveAll P f frame arguments >>= _) = _
    rw [hvs]
    rfl

/-- Among admitted values an error is admitted anywhere, -/
theorem admitted_of_find? (hD : P.Discipline V A) {ids : List ReferenceId} {vs : List Value}
    (h : List.Forall₂ (fun id v => ∃ ty, P.ty? id = some ty ∧ V ty v) ids vs) {v : Value}
    (hv : vs.find? Value.isError = some v) (ty : Ty) : V ty v := by
  -- the error stands at some index, where the slot of the same index has a type
  obtain ⟨n, hn, hget⟩ := List.getElem_of_mem (List.mem_of_find?_eq_some hv)
  obtain ⟨hlength, hzip⟩ := List.forall₂_iff_get.mp h
  obtain ⟨ty', -, hV⟩ := hzip n (hlength ▸ hn) hn
  rw [List.get_eq_getElem, hget] at hV
  exact hD.error ty' ty v hV (by simpa using List.find?_some hv)

/-- and values without an error are admitted as arguments. -/
theorem takes_of_find? (hD : P.Discipline V A) {ids : List ReferenceId} {vs : List Value}
    (h : List.Forall₂ (fun id v => ∃ ty, P.ty? id = some ty ∧ V ty v) ids vs)
    (hvs : vs.find? Value.isError = none) :
    List.Forall₂ (fun id v => ∃ ty, P.ty? id = some ty ∧ A ty v) ids vs := by
  induction h with
  | nil => exact .nil
  | @cons id v ids vs hv _ ih =>
    have hfalse : ∀ w ∈ v :: vs, w.isError = false := by simpa using hvs
    obtain ⟨hfalse, hrest⟩ := List.forall_mem_cons.mp hfalse
    obtain ⟨ty, hty, hV⟩ := hv
    exact .cons ⟨ty, hty, hD.argument ty v hV hfalse⟩ (ih (by simpa using hrest))

end Reading

/-! ## Soundness -/

section Soundness

variable {P : Program σ} {V A : Ty → Value → Prop} {sub : Invocation → Eval σ Value}
variable {f : Function σ} {depth : Nat} {bound : List ReferenceId} {frame : Frame} {m : Memo}

/-- The call of a line that passed the check is sound if the calls below are. -/
theorem callLine_sound (hD : P.Discipline V A) (hsub : SoundCalls P V A sub)
    (hm : m.All (P.Remembers V A)) (hframe : frame.Binds P V bound) {callee : FunctionId}
    {arguments : List ReferenceId} {ty : Ty} (h : P.CallTyped bound callee arguments ty) :
    Ensures m (callLine P f sub frame callee arguments) (Sound P V A ty) := by
  obtain ⟨g, hg, harguments, hty⟩ := h
  obtain ⟨vs, hvs, hVs⟩ := resolveAll_eq_ok (f := f) hD hframe harguments
  refine .callLine ?_ ?_ ?_
  · intro e he
    cases hvs.symm.trans he
  · intro ws v hws hv
    obtain rfl := Except.ok.inj (hvs.symm.trans hws)
    exact .ok (admitted_of_find? hD hVs hv ty) (List.forall_mem_nil _)
  · intro ws hws hfind
    obtain rfl := Except.ok.inj (hvs.symm.trans hws)
    exact hsub m _ g ty hm hg (takes_of_find? hD hVs hfind) hty

/-- A gate that is neither open nor closed shows why. -/
theorem explains_of_isOpen {gate : FunctionId} {g : Function σ} {w : Value}
    {e : Failure EvalError} (hg : P.function? gate = some g) (hw : w.isError = false)
    (h : isOpen P f gate w = .error e) : (Event.verdict depth gate w).Explains P e := by
  rw [isOpen] at h
  by_cases hty : w.ty = .single .boolean
  · rw [if_pos hty] at h
    cases hbool : w.asBool with
    | ok b =>
      rw [hbool] at h
      cases h
    | error v =>
      rw [hbool] at h
      cases h
      exact .payload hty hbool
  · rw [if_neg hty, Program.function, hg] at h
    cases h
    exact .gate hw hty

/-- Typed lines are sound, by induction on their typing: the frame has admitted values for the
bound slots, and the last assignment gave one for the slot that it assigned. -/
theorem runLines_sound (hD : P.Discipline V A) (hsub : SoundCalls P V A sub) (id : FunctionId)
    {ty : Ty} {lastSlot : Option ReferenceId} {lines : List Line}
    (h : P.LinesTyped ty bound lastSlot lines) (hm : m.All (P.Remembers V A)) (index : Nat)
    (hframe : frame.Binds P V bound) {last : Option Value}
    (hlast : ∀ slot, lastSlot = some slot →
      ∃ v, last = some v ∧ ∀ ty, P.ty? slot = some ty → V ty v) :
    Ensures m (runLines P f id depth sub lines index frame last) (Sound P V A ty) := by
  induction h generalizing m index frame last with
  | last htarget =>
    obtain ⟨v, rfl, hV⟩ := hlast _ rfl
    refine .runLines_nil ?_ nofun
    rintro _ ⟨⟩
    exact .ok (hV _ htarget) (List.forall_mem_nil _)
  | @assign bound lastSlot target callee arguments rest r hcall htarget hslot _ ih =>
    refine .runLines_assign (callLine_sound hD hsub hm hframe hcall) ?_ ?_
    · intro v t ht
      -- the slot has the type of the callee's result
      have hV : ∀ ty, P.ty? target = some ty → V ty v := by
        intro ty hty
        rw [Program.ty?, htarget, Option.map_some, Option.some.injEq] at hty
        rw [← hty]
        exact ht.result v rfl
      refine (ih (hm.after ht.keeps) (index + 1) (hframe.bind hV) ?_).mono fun o u hu => ?_
      · rintro _ ⟨⟩
        exact ⟨v, rfl, hV⟩
      · exact (hu.after ht.events).cons trivial
    · intro e t ht
      exact ht.of_error.cons trivial
  | @returnIf bound lastSlot target gate arguments rest hcall hread htarget _ ih =>
    have hreturn : ∀ {t}, (∀ e ∈ t, e.Admitted P V A) →
        Sound P V A ty (resolve P f frame target) t := by
      intro t ht
      obtain ⟨v, hv, hV⟩ := resolve_eq_ok (f := f) hD hframe hread
      rw [hv]
      exact .ok (hV _ htarget) ht
    have hverdict : ∀ {w t}, Sound P V A (.single .boolean) (.ok w) t →
        ∀ e ∈ t ++ [.verdict depth gate w], e.Admitted P V A := by
      intro w t ht
      refine List.forall_mem_append.mpr ⟨ht.events, List.forall_mem_singleton.mpr ?_⟩
      exact ht.result w rfl
    refine .runLines_returnIf (callLine_sound hD hsub hm hframe hcall) ?_ ?_ ?_ ?_ ?_
    · intro e t ht
      exact ht.of_error.cons trivial
    · intro w t ht hw
      refine Sound.cons (.ok ?_ (hverdict ht)) trivial
      exact hD.error _ _ w (ht.result w rfl) hw
    · intro w t e ht hw hstuck
      obtain ⟨g, hg, -⟩ := hcall
      exact (Sound.error (explains_of_isOpen hg hw hstuck) ht.events (ht.result w rfl)).cons trivial
    · intro w t ht _ _
      exact Sound.cons (hreturn (hverdict ht)) trivial
    · intro w t ht _ _
      refine (ih (hm.after ht.keeps) (index + 1) hframe hlast).mono fun o u hu => ?_
      have hsound := hu.after (hverdict ht)
      rw [List.append_assoc] at hsound
      exact hsound.cons trivial
  | @ret bound lastSlot target rest hread htarget =>
    obtain ⟨v, hv, hV⟩ := resolve_eq_ok (f := f) hD hframe hread
    refine .runLines_ret ?_
    rw [hv]
    exact .ok (hV _ htarget) (List.forall_mem_singleton.mpr trivial)

/-- A function's run is sound: its lines pass the check, or it has none. -/
theorem runBody_sound (hD : P.Discipline V A) (hP : P.WellFormed) (hsub : SoundCalls P V A sub)
    (hm : m.All (P.Remembers V A)) {i : Invocation} {ty : Ty}
    (hf : P.function? i.function = some f) (htakes : P.Takes A f i.arguments)
    (hty : P.ty? f.signature.result.reference = some ty) :
    Ensures m (runBody P depth sub f i) (Sound P V A ty) := by
  cases hbody : f.body with
  | native run =>
    refine .runBody_native hbody fun host => ?_
    have hadmitted : (Event.native depth i (run i.arguments host).1).Admitted P V A :=
      ⟨f, run, host, hf, hbody, htakes, rfl⟩
    cases hrun : (run i.arguments host).1 with
    | ok v =>
      rw [hrun] at hadmitted
      exact .ok (hD.native _ f run _ host v ty hf hbody htakes hty hrun)
        (List.forall_mem_singleton.mpr hadmitted)
    | error v =>
      rw [hrun] at hadmitted
      exact Sound.error (t := []) .native (List.forall_mem_nil _) hadmitted
  | lines lines =>
    rcases (hP _ f hf).body lines hbody with rfl | hcheck
    · -- without lines the run ends where it started
      refine .runBody_lines (R := fun o t => o = .error (.error (.missingResult f.name)) ∧ t = [])
        hbody (.runLines_nil nofun fun _ => ⟨rfl, rfl⟩) nofun ?_
      rintro _ _ ⟨⟨⟩, rfl⟩
      exact Sound.error (t := []) (.noLines hf hbody) (List.forall_mem_nil _) trivial
    · obtain ⟨ty', hty', hlines⟩ := Program.linesTyped_of_checkBody hcheck
      obtain rfl := Option.some.inj (hty.symm.trans hty')
      refine .runBody_lines hbody (runLines_sound hD hsub i.function hlines hm 0
        (Frame.binds_ofArguments hD htakes) nofun) ?_ ?_
      · intro v t ht
        refine Sound.cons (.ok (ht.result v rfl) ?_) trivial
        exact List.forall_mem_append.mpr ⟨ht.events, List.forall_mem_singleton.mpr trivial⟩
      · intro e t ht
        exact ht.cons trivial

/-- A step with admitted arguments is sound if the calls below are. -/
theorem step_sound (hD : P.Discipline V A) (hP : P.WellFormed) (hsub : SoundCalls P V A sub) :
    SoundCalls P V A (step P depth sub) := by
  intro m i f ty hm hf htakes hty
  have hvalid : i.isValid P = true := htakes.isValid hf
  refine .step ?_ ?_ ?_ ?_
  · intro hnone
    cases hf.symm.trans hnone
  · intro g v hg _ hfind
    -- the memo may hold it from any earlier call, but for these arguments it is admitted
    exact .ok (hm i v hfind f ty hf htakes hty) (List.forall_mem_nil _)
  · intro g hg hinvalid
    cases hvalid.symm.trans hinvalid
  · intro g hg _ _
    obtain rfl := Option.some.inj (hf.symm.trans hg)
    refine (runBody_sound hD hP hsub hm hf htakes hty).mono fun o t ht => ?_
    cases o with
    | error e =>
      rw [Ensures.keepEvents, List.append_nil]
      exact ht
    | ok v =>
      refine .ok (ht.result v rfl) (List.forall_mem_append.mpr ⟨ht.events, ?_⟩)
      have hremembers : P.Remembers V A i v := by
        intro g ty' hg _ hty'
        obtain rfl := Option.some.inj (hf.symm.trans hg)
        obtain rfl := Option.some.inj (hty.symm.trans hty')
        exact ht.result v rfl
      refine Ensures.forall_mem_keepEvents fun w hw _ => ?_
      obtain rfl := Except.ok.inj hw
      exact hremembers

/-- Evaluation of a well-formed program is sound at every depth. -/
theorem evaluate_sound (hD : P.Discipline V A) (hP : P.WellFormed) (levels depth : Nat) :
    SoundCalls P V A (evaluate P levels depth) := by
  induction levels generalizing depth with
  | zero =>
    intro m i f ty _ _ _ _
    exact .evaluate_zero (.ok (hD.tooDeep ty) (List.forall_mem_singleton.mpr trivial))
  | succ levels ih => exact step_sound hD hP (ih (depth + 1))

/-- Whatever is called, the memo remembers only what the discipline admits: a call with arguments
that it does not admit puts nothing on its own account, and the calls below it are sound or of the
same kind. -/
theorem evaluate_remembers (hD : P.Discipline V A) (hP : P.WellFormed) (levels depth : Nat)
    (i : Invocation) (hm : m.All (P.Remembers V A)) :
    Ensures m (evaluate P levels depth i) fun _ t => ∀ e ∈ t, e.Keeps (P.Remembers V A) := by
  induction levels generalizing depth i m with
  | zero => exact .evaluate_zero (List.forall_mem_singleton.mpr trivial)
  | succ levels ih =>
    by_cases htyped : ∃ f ty, P.function? i.function = some f ∧ P.Takes A f i.arguments ∧
        P.ty? f.signature.result.reference = some ty
    · obtain ⟨f, ty, hf, htakes, hty⟩ := htyped
      exact (evaluate_sound hD hP (levels + 1) depth m i f ty hm hf htakes hty).mono
        fun _ _ ht => ht.keeps
    · refine .step_keeps (fun m j hm => ih (depth + 1) j hm) (fun v _ f ty hf htakes hty => ?_) hm
      exact absurd ⟨f, ty, hf, htakes, hty⟩ htyped

end Soundness

/-! ## Calls of a context -/

namespace Context

variable {P : Program σ} {V A : Ty → Value → Prop} {maxDepth : Nat}

/-- After any calls the memo has admitted results for admitted arguments. -/
theorem after_remembers (hD : P.Discipline V A) (hP : P.WellFormed)
    (calls : List (σ × Invocation)) :
    ((fresh P maxDepth).after calls).memo.All (P.Remembers V A) :=
  after_memo (I := Memo.All (P.Remembers V A)) .empty fun _ i hm _ =>
    (evaluate_remembers hD hP _ _ i hm).mono fun _ _ ht => hm.after ht

/-- A call with admitted arguments is sound, whatever was called before. -/
theorem run_sound (hD : P.Discipline V A) (hP : P.WellFormed) (calls : List (σ × Invocation))
    (host : σ) {i : Invocation} {f : Function σ} {ty : Ty} (hf : P.function? i.function = some f)
    (htakes : P.Takes A f i.arguments) (hty : P.ty? f.signature.result.reference = some ty) :
    Sound P V A ty (((fresh P maxDepth).after calls).run host i).outcome
      (((fresh P maxDepth).after calls).run host i).trace := by
  refine (run_of_ensures ?_ host).1
  rw [after_program, after_maxDepth]
  exact evaluate_sound hD hP (maxDepth + 1) 0 _ i f ty (after_remembers hD hP calls) hf htakes hty

end Context

end Rulebook

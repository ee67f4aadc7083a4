import Rulebook.Proofs.Eval.Following
import Rulebook.Proofs.Eval.Memoization

/-!
# Calls that share a context

A call that is cut off nowhere on a fresh context is cut off nowhere on a context that has results
already, since those leave less to run. So the calls of a list, if none of them would be cut off
alone, end on one shared context as they end alone, and the memo is the union of what they memoize
alone. No order of the calls makes a difference (`Context.run_shared`).
-/

namespace Rulebook

open Eval

variable {σ : Type} {P : Program σ} {host : σ} {known : Memo} {maxDepth : Nat}

namespace Context

/-- Calls that fit, with what is in the memo before the first of them, add their footprints. -/
theorem after_of_fits {c : Context σ} (hprogram : c.program = P) (hmaxDepth : c.maxDepth = maxDepth)
    (hP : P.NativesPure) (hm : P.Consistent host known c.memo) {S : Set Invocation}
    (hS : S ⊆ c.memo.domain) {calls : List (σ × Invocation)}
    (hcalls : ∀ i ∈ calls.map Prod.snd, P.Fits host known (maxDepth + 1) S i) :
    P.Consistent host known (c.after calls).memo ∧
    ∀ j v, (c.after calls).cached j = some v ↔
      c.cached j = some v ∨ ∃ i ∈ calls.map Prod.snd, P.Footprint host known i j v := by
  induction calls generalizing c with
  | nil => exact ⟨hm, fun j v => by simp⟩
  | cons call calls ih =>
    rw [List.map_cons, List.forall_mem_cons] at hcalls
    obtain ⟨-, -, hm', hcached⟩ := run_of_fits hprogram hmaxDepth hP hm hS hcalls.1 call.1
    have hS' : S ⊆ (c.run call.1 call.2).context.memo.domain := by
      intro j hj
      obtain ⟨v, hv⟩ := hS hj
      exact ⟨v, (hcached j v).mpr (.inl hv)⟩
    obtain ⟨hconsistent, hafter⟩ := ih ((run_program c _ _).trans hprogram)
      ((run_maxDepth c _ _).trans hmaxDepth) hm' hS' hcalls.2
    refine ⟨hconsistent, fun j v => ?_⟩
    rw [after_cons, hafter, hcached]
    simp [or_assoc]

/-! ## From a fresh context -/

/-- Nothing is given, and a fresh context has nothing else. -/
theorem consistent_fresh (P : Program σ) (host : σ) (maxDepth : Nat) :
    P.Consistent host .empty (fresh P maxDepth).memo :=
  Program.consistent_self .empty

/-- A call that is not cut off on a fresh context fits where nothing has a result. -/
theorem fits_of_uncut_fresh (hP : P.NativesPure) {i : Invocation} {host' : σ}
    (h : Trace.Uncut ((fresh P maxDepth).run host' i).trace) :
    P.Fits host .empty (maxDepth + 1) ∅ i := by
  have hdomain : (fresh P maxDepth).memo.domain = ∅ := by
    ext j
    simp [Memo.domain, fresh]
  have hfits := fits_of_uncut rfl rfl hP (consistent_fresh P host maxDepth) h
  rwa [hdomain] at hfits

section Fresh

variable {calls order : List (σ × Invocation)}

/-- Calls that fit where nothing has a result leave their footprints on a fresh context. -/
theorem cached_after_fresh_iff (hP : P.NativesPure)
    (hfits : ∀ i ∈ calls.map Prod.snd, P.Fits host .empty (maxDepth + 1) ∅ i) (j : Invocation)
    (v : Value) : ((fresh P maxDepth).after calls).cached j = some v ↔
      ∃ i ∈ calls.map Prod.snd, P.Footprint host .empty i j v := by
  have hafter := (after_of_fits (c := fresh P maxDepth) rfl rfl hP
    (consistent_fresh P host maxDepth) (Set.empty_subset _) hfits).2 j v
  rw [hafter]
  simp [cached, fresh]

/-- Calls that would not be cut off alone, in any order on one context, leave what each of them
leaves alone. -/
theorem cached_after_iff (hP : P.NativesPure)
    (hfits : ∀ host, ∀ i ∈ calls.map Prod.snd, P.Fits host .empty (maxDepth + 1) ∅ i)
    (horder : (order.map Prod.snd).Perm (calls.map Prod.snd)) (j : Invocation) (v : Value) :
    ((fresh P maxDepth).after order).cached j = some v ↔
      ∃ call ∈ calls, ((fresh P maxDepth).after [call]).cached j = some v := by
  rcases calls with _ | ⟨⟨host, k⟩, rest⟩
  · obtain rfl : order = [] := List.map_eq_nil_iff.mp horder.eq_nil
    simp [cached, fresh]
  · -- the same footprints on both sides, as seen from any one state of the host
    generalize (host, k) :: rest = calls at hfits horder
    have hfits := hfits host
    have horderFits : ∀ i ∈ order.map Prod.snd, P.Fits host .empty (maxDepth + 1) ∅ i :=
      fun i hi => hfits i (horder.mem_iff.mp hi)
    have halone : ∀ call ∈ calls, (((fresh P maxDepth).after [call]).cached j = some v ↔
        P.Footprint host .empty call.2 j v) := by
      intro call hcall
      have hcallFits : ∀ i ∈ [call].map Prod.snd, P.Fits host .empty (maxDepth + 1) ∅ i :=
        List.forall_mem_singleton.mpr (hfits call.2 (List.mem_map_of_mem hcall))
      rw [cached_after_fresh_iff hP hcallFits]
      exact Program.exists_footprint_singleton
    rw [cached_after_fresh_iff hP horderFits]
    simp only [horder.mem_iff]
    constructor
    · rintro ⟨i, hi, hv⟩
      obtain ⟨call, hcall, rfl⟩ := List.mem_map.mp hi
      exact ⟨call, hcall, (halone call hcall).mpr hv⟩
    · rintro ⟨call, hcall, hv⟩
      exact ⟨call.2, List.mem_map_of_mem hcall, (halone call hcall).mp hv⟩

end Fresh

/-- Calls commute where none is cut off: if functions of the host are pure and none of some calls is
cut off when it is made on a fresh context, then in any order on one shared context none is cut off
either, each ends as it does on a fresh context, and the results in the memo are those that the
calls leave on fresh contexts, taken together. -/
theorem run_shared (hP : P.NativesPure) (maxDepth : Nat) (calls order : List (σ × Invocation))
    (hcalls : ∀ call ∈ calls, Trace.Uncut ((fresh P maxDepth).run call.1 call.2).trace)
    (horder : (order.map Prod.snd).Perm (calls.map Prod.snd)) :
    (∀ before host i later, order = before ++ (host, i) :: later →
      let r := ((fresh P maxDepth).after before).run host i
      Trace.Uncut r.trace ∧ ∀ host', r.outcome = ((fresh P maxDepth).run host' i).outcome) ∧
    (∀ j v, ((fresh P maxDepth).after order).cached j = some v ↔
      ∃ call ∈ calls, ((fresh P maxDepth).run call.1 call.2).context.cached j = some v) ∧
    ∀ order', (order'.map Prod.snd).Perm (order.map Prod.snd) → ∀ j,
      ((fresh P maxDepth).after order').cached j = ((fresh P maxDepth).after order).cached j := by
  have hfits : ∀ host, ∀ i ∈ calls.map Prod.snd, P.Fits host .empty (maxDepth + 1) ∅ i := by
    intro host
    refine List.forall_mem_map.mpr fun call hcall => ?_
    exact fits_of_uncut_fresh hP (hcalls call hcall)
  refine ⟨?_, cached_after_iff hP hfits horder, ?_⟩
  · intro before host i later hsplit r
    have horderFits : ∀ k ∈ order.map Prod.snd, P.Fits host .empty (maxDepth + 1) ∅ k :=
      fun k hk => hfits host k (horder.mem_iff.mp hk)
    rw [hsplit, List.map_append, List.map_cons, List.forall_mem_append,
      List.forall_mem_cons] at horderFits
    obtain ⟨hbefore, hi, -⟩ := horderFits
    -- the calls before this one leave a memo from which it fits as well
    have hempty := consistent_fresh P host maxDepth
    have hm := (after_of_fits (c := fresh P maxDepth) rfl rfl hP hempty (Set.empty_subset _)
      hbefore).1
    obtain ⟨huncut, houtcome, -⟩ := run_of_fits (after_program _ before) (after_maxDepth _ before)
      hP hm (Set.empty_subset _) hi host
    refine ⟨huncut, fun host' => ?_⟩
    obtain ⟨-, halone, -⟩ := run_of_fits (c := fresh P maxDepth) rfl rfl hP hempty
      (Set.empty_subset _) hi host'
    exact Option.some.inj (houtcome.symm.trans halone)
  · intro order' horder' j
    ext v
    rw [cached_after_iff hP hfits horder, cached_after_iff hP hfits (horder'.trans horder)]

end Context

namespace Settle

/-- Three calls within a depth limit of 2, the last of which is refused. -/
def calls : List (Unit × Invocation) :=
  [((), ⟨⟨1⟩, [.bool true]⟩), ((), ⟨⟨1⟩, [.bool false]⟩), ((), ⟨⟨1⟩, []⟩)]

/-- A true argument is settled after the other two calls as it is before them, and leaves what it
leaves alone. -/
theorem run_shared_reverse :
    let c := Context.fresh (program : Program Unit) 2
    (program : Program Unit).NativesPure ∧
    (∀ call ∈ calls, Trace.Uncut (c.run call.1 call.2).trace) ∧
    (calls.reverse.map Prod.snd).Perm (calls.map Prod.snd) ∧
    ((c.after [((), ⟨⟨1⟩, []⟩), ((), ⟨⟨1⟩, [.bool false]⟩)]).run () ⟨⟨1⟩, [.bool true]⟩).outcome =
      .ok (.bool false) ∧
    ∀ j v, (c.after calls.reverse).cached j = some v ↔
      ∃ call ∈ calls, (c.run call.1 call.2).context.cached j = some v := by
  intro c
  have hcalls : ∀ call ∈ calls, Trace.Uncut (c.run call.1 call.2).trace := by decide
  have hperm : (calls.reverse.map Prod.snd).Perm (calls.map Prod.snd) :=
    (List.reverse_perm calls).map Prod.snd
  obtain ⟨hshared, hcached, -⟩ :=
    Context.run_shared program_nativesPure 2 calls calls.reverse hcalls hperm
  refine ⟨program_nativesPure, hcalls, hperm, ?_, hcached⟩
  exact ((hshared [((), ⟨⟨1⟩, []⟩), ((), ⟨⟨1⟩, [.bool false]⟩)] () _ [] rfl).2 ()).trans rfl

end Settle

end Rulebook

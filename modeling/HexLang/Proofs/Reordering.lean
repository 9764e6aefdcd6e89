import HexLang.Proofs.Footprint
import HexLang.Proofs.Log
import Mathlib.Data.List.FinRange

/-! Statements that do not depend on each other commute. A reordering of a run
that keeps each dependent pair in its order keeps every outcome, and the table
at the end. -/

namespace HexLang

/-- The second list is the first with its members taken in turn, each one past members that it
does not conflict with. -/
inductive Rearranges {α : Type} (C : α → α → Prop) : List α → List α → Prop where
  | nil : Rearranges C [] []
  | pull {pre post rest : List α} {a : α} : (∀ p ∈ pre, ¬ C p a) →
      Rearranges C (pre ++ post) rest → Rearranges C (pre ++ a :: post) (a :: rest)

/-- A run seen as a log: each statement stands beside its outcome. -/
def Logged (d : Dialect) (table : Table) (log : List (Segment × Outcome)) (after : Table) : Prop :=
  Runs d table (log.map Prod.fst) ⟨log.map Prod.snd, after⟩

def Conflict (d : Dialect) (e e' : Segment × Outcome) : Prop :=
  Dependent d (trim e.1.text) (trim e'.1.text)

section Orders

variable {α β : Type}

/-- A permutation of increasing numbers takes each number past smaller ones only. -/
theorem Rearranges.of_perm {n : Nat} {C : Fin n → Fin n → Prop} {order order' : List (Fin n)}
    (hsorted : order.Pairwise (· < ·)) (hp : order'.Perm order)
    (hkeep : order'.Pairwise fun i j => j < i → ¬ C j i) : Rearranges C order order' := by
  induction order' generalizing order with
  | nil =>
    obtain rfl := hp.nil_eq
    exact .nil
  | cons a rest ih =>
    -- what stands before `a` in the old order is smaller, and comes later in the new one
    obtain ⟨pre, post, rfl⟩ := List.append_of_mem (hp.subset List.mem_cons_self)
    have hrest : rest.Perm (pre ++ post) := (hp.trans List.perm_middle).cons_inv
    have hbelow : ∀ p ∈ pre, p < a := fun p hmem =>
      (List.pairwise_append.mp hsorted).2.2 p hmem a List.mem_cons_self
    have hcut : (pre ++ post).Sublist (pre ++ a :: post) :=
      (List.sublist_cons_self a post).append_left pre
    refine .pull (fun p hmem => ?_) (ih (hsorted.sublist hcut) hrest hkeep.of_cons)
    have hlater : p ∈ rest := hrest.mem_iff.mpr (List.mem_append_left post hmem)
    exact List.rel_of_pairwise_cons hkeep hlater (hbelow p hmem)

theorem Rearranges.map {C : β → β → Prop} {f : α → β} {l l' : List α}
    (h : Rearranges (fun a b => C (f a) (f b)) l l') : Rearranges C (l.map f) (l'.map f) := by
  induction h with
  | nil => exact .nil
  | pull hfree _ ih =>
    rw [List.map_append] at ih
    rw [List.map_append, List.map_cons, List.map_cons]
    refine .pull (fun q hq => ?_) ih
    obtain ⟨p, hmem, rfl⟩ := List.mem_map.mp hq
    exact hfree p hmem

end Orders

section Logs

variable {d : Dialect} {table after : Table}

theorem logged_cons {e : Segment × Outcome} {log : List (Segment × Outcome)} :
    Logged d table (e :: log) after ↔ ∃ verdict mid, e.2 = verdict.terminate d e.1 ∧
      Judged d table (trim e.1.text) verdict mid ∧ Logged d mid log after := by
  constructor
  · intro h
    unfold Logged at h
    rw [List.map_cons, List.map_cons] at h
    generalize hrun : Run.mk (e.2 :: log.map Prod.snd) after = run at h
    cases h with
    | cons hj hl =>
      obtain ⟨ho, rfl⟩ := Run.mk.inj hrun
      obtain ⟨hverdict, hrest⟩ := List.cons.inj ho
      refine ⟨_, _, hverdict, hj, ?_⟩
      rw [Logged, hrest]
      exact hl
  · rintro ⟨verdict, mid, ho, hj, hl⟩
    rw [Logged, List.map_cons, List.map_cons, ho]
    exact .cons hj hl

/-- A statement may be run before all those that it does not conflict with. -/
theorem Logged.pull {pre post : List (Segment × Outcome)} {e : Segment × Outcome}
    (h : Logged d table (pre ++ e :: post) after) (hfree : ∀ p ∈ pre, ¬ Conflict d p e) :
    Logged d table (e :: (pre ++ post)) after := by
  induction pre generalizing table with
  | nil => exact h
  | cons p pre ih =>
    obtain ⟨verdict, mid, ho, hj, hl⟩ := logged_cons.mp h
    have hpulled := ih hl fun q hq => hfree q (List.mem_cons_of_mem p hq)
    obtain ⟨verdict', mid', ho', hj', hl'⟩ := logged_cons.mp hpulled
    obtain ⟨between, hfirst, hsecond⟩ := hj.swap hj' (hfree p List.mem_cons_self)
    exact logged_cons.mpr ⟨verdict', between, ho', hfirst,
      logged_cons.mpr ⟨verdict, mid', ho, hsecond, hl'⟩⟩

theorem Logged.rearrange {log log' : List (Segment × Outcome)} (h : Logged d table log after)
    (hr : Rearranges (Conflict d) log log') : Logged d table log' after := by
  induction hr generalizing table with
  | nil => exact h
  | pull hfree _ ih =>
    obtain ⟨verdict, mid, ho, hj, hl⟩ := logged_cons.mp (h.pull hfree)
    exact logged_cons.mpr ⟨verdict, mid, ho, hj, ih hl⟩

theorem Logged.reorder {n : Nat} {entry : Fin n → Segment × Outcome} {σ : Equiv.Perm (Fin n)}
    (h : Logged d table (List.ofFn entry) after)
    (hkeep : ∀ i j, i < j → Conflict d (entry i) (entry j) → σ i < σ j) :
    Logged d table (List.ofFn (entry ∘ σ.symm)) after := by
  have horder : Rearranges (fun i j => Conflict d (entry i) (entry j)) (List.finRange n)
      ((List.finRange n).map σ.symm) := by
    refine .of_perm (List.pairwise_lt_finRange n) (Equiv.Perm.map_finRange_perm σ.symm) ?_
    rw [List.pairwise_map]
    refine (List.pairwise_lt_finRange n).imp fun {k l} hkl hlt hconflict => ?_
    have hback := hkeep _ _ hlt hconflict
    rw [σ.apply_symm_apply, σ.apply_symm_apply] at hback
    exact lt_asymm hkl hback
  rw [List.ofFn_eq_map] at h
  rw [List.ofFn_eq_map, ← List.map_map]
  exact h.rearrange horder.map

theorem Runs.logged {segs : List Segment} {run : Run} (h : Runs d table segs run) :
    ∃ answers : Fin segs.length → Outcome, List.ofFn answers = run.outcomes ∧
      Logged d table (List.ofFn fun i => (segs[i], answers i)) run.table := by
  have hlen : run.outcomes.length = segs.length := h.length_outcomes
  have hanswers : List.ofFn (fun i : Fin segs.length => run.outcomes[i]) = run.outcomes :=
    List.ext_getElem (by simp [hlen]) (by simp)
  refine ⟨_, hanswers, ?_⟩
  rw [Logged, List.map_ofFn, List.map_ofFn]
  have hsegs : List.ofFn (Prod.fst ∘ fun i : Fin segs.length => (segs[i], run.outcomes[i])) = segs :=
    List.ext_getElem (by simp) (by simp)
  have houtcomes : List.ofFn (Prod.snd ∘ fun i : Fin segs.length => (segs[i], run.outcomes[i])) =
      run.outcomes := hanswers
  rw [hsegs, houtcomes]
  exact h

end Logs

/-- Take the statement at `i` to the place `σ i`. If dependent statements stay in their order, each
one has the outcome it had, and the run leaves the same table. -/
theorem runSegments_reorder (d : Dialect) (table : Table) (segs : List Segment)
    (σ : Equiv.Perm (Fin segs.length))
    (h : ∀ i j, i < j → Dependent d (trim segs[i].text) (trim segs[j].text) → σ i < σ j) :
    ∃ run run', runSegments d table segs = .ok run ∧
      runSegments d table (List.ofFn fun k => segs[σ.symm k]) = .ok run' ∧
      run'.table = run.table ∧
      ∀ i : Fin segs.length, ∃ o, run.outcomes[i]? = some o ∧ run'.outcomes[σ i]? = some o := by
  obtain ⟨run, hrun⟩ := exists_runs d table segs
  obtain ⟨answers, hanswers, hlog⟩ := hrun.logged
  have hlog' := hlog.reorder h
  rw [Logged, List.map_ofFn, List.map_ofFn] at hlog'
  refine ⟨run, _, hrun.runSegments_eq, hlog'.runSegments_eq, rfl, fun i => ⟨answers i, ?_, ?_⟩⟩
  · simp [← hanswers]
  · simp

theorem runSegments_reorder_failing :
    let segs : List Segment :=
      [⟨"a := 1".toList, true⟩, ⟨"b := 2".toList, true⟩, ⟨"c := a / (b - 2)".toList, true⟩,
        ⟨"a + b".toList, true⟩, ⟨"x +".toList, false⟩]
    let σ : Equiv.Perm (Fin 5) := (Equiv.swap 0 1).trans (Equiv.swap 2 4)
    (∀ i j, i < j → Dependent standard (trim segs[i].text) (trim segs[j].text) → σ i < σ j) ∧
      ∃ run run', runSegments standard ∅ segs = .ok run ∧
        runSegments standard ∅ (List.ofFn fun k => segs[σ.symm k]) = .ok run' ∧
        run'.table = run.table ∧
        ∀ i : Fin segs.length, ∃ o, run.outcomes[i]? = some o ∧ run'.outcomes[σ i]? = some o := by
  intro segs σ
  have h : ∀ i j, i < j → Dependent standard (trim segs[i].text) (trim segs[j].text) → σ i < σ j := by
    decide +kernel
  exact ⟨h, runSegments_reorder standard ∅ segs σ h⟩

end HexLang

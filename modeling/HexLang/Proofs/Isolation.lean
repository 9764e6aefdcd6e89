import HexLang.Proofs.Joining
import HexLang.Proofs.Log

/-! A statement that binds nothing leaves no trace. It can be struck out of a
source, and the other statements have the outcomes and the table they had. -/

namespace HexLang

/-- An ordered choice of the segments that keeps each one that bound a name, and the outcomes of
what is kept. -/
inductive Strikes : List Segment → List Outcome → List Segment → List Outcome → Prop where
  | nil : Strikes [] [] [] []
  | blank {s : Segment} {segs kept : List Segment} {os shown : List Outcome} : trim s.text = [] →
      Strikes segs os kept shown → Strikes (s :: segs) os (s :: kept) shown
  | keep {s : Segment} {o : Outcome} {segs kept : List Segment} {os shown : List Outcome} :
      trim s.text ≠ [] → Strikes segs os kept shown →
      Strikes (s :: segs) (o :: os) (s :: kept) (o :: shown)
  | strike {s : Segment} {o : Outcome} {segs kept : List Segment} {os shown : List Outcome} :
      trim s.text ≠ [] → (∀ name v, ¬ o.Binds name v) → Strikes segs os kept shown →
      Strikes (s :: segs) (o :: os) kept shown

/-- The same in everything but the terminator behind the text. -/
structure Outcome.SameUpTo (terminator : Text) (o o' : Outcome) : Prop where
  rawText : ∃ raw, (o.rawText = raw ∨ o.rawText = raw ++ terminator) ∧
    (o'.rawText = raw ∨ o'.rawText = raw ++ terminator)
  status : o'.status = o.status
  message : o'.message = o.message
  tokens : o'.tokens = o.tokens
  value : o'.value = o.value
  errorOffset : o'.errorOffset = o.errorOffset

section Filled

variable {s : Segment} (segs : List Segment)

theorem filled_cons_of_blank (h : trim s.text = []) : filled (s :: segs) = filled segs := by
  simp [filled, h]

theorem filled_cons_of_ne (h : trim s.text ≠ []) :
    filled (s :: segs) = s.trimmed :: filled segs := by
  simp [filled, h]

end Filled

section Strikes

variable {segs kept : List Segment} {os shown : List Outcome} {table after : Table}

theorem Strikes.sublist (h : Strikes segs os kept shown) : kept.Sublist segs := by
  induction h with
  | nil => exact .slnil
  | blank _ _ ih => exact ih.cons_cons _
  | keep _ _ ih => exact ih.cons_cons _
  | strike _ _ _ ih => exact ih.cons _

theorem Judged.eq_of_not_binds {raw : Text} {o : Outcome} {s : Segment}
    (h : Judged standard table raw o after)
    (hn : ∀ name v, ¬ (o.terminate standard s).Binds name v) : after = table := by
  have hnone : o.binding? = none := by
    cases hb : o.binding? with
    | none => rfl
    | some entry =>
      rw [← Outcome.binding?_terminate o s] at hb
      exact absurd (Outcome.binds_of_binding? hb) (hn entry.1 entry.2)
  rw [← h.record_eq, Table.record_of_none hnone]

theorem Strikes.runs (h : Strikes segs os kept shown)
    (hr : Runs standard table (filled segs) ⟨os, after⟩) :
    Runs standard table (filled kept) ⟨shown, after⟩ := by
  induction h generalizing table with
  | nil => exact hr
  | blank hb _ ih =>
    rw [filled_cons_of_blank _ hb] at hr ⊢
    exact ih hr
  | keep hs _ ih =>
    rw [filled_cons_of_ne _ hs] at hr ⊢
    cases hr with
    | cons hj hrest => exact .cons hj (ih hrest)
  | strike hs hn _ ih =>
    rw [filled_cons_of_ne _ hs] at hr
    cases hr with
    | cons hj hrest =>
      obtain rfl := hj.eq_of_not_binds hn
      exact ih hrest

end Strikes

theorem Outcome.sameUpTo_terminate (o : Outcome) (d : Dialect) (s s' : Segment) :
    Outcome.SameUpTo d.terminator (o.terminate d s) (o.terminate d s') where
  rawText := by
    have hshown : ∀ u, (o.terminate d u).rawText = o.rawText ∨
        (o.terminate d u).rawText = o.rawText ++ d.terminator := by
      intro u
      rw [Outcome.terminate_rawText]
      split
      · exact .inr rfl
      · exact .inl (List.append_nil _)
    exact ⟨o.rawText, hshown s, hshown s'⟩
  status := by simp
  message := by simp
  tokens := by simp
  value := by simp
  errorOffset := by simp

/-- The verdicts depend on the texts of the segments, and not on what stands behind them. -/
theorem Runs.exists_of_text_eq {d : Dialect} {table : Table} {segs segs' : List Segment} {run : Run}
    (h : Runs d table segs run) (ht : segs'.map Segment.text = segs.map Segment.text) :
    ∃ run', Runs d table segs' run' ∧ run'.table = run.table ∧
      List.Forall₂ (Outcome.SameUpTo d.terminator) run.outcomes run'.outcomes := by
  induction h generalizing segs' with
  | nil =>
    obtain rfl := List.map_eq_nil_iff.mp ht
    exact ⟨_, .nil, rfl, .nil⟩
  | @cons table mid s rest o run hj _ ih =>
    obtain ⟨s', rest', rfl, hs, hrest⟩ := List.map_eq_cons_iff.mp ht
    obtain ⟨run', hr, htable, hsame⟩ := ih hrest
    rw [← hs] at hj
    exact ⟨_, .cons hj hr, htable, .cons (o.sameUpTo_terminate d s s') hsame⟩

/-- Without some statements that bound nothing, a source gives the outcomes of the others and the
same table. So does every other source of the statements that are left, except that an outcome
may show its terminator in one and not in the other. -/
theorem runProgram_strike (source : Text) :
    ∃ pieces last run, (∀ ps, Pieces standard.terminator source ps ↔ ps = pieces ++ [last]) ∧
      (cutAt pieces last).flatMap (Segment.source standard) = source ∧
      runProgram standard source = .ok run ∧
      ∀ kept shown, Strikes (cutAt pieces last) run.outcomes kept shown →
        runProgram standard (kept.flatMap (Segment.source standard)) = .ok ⟨shown, run.table⟩ ∧
        ∀ other segs, segments standard other = .ok segs →
          segs.map Segment.text = (filled kept).map Segment.text →
          ∃ run', runProgram standard other = .ok run' ∧ run'.table = run.table ∧
            List.Forall₂ (Outcome.SameUpTo standard.terminator) shown run'.outcomes := by
  have hd : standard.terminator = [';'] := rfl
  have hne : standard.terminator ≠ [] := by decide
  obtain ⟨pieces, last, hsplit⟩ := exists_splitOn_eq standard.terminator source
  obtain ⟨run, hr⟩ := exists_runs standard ∅ (filled (cutAt pieces last))
  have hrun : runProgram standard source = .ok run := runProgram_eq (segments_eq hne hsplit) hr
  refine ⟨pieces, last, run, fun ps => ?_, flatMap_source_cutAt hd hsplit, hrun,
    fun kept shown hkept => ?_⟩
  · rw [pieces_iff_eq_splitOn hne, hsplit]
  · have hleft := hkept.runs hr
    have huncut : ∀ s ∈ kept, ';' ∉ s.text := fun s hs =>
      notMem_of_mem_cutAt hsplit (hkept.sublist.subset hs)
    have hended := (pairwise_cutAt pieces last).sublist hkept.sublist
    refine ⟨runProgram_eq (segments_of_source hd huncut hended) hleft, fun other segs hsegs ht => ?_⟩
    obtain ⟨run', hr', htable, hsame⟩ := hleft.exists_of_text_eq ht
    exact ⟨run', runProgram_eq hsegs hr', htable, hsame⟩

theorem runProgram_strike_division :
    ∃ o failed o' table,
      runProgram standard "x := 1f; y := x / 0; x".toList = .ok ⟨[o, failed, o'], table⟩ ∧
      runProgram standard "x := 1f; x".toList = .ok ⟨[o, o'], table⟩ := by
  obtain ⟨pieces, last, run, hpieces, -, hrun, hstrike⟩ :=
    runProgram_strike "x := 1f; y := x / 0; x".toList
  have hcut : ["x := 1f".toList, " y := x / 0".toList] ++ [" x".toList] = pieces ++ [last] :=
    (hpieces _).mp ((pieces_iff_eq_splitOn (by decide)).mpr (by decide +kernel))
  obtain ⟨rfl, hlast⟩ := List.append_inj' hcut rfl
  obtain rfl : " x".toList = last := (List.cons.inj hlast).1
  have hbindings : (runProgram standard "x := 1f; y := x / 0; x".toList).map
      (fun run => run.outcomes.map Outcome.binding?) = .ok [some (['x'], 31), none, none] := by
    decide +kernel
  rw [hrun] at hbindings
  obtain ⟨o, os, ho, -, hos⟩ := List.map_eq_cons_iff.mp (Except.ok.inj hbindings)
  obtain ⟨failed, os, rfl, hnone, hos⟩ := List.map_eq_cons_iff.mp hos
  obtain ⟨o', os, rfl, -, hos⟩ := List.map_eq_cons_iff.mp hos
  obtain rfl := List.map_eq_nil_iff.mp hos
  have hnot : ∀ name v, ¬ failed.Binds name v := by
    intro name v hb
    rw [Outcome.binding?_of_binds hb] at hnone
    cases hnone
  have hkept : Strikes (cutAt ["x := 1f".toList, " y := x / 0".toList] " x".toList) run.outcomes
      [⟨"x := 1f".toList, true⟩, ⟨" x".toList, false⟩] [o, o'] := by
    rw [ho]
    exact .keep (by decide) (.strike (by decide) hnot (.keep (by decide) .nil))
  refine ⟨o, failed, o', run.table, ?_, (hstrike _ _ hkept).1⟩
  rw [hrun, ← ho]

end HexLang

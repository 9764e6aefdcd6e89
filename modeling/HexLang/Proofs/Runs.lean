import HexLang.Program
import HexLang.Proofs.Verdict

/-! Runs of programs. No source stops a run, and every piece of it that is not
blank has its outcome, in order. -/

namespace HexLang

/-- A run step by step: each statement is judged over the table that the last one left. -/
inductive Runs (d : Dialect) : Table → List Segment → Run → Prop where
  | nil {table : Table} : Runs d table [] ⟨[], table⟩
  | cons {table mid : Table} {s : Segment} {rest : List Segment} {o : Outcome} {run : Run} :
      Judged d table (trim s.text) o mid → Runs d mid rest run →
      Runs d table (s :: rest) ⟨o.terminate d s :: run.outcomes, run.table⟩

/-- A terminator stands behind every piece but the last. -/
def cutAt (pieces : List Text) (last : Text) : List Segment :=
  pieces.map (Segment.mk · true) ++ [⟨last, false⟩]

/-- The pieces that hold a statement. -/
def statements (pieces : List Text) (last : Text) : List Segment :=
  (cutAt pieces last).filter fun s => !(trim s.text).isEmpty

/-- The outcome shows the trimmed piece, and the terminator if it was there or might have been. -/
def Shows (d : Dialect) (s : Segment) (o : Outcome) : Prop :=
  o.rawText = trim s.text ++
    if s.terminated = true ∨ o.status = .accepted then d.terminator else []

def Segment.trimmed (s : Segment) : Segment :=
  { s with text := trim s.text }

section Runs

variable {d : Dialect} {table : Table} {segs : List Segment} {run : Run}

theorem Runs.runSegments_eq (h : Runs d table segs run) : runSegments d table segs = .ok run := by
  induction h with
  | nil => rfl
  | cons hj _ ih =>
    simp only [runSegments, hj.judge_eq, ih, bind, Except.bind]
    rfl

theorem exists_runs (d : Dialect) (table : Table) (segs : List Segment) :
    ∃ run, Runs d table segs run := by
  induction segs generalizing table with
  | nil => exact ⟨_, .nil⟩
  | cons s rest ih =>
    obtain ⟨o, mid, hj⟩ := exists_judged d table (trim s.text)
    obtain ⟨run, hr⟩ := ih mid
    exact ⟨_, .cons hj hr⟩

theorem Runs.append {more : List Segment} {run' : Run} (h : Runs d table segs run)
    (h' : Runs d run.table more run') :
    Runs d table (segs ++ more) ⟨run.outcomes ++ run'.outcomes, run'.table⟩ := by
  induction h with
  | nil => exact h'
  | cons hj _ ih => exact .cons hj (ih h')

theorem Runs.of_runSegments (h : runSegments d table segs = .ok run) : Runs d table segs run := by
  obtain ⟨run', hr⟩ := exists_runs d table segs
  have he := hr.runSegments_eq.symm.trans h
  rw [Except.ok.injEq] at he
  exact he ▸ hr

theorem Runs.mem_outcomes (h : Runs d table segs run) {o : Outcome} (ho : o ∈ run.outcomes) :
    ∃ s ∈ segs, ∃ before o' after,
      Judged d before (trim (Segment.text s)) o' after ∧ o = o'.terminate d s := by
  induction h with
  | nil => simp at ho
  | cons hj _ ih =>
    rcases List.mem_cons.mp ho with rfl | ho
    · exact ⟨_, List.mem_cons_self, _, _, _, hj, rfl⟩
    · obtain ⟨s, hs, hrest⟩ := ih ho
      exact ⟨s, List.mem_cons_of_mem _ hs, hrest⟩

end Runs

@[simp] theorem Outcome.terminate_status (o : Outcome) (d : Dialect) (s : Segment) :
    (o.terminate d s).status = o.status := by
  unfold Outcome.terminate
  split <;> rfl

@[simp] theorem Outcome.terminate_message (o : Outcome) (d : Dialect) (s : Segment) :
    (o.terminate d s).message = o.message := by
  unfold Outcome.terminate
  split <;> rfl

@[simp] theorem Outcome.terminate_value (o : Outcome) (d : Dialect) (s : Segment) :
    (o.terminate d s).value = o.value := by
  unfold Outcome.terminate
  split <;> rfl

@[simp] theorem Outcome.terminate_tokens (o : Outcome) (d : Dialect) (s : Segment) :
    (o.terminate d s).tokens = o.tokens := by
  unfold Outcome.terminate
  split <;> rfl

@[simp] theorem Outcome.terminate_errorOffset (o : Outcome) (d : Dialect) (s : Segment) :
    (o.terminate d s).errorOffset = o.errorOffset := by
  unfold Outcome.terminate
  split <;> rfl

theorem Outcome.terminate_rawText (o : Outcome) (d : Dialect) (s : Segment) :
    (o.terminate d s).rawText =
      o.rawText ++ if s.terminated = true ∨ o.status = .accepted then d.terminator else [] := by
  unfold Outcome.terminate
  by_cases h : s.terminated = true ∨ o.status = .accepted <;> simp [h]

theorem Judged.shows {d : Dialect} {table after : Table} {s : Segment} {o : Outcome}
    (h : Judged d table (trim s.text) o after) : Shows d s (o.terminate d s) := by
  rw [Shows, Outcome.terminate_rawText, Outcome.terminate_status, h.rawText_eq]

theorem segmentsOf_concat (pieces : List Text) (last : Text) :
    segmentsOf (pieces ++ [last]) = (cutAt pieces last).map Segment.trimmed := by
  induction pieces with
  | nil => rfl
  | cons piece pieces ih =>
    cases hp : pieces ++ [last] with
    | nil => simp at hp
    | cons next rest =>
      rw [hp] at ih
      simp [segmentsOf, hp, ih, cutAt, Segment.trimmed]

theorem segments_eq {d : Dialect} {source : Text} {pieces : List Text} {last : Text}
    (hd : d.terminator ≠ []) (h : splitOn d.terminator source = pieces ++ [last]) :
    segments d source = .ok ((statements pieces last).map Segment.trimmed) := by
  rw [segments, if_neg hd, h, segmentsOf_concat, statements, List.filter_map]
  rfl

/-- There is a statement in every segment. -/
theorem trim_ne_nil_of_mem_segments {d : Dialect} {source : Text} {segs : List Segment}
    (hs : segments d source = .ok segs) {s : Segment} (hmem : s ∈ segs) : trim s.text ≠ [] := by
  by_cases hd : d.terminator = []
  · simp [segments, hd] at hs
  · obtain ⟨pieces, last, hsplit⟩ := exists_splitOn_eq d.terminator source
    rw [segments_eq hd hsplit, Except.ok.injEq] at hs
    rw [← hs] at hmem
    obtain ⟨piece, hpiece, rfl⟩ := List.mem_map.mp hmem
    have hne := (List.mem_filter.mp hpiece).2
    rw [Segment.trimmed, trim_trim]
    simpa using hne

theorem runProgram_eq {d : Dialect} {source : Text} {segs : List Segment} {run : Run}
    (hs : segments d source = .ok segs) (h : Runs d ∅ segs run) : runProgram d source = .ok run := by
  simp only [runProgram, hs, bind, Except.bind, h.runSegments_eq]

theorem exists_runProgram {d : Dialect} (h : d.terminator ≠ []) (source : Text) :
    ∃ run, runProgram d source = .ok run := by
  obtain ⟨pieces, last, hsplit⟩ := exists_splitOn_eq d.terminator source
  obtain ⟨run, hr⟩ := exists_runs d ∅ ((statements pieces last).map Segment.trimmed)
  exact ⟨run, runProgram_eq (segments_eq h hsplit) hr⟩

theorem exists_of_runProgram {d : Dialect} {source : Text} {run : Run}
    (h : runProgram d source = .ok run) : ∃ segs, segments d source = .ok segs ∧ Runs d ∅ segs run := by
  cases hs : segments d source with
  | error f => simp [runProgram, hs, bind, Except.bind] at h
  | ok segs =>
    simp only [runProgram, hs, bind, Except.bind] at h
    exact ⟨segs, rfl, .of_runSegments h⟩

theorem segments_of_notMem {source : Text} (h : ';' ∉ source) (hne : trim source ≠ []) :
    segments standard source = .ok [⟨trim source, false⟩] := by
  have hsplit : splitOn standard.terminator source = [] ++ [source] := splitOn_singleton_of_notMem h
  rw [segments_eq (by decide) hsplit]
  simp [statements, cutAt, Segment.trimmed, hne]

/-- A program of one statement answers with the verdict on it. -/
theorem firstAnswer_of_judged {source : Text} {o : Outcome} {after : Table} (h : ';' ∉ source)
    (hne : trim source ≠ []) (hj : Judged standard ∅ (trim source) o after) :
    firstAnswer source = .ok o.answer := by
  rw [← trim_trim] at hj
  have hrun := runProgram_eq (segments_of_notMem h hne) (.cons hj .nil)
  have hanswer : (o.terminate standard ⟨trim source, false⟩).answer = o.answer := by
    rw [Outcome.answer, Outcome.terminate_message, Outcome.terminate_value, Outcome.answer]
  simp only [firstAnswer, hrun, bind, Except.bind, hanswer]
  rfl

theorem Judged.mem_entries {d : Dialect} {table after : Table} {raw : Text} {o : Outcome}
    (h : Judged d table raw o after) {e : Text × Int} (he : e ∈ after.entries) :
    e ∈ table.entries ∨ o.value = some e.2 := by
  cases h with
  | assigned _ _ _ =>
    rcases mem_insertEntry he with rfl | he
    · exact .inr rfl
    · exact .inl he
  | _ => exact .inl he

/-- What a table binds is the value of an outcome, unless it was bound before. -/
theorem Runs.mem_entries {d : Dialect} {table : Table} {segs : List Segment} {run : Run}
    (h : Runs d table segs run) {e : Text × Int} (he : e ∈ run.table.entries) :
    e ∈ table.entries ∨ ∃ o ∈ run.outcomes, o.value = some e.2 := by
  induction h with
  | nil => exact .inl he
  | cons hj _ ih =>
    rcases ih he with he | ⟨o, ho, hv⟩
    · rcases hj.mem_entries he with he | hv
      · exact .inl he
      · exact .inr ⟨_, List.mem_cons_self, by rw [Outcome.terminate_value, hv]⟩
    · exact .inr ⟨o, List.mem_cons_of_mem _ ho, hv⟩

/-- The outcomes of a run are those of its statements, one for each and in their order. -/
theorem Runs.shows {d : Dialect} {table : Table} {segs : List Segment} {run : Run}
    (h : Runs d table (segs.map Segment.trimmed) run) : List.Forall₂ (Shows d) segs run.outcomes := by
  induction segs generalizing table run with
  | nil =>
    cases h
    exact .nil
  | cons s segs ih =>
    cases h with
    | cons hj hr =>
      have hs := hj.shows
      rw [Shows, Segment.trimmed, trim_trim] at hs
      exact .cons hs (ih hr)

theorem isSpare_of_evaluate {table : Table} {marker text : Text} {base : Int} {diag : Diagnostic}
    (h : evaluate table (lex marker base text) = .error (.diagnostic diag)) :
    diag.isSpare = false := by
  by_cases hw : WellFormed (lex marker base text)
  · have hl := (semantic_iff_wellFormed h).mpr hw
    cases diag <;> first | rfl | simp [Diagnostic.level] at hl
  · obtain ⟨diag', -, hsp, hd⟩ := evaluate_of_not_wellFormed (fun t ht => regular_of_mem_lex ht) hw
    rw [hd table, Except.error.injEq, Fault.diagnostic.injEq] at h
    exact h ▸ hsp

theorem Judged.message_eq {d : Dialect} {table after : Table} {raw : Text} {o : Outcome}
    (h : Judged d table raw o after) {m : Text} (hm : o.message = some m) :
    ∃ diag, diag.message = m ∧ Diagnostic.isSpare diag = false := by
  cases h with
  | comment _ => simp at hm
  | badTarget _ _ => exact ⟨_, Option.some.inj hm, rfl⟩
  | assigned _ _ _ => simp at hm
  | unassigned _ _ hd => exact ⟨_, Option.some.inj hm, isSpare_of_evaluate hd⟩
  | empty _ _ => simp at hm
  | valued _ _ _ => simp at hm
  | unvalued _ _ hd => exact ⟨_, Option.some.inj hm, isSpare_of_evaluate hd⟩

theorem head_message_of_not_spare {diag : Diagnostic} (h : diag.isSpare = false) :
    ∃ c, diag.message.head? = some c ∧ c ≠ 'I' := by
  cases diag with
  | badLiteral _ => cases h
  | uppercaseName _ => cases h
  | uppercaseTarget _ => cases h
  | _ => exact ⟨_, rfl, by decide⟩

theorem message_of_not_spare {diag : Diagnostic} (h : diag.isSpare = false) :
    ¬ "Invalid hex literal '".toList <+: diag.message ∧
      ¬ "Identifier '".toList <+: diag.message := by
  obtain ⟨c, hc, hne⟩ := head_message_of_not_spare h
  have hnot : ∀ rest : Text, ¬ 'I' :: rest <+: diag.message := by
    rintro rest ⟨more, hm⟩
    rw [← hm] at hc
    exact hne (Option.some.inj hc).symm
  exact ⟨hnot _, hnot _⟩

/-- Every source is run to its end. The outcomes correspond to the pieces that are not blank, in
their order, and no operand in them is refused for its spelling. -/
theorem runProgram_complete (d : Dialect) (source : Text) (h : d.terminator ≠ []) :
    ∃ pieces last run, (∀ ps, Pieces d.terminator source ps ↔ ps = pieces ++ [last]) ∧
      runProgram d source = .ok run ∧
      List.Forall₂ (Shows d) (statements pieces last) run.outcomes ∧
      ∀ o ∈ run.outcomes, ∀ m, o.message = some m →
        ¬ "Invalid hex literal '".toList <+: m ∧ ¬ "Identifier '".toList <+: m := by
  obtain ⟨pieces, last, hsplit⟩ := exists_splitOn_eq d.terminator source
  obtain ⟨run, hr⟩ := exists_runs d ∅ ((statements pieces last).map Segment.trimmed)
  refine ⟨pieces, last, run, fun ps => ?_, runProgram_eq (segments_eq h hsplit) hr, hr.shows,
    fun o ho m hm => ?_⟩
  · rw [pieces_iff_eq_splitOn h, hsplit]
  · obtain ⟨s, -, before, o', after, hj, rfl⟩ := hr.mem_outcomes ho
    rw [Outcome.terminate_message] at hm
    obtain ⟨diag, rfl, hsp⟩ := hj.message_eq hm
    exact message_of_not_spare hsp

theorem runProgram_complete_bars :
    let d : Dialect := { terminator := "||".toList, commentMarker := ['#'], assignMarker := ['='] }
    d.terminator ≠ [] ∧ ∃ run, runProgram d "x=1|| ||x+||y".toList = .ok run ∧
      List.Forall₂ (Shows d) [⟨"x=1".toList, true⟩, ⟨"x+".toList, true⟩, ⟨['y'], false⟩]
        run.outcomes ∧
      ∀ o ∈ run.outcomes, ∀ m, o.message = some m →
        ¬ "Invalid hex literal '".toList <+: m ∧ ¬ "Identifier '".toList <+: m := by
  intro d
  have hd : d.terminator ≠ [] := by decide
  obtain ⟨pieces, last, run, hpieces, hrun, hshows, hmessage⟩ :=
    runProgram_complete d "x=1|| ||x+||y".toList hd
  have hcut : Pieces d.terminator "x=1|| ||x+||y".toList ["x=1".toList, [' '], "x+".toList, ['y']] :=
    (pieces_iff_eq_splitOn hd).mpr (by decide +kernel)
  have hsplit : ["x=1".toList, [' '], "x+".toList] ++ [['y']] = pieces ++ [last] :=
    (hpieces _).mp hcut
  obtain ⟨rfl, hlast⟩ := List.append_inj' hsplit rfl
  obtain rfl : ['y'] = last := (List.cons.inj hlast).1
  exact ⟨hd, run, hrun, hshows, hmessage⟩

end HexLang

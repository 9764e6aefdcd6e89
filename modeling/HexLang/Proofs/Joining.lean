import HexLang.Proofs.Runs

/-! Segments written one behind another, each with its terminator. A terminator
of one character cuts them apart again, so the texts that a run shows make up a
source with the same run. -/

namespace HexLang

def Segment.source (d : Dialect) (s : Segment) : Text :=
  s.text ++ if s.terminated then d.terminator else []

/-- The statements in the segments, trimmed. -/
def filled (segs : List Segment) : List Segment :=
  (segs.filter fun s => !(trim s.text).isEmpty).map Segment.trimmed

/-- The segment as the outcome shows it. -/
def Segment.settle (s : Segment) (o : Outcome) : Segment :=
  { s with terminated := s.terminated || o.status == .accepted }

/-- The statements of a source, trimmed. Only the last of them may lack its terminator. -/
structure Divided (c : Char) (segs : List Segment) : Prop where
  trimmed : ∀ s ∈ segs, trim s.text = s.text
  nonempty : ∀ s ∈ segs, s.text ≠ []
  uncut : ∀ s ∈ segs, c ∉ s.text
  ended : segs.Pairwise fun s _ => s.terminated = true

section Source

variable {d : Dialect} {c : Char} {segs : List Segment}

theorem exists_statements_of_source (hd : d.terminator = [c]) (hc : ∀ s ∈ segs, c ∉ s.text)
    (he : segs.Pairwise fun s _ => s.terminated = true) :
    ∃ pieces last, splitOn [c] (segs.flatMap (Segment.source d)) = pieces ++ [last] ∧
      statements pieces last = segs.filter fun s => !(trim s.text).isEmpty := by
  induction segs with
  | nil => exact ⟨[], [], splitOn_singleton_of_notMem List.not_mem_nil, rfl⟩
  | cons s segs ih =>
    obtain ⟨text, terminated⟩ := s
    have htext : c ∉ text := hc _ List.mem_cons_self
    have hp := List.pairwise_cons.mp he
    cases terminated with
    | true =>
      obtain ⟨pieces, last, hsplit, hs⟩ := ih (fun s hs => hc s (List.mem_cons_of_mem _ hs)) hp.2
      refine ⟨text :: pieces, last, ?_, ?_⟩
      · have hsource : ((⟨text, true⟩ : Segment) :: segs).flatMap (Segment.source d) =
            text ++ c :: segs.flatMap (Segment.source d) := by
          simp [Segment.source, hd]
        rw [hsource, splitOn_singleton_cons htext, hsplit, List.cons_append]
      · have hcut : statements (text :: pieces) last =
            [(⟨text, true⟩ : Segment)].filter (fun s => !(trim s.text).isEmpty) ++
              statements pieces last := by
          rw [statements, cutAt, List.map_cons, List.cons_append, ← List.singleton_append,
            List.filter_append, statements, cutAt]
        rw [hcut, hs, ← List.filter_append, List.singleton_append]
    | false =>
      -- a segment without its terminator is the last
      have hnil : segs = [] := List.eq_nil_iff_forall_not_mem.mpr fun s hs => by
        have := hp.1 s hs
        contradiction
      subst hnil
      refine ⟨[], text, ?_, rfl⟩
      have hsource : [(⟨text, false⟩ : Segment)].flatMap (Segment.source d) = text := by
        simp [Segment.source]
      rw [hsource, splitOn_singleton_of_notMem htext, List.nil_append]

theorem segments_of_source (hd : d.terminator = [c]) (hc : ∀ s ∈ segs, c ∉ s.text)
    (he : segs.Pairwise fun s _ => s.terminated = true) :
    segments d (segs.flatMap (Segment.source d)) = .ok (filled segs) := by
  obtain ⟨pieces, last, hsplit, hs⟩ := exists_statements_of_source hd hc he
  rw [← hd] at hsplit
  have hne : d.terminator ≠ [] := by simp [hd]
  rw [segments_eq hne hsplit, hs, filled]

theorem notMem_of_mem_cutAt {source last : Text} {pieces : List Text}
    (h : splitOn [c] source = pieces ++ [last]) {s : Segment} (hs : s ∈ cutAt pieces last) :
    c ∉ s.text := by
  have hmem : s.text ∈ pieces ++ [last] := by
    rcases List.mem_append.mp hs with hs | hs
    · obtain ⟨piece, hp, rfl⟩ := List.mem_map.mp hs
      exact List.mem_append_left _ hp
    · obtain rfl := List.mem_singleton.mp hs
      simp
  rw [← h] at hmem
  exact notMem_of_mem_splitOn hmem

theorem pairwise_cutAt (pieces : List Text) (last : Text) :
    (cutAt pieces last).Pairwise fun s _ => s.terminated = true := by
  have hpieces : ∀ s ∈ pieces.map (Segment.mk · true), s.terminated = true := by
    simp
  refine List.pairwise_append.mpr ⟨?_, List.pairwise_singleton _ _, fun s hs _ _ => hpieces s hs⟩
  exact List.pairwise_of_forall_mem_list fun s hs _ _ => hpieces s hs

/-- A source is its pieces with their terminators. -/
theorem flatMap_source_cutAt (hd : d.terminator = [c]) {source last : Text} {pieces : List Text}
    (h : splitOn [c] source = pieces ++ [last]) :
    (cutAt pieces last).flatMap (Segment.source d) = source := by
  have hp : Pieces [c] source (pieces ++ [last]) := h ▸ pieces_splitOn (by simp) source
  clear h
  induction pieces generalizing source with
  | nil =>
    cases hp with
    | last _ => simp [cutAt, Segment.source]
    | cut _ hnil => cases hnil
  | cons piece pieces ih =>
    generalize hps : piece :: pieces ++ [last] = ps at hp
    cases hp with
    | last _ => simp at hps
    | @cut _ before after rest hcut hrest =>
      obtain ⟨rfl, rfl⟩ := List.cons.inj hps
      have hafter := ih hrest
      have hhead : (Segment.source d ⟨piece, true⟩) = piece ++ [c] := by
        simp [Segment.source, hd]
      rw [cutAt, List.map_cons, List.cons_append, List.flatMap_cons, ← cutAt, hafter, hhead]
      exact hcut.parts

end Source

section Divided

variable {d : Dialect} {c : Char} {segs : List Segment} {run : Run} {table : Table}

theorem notMem_trim {text : Text} (h : c ∉ text) : c ∉ trim text := by
  obtain ⟨l, r, hsplit, -, -⟩ := exists_eq_append_trim text
  intro hc
  rw [hsplit] at h
  simp [hc] at h

theorem Divided.of_segments (hd : d.terminator = [c]) {source : Text}
    (h : segments d source = .ok segs) : Divided c segs := by
  have hne : d.terminator ≠ [] := by simp [hd]
  obtain ⟨pieces, last, hsplit⟩ := exists_splitOn_eq d.terminator source
  have hsegs := segments_eq hne hsplit
  rw [h, Except.ok.injEq] at hsegs
  rw [hd] at hsplit
  have hmem : ∀ s ∈ segs, ∃ piece ∈ cutAt pieces last,
      s = piece.trimmed ∧ trim piece.text ≠ [] := by
    intro s hs
    rw [hsegs] at hs
    obtain ⟨piece, hp, rfl⟩ := List.mem_map.mp hs
    obtain ⟨hp, hfilled⟩ := List.mem_filter.mp hp
    exact ⟨piece, hp, rfl, by simpa using hfilled⟩
  refine ⟨fun s hs => ?_, fun s hs => ?_, fun s hs => ?_, ?_⟩
  · obtain ⟨piece, -, rfl, -⟩ := hmem s hs
    exact trim_trim piece.text
  · obtain ⟨piece, -, rfl, hfilled⟩ := hmem s hs
    exact hfilled
  · obtain ⟨piece, hp, rfl, -⟩ := hmem s hs
    exact notMem_trim (notMem_of_mem_cutAt hsplit hp)
  · rw [hsegs]
    exact ((pairwise_cutAt pieces last).filter _).map _ fun _ _ ht => ht

/-- The statements of a source come back from their texts. -/
theorem Divided.segments_eq (h : Divided c segs) (hd : d.terminator = [c]) :
    segments d (segs.flatMap (Segment.source d)) = .ok segs := by
  have hfilter : (segs.filter fun s => !(trim s.text).isEmpty) = segs := by
    refine List.filter_eq_self.mpr fun s hs => ?_
    have hne := h.nonempty s hs
    rw [h.trimmed s hs]
    simpa using hne
  have hmap : segs.map Segment.trimmed = segs := by
    refine (List.map_congr_left fun s hs => ?_).trans segs.map_id
    rw [Segment.trimmed, h.trimmed s hs, id]
  rw [segments_of_source hd h.uncut h.ended, filled, hfilter, hmap]

theorem exists_of_mem_settle {os : List Outcome} {s : Segment}
    (hs : s ∈ List.zipWith Segment.settle segs os) :
    ∃ s' ∈ segs, s.text = s'.text := by
  induction segs generalizing os with
  | nil => simp at hs
  | cons s' segs ih =>
    cases os with
    | nil => simp at hs
    | cons o os =>
      rw [List.zipWith_cons_cons] at hs
      rcases List.mem_cons.mp hs with rfl | hs
      · exact ⟨s', List.mem_cons_self, rfl⟩
      · obtain ⟨u, hu, ht⟩ := ih hs
        exact ⟨u, List.mem_cons_of_mem _ hu, ht⟩

theorem pairwise_settle (he : segs.Pairwise fun s _ => s.terminated = true) (os : List Outcome) :
    (List.zipWith Segment.settle segs os).Pairwise fun s _ => s.terminated = true := by
  induction segs generalizing os with
  | nil => simp
  | cons s segs ih =>
    cases os with
    | nil => simp
    | cons o os =>
      have hp := List.pairwise_cons.mp he
      rw [List.zipWith_cons_cons]
      refine List.pairwise_cons.mpr ⟨fun u hu => ?_, ih hp.2 os⟩
      obtain ⟨u', hu', -⟩ := exists_of_mem_settle hu
      simp [Segment.settle, hp.1 u' hu']

theorem Divided.settle (h : Divided c segs) (os : List Outcome) :
    Divided c (List.zipWith Segment.settle segs os) where
  trimmed := by
    intro s hs
    obtain ⟨s', hs', ht⟩ := exists_of_mem_settle hs
    rw [ht, h.trimmed s' hs']
  nonempty := by
    intro s hs
    obtain ⟨s', hs', ht⟩ := exists_of_mem_settle hs
    exact ht ▸ h.nonempty s' hs'
  uncut := by
    intro s hs
    obtain ⟨s', hs', ht⟩ := exists_of_mem_settle hs
    exact ht ▸ h.uncut s' hs'
  ended := pairwise_settle h.ended os

theorem Outcome.terminate_settle (o : Outcome) (d : Dialect) (s : Segment) :
    o.terminate d (s.settle (o.terminate d s)) = o.terminate d s := by
  have hsame : (s.settle (o.terminate d s)).terminated = (s.terminated || o.status == .accepted) := by
    rw [Segment.settle, Outcome.terminate_status]
  rw [Outcome.terminate, hsame, Bool.or_assoc, Bool.or_self, Outcome.terminate]

theorem Runs.settle (h : Runs d table segs run) :
    Runs d table (List.zipWith Segment.settle segs run.outcomes) run := by
  induction h with
  | nil => exact .nil
  | @cons table mid s rest o run hj _ ih =>
    have hshown := Outcome.terminate_settle o d s
    have hj' : Judged d table (trim (s.settle (o.terminate d s)).text) o mid := hj
    have hstep := Runs.cons hj' ih
    rw [hshown] at hstep
    exact hstep

theorem Shows.source_settle {s : Segment} {o : Outcome} (h : Shows d s o)
    (ht : trim s.text = s.text) : (s.settle o).source d = o.rawText := by
  rw [Shows, ht] at h
  rw [h, Segment.source, Segment.settle]
  by_cases hs : s.terminated = true ∨ o.status = .accepted <;> simp [hs]

theorem Runs.source_settle (h : Runs d table segs run) (ht : ∀ s ∈ segs, trim s.text = s.text) :
    (List.zipWith Segment.settle segs run.outcomes).flatMap (Segment.source d) =
      run.outcomes.flatMap Outcome.rawText := by
  induction h with
  | nil => rfl
  | @cons table mid s rest o run hj _ ih =>
    have hhead := hj.shows.source_settle (ht s List.mem_cons_self)
    have htail := ih fun u hu => ht u (List.mem_cons_of_mem _ hu)
    rw [List.zipWith_cons_cons, List.flatMap_cons, hhead, htail, List.flatMap_cons]

end Divided

/-- The texts that a run shows, put together, are a source with the very same run. -/
theorem runProgram_of_shown {d : Dialect} (h : d.terminator.length = 1) (source : Text) :
    ∃ run, runProgram d source = .ok run ∧
      runProgram d (run.outcomes.flatMap Outcome.rawText) = .ok run := by
  obtain ⟨c, hd⟩ := List.length_eq_one_iff.mp h
  have hne : d.terminator ≠ [] := by simp [hd]
  obtain ⟨pieces, last, hsplit⟩ := exists_splitOn_eq d.terminator source
  have hsegs := segments_eq hne hsplit
  obtain ⟨run, hr⟩ := exists_runs d ∅ ((statements pieces last).map Segment.trimmed)
  have hdivided := Divided.of_segments hd hsegs
  have hshown := (hdivided.settle run.outcomes).segments_eq hd
  rw [hr.source_settle hdivided.trimmed] at hshown
  exact ⟨run, runProgram_eq hsegs hr, runProgram_eq hshown hr.settle⟩

theorem runProgram_of_shown_lines :
    let d : Dialect := { terminator := ['\n'], commentMarker := ['#'], assignMarker := ['='] }
    let source := " x = 1f\n\n x+ y \n#\tnote \n x = (x".toList
    d.terminator.length = 1 ∧
      (runProgram d source).map (fun run => run.outcomes.flatMap Outcome.rawText) =
        .ok "x = 1f\nx+ y\n#\tnote\nx = (x".toList ∧
      ∃ run, runProgram d source = .ok run ∧
        runProgram d (run.outcomes.flatMap Outcome.rawText) = .ok run := by
  intro d source
  have hd : d.terminator.length = 1 := rfl
  exact ⟨hd, by decide +kernel, runProgram_of_shown hd source⟩

end HexLang

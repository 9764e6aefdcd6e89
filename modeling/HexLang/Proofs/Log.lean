import HexLang.Proofs.Runs

/-! The outcomes of a run are a log of its table. An assignment that took
effect shows its target and its value, and no other outcome shows both. -/

namespace HexLang

/-- The outcome shows that the name was bound to the value. -/
def Outcome.Binds (o : Outcome) (name : Text) (v : Int) : Prop :=
  ¬ standard.commentMarker <+: o.rawText ∧ o.value = some v ∧
    ∃ before after, FirstCut standard.assignMarker o.rawText before after ∧ name = trim before

/-- The target and the value that an outcome shows, read off its text. -/
def Outcome.binding? (o : Outcome) : Option (Text × Int) :=
  if standard.commentMarker.isPrefixOf o.rawText then none
  else match splitFirst standard.assignMarker o.rawText, o.value with
    | some (before, _), some v => some (trim before, v)
    | _, _ => none

def Table.record (table : Table) (o : Outcome) : Table :=
  match o.binding? with
  | some (name, v) => table.insert name v
  | none => table

/-- Does again what the outcomes show, over an empty table. -/
def replay (outcomes : List Outcome) : Table :=
  outcomes.foldl Table.record ∅

/-- The last of the outcomes that bind the name binds it to this value. -/
def LastBinds (outcomes : List Outcome) (name : Text) (v : Int) : Prop :=
  ∃ pre o post, outcomes = pre ++ o :: post ∧ o.Binds name v ∧
    ∀ later ∈ post, ∀ w, ¬ later.Binds name w

structure Logs (outcomes : List Outcome) (table : Table) : Prop where
  replayed : table = replay outcomes
  named : ∀ e ∈ table.entries, isName e.1 = true
  last : ∀ name v, table.get? name = some v ↔ LastBinds outcomes name v

section Binding

variable {o : Outcome} {name : Text} {v : Int}

theorem Outcome.binding?_of_comment (h : standard.commentMarker <+: o.rawText) :
    o.binding? = none :=
  if_pos (List.isPrefixOf_iff_prefix.mpr h)

theorem Outcome.binding?_of_uncut (h : ¬ standard.assignMarker <:+: o.rawText) :
    o.binding? = none := by
  rw [Outcome.binding?, splitFirst_eq_none_iff.mpr h]
  split <;> rfl

theorem Outcome.binding?_of_value (h : o.value = none) : o.binding? = none := by
  rw [Outcome.binding?, h]
  split
  · rfl
  · cases splitFirst standard.assignMarker o.rawText <;> rfl

theorem Outcome.binding?_of_binds (h : o.Binds name v) : o.binding? = some (name, v) := by
  obtain ⟨hp, hv, before, after, hcut, rfl⟩ := h
  rw [← List.isPrefixOf_iff_prefix] at hp
  rw [Outcome.binding?, if_neg hp, splitFirst_eq_some_iff.mpr hcut, hv]

theorem Outcome.binds_of_binding? (h : o.binding? = some (name, v)) : o.Binds name v := by
  have hp : ¬ standard.commentMarker <+: o.rawText := fun hp => by
    simp [binding?_of_comment hp] at h
  cases hv : o.value with
  | none => simp [binding?_of_value hv] at h
  | some w =>
    cases hs : splitFirst standard.assignMarker o.rawText with
    | none => simp [binding?_of_uncut (splitFirst_eq_none_iff.mp hs)] at h
    | some parts =>
      have hcut := splitFirst_eq_some_iff.mp hs
      have hb : o.binding? = some (trim parts.1, w) := binding?_of_binds ⟨hp, hv, _, _, hcut, rfl⟩
      obtain ⟨rfl, rfl⟩ := Prod.mk.inj (Option.some.inj (hb.symm.trans h))
      exact ⟨hp, hv, _, _, hcut, rfl⟩

theorem Outcome.Binds.value_unique {w : Int} (h : o.Binds name v) (h' : o.Binds name w) : v = w :=
  Option.some.inj (h.2.1.symm.trans h'.2.1)

/-- No marker goes on into the terminator. -/
theorem Outcome.binding?_terminate (o : Outcome) (s : Segment) :
    (o.terminate standard s).binding? = o.binding? := by
  unfold Outcome.terminate
  split
  · have hp : standard.commentMarker.isPrefixOf (o.rawText ++ [';']) =
        standard.commentMarker.isPrefixOf o.rawText := by
      rw [Bool.eq_iff_iff, List.isPrefixOf_iff_prefix, List.isPrefixOf_iff_prefix]
      exact prefix_concat_iff_of_notMem (by decide)
    have hcut : splitFirst standard.assignMarker (o.rawText ++ [';']) =
        (splitFirst standard.assignMarker o.rawText).map (Prod.map id (· ++ [';'])) :=
      splitFirst_concat_of_notMem (by decide) (by decide)
    change Outcome.binding? { o with rawText := o.rawText ++ [';'] } = _
    simp only [Outcome.binding?, hp, hcut]
    cases splitFirst standard.assignMarker o.rawText <;> cases o.value <;> rfl
  · rfl

end Binding

theorem Table.record_of_none {o : Outcome} (h : o.binding? = none) (table : Table) :
    table.record o = table := by
  rw [Table.record, h]

theorem Table.record_of_binds {o : Outcome} {name : Text} {v : Int} (h : o.Binds name v)
    (table : Table) : table.record o = table.insert name v := by
  rw [Table.record, Outcome.binding?_of_binds h]

section Step

variable {table after : Table} {raw : Text} {o : Outcome}

/-- A verdict changes the table just as its outcome shows. -/
theorem Judged.record_eq (h : Judged standard table raw o after) : table.record o = after := by
  cases h with
  | comment hp =>
    have hnone := Outcome.binding?_of_comment (o := { rawText := raw, status := .accepted }) hp
    exact Table.record_of_none hnone table
  | assigned ha _ _ =>
    apply Table.record_of_binds
    exact ⟨ha.plain, rfl, _, _, ha.cut, rfl⟩
  | valued hb _ _ =>
    apply Table.record_of_none
    exact Outcome.binding?_of_uncut hb.uncut
  | _ => exact Table.record_of_none (Outcome.binding?_of_value rfl) table

theorem Judged.named (h : Judged standard table raw o after)
    (hn : ∀ e ∈ table.entries, isName e.1 = true) : ∀ e ∈ after.entries, isName e.1 = true := by
  cases h with
  | assigned _ hname _ =>
    intro e he
    rcases mem_insertEntry he with rfl | he
    · exact hname
    · exact hn e he
  | _ => exact hn

theorem Judged.value_eq_none (h : Judged standard table raw o after)
    (hm : o.status = .rejected ∨ o.message ≠ none) : o.value = none := by
  cases h with
  | assigned _ _ _ => simp at hm
  | valued _ _ _ => simp at hm
  | _ => rfl

end Step

section Run

variable {table : Table} {segs : List Segment} {run : Run}

theorem Runs.foldl_record (h : Runs standard table segs run) :
    run.outcomes.foldl Table.record table = run.table := by
  induction h with
  | nil => rfl
  | @cons table mid s rest o run hj _ ih =>
    have hstep : table.record (o.terminate standard s) = mid := by
      rw [← hj.record_eq, Table.record, Table.record, Outcome.binding?_terminate]
    rw [List.foldl_cons, hstep, ih]

theorem Runs.named (h : Runs standard table segs run)
    (hn : ∀ e ∈ table.entries, isName e.1 = true) : ∀ e ∈ run.table.entries, isName e.1 = true := by
  induction h with
  | nil => exact hn
  | cons hj _ ih => exact ih (hj.named hn)

theorem Runs.take {d : Dialect} (h : Runs d table segs run) (k : Nat) :
    ∃ mid, Runs d table (segs.take k) ⟨run.outcomes.take k, mid⟩ := by
  induction h generalizing k with
  | nil => exact ⟨_, by simpa using .nil⟩
  | cons hj _ ih =>
    cases k with
    | zero => exact ⟨_, .nil⟩
    | succ k =>
      obtain ⟨mid, hr⟩ := ih k
      exact ⟨mid, .cons hj hr⟩

theorem Runs.length_outcomes {d : Dialect} (h : Runs d table segs run) :
    run.outcomes.length = segs.length := by
  induction h with
  | nil => rfl
  | cons _ _ ih => rw [List.length_cons, List.length_cons, ih]

end Run

theorem replay_concat (outcomes : List Outcome) (o : Outcome) :
    replay (outcomes ++ [o]) = (replay outcomes).record o := by
  simp [replay]

theorem lastBinds_concat_iff {outcomes : List Outcome} {o : Outcome} {name : Text} {v : Int} :
    LastBinds (outcomes ++ [o]) name v ↔
      o.Binds name v ∨ LastBinds outcomes name v ∧ ∀ w, ¬ o.Binds name w := by
  constructor
  · rintro ⟨pre, p, post, hsplit, hp, hpost⟩
    rcases List.eq_nil_or_concat post with rfl | ⟨post, q, rfl⟩
    · obtain ⟨-, hlast⟩ := List.append_inj' hsplit rfl
      obtain rfl : o = p := List.singleton_inj.mp hlast
      exact .inl hp
    · have hassoc : outcomes ++ [o] = (pre ++ p :: post) ++ [q] := by simpa using hsplit
      obtain ⟨rfl, hlast⟩ := List.append_inj' hassoc rfl
      obtain rfl : o = q := List.singleton_inj.mp hlast
      exact .inr ⟨⟨pre, p, post, rfl, hp, fun r hr => hpost r (by simp [hr])⟩, hpost o (by simp)⟩
  · rintro (ho | ⟨⟨pre, p, post, rfl, hp, hpost⟩, hnot⟩)
    · exact ⟨outcomes, o, [], rfl, ho, by simp⟩
    · refine ⟨pre, p, post ++ [o], by simp, hp, fun r hr => ?_⟩
      rcases List.mem_append.mp hr with hr | hr
      · exact hpost r hr
      · obtain rfl := List.mem_singleton.mp hr
        exact hnot

theorem get?_record_of_binds {o : Outcome} {name : Text} {v : Int} (h : o.Binds name v)
    (table : Table) : (table.record o).get? name = some v := by
  rw [Table.record_of_binds h, Table.get?_insert_self]

theorem get?_record_of_not_binds {o : Outcome} {name : Text} (h : ∀ w, ¬ o.Binds name w)
    (table : Table) : (table.record o).get? name = table.get? name := by
  cases hb : o.binding? with
  | none => rw [Table.record_of_none hb]
  | some entry =>
    have hbinds : o.Binds entry.1 entry.2 := Outcome.binds_of_binding? hb
    have hne : name ≠ entry.1 := fun he => h entry.2 (he ▸ hbinds)
    rw [Table.record_of_binds hbinds, Table.get?_insert_of_ne hne]

theorem get?_replay_iff {outcomes : List Outcome} {name : Text} {v : Int} :
    (replay outcomes).get? name = some v ↔ LastBinds outcomes name v := by
  induction outcomes using List.reverseRecOn generalizing v with
  | nil =>
    refine iff_of_false (fun h => nomatch h) ?_
    rintro ⟨pre, o, post, hsplit, -⟩
    simp at hsplit
  | append_singleton outcomes o ih =>
    rw [replay_concat, lastBinds_concat_iff]
    by_cases ho : ∃ w, o.Binds name w
    · obtain ⟨w, hw⟩ := ho
      have hnot : ¬ ∀ u, ¬ o.Binds name u := fun h => h w hw
      rw [get?_record_of_binds hw, Option.some.injEq, or_iff_left fun h => hnot h.2]
      exact ⟨fun he => he ▸ hw, fun hv => hw.value_unique hv⟩
    · rw [not_exists] at ho
      rw [get?_record_of_not_binds ho, ih, or_iff_right (ho v), and_iff_left ho]

section History

variable {segs : List Segment} {run : Run}

theorem Runs.logs (h : Runs standard ∅ segs run) : Logs run.outcomes run.table where
  replayed := h.foldl_record.symm
  named := h.named fun _ he => absurd he List.not_mem_nil
  last := by
    intro name v
    rw [← get?_replay_iff, replay, h.foldl_record]

theorem Runs.binding?_eq_none (h : Runs standard ∅ segs run) {o : Outcome} (ho : o ∈ run.outcomes)
    (hs : o.status = .rejected ∨ o.message ≠ none ∨ standard.commentMarker <+: o.rawText ∨
      ¬ standard.assignMarker <:+: o.rawText) : o.binding? = none := by
  obtain ⟨s, -, before, o', after, hj, rfl⟩ := h.mem_outcomes ho
  rw [Outcome.terminate_status, Outcome.terminate_message] at hs
  rcases hs with hr | hm | hp | hu
  · exact Outcome.binding?_of_value (by rw [Outcome.terminate_value, hj.value_eq_none (.inl hr)])
  · exact Outcome.binding?_of_value (by rw [Outcome.terminate_value, hj.value_eq_none (.inr hm)])
  · exact Outcome.binding?_of_comment hp
  · exact Outcome.binding?_of_uncut hu

theorem replay_take_succ {outcomes : List Outcome} {k : Nat} {o : Outcome}
    (ho : outcomes[k]? = some o) (hb : o.binding? = none) :
    replay (outcomes.take (k + 1)) = replay (outcomes.take k) := by
  rw [List.take_add_one, ho, Option.toList_some, replay_concat, Table.record_of_none hb]

end History

/-- The outcomes of every source log its table, after each statement of it. A statement that is
rejected, has a message, is a comment or assigns nothing leaves the table as it was. -/
theorem runProgram_logs_table (source : Text) :
    ∃ segs run, segments standard source = .ok segs ∧ runProgram standard source = .ok run ∧
      run.outcomes.length = segs.length ∧ Logs run.outcomes run.table ∧
      (∀ k, ∃ table, runSegments standard ∅ (segs.take k) = .ok ⟨run.outcomes.take k, table⟩ ∧
        Logs (run.outcomes.take k) table) ∧
      ∀ k o, run.outcomes[k]? = some o →
        (o.status = .rejected ∨ o.message ≠ none ∨ standard.commentMarker <+: o.rawText ∨
          ¬ standard.assignMarker <:+: o.rawText) →
        ∃ table, runSegments standard ∅ (segs.take k) = .ok ⟨run.outcomes.take k, table⟩ ∧
          runSegments standard ∅ (segs.take (k + 1)) = .ok ⟨run.outcomes.take (k + 1), table⟩ := by
  obtain ⟨pieces, last, hsplit⟩ := exists_splitOn_eq standard.terminator source
  have hsegs := segments_eq (by decide) hsplit
  obtain ⟨run, hr⟩ := exists_runs standard ∅ ((statements pieces last).map Segment.trimmed)
  refine ⟨_, run, hsegs, runProgram_eq hsegs hr, hr.length_outcomes, hr.logs, fun k => ?_,
    fun k o ho hs => ?_⟩
  · obtain ⟨table, ht⟩ := hr.take k
    exact ⟨table, ht.runSegments_eq, ht.logs⟩
  · obtain ⟨table, ht⟩ := hr.take k
    obtain ⟨table', ht'⟩ := hr.take (k + 1)
    have hnone : o.binding? = none := hr.binding?_eq_none (List.mem_of_getElem? ho) hs
    have hsame : table' = table :=
      ht'.logs.replayed.trans ((replay_take_succ ho hnone).trans ht.logs.replayed.symm)
    exact ⟨table, ht.runSegments_eq, hsame ▸ ht'.runSegments_eq⟩

end HexLang

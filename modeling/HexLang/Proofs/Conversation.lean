import HexLang.Proofs.Runs
import HexLang.Session

/-! An interactive session shows what one run of all its lines shows. The text
typed so far always ends behind a terminator, so that a further line adds
statements and leaves those before it as they were. -/

namespace HexLang

/-- No value is too long to be shown. -/
def Showable (outcomes : List Outcome) : Prop :=
  ∀ o ∈ outcomes, ∀ v, o.value = some v → v.natAbs < 10 ^ decimalDigits

section Traversal

variable {α β ε : Type} {f : α → Except ε β} {l : List α} {bs : List β}

/-- Either all items are taken, or the first one that is refused decides. -/
theorem mapM_ok_or_stops (f : α → Except ε β) (l : List α) :
    (∃ bs, l.mapM f = .ok bs ∧ List.Forall₂ (fun a b => f a = .ok b) l bs) ∨
      ∃ pre a post e, l = pre ++ a :: post ∧ (∀ p ∈ pre, ∃ b, f p = .ok b) ∧
        f a = .error e ∧ l.mapM f = .error e := by
  induction l with
  | nil => exact .inl ⟨[], rfl, .nil⟩
  | cons a l ih =>
    rw [List.mapM_cons]
    cases ha : f a with
    | error e => exact .inr ⟨[], a, l, e, rfl, by simp, ha, rfl⟩
    | ok b =>
      rcases ih with ⟨bs, hl, hall⟩ | ⟨pre, x, post, e, rfl, hpre, hx, hl⟩
      · refine .inl ⟨b :: bs, ?_, .cons ha hall⟩
        simp only [hl, bind, Except.bind, pure, Except.pure]
      · refine .inr ⟨a :: pre, x, post, e, rfl, List.forall_mem_cons.mpr ⟨⟨b, ha⟩, hpre⟩, hx, ?_⟩
        simp only [hl, bind, Except.bind]

theorem exists_mapM (h : ∀ a ∈ l, ∃ b, f a = .ok b) : ∃ bs, l.mapM f = .ok bs := by
  rcases mapM_ok_or_stops f l with ⟨bs, hbs, -⟩ | ⟨pre, a, post, e, rfl, -, ha, -⟩
  · exact ⟨bs, hbs⟩
  · obtain ⟨b, hb⟩ := h a (by simp)
    exact nomatch hb.symm.trans ha

theorem forall₂_of_mapM (h : l.mapM f = .ok bs) : List.Forall₂ (fun a b => f a = .ok b) l bs := by
  rcases mapM_ok_or_stops f l with ⟨bs', hbs, hall⟩ | ⟨-, -, -, e, -, -, -, he⟩
  · exact Except.ok.inj (hbs.symm.trans h) ▸ hall
  · exact nomatch h.symm.trans he

theorem exists_ok_of_mapM (h : l.mapM f = .ok bs) : ∀ a ∈ l, ∃ b, f a = .ok b := by
  have hboth : List.Forall₂ (fun a b => (∃ b, f a = .ok b) ∧ f a = .ok b) l bs :=
    (forall₂_of_mapM h).imp fun a b hb => ⟨⟨b, hb⟩, hb⟩
  exact ((List.forall₂_and_left l bs).mp hboth).1

end Traversal

theorem exists_showValue {v : Int} (h : v.natAbs < 10 ^ decimalDigits) :
    ∃ text, showValue v = .ok text := by
  have hn : ¬ Nat.pow 10 decimalDigits ≤ v.natAbs := by
    generalize decimalDigits = n at h ⊢
    exact Nat.not_le.mpr h
  rw [showValue, if_neg hn]
  exact ⟨_, rfl⟩

theorem exists_showEntries {entries : List (Text × Int)}
    (h : ∀ e ∈ entries, e.2.natAbs < 10 ^ decimalDigits) (width : Nat) :
    ∃ lines, entries.mapM (showEntry width) = .ok lines := by
  refine exists_mapM fun e he => ?_
  obtain ⟨text, ht⟩ := exists_showValue (h e he)
  simp only [showEntry, ht, bind, Except.bind, pure, Except.pure]
  exact ⟨_, rfl⟩

theorem showTable_of_lines {table : Table} {lines : List Text} (hne : table.entries ≠ [])
    (h : table.entries.mapM (showEntry (nameWidth table)) = .ok lines) :
    showTable table = .ok (joinLines lines) := by
  rw [showTable]
  split
  · rename_i hnil
    exact absurd hnil hne
  · simp only [h, bind, Except.bind, pure, Except.pure]

theorem showTable_of_empty {table : Table} (h : table.entries = []) :
    showTable table = .ok "(no variables)".toList := by
  rw [showTable, h]

theorem exists_showTable {table : Table}
    (h : ∀ e ∈ table.entries, e.2.natAbs < 10 ^ decimalDigits) : ∃ text, showTable table = .ok text := by
  by_cases hne : table.entries = []
  · exact ⟨_, showTable_of_empty hne⟩
  · obtain ⟨lines, hlines⟩ := exists_showEntries h (nameWidth table)
    exact ⟨_, showTable_of_lines hne hlines⟩

theorem natAbs_lt_of_mem_entries {d : Dialect} {source : Text} {run : Run}
    (h : runProgram d source = .ok run) (hv : Showable run.outcomes) :
    ∀ e ∈ run.table.entries, e.2.natAbs < 10 ^ decimalDigits := by
  intro e he
  obtain ⟨segs, -, hr⟩ := exists_of_runProgram h
  rcases hr.mem_entries he with he | ⟨o, ho, hval⟩
  · exact absurd he List.not_mem_nil
  · exact hv o ho e.2 hval

theorem exists_runLogged {source : Text} {run : Run} (h : runProgram standard source = .ok run)
    (verbose : Bool) : ∃ logged, runLogged verbose source = .ok (run, logged) := by
  obtain ⟨segs, hs, hr⟩ := exists_of_runProgram h
  simp only [runLogged, hs, hr.runSegments_eq, bind, Except.bind, pure, Except.pure]
  exact ⟨_, rfl⟩

end HexLang

import HexLang.Proofs.Joining
import HexLang.Proofs.RightSide
import HexLang.Proofs.Words

/-! A table written out as a program, one assignment for each entry. A value
stands behind a zero, so that the sign of a negative one is read as a minus. The
program runs without a remark and leaves the table that was written out. -/

namespace HexLang

def assignmentOf (entry : Text × Int) : Text :=
  entry.1 ++ " := 0".toList ++ hexLiteral entry.2

def listing (entries : List (Text × Int)) : Text :=
  entries.flatMap fun entry => assignmentOf entry ++ standard.terminator

/-- The outcome of the assignment that was written for the entry, with nothing to remark. -/
structure Restores (entry : Text × Int) (o : Outcome) : Prop where
  rawText : o.rawText = assignmentOf entry ++ standard.terminator
  accepted : o.status = .accepted
  silent : o.message = none
  value : o.value = some entry.2

section Literal

variable {table : Table} {w after : Text} {a b t : Token}

theorem not_comment_of_ne {c : Char} (hc : c ≠ '/') (rest : Text) :
    ¬ standard.commentMarker <+: c :: rest := by
  rintro ⟨post, hpost⟩
  exact hc (List.cons.inj hpost).1.symm

theorem lex_standard_literal (hw : isLiteral w = true)
    (hnext : ∀ c, after.head? = some c → isHexDigit c = false) (i : Int) :
    lex standard.commentMarker i (w ++ after) =
      ⟨.hexNumber, w, i⟩ :: lex standard.commentMarker (i + w.length) after := by
  refine lex_literal hw hnext ?_ i
  cases w with
  | nil => simp [isLiteral] at hw
  | cons c w =>
    refine not_comment_of_ne ?_ _
    rintro rfl
    exact absurd (isNameChar_of_mem_literal hw List.mem_cons_self) (by decide)

theorem lex_lone_literal (hw : isLiteral w = true) (i : Int) :
    lex standard.commentMarker i w = [⟨.hexNumber, w, i⟩] := by
  have hnext : ∀ c, ([] : Text).head? = some c → isHexDigit c = false := fun _ hc => nomatch hc
  have hlex := lex_standard_literal hw hnext i
  rwa [List.append_nil, lex_nil] at hlex

theorem lex_difference {w u : Text} (hw : isLiteral w = true) (hu : isLiteral u = true) (i : Int) :
    lex standard.commentMarker i (w ++ '-' :: u) = [⟨.hexNumber, w, i⟩,
      ⟨.operator, ['-'], i + w.length⟩, ⟨.hexNumber, u, i + w.length + 1⟩] := by
  have hnext : ∀ c, ('-' :: u).head? = some c → isHexDigit c = false := by
    intro c hc
    obtain rfl : '-' = c := Option.some.inj hc
    rfl
  have hclassed : Classed .operator ['-'] u := ⟨'-', rfl, rfl⟩
  have hplain := not_comment_of_ne (c := '-') (by decide) u
  have hsign := lex_of_classed (w := []) rfl hplain (by decide) hclassed (i + w.length)
  rw [List.length_nil, Int.natCast_zero, Int.add_zero, List.nil_append, lex_lone_literal hu] at hsign
  rw [lex_standard_literal hw hnext, hsign]

theorem evaluate_literal (hk : t.kind = .hexNumber) (hl : isLiteral t.text = true) :
    evaluate table [t] = .ok (literalValue t.text : Int) := by
  rw [evaluate_operand (.inl hk)]
  simp [admitOperand, hk, hl, Except.bind]

theorem evaluate_difference (ha : a.kind = .hexNumber) (hla : isLiteral a.text = true)
    (ht : t.Spells .sub) (hb : b.kind = .hexNumber) (hlb : isLiteral b.text = true) :
    evaluate table [a, t, b] = .ok (literalValue a.text - literalValue b.text : Int) := by
  have hderives : Derives .sum [a, t, b] _ :=
    .add (.product (.factor (.literal ha hla))) ht rfl (.factor (.literal hb hlb))
  have hn : NestsWithin nestingLimit [a, t, b] := by
    refine nestsWithin_of_forall (by decide) fun u hu => ?_
    simp only [List.mem_cons, List.not_mem_nil, or_false] at hu
    rcases hu with rfl | rfl | rfl
    · simp [Token.lift, ha]
    · exact ht.lift_eq.le
    · simp [Token.lift, hb]
  rw [evaluate_of_parse (parse_of_derives hderives hn), ← literalValue_eq_ofDigits,
    ← literalValue_eq_ofDigits]
  rfl

theorem hexLiteral_negSucc (n : Nat) :
    hexLiteral (.negSucc n) = '-' :: hexLiteral (n + 1 : Nat) := by
  have hsign : sign (.negSucc n) = ['-'] := if_pos (Int.negSucc_lt_zero n)
  rw [hexLiteral_natCast, hexLiteral, hsign]
  rfl

/-- Behind a zero, every value is read back from its literal. -/
theorem evaluate_zero_hexLiteral (table : Table) (v i : Int) :
    evaluate table (lex standard.commentMarker i ('0' :: hexLiteral v)) = .ok v := by
  cases v with
  | ofNat n =>
    have hlit : isLiteral ('0' :: hexLiteral n) = true :=
      isLiteral_iff.mpr ⟨rfl, (isLiteral_iff.mp (isLiteral_hexLiteral n)).2⟩
    rw [Int.ofNat_eq_natCast, lex_lone_literal hlit, evaluate_literal rfl hlit,
      literalValue_cons_zero, literalValue_hexLiteral]
  | negSucc n =>
    have hlex := lex_difference (w := ['0']) rfl (isLiteral_hexLiteral (n + 1)) i
    rw [hexLiteral_negSucc, ← List.singleton_append, hlex,
      evaluate_difference rfl rfl ⟨rfl, rfl⟩ rfl (isLiteral_hexLiteral _), literalValue_hexLiteral]
    rfl

end Literal

section Tables

variable {entries entries' : List (Text × Int)} {name : Text} {v : Int}

theorem lookup_eq_some_iff_mem (h : entries.Pairwise (·.1 ≠ ·.1)) :
    entries.lookup name = some v ↔ (name, v) ∈ entries := by
  induction entries with
  | nil => simp
  | cons head rest ih =>
    obtain ⟨key, w⟩ := head
    have hp := List.pairwise_cons.mp h
    by_cases hk : name = key
    · subst hk
      have hrest : (name, v) ∉ rest := fun hmem => hp.1 _ hmem rfl
      simp [hrest, eq_comm]
    · have hk' : (name == key) = false := by simpa using hk
      simp [List.lookup_cons, hk', hk, ih hp.2]

theorem lookup_perm (hp : entries'.Perm entries) (h : entries.Pairwise (·.1 ≠ ·.1)) (name : Text) :
    entries'.lookup name = entries.lookup name := by
  have h' : entries'.Pairwise (·.1 ≠ ·.1) := hp.symm.pairwise h fun hne => hne.symm
  ext v
  rw [lookup_eq_some_iff_mem h', lookup_eq_some_iff_mem h, hp.mem_iff]

theorem Table.get?_foldl_insert (h : entries.Pairwise (·.1 ≠ ·.1)) (table : Table) (name : Text) :
    (entries.foldl (fun table (name, v) => table.insert name v) table).get? name =
      (entries.lookup name).or (table.get? name) := by
  induction entries generalizing table with
  | nil => rfl
  | cons head rest ih =>
    obtain ⟨key, w⟩ := head
    have hp := List.pairwise_cons.mp h
    rw [List.foldl_cons, ih hp.2]
    by_cases hk : name = key
    · subst hk
      have hnone : rest.lookup name = none :=
        List.lookup_eq_none_iff.mpr fun e he => by simpa using hp.1 e he
      simp [hnone, Table.get?_insert_self]
    · have hk' : (name == key) = false := by simpa using hk
      simp [List.lookup_cons, hk', Table.get?_insert_of_ne hk]

theorem Table.keys_distinct (table : Table) : table.entries.Pairwise (·.1 ≠ ·.1) :=
  table.sorted.imp fun {e e'} (hlt : e.1 < e'.1) he => List.lt_irrefl _ (he ▸ hlt)

theorem Table.ofList_perm {table : Table} (hp : entries.Perm table.entries) :
    Table.ofList entries = table := by
  have hkeys : entries.Pairwise (·.1 ≠ ·.1) :=
    hp.symm.pairwise table.keys_distinct fun hne => hne.symm
  refine Table.ext_get? fun name => ?_
  rw [Table.ofList, Table.get?_foldl_insert hkeys, lookup_perm hp table.keys_distinct]
  exact Option.or_none

end Tables

section Listing

variable {entry : Text × Int}

theorem mem_hexLiteral {v : Int} {c : Char} (h : c ∈ hexLiteral v) : isBlank c = false ∧ c ≠ ';' := by
  have hdigits : ∀ n : Nat, c ∈ hexLiteral n → isBlank c = false ∧ c ≠ ';' := by
    intro n hc
    obtain ⟨hblank, hne, -⟩ := Word.mem_text (w := .literal n) hc
    exact ⟨hblank, hne⟩
  cases v with
  | ofNat n => exact hdigits n h
  | negSucc n =>
    rw [hexLiteral_negSucc] at h
    rcases List.mem_cons.mp h with rfl | h
    · decide
    · exact hdigits _ h

theorem assignmentOf_eq (entry : Text × Int) :
    assignmentOf entry = entry.1 ++ (" := ".toList ++ '0' :: hexLiteral entry.2) := by
  simp [assignmentOf]

theorem trimmed_assignmentOf (hn : isName entry.1 = true) : Trimmed (assignmentOf entry) := by
  have hvalue : Trimmed ('0' :: hexLiteral entry.2) := by
    refine trimmed_of_forall (List.forall_mem_cons.mpr ⟨by decide, fun c hc => ?_⟩)
    exact (mem_hexLiteral hc).1
  rw [assignmentOf_eq]
  exact (trimmed_of_isName hn).append hvalue (ne_nil_of_isName hn) (by simp) _

theorem notMem_assignmentOf (hn : isName entry.1 = true) : ';' ∉ assignmentOf entry := by
  have hname : ';' ∉ entry.1 := notMem_of_isName hn (by decide)
  have hvalue : ';' ∉ hexLiteral entry.2 := fun hc => (mem_hexLiteral hc).2 rfl
  simp [assignmentOf, hname, hvalue]

theorem exists_judged_assignmentOf (hn : isName entry.1 = true) (table : Table) :
    ∃ o, Judged standard table (assignmentOf entry) o (table.insert entry.1 entry.2) ∧
      o.status = .accepted ∧ o.message = none ∧ o.value = some entry.2 := by
  have ha := assigns_of_name hn ('0' :: hexLiteral entry.2)
  have htarget : trim (entry.1 ++ [' ']) = entry.1 :=
    trim_append_right (trimmed_of_isName hn) (blank_singleton (by decide))
  have hvalue : evaluate table
      (rightTokens standard (entry.1 ++ [' ']) (' ' :: '0' :: hexLiteral entry.2)) = .ok entry.2 := by
    rw [rightTokens, lex_gap (by decide), evaluate_zero_hexLiteral]
  have hj := Judged.assigned ha (htarget.symm ▸ hn) hvalue
  rw [htarget, ← assignmentOf_eq] at hj
  exact ⟨_, hj, rfl, rfl, rfl⟩

theorem divided_listing {order : List (Text × Int)} (hn : ∀ e ∈ order, isName e.1 = true) :
    Divided ';' (order.map fun e => ⟨assignmentOf e, true⟩) where
  trimmed := List.forall_mem_map.mpr fun e he => trim_of_trimmed (trimmed_assignmentOf (hn e he))
  nonempty := List.forall_mem_map.mpr fun e _ => by simp [assignmentOf]
  uncut := List.forall_mem_map.mpr fun e he => notMem_assignmentOf (hn e he)
  ended := List.pairwise_map.mpr (List.pairwise_of_forall fun _ _ => rfl)

theorem exists_runs_listing {order : List (Text × Int)} (hn : ∀ e ∈ order, isName e.1 = true)
    (table : Table) :
    ∃ run, Runs standard table (order.map fun e => ⟨assignmentOf e, true⟩) run ∧
      List.Forall₂ Restores order run.outcomes ∧
      run.table = order.foldl (fun table (name, v) => table.insert name v) table := by
  induction order generalizing table with
  | nil => exact ⟨_, .nil, .nil, rfl⟩
  | cons e order ih =>
    obtain ⟨he, horder⟩ := List.forall_mem_cons.mp hn
    obtain ⟨o, hj, hstatus, hmessage, hvalue⟩ := exists_judged_assignmentOf he table
    obtain ⟨run, hr, hrestores, htable⟩ := ih horder (table.insert e.1 e.2)
    rw [← trim_of_trimmed (trimmed_assignmentOf he)] at hj
    refine ⟨_, .cons hj hr, .cons ⟨?_, ?_, ?_, ?_⟩ hrestores, htable⟩
    · rw [Outcome.terminate_rawText, hj.rawText_eq, trim_of_trimmed (trimmed_assignmentOf he)]
      simp
    · rw [Outcome.terminate_status, hstatus]
    · rw [Outcome.terminate_message, hmessage]
    · rw [Outcome.terminate_value, hvalue]

theorem listing_eq (order : List (Text × Int)) : listing order =
    (order.map fun e => (⟨assignmentOf e, true⟩ : Segment)).flatMap (Segment.source standard) := by
  rw [List.flatMap_map]
  rfl

end Listing

/-- A natural number is read back from the literal it is written as, and no other literal of it is
as short. A table of integers is read back from its assignments, in whichever order they stand. -/
theorem hexLiteral_reads_back :
    (∀ (n : Nat) (i : Int),
      lex standard.commentMarker i (hexLiteral n) = [⟨.hexNumber, hexLiteral n, i⟩] ∧
        LiteralOf n (hexLiteral n) ∧
        ∀ table, evaluate table (lex standard.commentMarker i (hexLiteral n)) = .ok (n : Int)) ∧
      (∀ n text, LiteralOf n text →
        text = hexLiteral n ∨ (hexLiteral n).length < text.length) ∧
      ∀ (table : Table) (order : List (Text × Int)), (∀ e ∈ table.entries, isName e.1 = true) →
        order.Perm table.entries →
        ∃ run, runProgram standard (listing order) = .ok run ∧
          List.Forall₂ Restores order run.outcomes ∧ run.table = table := by
  refine ⟨fun n i => ?_, fun n text h => h.eq_or_length_lt, fun table order hn hp => ?_⟩
  · have hlit := isLiteral_hexLiteral n
    refine ⟨lex_lone_literal hlit i, literalOf_hexLiteral n, fun table => ?_⟩
    rw [lex_lone_literal hlit, evaluate_literal rfl hlit, literalValue_hexLiteral]
  · have hnames : ∀ e ∈ order, isName e.1 = true := fun e he => hn e (hp.subset he)
    obtain ⟨run, hr, hrestores, htable⟩ := exists_runs_listing hnames ∅
    have hsegs := (divided_listing hnames).segments_eq (d := standard) rfl
    rw [← listing_eq] at hsegs
    exact ⟨run, runProgram_eq hsegs hr, hrestores, htable.trans (Table.ofList_perm hp)⟩

theorem hexLiteral_reads_back_table :
    let table := ((∅ : Table).insert ['a'] (-26)).insert "b_1".toList 255
    let order := [("b_1".toList, 255), (['a'], -26)]
    (∀ e ∈ table.entries, isName e.1 = true) ∧ order.Perm table.entries ∧
      listing order = "b_1 := 00ff;a := 0-1a;".toList ∧
      ∃ run, runProgram standard (listing order) = .ok run ∧
        List.Forall₂ Restores order run.outcomes ∧ run.table = table := by
  intro table order
  have hn : ∀ e ∈ table.entries, isName e.1 = true := by decide
  have hp : order.Perm table.entries := by decide
  exact ⟨hn, hp, by decide, hexLiteral_reads_back.2.2 table order hn hp⟩

end HexLang

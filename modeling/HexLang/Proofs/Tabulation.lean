import HexLang.Proofs.Conversation
import HexLang.Proofs.Listing

/-! The printed table. Each variable has a line of its own, in which name and
value stand in two columns, so the text tells which variables there are and what
they are bound to, whatever the order in which they were bound. -/

namespace HexLang

/-- What a name is bound to after all the bindings, of which the later counts. -/
def lastBound (bindings : List (Text × Int)) (name : Text) : Option Int :=
  bindings.reverse.lookup name

/-- The names are those of the language, and no value is too long to be shown. -/
structure Printable (binds : Text → Option Int) : Prop where
  named : ∀ name v, binds name = some v → isName name = true
  short : ∀ name v, binds name = some v → v.natAbs < 10 ^ decimalDigits

/-- The line of an entry: the name, with spaces up to the column where the equals sign follows, and
the value behind it. -/
structure LineOf (width : Nat) (entry : Text × Int) (line : Text) : Prop where
  columns : ∃ label shown, FirstCut " = ".toList line label shown ∧ label.length = width ∧
    label = entry.1 ++ spaces (width - entry.1.length) ∧ showValue entry.2 = .ok shown
  unbroken : '\n' ∉ line

/-- One line for each variable, in the order of their names. The longest name is as wide as the
column of names. -/
structure Tabulates (binds : Text → Option Int) (width : Nat) (entries : List (Text × Int))
    (lines : List Text) : Prop where
  ordered : entries.Pairwise (·.1 < ·.1)
  complete : ∀ name v, (name, v) ∈ entries ↔ binds name = some v
  longest : (∃ e ∈ entries, e.1.length = width) ∧ ∀ e ∈ entries, e.1.length ≤ width
  listed : List.Forall₂ (LineOf width) entries lines

section Values

variable {v w : Int} {c : Char} {shown : Text}

theorem hexLiteral_inj (h : hexLiteral v = hexLiteral w) : v = w := by
  have hv := evaluate_zero_hexLiteral ∅ v 0
  rw [h, evaluate_zero_hexLiteral] at hv
  exact (Except.ok.inj hv).symm

theorem isBlank_of_mem_decimal (h : c ∈ decimal v) : isBlank c = false := by
  rcases List.mem_append.mp h with hs | hd
  · rw [sign] at hs
    split at hs
    · obtain rfl := List.mem_singleton.mp hs
      decide
    · cases hs
  · have hdigit : c.isDigit = true := Nat.isDigit_of_mem_toDigits (by decide) (by decide) hd
    exact isBlank_of_isNameChar (isNameChar_of_isDigit hdigit)

theorem eq_of_showValue (h : showValue v = .ok shown) :
    shown = decimal v ++ ' ' :: '(' :: (hexLiteral v ++ [')']) := by
  rw [showValue] at h
  split at h
  · cases h
  · rw [← Except.ok.inj h]
    simp

theorem newline_notMem_showValue (h : showValue v = .ok shown) : '\n' ∉ shown := by
  have hd : '\n' ∉ decimal v := fun hc => nomatch isBlank_of_mem_decimal hc
  have hx : '\n' ∉ hexLiteral v := fun hc => nomatch (mem_hexLiteral hc).1
  rw [eq_of_showValue h]
  simp [hd, hx]

theorem showValue_inj (hv : showValue v = .ok shown) (hw : showValue w = .ok shown) : v = w := by
  have hspace : ∀ u, ' ' ∉ decimal u := fun u hc => nomatch isBlank_of_mem_decimal hc
  have hcut := firstCut_singleton (hspace v) ('(' :: (hexLiteral v ++ [')']))
  rw [← eq_of_showValue hv, eq_of_showValue hw] at hcut
  obtain ⟨-, hafter⟩ := hcut.unique (firstCut_singleton (hspace w) _)
  exact hexLiteral_inj (List.append_cancel_right (List.cons.inj hafter).2)

end Values

section Line

variable {width width' : Nat} {e e' : Text × Int} {line : Text}

theorem firstCut_equals {label : Text} (h : '=' ∉ label) (shown : Text) :
    FirstCut " = ".toList (label ++ " = ".toList ++ shown) label shown := by
  -- a label may end in spaces, so the marker is found by its sign and not by its first character
  refine ⟨rfl, fun pre hpre => ?_⟩
  have hlabel : '=' ∉ label ++ [' '] := by simp [h]
  have hcut := firstCut_singleton hlabel (' ' :: shown)
  have hahead : pre ++ [' '] ++ ['='] <+: label ++ [' '] ++ '=' :: ' ' :: shown := by
    refine List.IsPrefix.trans ⟨[' '], ?_⟩ (by simpa using hpre)
    simp
  have hle := hcut.first (pre ++ [' ']) hahead
  simpa using hle

theorem lineOf_of_showEntry (h : showEntry width e = .ok line) (hn : isName e.1 = true)
    (hle : e.1.length ≤ width) : LineOf width e line := by
  cases hs : showValue e.2 with
  | error f => simp [showEntry, hs, bind, Except.bind] at h
  | ok shown =>
    simp only [showEntry, hs, bind, Except.bind, pure, Except.pure, Except.ok.injEq] at h
    subst h
    have hequals : '=' ∉ e.1 := notMem_of_isName hn (by decide)
    have hbreak : '\n' ∉ e.1 := notMem_of_isName hn (by decide)
    have hlabel : '=' ∉ e.1.rightpad width ' ' := by simp [hequals]
    constructor
    · refine ⟨_, shown, firstCut_equals hlabel shown, ?_, ?_, hs⟩
      · rw [List.length_rightpad, Nat.max_eq_left hle]
      · simp [List.rightpad, spaces]
    · simp [hbreak, newline_notMem_showValue hs]

theorem takeWhile_label {name : Text} (hn : isName name = true) (n : Int) :
    (name ++ spaces n).takeWhile isNameChar = name := by
  refine takeWhile_append_of_boundary ?_ fun c hc => ?_
  · exact List.all_eq_true.mpr fun c hc => isNameChar_of_mem_name hn hc
  · rw [List.eq_of_mem_replicate (List.mem_of_mem_head? hc)]
    decide

/-- An entry is read back from its line. -/
theorem LineOf.entry_unique (h : LineOf width e line) (h' : LineOf width' e' line)
    (hn : isName e.1 = true) (hn' : isName e'.1 = true) : e = e' := by
  obtain ⟨label, shown, hcut, -, hlabel, hs⟩ := h.columns
  obtain ⟨label', shown', hcut', -, hlabel', hs'⟩ := h'.columns
  obtain ⟨rfl, rfl⟩ := hcut.unique hcut'
  -- the widths may differ, but no name goes on into the spaces behind it
  have hname := takeWhile_label hn (width - e.1.length)
  rw [← hlabel, hlabel', takeWhile_label hn'] at hname
  exact Prod.ext hname.symm (showValue_inj hs hs')

theorem LineOf.equals_mem (h : LineOf width e line) : '=' ∈ line := by
  obtain ⟨label, shown, hcut, -⟩ := h.columns
  exact hcut.isInfix.subset (by decide)

end Line

section Lines

variable {width width' : Nat} {entries entries' : List (Text × Int)} {lines : List Text}

theorem unbroken_of_listed (h : List.Forall₂ (LineOf width) entries lines) :
    ∀ line ∈ lines, '\n' ∉ line := by
  induction h with
  | nil => simp
  | cons hline _ ih => exact List.forall_mem_cons.mpr ⟨hline.unbroken, ih⟩

theorem entries_unique (h : List.Forall₂ (LineOf width) entries lines)
    (h' : List.Forall₂ (LineOf width') entries' lines) (hn : ∀ e ∈ entries, isName e.1 = true)
    (hn' : ∀ e ∈ entries', isName e.1 = true) : entries = entries' := by
  induction h generalizing entries' with
  | nil =>
    cases h'
    rfl
  | cons hline _ ih =>
    cases h' with
    | cons hline' h' =>
      obtain ⟨he, hn⟩ := List.forall_mem_cons.mp hn
      obtain ⟨he', hn'⟩ := List.forall_mem_cons.mp hn'
      rw [hline.entry_unique hline' he he', ih h' hn hn']

theorem splitOn_joinLines (h : List.Forall₂ (LineOf width) entries lines) (hne : entries ≠ []) :
    (joinLines lines).splitOn '\n' = lines := by
  refine List.splitOn_intercalate '\n' (unbroken_of_listed h) ?_
  rintro rfl
  exact hne (List.forall₂_nil_right_iff.mp h)

/-- No entry is shown in the words for a table that has none. -/
theorem joinLines_ne_noVariables (h : List.Forall₂ (LineOf width) entries lines)
    (hne : entries ≠ []) : joinLines lines ≠ "(no variables)".toList := by
  cases h with
  | nil => exact absurd rfl hne
  | @cons e line entries lines hline _ =>
    have hahead : line <+: joinLines (line :: lines) := by
      cases lines with
      | nil => simp [joinLines]
      | cons next lines => simp [joinLines, List.intercalate_cons_cons]
    intro he
    have hmem := hahead.subset hline.equals_mem
    rw [he] at hmem
    exact absurd hmem (by decide)

end Lines

section Tables

variable {table table' : Table}

theorem Table.mem_entries_iff (table : Table) (name : Text) (v : Int) :
    (name, v) ∈ table.entries ↔ table.get? name = some v :=
  (lookup_eq_some_iff_mem table.keys_distinct).symm

theorem Printable.isName_of_mem (h : Printable table.get?) :
    ∀ e ∈ table.entries, isName e.1 = true :=
  fun e he => h.named e.1 e.2 ((table.mem_entries_iff e.1 e.2).mp he)

theorem Printable.natAbs_lt_of_mem (h : Printable table.get?) :
    ∀ e ∈ table.entries, e.2.natAbs < 10 ^ decimalDigits :=
  fun e he => h.short e.1 e.2 ((table.mem_entries_iff e.1 e.2).mp he)

theorem nameWidth_longest (h : table.entries ≠ []) :
    (∃ e ∈ table.entries, e.1.length = nameWidth table) ∧
      ∀ e ∈ table.entries, e.1.length ≤ nameWidth table := by
  have hne : table.entries.map (·.1.length) ≠ [] := by simpa using h
  have hmax : nameWidth table = (table.entries.map (·.1.length)).max hne := by
    rw [nameWidth, List.foldl_max_eq_max hne, Nat.zero_max]
  rw [hmax]
  exact ⟨List.mem_map.mp (List.max_mem hne), fun e he =>
    List.le_max_of_mem (List.mem_map_of_mem (f := fun e : Text × Int => e.1.length) he)⟩

theorem Printable.exists_tabulates (h : Printable table.get?) (hne : table.entries ≠ []) :
    ∃ lines, showTable table = .ok (joinLines lines) ∧
      Tabulates table.get? (nameWidth table) table.entries lines := by
  obtain ⟨lines, hlines⟩ := exists_showEntries h.natAbs_lt_of_mem (nameWidth table)
  have hlongest := nameWidth_longest hne
  have hshown := (List.forall₂_and_left table.entries lines).mpr
    ⟨fun e he => And.intro (h.isName_of_mem e he) (hlongest.2 e he), forall₂_of_mapM hlines⟩
  refine ⟨lines, showTable_of_lines hne hlines, table.sorted, table.mem_entries_iff, hlongest, ?_⟩
  exact hshown.imp fun e line hline => lineOf_of_showEntry hline.2 hline.1.1 hline.1.2

theorem Table.eq_of_entries (h : table.entries = table'.entries) : table = table' :=
  Table.ext_get? fun name => by rw [Table.get?, Table.get?, h]

/-- Of the tables that can be printed, no two look alike. -/
theorem Printable.eq_of_showTable (h : Printable table.get?) (h' : Printable table'.get?)
    (hshow : showTable table = showTable table') : table = table' := by
  by_cases hne : table.entries = [] <;> by_cases hne' : table'.entries = []
  · exact Table.eq_of_entries (hne.trans hne'.symm)
  · obtain ⟨lines, hlines, htab⟩ := h'.exists_tabulates hne'
    rw [hlines, showTable_of_empty hne] at hshow
    exact absurd (Except.ok.inj hshow).symm (joinLines_ne_noVariables htab.listed hne')
  · obtain ⟨lines, hlines, htab⟩ := h.exists_tabulates hne
    rw [hlines, showTable_of_empty hne'] at hshow
    exact absurd (Except.ok.inj hshow) (joinLines_ne_noVariables htab.listed hne)
  · obtain ⟨lines, hlines, htab⟩ := h.exists_tabulates hne
    obtain ⟨lines', hlines', htab'⟩ := h'.exists_tabulates hne'
    rw [hlines, hlines'] at hshow
    have hsame := congrArg (List.splitOn '\n') (Except.ok.inj hshow)
    rw [splitOn_joinLines htab.listed hne, splitOn_joinLines htab'.listed hne'] at hsame
    subst hsame
    have hentries := entries_unique htab.listed htab'.listed h.isName_of_mem h'.isName_of_mem
    exact Table.eq_of_entries hentries

end Tables

section Bindings

variable {bindings : List (Text × Int)}

theorem Table.get?_ofList (bindings : List (Text × Int)) :
    (Table.ofList bindings).get? = lastBound bindings := by
  funext name
  induction bindings using List.reverseRecOn with
  | nil => rfl
  | append_singleton bindings e ih =>
    obtain ⟨other, v⟩ := e
    have hlast : Table.ofList (bindings ++ [(other, v)]) = (Table.ofList bindings).insert other v := by
      simp [Table.ofList]
    rw [hlast, lastBound, List.reverse_concat]
    by_cases hname : name = other
    · subst hname
      rw [Table.get?_insert_self, List.lookup_cons_self]
    · have hne : (name == other) = false := by simpa using hname
      rw [Table.get?_insert_of_ne hname, ih, List.lookup_cons, hne]
      rfl

theorem printable_lastBound (hn : ∀ e ∈ bindings, isName e.1 = true)
    (hv : ∀ e ∈ bindings, e.2.natAbs < 10 ^ decimalDigits) : Printable (lastBound bindings) := by
  have hmem : ∀ name v, lastBound bindings name = some v → (name, v) ∈ bindings := by
    intro name v h
    obtain ⟨pre, post, hsplit, -⟩ := List.lookup_eq_some_iff.mp h
    exact List.mem_reverse.mp (by simp [hsplit])
  exact ⟨fun name v h => hn _ (hmem name v h), fun name v h => hv _ (hmem name v h)⟩

theorem Table.ofList_entries_ne_nil (h : bindings ≠ []) : (Table.ofList bindings).entries ≠ [] := by
  obtain ⟨init, ⟨name, v⟩, rfl⟩ := (List.eq_nil_or_concat' bindings).resolve_left h
  intro hnil
  have hget := congrFun (Table.get?_ofList (init ++ [(name, v)])) name
  rw [Table.get?, hnil, lastBound, List.reverse_concat, List.lookup_cons_self] at hget
  cases hget

end Bindings

/-- Whatever the order in which the variables were bound, two tables are printed alike just if they
bind the same names to the same values. A table with variables has a line for each of them, sorted
by their names, and the equals signs stand below each other. -/
theorem showTable_tells_apart (bindings bindings' : List (Text × Int))
    (h : Printable (lastBound bindings)) (h' : Printable (lastBound bindings')) :
    ∃ text text', showTable (Table.ofList bindings) = .ok text ∧
      showTable (Table.ofList bindings') = .ok text' ∧
      (text = text' ↔ ∀ name, lastBound bindings name = lastBound bindings' name) ∧
      (bindings ≠ [] → ∃ width entries lines, text = joinLines lines ∧
        Tabulates (lastBound bindings) width entries lines) := by
  rw [← Table.get?_ofList] at h h'
  obtain ⟨text, ht⟩ := exists_showTable h.natAbs_lt_of_mem
  obtain ⟨text', ht'⟩ := exists_showTable h'.natAbs_lt_of_mem
  refine ⟨text, text', ht, ht', ⟨fun he name => ?_, fun hsame => ?_⟩, fun hne => ?_⟩
  · have hshow := ht.trans (congrArg Except.ok he |>.trans ht'.symm)
    rw [← Table.get?_ofList, ← Table.get?_ofList, h.eq_of_showTable h' hshow]
  · have htable : Table.ofList bindings = Table.ofList bindings' := by
      refine Table.ext_get? fun name => ?_
      rw [Table.get?_ofList, Table.get?_ofList, hsame]
    rw [htable, ht'] at ht
    exact (Except.ok.inj ht).symm
  · obtain ⟨lines, hlines, htab⟩ := h.exists_tabulates (Table.ofList_entries_ne_nil hne)
    rw [Table.get?_ofList] at htab
    exact ⟨_, _, lines, Except.ok.inj (ht.symm.trans hlines), htab⟩

theorem showTable_tells_apart_rebound :
    let bindings : List (Text × Int) := [("b_1".toList, 255), ("a".toList, -26)]
    let bindings' : List (Text × Int) := [("a".toList, 3), ("a".toList, -26), ("b_1".toList, 255)]
    Printable (lastBound bindings) ∧ Printable (lastBound bindings') ∧
      (∃ text text', showTable (Table.ofList bindings) = .ok text ∧
        showTable (Table.ofList bindings') = .ok text' ∧
        (text = text' ↔ ∀ name, lastBound bindings name = lastBound bindings' name) ∧
        (bindings ≠ [] → ∃ width entries lines, text = joinLines lines ∧
          Tabulates (lastBound bindings) width entries lines)) ∧
      showTable (Table.ofList bindings) = .ok "a   = -26 (-1a)\nb_1 = 255 (0ff)".toList := by
  intro bindings bindings'
  have hlarge : 255 < 10 ^ decimalDigits := by
    have hle : 255 < decimalDigits := by decide
    generalize decimalDigits = n at hle ⊢
    exact hle.trans (Nat.lt_pow_self (by decide))
  have hshort : ∀ e ∈ bindings ++ bindings', e.2.natAbs < 10 ^ decimalDigits := by
    have hle : ∀ e ∈ bindings ++ bindings', e.2.natAbs ≤ 255 := by decide
    exact fun e he => (hle e he).trans_lt hlarge
  have h : Printable (lastBound bindings) :=
    printable_lastBound (by decide) fun e he => hshort e (List.mem_append_left _ he)
  have h' : Printable (lastBound bindings') :=
    printable_lastBound (by decide) fun e he => hshort e (List.mem_append_right _ he)
  exact ⟨h, h', showTable_tells_apart bindings bindings' h h', by decide +kernel⟩

end HexLang

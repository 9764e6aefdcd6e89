import HexLang.Display
import HexLang.Proofs.Coherence

/-! The caret window, and the caret of a report. The window is the text around a
place, cut at both ends. The column of the caret counts all the characters that
are shown in front of the place, so it is right just if the window is one line. -/

namespace HexLang

/-- A text, cut at the ends of the window around one of its places. -/
structure Window (code : Text) (place : Nat) where
  before : Text
  shown : Text
  after : Text
  parts : before ++ (shown ++ after) = code
  first : (before.length : Int) = max 0 (place - windowReach)
  last : (before.length + shown.length : Int) = min (code.length : Int) (place + windowReach)

/-- What stands for a part that is left out. -/
def dots (hidden : Text) : Text :=
  if hidden = [] then [] else ellipsis

/-- The last line is a caret, and it stands under the given position, or right behind the line
above it. -/
def CaretUnder (text : Text) (position : Nat) : Prop :=
  ∃ head above : Text, ∃ n : Nat, text = head ++ '\n' :: (above ++ '\n' :: (spaces n ++ ['^'])) ∧
    '\n' ∉ above ∧ n ≤ above.length ∧ position = head.length + 1 + n

theorem windowReach_pos : 0 < windowReach := by
  decide

namespace Window

variable {code : Text} {place : Nat}

def around (h : place ≤ code.length) : Window code place where
  before := code.take (place - windowReach.toNat)
  shown := (code.take (place + windowReach.toNat)).drop (place - windowReach.toNat)
  after := code.drop (place + windowReach.toNat)
  parts := by
    have htake : code.take (place - windowReach.toNat) =
        (code.take (place + windowReach.toNat)).take (place - windowReach.toNat) := by
      rw [List.take_take, Nat.min_eq_left (by omega)]
    rw [← List.append_assoc, htake, List.take_append_drop, List.take_append_drop]
  first := by
    have hpos := windowReach_pos
    rw [List.length_take]
    omega
  last := by
    have hpos := windowReach_pos
    rw [List.length_drop, List.length_take, List.length_take]
    omega

/-- The part that is shown, with dots at each side where something is left out. -/
def display (w : Window code place) : Text :=
  dots w.before ++ (w.shown ++ dots w.after)

/-- The characters that are shown in front of the place. -/
def column (w : Window code place) : Nat :=
  (dots w.before).length + (place - w.before.length)

variable (w : Window code place)

theorem length_before_le : w.before.length ≤ place := by
  have hfirst := w.first
  have hpos := windowReach_pos
  omega

theorem length_eq : w.before.length + (w.shown.length + w.after.length) = code.length := by
  rw [← List.length_append, ← List.length_append, w.parts]

theorem shown_eq : w.shown =
    slice code (max 0 (place - windowReach)) (min code.length (place + windowReach)) := by
  rw [← w.first, ← w.last]
  have hslice := slice_append w.before w.shown w.after
  rw [w.parts] at hslice
  exact hslice.symm

theorem pointAt_eq : pointAt code place = w.display ++ '\n' :: (spaces w.column ++ ['^']) := by
  have hleft : (if (0 : Int) < w.before.length then ellipsis else []) = dots w.before := by
    cases w.before <;> simp [dots]
  have hright : (if (w.before.length + w.shown.length : Int) < code.length then ellipsis else []) =
      dots w.after := by
    rw [← w.length_eq]
    cases w.after <;> simp [dots]
  have hcolumn : (place - w.before.length + (dots w.before).length : Int) = w.column := by
    have hle := w.length_before_le
    rw [column]
    omega
  simp only [pointAt, ← w.shown_eq]
  simp only [← w.first, ← w.last, hleft, hright, hcolumn, display, List.append_assoc,
    List.cons_append]

theorem after_eq_nil (h : w.before.length + w.shown.length ≤ place) : w.after = [] := by
  have hlast := w.last
  have hlen := w.length_eq
  have hpos := windowReach_pos
  exact List.length_eq_zero_iff.mp (by omega)

/-- Over the column stands the character of the place, and nothing if the text ends there. -/
theorem getElem?_display : w.display[w.column]? = code[place]? := by
  have hcode : (w.before ++ (w.shown ++ w.after))[place]? =
      (w.shown ++ w.after)[place - w.before.length]? := List.getElem?_append_right w.length_before_le
  rw [w.parts] at hcode
  rw [hcode, display, column, List.getElem?_append_right (Nat.le_add_right _ _),
    Nat.add_sub_cancel_left]
  rcases Nat.lt_or_ge (place - w.before.length) w.shown.length with hk | hk
  · rw [List.getElem?_append_left hk, List.getElem?_append_left hk]
  · have hle := w.length_before_le
    simp [w.after_eq_nil (by omega), dots]

theorem column_le (h : place ≤ code.length) : w.column ≤ w.display.length := by
  have hlast := w.last
  have hpos := windowReach_pos
  rw [column, display, List.length_append, List.length_append]
  omega

theorem exists_column_of_lt (h : place < code.length) : ∃ k < w.shown.length,
    w.before.length + k = place ∧ w.column = (dots w.before).length + k := by
  have hle := w.length_before_le
  have hlast := w.last
  have hpos := windowReach_pos
  exact ⟨place - w.before.length, by omega, by omega, rfl⟩

theorem column_of_eq (h : place = code.length) : w.column = w.display.length := by
  have hle := w.length_before_le
  have hlen := w.length_eq
  have hafter := w.after_eq_nil (by omega)
  have hnone : dots w.after = [] := if_pos hafter
  rw [hafter, List.length_nil] at hlen
  rw [column, display, hnone, List.append_nil, List.length_append]
  omega

theorem newline_mem_display_iff : '\n' ∈ w.display ↔ '\n' ∈ w.shown := by
  have hdots : ∀ hidden, '\n' ∉ dots hidden := by
    intro hidden
    rw [dots]
    split <;> decide
  simp [display, hdots]

end Window

/-- The window around a place of a text shows ten characters on each side of it, as far as there
are that many, and dots for those that are left out. The caret stands under the character of the
place, and behind the line if the text ends there. -/
theorem pointAt_frames (code : Text) (i : Nat) (h : i ≤ code.length) :
    ∃ before shown after : Text, before ++ (shown ++ after) = code ∧
      (before.length : Int) = max 0 ((i : Int) - 10) ∧
      (before.length + shown.length : Int) = min (code.length : Int) (i + 10) ∧
      ∃ column : Nat, let display := dots before ++ (shown ++ dots after)
        pointAt code i = display ++ '\n' :: (spaces column ++ ['^']) ∧
        (i < code.length → ∃ k < shown.length, before.length + k = i ∧
          column = (dots before).length + k ∧ display[column]? = code[i]?) ∧
        (i = code.length → column = display.length) := by
  let w := Window.around h
  refine ⟨w.before, w.shown, w.after, w.parts, w.first, w.last, w.column, w.pointAt_eq,
    fun hlt => ?_, w.column_of_eq⟩
  obtain ⟨k, hk, hplace, hcolumn⟩ := w.exists_column_of_lt hlt
  exact ⟨k, hk, hplace, hcolumn, w.getElem?_display⟩

/-- Three characters are left out in front, and two behind. -/
theorem pointAt_frames_cut :
    13 ≤ "abc := 0; def := 1 + 2 + ".toList.length ∧
      ∃ before shown after : Text, before ++ (shown ++ after) = "abc := 0; def := 1 + 2 + ".toList ∧
        before.length = 3 ∧ shown.length = 20 ∧
        pointAt "abc := 0; def := 1 + 2 + ".toList 13 =
          "... := 0; def := 1 + 2 ...\n             ^".toList ∧
        ∃ column : Nat, let display := dots before ++ (shown ++ dots after)
          pointAt "abc := 0; def := 1 + 2 + ".toList 13 =
            display ++ '\n' :: (spaces column ++ ['^']) ∧
          display[column]? = "abc := 0; def := 1 + 2 + ".toList[13]? := by
  have hle : 13 ≤ "abc := 0; def := 1 + 2 + ".toList.length := by decide
  obtain ⟨before, shown, after, hparts, hfirst, hlast, column, hpoint, hlt, -⟩ :=
    pointAt_frames "abc := 0; def := 1 + 2 + ".toList 13 hle
  obtain ⟨-, -, -, -, hchar⟩ := hlt (by decide)
  have hbefore : before.length = 3 := by
    have hmax : max 0 (((13 : Nat) : Int) - 10) = 3 := by decide
    omega
  have hend : min ("abc := 0; def := 1 + 2 + ".toList.length : Int) ((13 : Nat) + 10) = 23 := by
    decide
  exact ⟨hle, before, shown, after, hparts, hbefore, by omega, by decide, column, hpoint, hchar⟩

section Lines

theorem newline_notMem_spaces (n : Int) : '\n' ∉ spaces n ++ ['^'] := by
  simp [spaces]

theorem append_newline_inj {a b a' b' : Text} (hb : '\n' ∉ b) (hb' : '\n' ∉ b')
    (h : a ++ '\n' :: b = a' ++ '\n' :: b') : a = a' ∧ b = b' := by
  -- if one break stood behind the other, it would be in a last line
  rcases List.append_eq_append_iff.mp h with ⟨m, rfl, hm⟩ | ⟨m, rfl, hm⟩
  · cases m with
    | nil => simpa using hm
    | cons c m =>
      obtain ⟨-, rfl⟩ := List.cons.inj hm
      simp at hb
  · cases m with
    | nil => simpa using hm.symm
    | cons c m =>
      obtain ⟨-, rfl⟩ := List.cons.inj hm
      simp at hb'

theorem caret_inj {line display head above : Text} {column n : Nat}
    (h : line ++ '\n' :: (display ++ '\n' :: (spaces column ++ ['^'])) =
      head ++ '\n' :: (above ++ '\n' :: (spaces n ++ ['^']))) :
    line ++ '\n' :: display = head ++ '\n' :: above ∧ column = n := by
  have hcut : line ++ '\n' :: display ++ '\n' :: (spaces column ++ ['^']) =
      head ++ '\n' :: above ++ '\n' :: (spaces n ++ ['^']) := by simpa using h
  obtain ⟨hlines, hcaret⟩ :=
    append_newline_inj (newline_notMem_spaces _) (newline_notMem_spaces _) hcut
  exact ⟨hlines, by simpa using congrArg List.length hcaret⟩

/-- Under a display the caret is right just if no line break stands in it. -/
theorem caretUnder_iff {line display : Text} {column : Nat} (h : column ≤ display.length) :
    CaretUnder (line ++ '\n' :: (display ++ '\n' :: (spaces column ++ ['^'])))
      (line.length + 1 + column) ↔ '\n' ∉ display := by
  constructor
  · rintro ⟨head, above, n, htext, habove, -, hposition⟩
    obtain ⟨hlines, rfl⟩ := caret_inj htext
    obtain ⟨-, hdisplay⟩ := List.append_inj hlines (by omega)
    rwa [(List.cons.inj hdisplay).2]
  · exact fun hdisplay => ⟨line, display, column, rfl, hdisplay, h, rfl⟩

end Lines

theorem showPointed_of_message {o : Outcome} {m : Text} {i : Nat} (hm : o.message = some m)
    (hne : m ≠ []) (hi : o.errorOffset = some (i : Int)) (w : Window o.rawText i) :
    ∃ line, showOutcome o = .ok line ∧
      showPointed o = .ok (line ++ '\n' :: (w.display ++ '\n' :: (spaces w.column ++ ['^']))) := by
  have hremark : o.remark = some m := by simp [Outcome.remark, hm, hne]
  have hline : showOutcome o = .ok (o.heading ++ ": ".toList ++ m) := by simp [showOutcome, hremark]
  refine ⟨_, hline, ?_⟩
  simp [showPointed, hline, hremark, hi, bind, Except.bind, w.pointAt_eq, pure, Except.pure]

theorem Judged.exists_offset {d : Dialect} {table after : Table} {raw : Text} {o : Outcome}
    {m : Text} (h : Judged d table raw o after) (ht : Trimmed raw) (hm : o.message = some m) :
    m ≠ [] ∧ ∃ i : Nat, o.errorOffset = some (i : Int) ∧ i ≤ raw.length := by
  have hne : m ≠ [] := by
    obtain ⟨diag, rfl, -⟩ := h.message_eq hm
    exact diag.message_ne_nil
  have hcoherent := h.coherent ht
  have hplaced : o.errorOffset.isSome = true := by
    cases hs : o.status with
    | accepted =>
      obtain ⟨-, t, -, ht, -⟩ := hcoherent.warned hs m hm
      rw [ht, Option.isSome_some]
    | rejected => exact (hcoherent.rejected hs).2.2
  obtain ⟨i, hi⟩ := Option.isSome_iff_exists.mp hplaced
  obtain ⟨hnonneg, hle⟩ := hcoherent.bounded i hi
  obtain ⟨i, rfl⟩ := Int.eq_ofNat_of_zero_le hnonneg
  exact ⟨hne, i, hi, Int.ofNat_le.mp hle⟩

/-- Each message comes with a place in the text that is shown, and the report ends in the window
around it and a caret. The caret stands under the place just if the window is one line. -/
theorem runProgram_points (d : Dialect) (source : Text) (h : d.terminator ≠ []) :
    ∃ run, runProgram d source = .ok run ∧ ∀ o ∈ run.outcomes, ∀ m, o.message = some m →
      ∃ line, ∃ i : Nat, ∃ w : Window o.rawText i,
        showOutcome o = .ok line ∧ o.errorOffset = some (i : Int) ∧ i ≤ o.rawText.length ∧
        w.display[w.column]? = o.rawText[i]? ∧
        let text := line ++ '\n' :: (w.display ++ '\n' :: (spaces w.column ++ ['^']))
        showPointed o = .ok text ∧
          (CaretUnder text (line.length + 1 + w.column) ↔ '\n' ∉ w.shown) := by
  obtain ⟨pieces, last, hsplit⟩ := exists_splitOn_eq d.terminator source
  obtain ⟨run, hr⟩ := exists_runs d ∅ ((statements pieces last).map Segment.trimmed)
  refine ⟨run, runProgram_eq (segments_eq h hsplit) hr, fun o ho m hm => ?_⟩
  obtain ⟨s, -, before, o', after, hj, rfl⟩ := hr.mem_outcomes ho
  rw [Outcome.terminate_message] at hm
  obtain ⟨hne, i, hi, hle⟩ := hj.exists_offset (trimmed_trim s.text) hm
  -- the text is shown with its terminator, if it had one, so the place is in it all the more
  have hraw : i ≤ (o'.terminate d s).rawText.length := by
    rw [Outcome.terminate_rawText, hj.rawText_eq, List.length_append]
    exact hle.trans (Nat.le_add_right _ _)
  rw [← Outcome.terminate_message o' d s] at hm
  rw [← Outcome.terminate_errorOffset o' d s] at hi
  let w := Window.around hraw
  obtain ⟨line, hline, hpointed⟩ := showPointed_of_message hm hne hi w
  refine ⟨line, i, w, hline, hi, hraw, w.getElem?_display, hpointed, ?_⟩
  rw [caretUnder_iff (w.column_le hraw), w.newline_mem_display_iff]

/-- The line break is too far away to be shown. -/
theorem runProgram_points_past_break :
    standard.terminator ≠ [] ∧
    ∃ run, runProgram standard "1 +\n2 + 3 + 4 + * 5;".toList = .ok run ∧
      ∃ o ∈ run.outcomes, o.rawText = "1 +\n2 + 3 + 4 + * 5;".toList ∧
        ∃ text position, showPointed o = .ok text ∧ CaretUnder text position := by
  have hterminator : standard.terminator ≠ [] := by decide
  obtain ⟨run, hrun, hpoints⟩ :=
    runProgram_points standard "1 +\n2 + 3 + 4 + * 5;".toList hterminator
  have hshown : (runProgram standard "1 +\n2 + 3 + 4 + * 5;".toList).map
      (fun run => run.outcomes.map fun o => (o.rawText, o.message.isSome, o.errorOffset)) =
      .ok [("1 +\n2 + 3 + 4 + * 5;".toList, true, some 16)] := by decide +kernel
  rw [hrun] at hshown
  have houtcomes : run.outcomes.map (fun o => (o.rawText, o.message.isSome, o.errorOffset)) =
      [("1 +\n2 + 3 + 4 + * 5;".toList, true, some 16)] := Except.ok.inj hshown
  obtain ⟨o, ho, he⟩ := List.mem_map.mp (houtcomes ▸ List.mem_singleton_self _)
  obtain ⟨hraw, hrest⟩ := Prod.mk.inj he
  obtain ⟨hmessage, hoffset⟩ := Prod.mk.inj hrest
  obtain ⟨m, hm⟩ := Option.isSome_iff_exists.mp hmessage
  obtain ⟨line, i, w, -, hi, -, -, hpointed, hcaret⟩ := hpoints o ho m hm
  obtain rfl : 16 = i := Int.ofNat.inj (Option.some.inj (hoffset.symm.trans hi))
  have hline : '\n' ∉ w.shown := by
    rw [w.shown_eq, hraw]
    decide +kernel
  exact ⟨hterminator, run, hrun, o, ho, hraw, _, _, hpointed, hcaret.mpr hline⟩

/-- Of a statement over two lines the second one is right above the caret, whose column counts
the characters of the first one too. -/
theorem not_pointed_over_break :
    ∃ run, runProgram standard "x := 1 +\n* 2;".toList = .ok run ∧
      ∃ o ∈ run.outcomes, o.message.isSome = true ∧ o.errorOffset = some 9 ∧
        ∃ text, showPointed o = .ok text ∧ ¬ ∃ head above : Text, ∃ n : Nat,
          text = head ++ '\n' :: (above ++ '\n' :: (spaces n ++ ['^'])) ∧ '\n' ∉ above ∧
            above[n]? = o.rawText[9]? := by
  let o : Outcome := .ofDiagnostic "x := 1 +\n* 2;".toList
    [⟨.hexNumber, ['1'], 5⟩, ⟨.operator, ['+'], 7⟩, ⟨.operator, ['*'], 9⟩, ⟨.hexNumber, ['2'], 11⟩]
    (.unexpectedToken ⟨.operator, ['*'], 9⟩)
  let line := "x := 1 +\n* 2; -> REJECTED: Unexpected token '*'\nx := 1 +".toList
  have hrun : (runProgram standard "x := 1 +\n* 2;".toList).map (·.outcomes) = .ok [o] := by
    decide +kernel
  have hpointed : showPointed o =
      .ok (line ++ '\n' :: ("* 2;".toList ++ '\n' :: (spaces (9 : Nat) ++ ['^']))) := rfl
  cases hr : runProgram standard "x := 1 +\n* 2;".toList with
  | error f =>
    rw [hr] at hrun
    cases hrun
  | ok run =>
    rw [hr] at hrun
    have houtcomes : run.outcomes = [o] := Except.ok.inj hrun
    refine ⟨run, rfl, o, houtcomes ▸ List.mem_singleton_self o, rfl, rfl, _, hpointed, ?_⟩
    rintro ⟨head, above, n, htext, habove, hchar⟩
    obtain ⟨hlines, rfl⟩ := caret_inj htext
    obtain ⟨-, rfl⟩ := append_newline_inj (by decide) habove hlines
    exact absurd hchar (by decide)

end HexLang

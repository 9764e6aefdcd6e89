import HexLang.Proofs.Blame
import HexLang.Proofs.Placement
import HexLang.Proofs.Rereading

/-! An assignment gives its right side the verdict that the same text gets as
a statement of its own, with every place moved behind the marker. -/

namespace HexLang

/-- The same verdict on a text that stands `n` characters further on. -/
structure Outcome.MovedBy (n : Int) (o o' : Outcome) : Prop where
  status : o'.status = o.status
  message : o'.message = o.message
  value : o'.value = o.value
  tokens : o'.tokens = o.tokens.map (Token.move (· + n))
  errorOffset : o'.errorOffset = o.errorOffset.map (· + n)

theorem Diagnostic.position_move {d : Diagnostic} {tokens : List Token} (hd : d.Concerns tokens)
    {length length' : Nat} {n : Int} (hlen : (length' : Int) = length + n) :
    (d.move (· + n)).position length' = d.position length + n := by
  rcases hd with ⟨t, -, ht⟩ | rfl | rfl
  · have ht' : (d.move (· + n)).token? = some (t.move (· + n)) := by
      rw [Diagnostic.move_token?, ht, Option.map_some]
    rw [Diagnostic.position_of_token ht, Diagnostic.position_of_token ht']
    rfl
  · exact hlen
  · exact hlen

theorem Outcome.movedBy_ofDiagnostic {raw raw' : Text} {tokens : List Token} {d : Diagnostic}
    (hd : d.Concerns tokens) {n : Int} (hlen : (raw'.length : Int) = raw.length + n) :
    Outcome.MovedBy n (.ofDiagnostic raw tokens d)
      (.ofDiagnostic raw' (tokens.map (Token.move (· + n))) (d.move (· + n))) where
  status := congrArg Level.status (Diagnostic.move_level _ d)
  message := congrArg some (Diagnostic.move_message _ d)
  value := rfl
  tokens := rfl
  errorOffset := congrArg some (Diagnostic.position_move hd hlen)

theorem trimmed_of_isName {name : Text} (h : isName name = true) : Trimmed name :=
  trimmed_of_forall fun _ hc => isBlank_of_isNameChar (isNameChar_of_mem_name h hc)

section Assignment

variable {x e : Text}

theorem ne_nil_of_isName (hx : isName x = true) : x ≠ [] := by
  rintro rfl
  simp [isName] at hx

theorem notMem_of_isName (hx : isName x = true) {c : Char} (hc : isNameChar c = false) : c ∉ x := by
  intro hmem
  rw [isNameChar_of_mem_name hx hmem] at hc
  exact Bool.noConfusion hc

theorem assigns_of_name (hx : isName x = true) (e : Text) :
    Assigns standard (x ++ (" := ".toList ++ e)) (x ++ [' ']) (' ' :: e) := by
  constructor
  · rintro ⟨rest, hrest⟩
    obtain ⟨c, w, rfl⟩ := List.exists_cons_of_ne_nil (ne_nil_of_isName hx)
    obtain rfl : '/' = c := (List.cons.inj hrest).1
    exact notMem_of_isName hx (by decide) List.mem_cons_self
  · have hcolon : ':' ∉ x ++ [' '] := by
      have hnot : ':' ∉ x := notMem_of_isName hx (by decide)
      simpa using hnot
    have hcut := firstCut_of_notMem hcolon ['='] (' ' :: e)
    have htext : x ++ (" := ".toList ++ e) = x ++ [' '] ++ [':', '='] ++ ' ' :: e := by simp
    exact htext ▸ hcut

theorem rightTokens_eq_move (x e : Text) :
    rightTokens standard (x ++ [' ']) (' ' :: e) =
      (lex standard.commentMarker 0 e).map (Token.move (· + (x.length + 4 : Int))) := by
  have hstart : (((x ++ [' ']).length + standard.assignMarker.length : Nat) : Int) + 1 =
      0 + (x.length + 4 : Int) := by
    simp [standard]
    omega
  rw [rightTokens, lex_gap (by decide), hstart, lex_add]

end Assignment

/-- A text is judged alike behind a marker and on its own. Only its places differ, and only the
assignment changes the table, at its target. -/
theorem assignment_judges_right_side {x e : Text} (table : Table) (hx : isName x = true)
    (hne : e ≠ []) (ht : trim e = e) (hu : ¬ ":=".toList <:+: e) (hp : ¬ "//".toList <+: e) :
    ∃ o o' after, judge standard table e = .ok (o, table) ∧
      judge standard table (x ++ " := ".toList ++ e) = .ok (o', after) ∧
      o.MovedBy (x.length + 4) o' ∧ (∀ y, y ≠ x → after.get? y = table.get? y) ∧
      (∀ v, o.value = some v → after.get? x = some v) ∧ (o.value = none → after = table) := by
  have htrim : Trimmed e := ht ▸ trimmed_trim e
  have hwhole : Trimmed (x ++ (" := ".toList ++ e)) :=
    (trimmed_of_isName hx).append htrim (ne_nil_of_isName hx) hne _
  have hlen : ((x ++ (" := ".toList ++ e)).length : Int) = e.length + (x.length + 4) := by
    simp
    omega
  have hb : Bare standard e := ⟨hp, hu⟩
  have ha := assigns_of_name hx e
  have hname : trim (x ++ [' ']) = x :=
    trim_append_right (trimmed_of_isName hx) (blank_singleton (by decide))
  have htokens := rightTokens_eq_move x e
  have hlex : lex standard.commentMarker 0 e ≠ [] := mt (lex_eq_nil_iff htrim _ _).mp hne
  have hvalue : evaluate table (rightTokens standard (x ++ [' ']) (' ' :: e)) =
      moved (· + (x.length + 4 : Int)) id (evaluate table (lex standard.commentMarker 0 e)) := by
    rw [htokens, evaluate_move]
  rw [List.append_assoc]
  rcases evaluate_lex table standard.commentMarker 0 e with ⟨v, hv⟩ | ⟨d, hd⟩
  · have hbare := Judged.valued hb hlex hv
    have hassigned := Judged.assigned ha (hname.symm ▸ hx) (hvalue.trans (congrArg _ hv))
    refine ⟨_, _, _, hbare.judge_of_trimmed htrim, hassigned.judge_of_trimmed hwhole,
      ⟨rfl, rfl, rfl, htokens, rfl⟩, fun y hy => ?_, fun w hw => ?_, fun hnone => nomatch hnone⟩
    · rw [hname, Table.get?_insert_of_ne hy]
    · rw [hname, Table.get?_insert_self]
      exact hw
  · have hbare := Judged.unvalued hb hlex hd
    have hassigned := Judged.unassigned ha (hname.symm ▸ hx) (hvalue.trans (congrArg _ hd))
    rw [htokens] at hassigned
    exact ⟨_, _, _, hbare.judge_of_trimmed htrim, hassigned.judge_of_trimmed hwhole,
      Outcome.movedBy_ofDiagnostic (evaluate_concerns hd) hlen, fun _ _ => rfl,
      fun _ hw => (nomatch hw), fun _ => rfl⟩

theorem assignment_judges_division_by_zero :
    let x := "total_1".toList
    let e := "0a / ( 2 - 2 )".toList
    (isName x = true ∧ e ≠ [] ∧ trim e = e ∧ ¬ ":=".toList <:+: e ∧ ¬ "//".toList <+: e) ∧
      ∃ o o' after, judge standard ∅ e = .ok (o, ∅) ∧
        judge standard ∅ (x ++ " := ".toList ++ e) = .ok (o', after) ∧
        o.MovedBy (x.length + 4) o' ∧ (∀ y, y ≠ x → after.get? y = (∅ : Table).get? y) ∧
        (∀ v, o.value = some v → after.get? x = some v) ∧ (o.value = none → after = ∅) := by
  intro x e
  have h : isName x = true ∧ e ≠ [] ∧ trim e = e ∧ ¬ ":=".toList <:+: e ∧ ¬ "//".toList <+: e := by
    decide
  obtain ⟨hx, hne, ht, hu, hp⟩ := h
  exact ⟨⟨hx, hne, ht, hu, hp⟩, assignment_judges_right_side ∅ hx hne ht hu hp⟩

end HexLang

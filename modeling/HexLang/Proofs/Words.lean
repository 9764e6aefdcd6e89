import HexLang.Proofs.Literals
import HexLang.Proofs.Nesting
import HexLang.Proofs.Rereading

/-! Words of an expression that is written out: literals in their own form,
signs and brackets. In a line with a space between each two they stay apart,
and come back as one token each. -/

namespace HexLang

inductive Word where
  | literal (n : Nat)
  | operator (o : BinaryOperator)
  | opening
  | closing
  deriving DecidableEq

namespace Word

def kind : Word → TokenKind
  | literal _ => .hexNumber
  | operator _ => .operator
  | opening => .bracketOpen
  | closing => .bracketClose

def text : Word → Text
  | literal n => hexLiteral n
  | operator o => [o.sign]
  | opening => ['(']
  | closing => [')']

/-- What is left of a word when it has become a token. -/
def spelling (w : Word) : TokenKind × Text :=
  (w.kind, w.text)

end Word

def Token.spelling (t : Token) : TokenKind × Text :=
  (t.kind, t.text)

/-- The words in one line, a single space between each two. -/
def spaced (words : List Word) : Text :=
  [' '].intercalate (words.map Word.text)

/-- At no place within the words more than `limit` brackets are open. -/
def BracketsWithin (limit : Nat) (words : List Word) : Prop :=
  ∀ pre, pre <+: words → pre.count .opening ≤ pre.count .closing + limit

instance (limit : Nat) (words : List Word) : Decidable (BracketsWithin limit words) :=
  decidable_of_iff (∀ pre ∈ words.inits, pre.count .opening ≤ pre.count .closing + limit) (by
    simp only [BracketsWithin, List.mem_inits])

section Line

theorem spaced_singleton (w : Word) : spaced [w] = w.text :=
  List.intercalate_singleton

theorem spaced_cons_cons (w u : Word) (ws : List Word) :
    spaced (w :: u :: ws) = w.text ++ ' ' :: spaced (u :: ws) := by
  simp [spaced, List.intercalate_cons_cons]

theorem isNameChar_of_mem_hexLiteral {n : Nat} {c : Char} (h : c ∈ hexLiteral n) :
    isNameChar c = true :=
  isNameChar_of_mem_literal (isLiteral_hexLiteral n) h

theorem Word.mem_text {w : Word} {c : Char} (h : c ∈ w.text) :
    isBlank c = false ∧ c ≠ ';' ∧ c ≠ ':' := by
  cases w with
  | literal n =>
    have hn := isNameChar_of_mem_hexLiteral h
    refine ⟨isBlank_of_isNameChar hn, ?_, ?_⟩ <;> rintro rfl <;> exact absurd hn (by decide)
  | operator o =>
    obtain rfl := List.mem_singleton.mp h
    cases o <;> decide
  | opening =>
    obtain rfl := List.mem_singleton.mp h
    decide
  | closing =>
    obtain rfl := List.mem_singleton.mp h
    decide

theorem Word.text_ne_nil (w : Word) : w.text ≠ [] := by
  cases w with
  | literal n =>
    have hlit := isLiteral_hexLiteral n
    intro hnil
    rw [Word.text] at hnil
    simp [hnil, isLiteral] at hlit
  | _ => simp [Word.text]

theorem Word.trimmed_text (w : Word) : Trimmed w.text :=
  trimmed_of_forall fun _ hc => (Word.mem_text hc).1

theorem spaced_ne_nil {ws : List Word} (h : ws ≠ []) : spaced ws ≠ [] := by
  match ws with
  | [] => exact absurd rfl h
  | [w] => exact spaced_singleton w ▸ w.text_ne_nil
  | w :: u :: ws => simp [spaced_cons_cons]

theorem trimmed_spaced (ws : List Word) : Trimmed (spaced ws) := by
  induction ws with
  | nil => exact trimmed_of_forall fun _ hc => nomatch hc
  | cons w ws ih =>
    cases ws with
    | nil => exact spaced_singleton w ▸ w.trimmed_text
    | cons u ws =>
      rw [spaced_cons_cons]
      exact w.trimmed_text.append ih w.text_ne_nil (spaced_ne_nil (by simp)) [' ']

theorem mem_spaced {ws : List Word} {c : Char} (h : c ∈ spaced ws) :
    c = ' ' ∨ ∃ w ∈ ws, c ∈ w.text := by
  induction ws with
  | nil => cases h
  | cons w ws ih =>
    cases ws with
    | nil =>
      rw [spaced_singleton] at h
      exact .inr ⟨w, List.mem_cons_self, h⟩
    | cons u ws =>
      rw [spaced_cons_cons, List.mem_append, List.mem_cons] at h
      rcases h with h | rfl | h
      · exact .inr ⟨w, List.mem_cons_self, h⟩
      · exact .inl rfl
      · rcases ih h with hc | ⟨v, hv, hc⟩
        · exact .inl hc
        · exact .inr ⟨v, List.mem_cons_of_mem w hv, hc⟩

theorem notMem_spaced (ws : List Word) : ';' ∉ spaced ws ∧ ':' ∉ spaced ws := by
  constructor <;> intro h <;> rcases mem_spaced h with hc | ⟨w, -, hc⟩
  · exact absurd hc (by decide)
  · exact (Word.mem_text hc).2.1 rfl
  · exact absurd hc (by decide)
  · exact (Word.mem_text hc).2.2 rfl

end Line

section Lexing

/-- What may follow a word: a space, or nothing. -/
def Apart (after : Text) : Prop :=
  ∀ c, after.head? = some c → c = ' '

theorem apart_nil : Apart [] :=
  fun _ hc => nomatch hc

theorem apart_space (rest : Text) : Apart (' ' :: rest) :=
  fun _ hc => (Option.some.inj hc).symm

variable {after : Text}

theorem Word.classed (w : Word) (ha : Apart after) : Classed w.kind w.text after := by
  cases w with
  | literal n =>
    refine ⟨isLiteral_hexLiteral n, fun c hc => ?_⟩
    rw [ha c hc]
    decide
  | operator o => exact ⟨o.sign, rfl, by cases o <;> decide⟩
  | opening => rfl
  | closing => rfl

/-- A division is no comment, since a space follows. -/
theorem Word.not_comment (w : Word) (ha : Apart after) :
    ¬ standard.commentMarker <+: w.text ++ after := by
  rintro ⟨rest, hrest⟩
  have hslash : '/' ∈ w.text := by
    obtain ⟨c, v, hw⟩ := List.exists_cons_of_ne_nil w.text_ne_nil
    rw [hw] at hrest
    obtain rfl : '/' = c := (List.cons.inj hrest).1
    simp [hw]
  cases w with
  | literal n => exact absurd (isNameChar_of_mem_hexLiteral hslash) (by decide)
  | operator o =>
    have htail : '/' :: rest = after := (List.cons.inj hrest).2
    exact absurd (ha '/' (htail ▸ rfl)) (by decide)
  | opening => exact absurd hslash (by decide)
  | closing => exact absurd hslash (by decide)

theorem Word.lex_eq (w : Word) (ha : Apart after) (i : Int) :
    ∃ j, lex standard.commentMarker i (w.text ++ after) =
      ⟨w.kind, w.text, i⟩ :: lex standard.commentMarker j after := by
  obtain ⟨c, v, hw⟩ := List.exists_cons_of_ne_nil w.text_ne_nil
  have hblank : isBlank c = false := (Word.mem_text (w := w) (by simp [hw])).1
  have hgap : isGap c = false :=
    Bool.eq_false_iff.mpr fun hg => by simp [isBlank_of_isGap hg] at hblank
  have hkind : w.kind ≠ .comment := by cases w <;> simp [Word.kind]
  have hclassed := w.classed ha
  have hplain := w.not_comment ha
  rw [hw] at hclassed hplain ⊢
  exact ⟨_, lex_of_classed hgap hplain hkind hclassed i⟩

/-- The words come back as tokens, each in one piece. -/
theorem map_spelling_lex (i : Int) (ws : List Word) :
    (lex standard.commentMarker i (spaced ws)).map Token.spelling = ws.map Word.spelling := by
  induction ws generalizing i with
  | nil => simp [spaced]
  | cons w ws ih =>
    cases ws with
    | nil =>
      obtain ⟨j, hlex⟩ := w.lex_eq apart_nil i
      rw [List.append_nil] at hlex
      rw [spaced_singleton, hlex, lex_nil]
      rfl
    | cons u ws =>
      obtain ⟨j, hlex⟩ := w.lex_eq (apart_space (spaced (u :: ws))) i
      rw [spaced_cons_cons, hlex, lex_gap (by decide), List.map_cons, ih]
      rfl

end Lexing

theorem bare_spaced (ws : List Word) : Bare standard (spaced ws) := by
  constructor
  · match ws with
    | [] => decide
    | [w] =>
      have hplain := w.not_comment apart_nil
      rwa [List.append_nil, ← spaced_singleton] at hplain
    | w :: u :: ws =>
      rw [spaced_cons_cons]
      exact w.not_comment (apart_space _)
  · rintro ⟨pre, post, hparts⟩
    have hmem : ':' ∈ spaced ws := by
      rw [← hparts]
      simp [standard]
    exact (notMem_spaced ws).2 hmem

section Nesting

theorem openCount_of_spelling {ts : List Token} {ws : List Word}
    (h : ts.map Token.spelling = ws.map Word.spelling) :
    openCount ts + ws.count .closing = ws.count .opening := by
  induction ts generalizing ws with
  | nil =>
    obtain rfl := List.map_eq_nil_iff.mp h.symm
    rfl
  | cons t ts ih =>
    obtain ⟨w, ws, rfl, hw, hws⟩ := List.map_eq_cons_iff.mp h.symm
    have hrest := ih hws.symm
    have hk : t.kind = w.kind := (Prod.mk.inj hw).1.symm
    cases w <;> simp [Token.lift, hk, Word.kind] <;> omega

theorem BracketsWithin.nestsWithin {limit : Nat} {ws : List Word} (h : BracketsWithin limit ws)
    {ts : List Token} (hs : ts.map Token.spelling = ws.map Word.spelling) :
    NestsWithin limit ts := by
  rintro pre ⟨post, rfl⟩
  rw [List.map_append] at hs
  obtain ⟨vs, us, rfl, hvs, -⟩ := List.map_eq_append_iff.mp hs.symm
  have hopen := openCount_of_spelling hvs.symm
  have hle := h vs (List.prefix_append vs us)
  omega

end Nesting

end HexLang

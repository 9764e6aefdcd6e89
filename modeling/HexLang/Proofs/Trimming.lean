import HexLang.Blank
import Mathlib.Data.List.DropRight

/-! Trimming takes the blanks off both ends of a text, and nothing else: it
finds the one part that is trimmed and stands between blanks. -/

namespace HexLang

def Blank (text : Text) : Prop :=
  ∀ c ∈ text, isBlank c = true

/-- No blank stands at either end. -/
structure Trimmed (text : Text) : Prop where
  front : ∀ c, text.head? = some c → isBlank c = false
  back : ∀ c, text.getLast? = some c → isBlank c = false

theorem Blank.append {t u : Text} (ht : Blank t) (hu : Blank u) : Blank (t ++ u) :=
  List.forall_mem_append.mpr ⟨ht, hu⟩

theorem blank_singleton {c : Char} (h : isBlank c = true) : Blank [c] :=
  List.forall_mem_singleton.mpr h

theorem trimmed_of_forall {t : Text} (h : ∀ c ∈ t, isBlank c = false) : Trimmed t where
  front c hc := h c (List.mem_of_mem_head? hc)
  back c hc := h c (List.mem_of_mem_getLast? hc)

theorem Trimmed.append {t u : Text} (ht : Trimmed t) (hu : Trimmed u) (hne : t ≠ [])
    (hne' : u ≠ []) (between : Text) : Trimmed (t ++ (between ++ u)) := by
  constructor
  · intro c hc
    rw [List.head?_append_of_ne_nil t hne] at hc
    exact ht.front c hc
  · intro c hc
    have hlast : (t ++ between ++ u).getLast? = u.getLast? := List.getLast?_append_of_ne_nil _ hne'
    rw [← List.append_assoc, hlast] at hc
    exact hu.back c hc

theorem trimLeft_append_of_blank {b : Text} (hb : Blank b) (t : Text) :
    trimLeft (b ++ t) = trimLeft t :=
  List.dropWhile_append_of_pos hb

theorem trimLeft_of_trimmed {t : Text} (ht : Trimmed t) : trimLeft t = t := by
  cases t with
  | nil => rfl
  | cons c t => simp [trimLeft, ht.front c rfl]

theorem trimRight_of_trimmed {t : Text} (ht : Trimmed t) : trimRight t = t := by
  refine List.rdropWhile_eq_self_iff.mpr fun hne => ?_
  simp [ht.back _ (List.getLast?_eq_some_getLast hne)]

theorem trim_append_left {b : Text} (hb : Blank b) (t : Text) : trim (b ++ t) = trim t := by
  rw [trim, trimLeft_append_of_blank hb, trim]

theorem trim_of_trimmed {t : Text} (ht : Trimmed t) : trim t = t := by
  rw [trim, trimLeft_of_trimmed ht, trimRight_of_trimmed ht]

theorem trim_append_right {t b : Text} (ht : Trimmed t) (hb : Blank b) : trim (t ++ b) = t := by
  cases t with
  | nil => simpa using trim_append_left hb []
  | cons c t =>
    have hleft : trimLeft (c :: t ++ b) = c :: t ++ b := by simp [trimLeft, ht.front c rfl]
    have hb' : ∀ d ∈ b.reverse, isBlank d = true := fun d hd => hb d (List.mem_reverse.mp hd)
    have hright : trimRight (c :: t ++ b) = trimRight (c :: t) := by
      rw [trimRight, List.reverse_append, List.dropWhile_append_of_pos hb', trimRight]
    rw [trim, hleft, hright, trimRight_of_trimmed ht]

theorem trimmed_trim (text : Text) : Trimmed (trim text) := by
  constructor
  · intro c hc
    have hpre : trim text <+: trimLeft text := List.rdropWhile_prefix isBlank _
    obtain ⟨rest, hrest⟩ := List.head?_eq_some_iff.mp hc
    obtain ⟨tail, htail⟩ := hpre
    have hhead : (text.dropWhile isBlank).head? = some c := by
      rw [← trimLeft, ← htail, hrest]
      rfl
    have hnot := List.head?_dropWhile_not isBlank text
    rw [hhead] at hnot
    simpa using hnot
  · intro c hc
    have hne : trim text ≠ [] := by
      intro hnil
      simp [hnil] at hc
    have hlast : ¬ isBlank ((trim text).getLast hne) = true :=
      List.rdropWhile_last_not isBlank (trimLeft text) hne
    rw [List.getLast?_eq_some_getLast hne, Option.some.injEq] at hc
    rwa [hc, Bool.not_eq_true] at hlast

/-- A text is its trimmed part between blanks. -/
theorem exists_eq_append_trim (text : Text) :
    ∃ l r, text = l ++ (trim text ++ r) ∧ Blank l ∧ Blank r := by
  have hl : text = text.takeWhile isBlank ++ trimLeft text := List.takeWhile_append_dropWhile.symm
  have hr : trimLeft text = trim text ++ (trimLeft text).rtakeWhile isBlank :=
    List.rdropWhile_append_rtakeWhile.symm
  refine ⟨_, _, hl.trans (congrArg (_ ++ ·) hr), fun c hc => ?_, fun c hc => ?_⟩
  · exact List.mem_takeWhile_imp hc
  · exact List.mem_rtakeWhile_imp hc

@[simp] theorem trim_trim (text : Text) : trim (trim text) = trim text :=
  trim_of_trimmed (trimmed_trim text)

end HexLang

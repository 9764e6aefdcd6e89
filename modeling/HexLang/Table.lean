import HexLang.Blank

/-! Tables of variables. The entries are kept in the order of their names,
so two tables that bind the same names to the same values are equal. -/

namespace HexLang

structure Table where
  entries : List (Text × Int) := []
  sorted : entries.Pairwise (·.1 < ·.1) := by exact .nil
  deriving DecidableEq

def insertEntry (name : Text) (v : Int) : List (Text × Int) → List (Text × Int)
  | [] => [(name, v)]
  | (other, w) :: rest =>
    if name < other then (name, v) :: (other, w) :: rest
    else if other < name then (other, w) :: insertEntry name v rest
    else (name, v) :: rest

theorem mem_insertEntry {name : Text} {v : Int} {entries : List (Text × Int)} {e : Text × Int}
    (h : e ∈ insertEntry name v entries) : e = (name, v) ∨ e ∈ entries := by
  induction entries with
  | nil => simpa [insertEntry] using h
  | cons head rest ih =>
    simp only [insertEntry] at h
    split at h
    · simpa using h
    · split at h
      · rcases List.mem_cons.mp h with hh | hh
        · simp [hh]
        · rcases ih hh with hv | hr
          · exact .inl hv
          · simp [hr]
      · rcases List.mem_cons.mp h with hh | hh
        · exact .inl hh
        · simp [hh]

theorem insertEntry_sorted (name : Text) (v : Int) {entries : List (Text × Int)}
    (hs : entries.Pairwise (·.1 < ·.1)) : (insertEntry name v entries).Pairwise (·.1 < ·.1) := by
  induction entries with
  | nil => simp [insertEntry]
  | cons head rest ih =>
    obtain ⟨other, w⟩ := head
    have hp := List.pairwise_cons.mp hs
    simp only [insertEntry]
    split
    · rename_i hlt
      refine List.pairwise_cons.mpr ⟨fun e he => ?_, hs⟩
      rcases List.mem_cons.mp he with rfl | hr
      · exact hlt
      · exact List.lt_trans hlt (hp.1 e hr)
    · rename_i hnot
      split
      · rename_i hlt
        refine List.pairwise_cons.mpr ⟨fun e he => ?_, ih hp.2⟩
        rcases mem_insertEntry he with rfl | hr
        · exact hlt
        · exact hp.1 e hr
      · rename_i hnot'
        have he : name = other := List.le_antisymm hnot' hnot
        subst he
        exact List.pairwise_cons.mpr ⟨hp.1, hp.2⟩

namespace Table

instance : EmptyCollection Table where
  emptyCollection := {}

def get? (table : Table) (name : Text) : Option Int :=
  table.entries.lookup name

def insert (table : Table) (name : Text) (v : Int) : Table where
  entries := insertEntry name v table.entries
  sorted := insertEntry_sorted name v table.sorted

def erase (table : Table) (name : Text) : Table where
  entries := table.entries.filter (·.1 ≠ name)
  sorted := table.sorted.filter _

/-- Binds the names from the left, so of two bindings of one name the later counts. -/
def ofList (bindings : List (Text × Int)) : Table :=
  bindings.foldl (fun table (name, v) => table.insert name v) ∅

def size (table : Table) : Nat :=
  table.entries.length

theorem get?_insert_self (table : Table) (name : Text) (v : Int) :
    (table.insert name v).get? name = some v := by
  simp only [get?, insert]
  induction table.entries with
  | nil => simp [insertEntry]
  | cons head rest ih =>
    obtain ⟨other, w⟩ := head
    simp only [insertEntry]
    split
    · simp
    · split
      · rename_i hlt
        have hne : (name == other) = false := by
          simp only [beq_eq_false_iff_ne]
          rintro rfl
          exact List.lt_irrefl _ hlt
        simpa [List.lookup_cons, hne] using ih
      · simp

theorem get?_insert_of_ne {name other : Text} (h : other ≠ name) (table : Table) (v : Int) :
    (table.insert name v).get? other = table.get? other := by
  have hne : (other == name) = false := by simpa using h
  simp only [get?, insert]
  induction table.entries with
  | nil => simp [insertEntry, List.lookup_cons, hne]
  | cons head rest ih =>
    obtain ⟨key, w⟩ := head
    simp only [insertEntry]
    split
    · simp [List.lookup_cons, hne]
    · rename_i hnot
      split
      · simp [List.lookup_cons, ih]
      · rename_i hnot'
        have he : name = key := List.le_antisymm hnot' hnot
        subst he
        simp [List.lookup_cons, hne]

theorem lookup_eq_none_of_lt {name : Text} {entries : List (Text × Int)}
    (h : ∀ e ∈ entries, name < e.1) : entries.lookup name = none := by
  refine List.lookup_eq_none_iff.mpr fun e he => ?_
  simp only [bne_iff_ne]
  intro hn
  exact List.lt_irrefl _ (hn ▸ h e he)

/-- The first name of one table comes no earlier than that of another which binds it too. -/
theorem first_not_lt {name other : Text} {v w : Int} {rest rest' : List (Text × Int)}
    (hs : ((other, w) :: rest').Pairwise (·.1 < ·.1))
    (h : ((name, v) :: rest).lookup name = ((other, w) :: rest').lookup name) : ¬ name < other := by
  intro hlt
  have hn : ((other, w) :: rest').lookup name = none := lookup_eq_none_of_lt fun e he => by
    rcases List.mem_cons.mp he with rfl | hm
    · exact hlt
    · exact List.lt_trans hlt ((List.pairwise_cons.mp hs).1 e hm)
  simp [hn] at h

theorem entries_eq_of_lookup {left right : List (Text × Int)}
    (hl : left.Pairwise (·.1 < ·.1)) (hr : right.Pairwise (·.1 < ·.1))
    (h : ∀ name, left.lookup name = right.lookup name) : left = right := by
  induction left generalizing right with
  | nil =>
    cases right with
    | nil => rfl
    | cons head rest =>
      obtain ⟨name, v⟩ := head
      have hh := h name
      simp at hh
  | cons head rest ih =>
    cases right with
    | nil =>
      obtain ⟨name, v⟩ := head
      have hh := h name
      simp at hh
    | cons head' rest' =>
      obtain ⟨name, v⟩ := head
      obtain ⟨other, w⟩ := head'
      have he : name = other :=
        List.le_antisymm (first_not_lt hl (h other).symm) (first_not_lt hr (h name))
      subst he
      have hp := List.pairwise_cons.mp hl
      have hp' := List.pairwise_cons.mp hr
      have hv : v = w := by simpa [List.lookup_cons] using h name
      have hrest : ∀ key, rest.lookup key = rest'.lookup key := by
        intro key
        by_cases hk : key = name
        · rw [hk, lookup_eq_none_of_lt hp.1, lookup_eq_none_of_lt hp'.1]
        · have hk' : (key == name) = false := by simpa using hk
          simpa [List.lookup_cons, hk'] using h key
      rw [hv, ih hp.2 hp'.2 hrest]

/-- A table is what it binds. -/
theorem ext_get? {left right : Table} (h : ∀ name, left.get? name = right.get? name) :
    left = right := by
  obtain ⟨entries, hl⟩ := left
  obtain ⟨entries', hr⟩ := right
  simp only [mk.injEq]
  exact entries_eq_of_lookup hl hr h

end Table

end HexLang

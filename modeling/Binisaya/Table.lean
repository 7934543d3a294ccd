/-! Tables from names to entries that keep the order in which names were first entered. Entering a name again
replaces its entry where it stands. No name occurs twice, so a table is determined by what it lists. -/

namespace Binisaya

/-- Replaces the entry of a name where it stands, or adds it at the end. -/
def setEntry {α : Type} (name : String) (a : α) : List (String × α) → List (String × α)
  | [] => [(name, a)]
  | (n, b) :: rest => if n = name then (name, a) :: rest else (n, b) :: setEntry name a rest

theorem mem_names_setEntry {α : Type} {name m : String} {a : α} {l : List (String × α)} :
    m ∈ (setEntry name a l).map Prod.fst ↔ m = name ∨ m ∈ l.map Prod.fst := by
  induction l with
  | nil => simp [setEntry]
  | cons p rest ih =>
      obtain ⟨n, b⟩ := p
      by_cases h : n = name
      · simp [setEntry, h]
      · simp only [setEntry, h, if_false, List.map_cons, List.mem_cons, ih]
        constructor
        · rintro (h | h | h) <;> simp [h]
        · rintro (h | h | h) <;> simp [h]

theorem nodup_names_setEntry {α : Type} {name : String} {a : α} {l : List (String × α)}
    (hl : (l.map Prod.fst).Nodup) : ((setEntry name a l).map Prod.fst).Nodup := by
  induction l with
  | nil => simp [setEntry]
  | cons p rest ih =>
      obtain ⟨n, b⟩ := p
      simp only [List.map_cons, List.nodup_cons] at hl
      by_cases h : n = name
      · subst h
        simpa [setEntry] using hl
      · simp only [setEntry, h, if_false, List.map_cons, List.nodup_cons]
        refine ⟨fun hmem => ?_, ih hl.2⟩
        rcases mem_names_setEntry.1 hmem with h' | h'
        · exact h h'
        · exact hl.1 h'

theorem lookup_setEntry {α : Type} (name m : String) (a : α) (l : List (String × α)) :
    (setEntry name a l).lookup m = if m = name then some a else l.lookup m := by
  induction l with
  | nil =>
      by_cases h : m = name
      · simp [setEntry, h]
      · simp [setEntry, h]
  | cons p rest ih =>
      obtain ⟨n, b⟩ := p
      by_cases hn : n = name
      · subst hn
        by_cases hm : m = n
        · simp [setEntry, hm]
        · simp [setEntry, List.lookup_cons, beq_eq_false_iff_ne.2 hm, hm]
      · by_cases hm : m = n
        · subst hm
          simp [setEntry, hn]
        · simp [setEntry, hn, List.lookup_cons, ih, beq_eq_false_iff_ne.2 hm]

/-- A table from names to entries, in the order of their first entry. -/
structure Table (α : Type) where
  entries : List (String × α)
  nodup : (entries.map Prod.fst).Nodup
deriving DecidableEq

namespace Table

variable {α : Type}

def empty : Table α := ⟨[], .nil⟩

instance : Inhabited (Table α) := ⟨empty⟩

/-- The entry of a name. -/
def get? (t : Table α) (name : String) : Option α := t.entries.lookup name

def contains (t : Table α) (name : String) : Bool := (t.get? name).isSome

/-- The table with an entry for a name, new or in place of the one it had. -/
def insert (t : Table α) (name : String) (a : α) : Table α :=
  ⟨setEntry name a t.entries, nodup_names_setEntry t.nodup⟩

/-- Enters pairs one after the other. -/
def insertAll (t : Table α) (pairs : List (String × α)) : Table α :=
  pairs.foldl (fun t p => t.insert p.1 p.2) t

/-- Enters all of a second table. -/
def update (t u : Table α) : Table α := t.insertAll u.entries

/-- The table that lists pairs, where a later entry of a name replaces an earlier one. -/
def ofList (pairs : List (String × α)) : Table α := empty.insertAll pairs

def names (t : Table α) : List String := t.entries.map Prod.fst

@[ext]
theorem ext {t u : Table α} (h : t.entries = u.entries) : t = u := by
  cases t
  cases u
  simp_all

@[simp]
theorem get?_empty (m : String) : (empty : Table α).get? m = none := rfl

@[simp]
theorem get?_insert (t : Table α) (name m : String) (a : α) :
    (t.insert name a).get? m = if m = name then some a else t.get? m :=
  lookup_setEntry name m a t.entries

@[simp]
theorem contains_insert (t : Table α) (name m : String) (a : α) :
    (t.insert name a).contains m = (decide (m = name) || t.contains m) := by
  by_cases h : m = name <;> simp [contains, h]

end Table

end Binisaya

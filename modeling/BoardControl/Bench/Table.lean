namespace BoardControl.Bench

-- Values under names, in the order in which the names first came up.
structure Table (α : Type) where
  entries : List (String × α) := []

namespace Table

variable {α : Type}

def find? (table : Table α) (name : String) : Option α := table.entries.lookup name

def insertEntry (name : String) (value : α) : List (String × α) → List (String × α)
  | [] => [(name, value)]
  | (other, old) :: rest =>
      if other = name then (name, value) :: rest else (other, old) :: insertEntry name value rest

def insert (table : Table α) (name : String) (value : α) : Table α :=
  ⟨insertEntry name value table.entries⟩

def erase (table : Table α) (name : String) : Table α :=
  ⟨table.entries.filter (·.1 ≠ name)⟩

theorem find?_insert (table : Table α) (name : String) (value : α) :
    (table.insert name value).find? name = some value := by
  simp only [find?, insert]
  induction table.entries with
  | nil => simp [insertEntry]
  | cons entry rest ih =>
      obtain ⟨other, old⟩ := entry
      by_cases h : other = name
      · simp [insertEntry, h]
      · have hne : (name == other) = false := by simpa using Ne.symm h
        simp [insertEntry, h, List.lookup_cons, hne, ih]

theorem find?_insert_of_ne (table : Table α) {name other : String} (value : α)
    (hne : other ≠ name) : (table.insert name value).find? other = table.find? other := by
  have hneb : (other == name) = false := by simpa using hne
  simp only [find?, insert]
  induction table.entries with
  | nil => simp [insertEntry, List.lookup_cons, hneb]
  | cons entry rest ih =>
      obtain ⟨place, old⟩ := entry
      by_cases h : place = name
      · simp [insertEntry, h, List.lookup_cons, hneb]
      · simp [insertEntry, h, List.lookup_cons, ih]

end Table

end BoardControl.Bench

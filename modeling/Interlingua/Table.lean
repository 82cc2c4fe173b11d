/-!
# Tables

A finite map from names to values, kept as a list in the order of the names.  Each name occurs at
most once, so two tables that hold the same values under the same names are equal.
-/

namespace Interlingua

/-- Entries in the order of their names. -/
structure Table (α : Type) where
  entries : List (String × α) := []
  deriving DecidableEq, Repr

namespace Table

variable {α : Type}

/-- The value of the first entry with a name. -/
def findEntry (name : String) : List (String × α) → Option α
  | [] => none
  | (other, value) :: rest => if name = other then some value else findEntry name rest

/-- The value under a name. -/
def find? (table : Table α) (name : String) : Option α := findEntry name table.entries

def contains (table : Table α) (name : String) : Bool := (table.find? name).isSome

/-- Puts an entry in its place; an entry of the same name gives way. -/
def insertEntry (name : String) (value : α) : List (String × α) → List (String × α)
  | [] => [(name, value)]
  | (other, old) :: rest =>
    if name < other then (name, value) :: (other, old) :: rest
    else if name = other then (name, value) :: rest
    else (other, old) :: insertEntry name value rest

/-- The table with a value under a name. -/
def insert (table : Table α) (name : String) (value : α) : Table α :=
  ⟨insertEntry name value table.entries⟩

theorem findEntry_insertEntry (name key : String) (value : α) (entries : List (String × α)) :
    findEntry key (insertEntry name value entries) =
      if key = name then some value else findEntry key entries := by
  induction entries with
  | nil => simp [insertEntry, findEntry]
  | cons entry rest ih =>
    obtain ⟨other, old⟩ := entry
    unfold insertEntry
    split
    · simp [findEntry]
    · split
      · rename_i h
        subst h
        by_cases hk : key = name <;> simp [findEntry, hk]
      · rename_i h
        by_cases hk : key = other
        · subst hk
          simp [findEntry, Ne.symm h]
        · simp [findEntry, hk, ih]

/-- **A table holds under each name what was put there last.** -/
theorem find?_insert (table : Table α) (name key : String) (value : α) :
    (table.insert name value).find? key = if key = name then some value else table.find? key :=
  findEntry_insertEntry name key value table.entries

end Table

end Interlingua

/-!
Contract: names numbered in the order of their first appearance.

Owns: the table, its lookups in both directions, and the laws of adding a name.
Does not own: what kind of symbol a name stands for.

The table is its list of names; the `Nodup` field makes number and name determine
each other (`name?_index?`, `index?_name?`).
-/

namespace Predictive

structure SymbolTable where
  names : List String
  nodup : names.Nodup
deriving DecidableEq, Repr

namespace SymbolTable

def empty : SymbolTable := ⟨[], List.nodup_nil⟩

instance : Inhabited SymbolTable := ⟨empty⟩

def size (table : SymbolTable) : Nat := table.names.length

def isEmpty (table : SymbolTable) : Bool := table.names.isEmpty

def contains (table : SymbolTable) (name : String) : Bool := table.names.contains name

/-- Number of a name; the table's size when the name is absent. -/
def index (table : SymbolTable) (name : String) : Nat := table.names.idxOf name

def index? (table : SymbolTable) (name : String) : Option Nat := table.names.idxOf? name

/-- Name with a number; none for a number the table never gave out. -/
def name? (table : SymbolTable) (number : Nat) : Option String := table.names[number]?

/-- Adds a name at the end unless it is already there. -/
def add (table : SymbolTable) (name : String) : SymbolTable :=
  if known : name ∈ table.names then table
  else ⟨table.names ++ [name], by
    rw [List.nodup_append]
    refine ⟨table.nodup, by simp, ?_⟩
    intro present member added equal
    simp only [List.mem_singleton] at equal
    intro same
    exact known (equal ▸ same ▸ member)⟩

/-- The names of a list, each at its first appearance. -/
def ofList (names : List String) : SymbolTable := names.foldl add empty

def numbers (table : SymbolTable) : List Nat := List.range table.size

/-- Every number with its name, in order. -/
def entries (table : SymbolTable) : List (Nat × String) :=
  table.names.zipIdx.map fun (name, number) => (number, name)

theorem names_add (table : SymbolTable) (name : String) :
    (table.add name).names =
      if name ∈ table.names then table.names else table.names ++ [name] := by
  unfold add
  split <;> rfl

theorem mem_names_add (table : SymbolTable) (name other : String) :
    other ∈ (table.add name).names ↔ other ∈ table.names ∨ other = name := by
  rw [names_add]
  by_cases known : name ∈ table.names
  · rw [if_pos known]
    constructor
    · exact Or.inl
    · rintro (member | rfl)
      · exact member
      · exact known
  · rw [if_neg known]
    simp

theorem name?_index? (table : SymbolTable) (name : String) (number : Nat)
    (found : table.index? name = some number) : table.name? number = some name := by
  unfold index? at found
  unfold name?
  rw [List.idxOf?_eq_some_iff] at found
  obtain ⟨bound, equal, _⟩ := found
  rw [List.getElem?_eq_getElem bound]
  exact congrArg some (by simpa using equal)

theorem index?_name? (table : SymbolTable) (name : String) (number : Nat)
    (found : table.name? number = some name) : table.index? name = some number := by
  unfold name? at found
  obtain ⟨bound, equal⟩ := List.getElem?_eq_some_iff.mp found
  unfold index?
  rw [List.idxOf?_eq_some_iff]
  refine ⟨bound, by simpa using equal, ?_⟩
  intro earlier before
  have different := List.pairwise_iff_getElem.mp table.nodup earlier number
    (Nat.lt_trans before bound) bound before
  intro same
  exact different (equal.symm ▸ (by simpa using same))

end SymbolTable

end Predictive

set_option autoImplicit false

namespace ScopedNames

abbrev Name := String

namespace Name

/-- The most bytes a compact name may have. -/
def compactLimit : Nat := 23

/-- A text as a compact name, if it is short enough to be one. -/
def compact? (text : String) : Option Name :=
  if text.utf8ByteSize ≤ compactLimit then some text else none

def sorted (names : List Name) : List Name :=
  names.mergeSort fun first second => decide (first ≤ second)

/-- The names of a list, each once. -/
def distinct (names : List Name) : List Name := names.eraseDups

end Name

structure Registry (α : Type) where
  entries : List (Name × α)
  deriving DecidableEq, Repr

namespace Registry

variable {α : Type}

def empty : Registry α := ⟨[]⟩

def search (name : Name) : List (Name × α) → Option α
  | [] => none
  | entry :: rest => if entry.1 = name then some entry.2 else search name rest

def find? (registry : Registry α) (name : Name) : Option α := search name registry.entries

def contains (registry : Registry α) (name : Name) : Bool := (registry.find? name).isSome

def names (registry : Registry α) : List Name := registry.entries.map (·.1)

def values (registry : Registry α) : List α := registry.entries.map (·.2)

def size (registry : Registry α) : Nat := registry.entries.length

/-- Entries with a name bound: in its place if it has one, else at the end. -/
def place (name : Name) (value : α) : List (Name × α) → List (Name × α)
  | [] => [(name, value)]
  | entry :: rest =>
    if entry.1 = name then (name, value) :: rest else entry :: place name value rest

def bind (registry : Registry α) (name : Name) (value : α) : Registry α :=
  ⟨place name value registry.entries⟩

@[simp] theorem find?_empty (name : Name) : (empty : Registry α).find? name = none := rfl

theorem search_place (name other : Name) (value : α) (entries : List (Name × α)) :
    search other (place name value entries) =
      if other = name then some value else search other entries := by
  induction entries with
  | nil => simp [place, search, eq_comm]
  | cons entry rest ih =>
    by_cases found : entry.1 = name
    · by_cases same : other = name
      · simp [place, search, found, same]
      · have apart : ¬ name = other := fun equal => same equal.symm
        simp [place, search, found, same, apart]
    · by_cases same : entry.1 = other
      · have apart : ¬ other = name := fun equal => found (same.trans equal)
        simp [place, search, same, apart]
      · simp [place, search, found, same, ih]

theorem find?_bind (registry : Registry α) (name other : Name) (value : α) :
    (registry.bind name value).find? other =
      if other = name then some value else registry.find? other :=
  search_place name other value registry.entries

@[simp] theorem find?_bind_self (registry : Registry α) (name : Name) (value : α) :
    (registry.bind name value).find? name = some value := by
  simp [find?_bind]

/-- A name that is found is bound to what was found. -/
theorem mem_of_find? {registry : Registry α} {name : Name} {value : α}
    (found : registry.find? name = some value) : (name, value) ∈ registry.entries := by
  obtain ⟨entries⟩ := registry
  simp only [find?] at found ⊢
  induction entries with
  | nil => cases found
  | cons entry rest ih =>
    rw [search] at found
    split at found
    · rename_i same
      cases found
      exact same ▸ List.mem_cons_self
    · exact List.mem_cons_of_mem entry (ih found)

theorem find?_eq_none_iff {registry : Registry α} {name : Name} :
    registry.find? name = none ↔ name ∉ registry.names := by
  obtain ⟨entries⟩ := registry
  simp only [find?, names]
  induction entries with
  | nil => simp [search]
  | cons entry rest ih =>
    by_cases same : entry.1 = name
    · simp [search, same]
    · have apart : ¬ name = entry.1 := fun equal => same equal.symm
      rw [search, if_neg same, ih, List.map_cons, List.mem_cons, not_or]
      exact ⟨fun absent => ⟨apart, absent⟩, fun absent => absent.2⟩

/-- Where no name is bound twice, every entry is found by its name. -/
theorem find?_of_mem {registry : Registry α} {name : Name} {value : α}
    (distinct : registry.names.Nodup) (bound : (name, value) ∈ registry.entries) :
    registry.find? name = some value := by
  obtain ⟨entries⟩ := registry
  simp only [find?, names] at distinct bound ⊢
  induction entries with
  | nil => cases bound
  | cons entry rest ih =>
    rw [List.map_cons, List.nodup_cons] at distinct
    rcases List.mem_cons.mp bound with rfl | later
    · simp [search]
    · have apart : ¬ entry.1 = name := by
        intro same
        exact distinct.1 (List.mem_map.mpr ⟨(name, value), later, same.symm⟩)
      rw [search, if_neg apart]
      exact ih distinct.2 later

theorem names_place (name : Name) (value : α) (entries : List (Name × α)) :
    (place name value entries).map (·.1) =
      if name ∈ entries.map (·.1) then entries.map (·.1) else entries.map (·.1) ++ [name] := by
  induction entries with
  | nil => simp [place]
  | cons entry rest ih =>
    by_cases found : entry.1 = name
    · simp [place, found]
    · have apart : name ≠ entry.1 := fun same => found same.symm
      by_cases member : name ∈ rest.map (·.1) <;> simp_all [place]

/-- A name bound for the first time goes to the end; the others keep their places. -/
theorem names_bind (registry : Registry α) (name : Name) (value : α) :
    (registry.bind name value).names =
      if name ∈ registry.names then registry.names else registry.names ++ [name] :=
  names_place name value registry.entries

theorem place_of_absent {name : Name} {entries : List (Name × α)}
    (absent : search name entries = none) (value : α) :
    place name value entries = entries ++ [(name, value)] := by
  induction entries with
  | nil => rfl
  | cons entry rest ih =>
    rw [search] at absent
    split at absent
    · cases absent
    · rename_i apart
      rw [place, if_neg apart, ih absent, List.cons_append]

/-- A name bound for the first time is bound behind the others. -/
theorem bind_of_absent {registry : Registry α} {name : Name}
    (absent : registry.find? name = none) (value : α) :
    registry.bind name value = ⟨registry.entries ++ [(name, value)]⟩ :=
  congrArg Registry.mk (place_of_absent absent value)

theorem place_of_search {name : Name} {value : α} {entries : List (Name × α)}
    (found : search name entries = some value) : place name value entries = entries := by
  induction entries with
  | nil => cases found
  | cons entry rest ih =>
    rw [search] at found
    split at found
    · rename_i same
      cases found
      rw [place, if_pos same, ← same]
    · rename_i apart
      rw [place, if_neg apart, ih found]

/-- Binding a name to what it is bound to changes nothing. -/
theorem bind_of_find? {registry : Registry α} {name : Name} {value : α}
    (found : registry.find? name = some value) : registry.bind name value = registry :=
  congrArg Registry.mk (place_of_search found)

end Registry

end ScopedNames

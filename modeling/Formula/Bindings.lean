/-!
# Bindings

Finite maps from names.  Only `Bindings.find?` looks into one, and the order of its entries cannot
be told from outside:

* `find?_empty`         nothing is bound at first
* `find?_insert_self`   a new binding is found
* `find?_insert_ne`     other names keep their bindings

A new binding makes a map larger by one at most (`size_insert_le`), and a map is empty only if
nothing is found in it (`size_eq_zero_iff`).
-/

namespace Formula

/-- A finite map from names.  No name is bound twice. -/
structure Bindings (α : Type) where
  entries : List (String × α)
  distinct : (entries.map Prod.fst).Nodup

namespace Bindings

variable {α : Type}

/-- Nothing is bound. -/
def empty : Bindings α := ⟨[], List.nodup_nil⟩

/-- The number of names that are bound. -/
def size (b : Bindings α) : Nat := b.entries.length

/-- Whether nothing is bound. -/
def isEmpty (b : Bindings α) : Bool := b.entries.isEmpty

/-- What a name is bound to. -/
def find? (b : Bindings α) (name : String) : Option α :=
  b.entries.lookup name

/-- Binds a name, in place of its old binding if it has one. -/
def insert (b : Bindings α) (name : String) (value : α) : Bindings α where
  entries := (name, value) :: b.entries.filter (·.1 != name)
  distinct := by
    rw [List.map_cons, List.nodup_cons]
    refine ⟨?_, b.distinct.sublist (List.filter_sublist.map Prod.fst)⟩
    simp

/-- Binds names one after the other. -/
def ofList (entries : List (String × α)) : Bindings α :=
  entries.foldl (fun b entry => b.insert entry.1 entry.2) empty

/-- Equality as maps: the same names are bound to equal values. -/
protected def beq [BEq α] (a b : Bindings α) : Bool :=
  a.size == b.size && a.entries.all fun (name, value) =>
    match b.find? name with
    | some other => value == other
    | none => false

instance [BEq α] : BEq (Bindings α) := ⟨Bindings.beq⟩

@[simp] theorem find?_empty (name : String) : (empty : Bindings α).find? name = none := rfl

@[simp] theorem find?_insert_self (b : Bindings α) (name : String) (value : α) :
    (b.insert name value).find? name = some value := by
  simp [find?, insert]

private theorem lookup_filter_ne {name other : String} (h : other ≠ name)
    (entries : List (String × α)) :
    (entries.filter (·.1 != name)).lookup other = entries.lookup other := by
  induction entries with
  | nil => rfl
  | cons entry rest ih =>
    obtain ⟨key, value⟩ := entry
    by_cases hk : key = name
    · subst hk
      simp [List.lookup_cons, ih, beq_false_of_ne h]
    · by_cases ho : other = key <;> simp [List.lookup_cons, hk, ho, ih]

theorem find?_insert_ne (b : Bindings α) {name other : String} (h : other ≠ name) (value : α) :
    (b.insert name value).find? other = b.find? other := by
  simp [find?, insert, List.lookup_cons, lookup_filter_ne h, beq_false_of_ne h]

@[simp] theorem size_empty : (empty : Bindings α).size = 0 := rfl

theorem size_insert_le (b : Bindings α) (name : String) (value : α) :
    (b.insert name value).size ≤ b.size + 1 :=
  Nat.succ_le_succ (List.length_filter_le _ b.entries)

theorem size_eq_zero_iff {b : Bindings α} : b.size = 0 ↔ ∀ name, b.find? name = none := by
  obtain ⟨entries, _⟩ := b
  cases entries with
  | nil => exact ⟨fun _ _ => rfl, fun _ => rfl⟩
  | cons entry rest =>
    constructor
    · intro h
      exact absurd h (Nat.succ_ne_zero _)
    · intro h
      have hfind := h entry.1
      simp [find?] at hfind

end Bindings

end Formula

/-!
# Tables

Finite maps from names. A table is a list of entries with distinct names; a new name comes last,
and giving an old one a new value keeps its place. What a table holds is said by `get?`, and the
laws `get?_set` and `get?_erase` are all that the rest of the library needs. Listings are sorted by
name, in the order of code points.
-/

namespace Ember

structure Table (α : Type) where
  entries : List (String × α)
  distinct : (entries.map Prod.fst).Nodup

namespace Table

variable {α : Type}

/-- The value that a list of entries gives a name. -/
def look (name : String) : List (String × α) → Option α
  | [] => none
  | (n, a) :: es => if n = name then some a else look name es

/-- Puts a value under a name, in the place of an old one if there is one. -/
def put (name : String) (value : α) : List (String × α) → List (String × α)
  | [] => [(name, value)]
  | (n, a) :: es => if n = name then (n, value) :: es else (n, a) :: put name value es

theorem mem_keys_put {name n : String} {value : α} {es : List (String × α)}
    (h : n ∈ (put name value es).map Prod.fst) : n = name ∨ n ∈ es.map Prod.fst := by
  induction es with
  | nil => simpa [put] using h
  | cons e es ih =>
    unfold put at h
    split at h
    · exact Or.inr h
    · rcases List.mem_cons.1 h with rfl | h
      · exact Or.inr (List.mem_cons_self ..)
      · rcases ih h with h | h
        · exact Or.inl h
        · exact Or.inr (List.mem_cons_of_mem _ h)

theorem distinct_put (name : String) (value : α) :
    ∀ {es : List (String × α)}, (es.map Prod.fst).Nodup → ((put name value es).map Prod.fst).Nodup
  | [], _ => by simp [put]
  | (n, a) :: es, h => by
    rw [List.map_cons, List.nodup_cons] at h
    unfold put
    split
    · rw [List.map_cons, List.nodup_cons]
      exact h
    · next hn =>
      rw [List.map_cons, List.nodup_cons]
      refine ⟨fun hm => ?_, distinct_put name value h.2⟩
      rcases mem_keys_put hm with he | he
      · exact hn he
      · exact h.1 he

def empty : Table α := ⟨[], by simp⟩

instance : Inhabited (Table α) := ⟨empty⟩

def get? (t : Table α) (name : String) : Option α := look name t.entries

def set (t : Table α) (name : String) (value : α) : Table α :=
  ⟨put name value t.entries, distinct_put name value t.distinct⟩

def erase (t : Table α) (name : String) : Table α :=
  ⟨t.entries.filter (·.1 ≠ name), t.distinct.sublist (List.filter_sublist.map Prod.fst)⟩

def contains (t : Table α) (name : String) : Bool := (t.get? name).isSome

def size (t : Table α) : Nat := t.entries.length

def ofList (es : List (String × α)) : Table α := es.foldl (fun t e => t.set e.1 e.2) empty

def values (t : Table α) : List α := t.entries.map Prod.snd

/-- The entries in the order of their names. -/
def sorted (t : Table α) : List (String × α) := t.entries.mergeSort fun a b => ¬ b.1 < a.1

def names (t : Table α) : List String := t.sorted.map Prod.fst

theorem get?_empty (name : String) : (empty : Table α).get? name = none := rfl

theorem look_put (name other : String) (value : α) (es : List (String × α)) :
    look other (put name value es) = if name = other then some value else look other es := by
  induction es with
  | nil => rfl
  | cons e es ih =>
    unfold put
    split
    · next h => by_cases ho : name = other <;> simp [look, h, ho]
    · next h =>
      by_cases ho : e.1 = other
      · have : name ≠ other := fun hn => h (ho.trans hn.symm)
        simp [look, ho, this]
      · simp [look, ho, ih]

theorem get?_set (t : Table α) (name other : String) (value : α) :
    (t.set name value).get? other = if name = other then some value else t.get? other :=
  look_put name other value t.entries

theorem look_filter (name other : String) (es : List (String × α)) :
    look other (es.filter (·.1 ≠ name)) = if name = other then none else look other es := by
  induction es with
  | nil => simp [look]
  | cons e es ih =>
    by_cases h : e.1 = name
    · rw [List.filter_cons_of_neg (by simp [h]), ih]
      by_cases ho : name = other
      · simp [ho]
      · simp [look, h, ho]
    · rw [List.filter_cons_of_pos (by simp [h])]
      by_cases ho : e.1 = other
      · have : name ≠ other := fun hn => h (ho.trans hn.symm)
        simp [look, ho, this]
      · simp only [look, ho, if_false]
        exact ih

theorem get?_erase (t : Table α) (name other : String) :
    (t.erase name).get? other = if name = other then none else t.get? other :=
  look_filter name other t.entries

end Table

end Ember

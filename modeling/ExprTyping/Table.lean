namespace ExprTyping

structure Table (κ α : Type) where
  entries : List (κ × α) := []

namespace Table

variable {κ α : Type} [DecidableEq κ]

def empty : Table κ α := ⟨[]⟩

def lookup (k : κ) : List (κ × α) → Option α
  | [] => none
  | (j, a) :: rest => if j = k then some a else lookup k rest

/-- Writing a key again keeps its place, so a table lists its keys as they were first written. -/
def put (k : κ) (a : α) : List (κ × α) → List (κ × α)
  | [] => [(k, a)]
  | (j, b) :: rest => if j = k then (k, a) :: rest else (j, b) :: put k a rest

def find? (t : Table κ α) (k : κ) : Option α := lookup k t.entries

def insert (t : Table κ α) (k : κ) (a : α) : Table κ α := ⟨put k a t.entries⟩

def contains (t : Table κ α) (k : κ) : Bool := (t.find? k).isSome

def keys (t : Table κ α) : List κ := t.entries.map Prod.fst

def size (t : Table κ α) : Nat := t.entries.length

def isEmpty (t : Table κ α) : Bool := t.entries.isEmpty

def insertAll (t : Table κ α) (es : List (κ × α)) : Table κ α :=
  es.foldl (fun t e => t.insert e.1 e.2) t

def mapValues {β : Type} (f : α → β) (t : Table κ α) : Table κ β :=
  ⟨t.entries.map fun e => (e.1, f e.2)⟩

@[simp] theorem find?_empty (k : κ) : (empty : Table κ α).find? k = none := rfl

theorem lookup_put (j k : κ) (a : α) (es : List (κ × α)) :
    lookup j (put k a es) = if k = j then some a else lookup j es := by
  induction es with
  | nil => rfl
  | cons e rest ih =>
    obtain ⟨i, b⟩ := e
    by_cases hik : i = k
    · subst hik
      by_cases hij : i = j <;> simp [put, lookup, hij]
    · by_cases hij : i = j
      · subst hij
        simp [put, lookup, hik, Ne.symm hik]
      · simp [put, lookup, hik, hij, ih]

theorem find?_insert (t : Table κ α) (j k : κ) (a : α) :
    (t.insert k a).find? j = if k = j then some a else t.find? j :=
  lookup_put j k a t.entries

@[simp] theorem find?_insert_self (t : Table κ α) (k : κ) (a : α) :
    (t.insert k a).find? k = some a := by
  simp [find?_insert]

theorem find?_insert_of_ne (t : Table κ α) {j k : κ} (a : α) (h : k ≠ j) :
    (t.insert k a).find? j = t.find? j := by
  simp [find?_insert, h]

theorem forall_find?_empty {P : κ → α → Prop} (j : κ) (b : α)
    (h : find? ({} : Table κ α) j = some b) : P j b := by
  cases h

theorem forall_find?_insert {P : κ → α → Prop} (t : Table κ α) {k : κ} {a : α}
    (h : ∀ j b, t.find? j = some b → P j b) (hk : P k a) (j : κ) (b : α)
    (hj : (t.insert k a).find? j = some b) : P j b := by
  rw [find?_insert] at hj
  split at hj
  · next heq =>
    cases hj
    exact heq ▸ hk
  · exact h j b hj

@[simp] theorem find?_mapValues {β : Type} (f : α → β) (t : Table κ α) (k : κ) :
    (t.mapValues f).find? k = (t.find? k).map f := by
  obtain ⟨es⟩ := t
  simp only [find?, mapValues]
  induction es with
  | nil => rfl
  | cons e rest ih =>
    obtain ⟨i, b⟩ := e
    by_cases h : i = k <;> simp [lookup, h, ih]

theorem mapValues_insert {β : Type} (f : α → β) (t : Table κ α) (k : κ) (a : α) :
    (t.insert k a).mapValues f = (t.mapValues f).insert k (f a) := by
  obtain ⟨es⟩ := t
  simp only [insert, mapValues, Table.mk.injEq]
  induction es with
  | nil => rfl
  | cons d es ih =>
    by_cases h : d.1 = k
    · simp [put, h]
    · simp [put, h, ih]

theorem mem_keys_iff (t : Table κ α) (k : κ) : k ∈ t.keys ↔ (t.find? k).isSome := by
  obtain ⟨es⟩ := t
  simp only [find?, keys]
  induction es with
  | nil => simp [lookup]
  | cons e rest ih =>
    obtain ⟨i, b⟩ := e
    by_cases h : i = k
    · simp [lookup, h]
    · simp [lookup, h, Ne.symm h, ih]

end Table

end ExprTyping

/-!
# Insertion-ordered tables

A table lists its entries in the order in which their keys first appeared.
Writing to a key that is already present replaces the value and keeps the
position, so a repeated key has its first position and its last value.
-/

namespace NativeGlue

/-- Entries with text keys, in order of first appearance. -/
structure Table (α : Type) where
  entries : List (String × α)
deriving Repr, BEq, DecidableEq

namespace Table

variable {α : Type}

/-- The table without entries. -/
def empty : Table α := ⟨[]⟩

instance : Inhabited (Table α) := ⟨empty⟩

/-- The keys in order. -/
def keys (t : Table α) : List String := t.entries.map Prod.fst

/-- The values in order of their keys. -/
def values (t : Table α) : List α := t.entries.map Prod.snd

/-- The number of entries. -/
def size (t : Table α) : Nat := t.entries.length

/-- Whether the table has no entry. -/
def isEmpty (t : Table α) : Bool := t.entries.isEmpty

/-- The value under a key. -/
def get? (t : Table α) (key : String) : Option α := t.entries.lookup key

/-- Whether a key is present. -/
def contains (t : Table α) (key : String) : Bool := (t.get? key).isSome

/-- Writes a value into a list of entries: in place of the first entry with
that key, or at the end. -/
def insertEntry (key : String) (value : α) :
    List (String × α) → List (String × α)
  | [] => [(key, value)]
  | (k, v) :: rest =>
    if key = k then (k, value) :: rest else (k, v) :: insertEntry key value rest

/-- Writes a value under a key. -/
def insert (t : Table α) (key : String) (value : α) : Table α :=
  ⟨insertEntry key value t.entries⟩

/-- The table that results from writing the given entries in order. -/
def ofList (entries : List (String × α)) : Table α :=
  entries.foldl (fun t e => t.insert e.1 e.2) empty

/-- Converts every value in order; the first failure wins. -/
def mapM {ε β : Type} (f : α → Except ε β) (t : Table α) :
    Except ε (Table β) := do
  let entries ← t.entries.mapM fun e => do
    let value ← f e.2
    return (e.1, value)
  return ⟨entries⟩

/-- No key occurs twice. -/
def KeysDistinct (t : Table α) : Prop := t.keys.Nodup

@[simp] theorem lookup_insertEntry
    (key other : String) (value : α) (es : List (String × α)) :
    (insertEntry key value es).lookup other =
      if other = key then some value else es.lookup other := by
  induction es with
  | nil =>
    by_cases h : other = key <;> simp [insertEntry, List.lookup_cons, h]
    simp [beq_false_of_ne h]
  | cons e rest ih =>
    obtain ⟨k, v⟩ := e
    by_cases hk : key = k
    · subst hk
      by_cases h : other = key
      · simp [insertEntry, h]
      · simp [insertEntry, List.lookup_cons, beq_false_of_ne h, h]
    · by_cases h : other = k
      · subst h
        simp [insertEntry, hk, Ne.symm hk]
      · simp [insertEntry, hk, List.lookup_cons, beq_false_of_ne h, ih]

/-- A written value is found under its key and nowhere else. -/
@[simp] theorem get?_insert (t : Table α) (key other : String) (value : α) :
    (t.insert key value).get? other =
      if other = key then some value else t.get? other :=
  lookup_insertEntry key other value t.entries

@[simp] theorem keys_insertEntry
    (key : String) (value : α) (es : List (String × α)) :
    (insertEntry key value es).map Prod.fst =
      if key ∈ es.map Prod.fst then es.map Prod.fst
      else es.map Prod.fst ++ [key] := by
  induction es with
  | nil => simp [insertEntry]
  | cons e rest ih =>
    obtain ⟨k, v⟩ := e
    by_cases hk : key = k
    · simp [insertEntry, hk]
    · simp only [insertEntry, hk, if_false, List.map_cons, ih,
        List.mem_cons, false_or]
      split <;> simp

/-- Writing keeps the order of the keys and adds a new key at the end. -/
@[simp] theorem keys_insert (t : Table α) (key : String) (value : α) :
    (t.insert key value).keys =
      if key ∈ t.keys then t.keys else t.keys ++ [key] :=
  keys_insertEntry key value t.entries

theorem KeysDistinct.insert
    {t : Table α} (ht : t.KeysDistinct) (key : String) (value : α) :
    (t.insert key value).KeysDistinct := by
  unfold KeysDistinct at *
  rw [keys_insert]
  split
  · exact ht
  · rename_i hkey
    rw [List.nodup_append]
    refine ⟨ht, by simp, ?_⟩
    intro a ha b hb
    simp only [List.mem_singleton] at hb
    exact fun hab => hkey (hb ▸ hab ▸ ha)

/-- A table written entry by entry has distinct keys. -/
theorem keysDistinct_ofList (entries : List (String × α)) :
    (ofList entries).KeysDistinct := by
  have step : ∀ (es : List (String × α)) (t : Table α), t.KeysDistinct →
      (es.foldl (fun t e => t.insert e.1 e.2) t).KeysDistinct := by
    intro es
    induction es with
    | nil => exact fun t ht => ht
    | cons e rest ih => exact fun t ht => ih _ (ht.insert e.1 e.2)
  exact step entries empty (by simp [KeysDistinct, keys, empty])

end Table

end NativeGlue

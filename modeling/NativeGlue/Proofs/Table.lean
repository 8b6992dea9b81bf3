import NativeGlue.Table
import Mathlib.Data.List.Dedup
import Mathlib.Data.List.Induction

/-!
# What a written table holds

Facts about tables that are built by writing entries in order.  A key has the
position of its first entry and the value of its last one, and a table with
distinct keys is known by its keys and by what it holds under each of them.
-/

namespace NativeGlue.Table

variable {α : Type}

@[simp] theorem contains_eq_true_iff {t : Table α} {key : String} :
    t.contains key = true ↔ key ∈ t.keys := by
  unfold contains get? keys
  rw [List.lookup_isSome_iff, List.mem_map]
  constructor
  · rintro ⟨e, he, hkey⟩
    exact ⟨e, he, (beq_iff_eq.mp hkey).symm⟩
  · rintro ⟨e, he, hkey⟩
    exact ⟨e, he, beq_iff_eq.mpr hkey.symm⟩

@[simp] theorem ofList_append_singleton
    (entries : List (String × α)) (key : String) (value : α) :
    ofList (entries ++ [(key, value)]) = (ofList entries).insert key value := by
  simp [ofList]

/-- A written table holds the value of the last entry with a key. -/
theorem get?_ofList (entries : List (String × α)) (key : String) :
    (ofList entries).get? key = entries.reverse.lookup key := by
  induction entries using List.reverseRecOn with
  | nil => rfl
  | append_singleton entries e ih =>
      obtain ⟨k, v⟩ := e
      rw [ofList_append_singleton, get?_insert, ih, List.reverse_append,
        List.reverse_singleton, List.singleton_append, List.lookup_cons]
      by_cases hkey : key = k
      · simp [hkey]
      · simp [hkey, beq_false_of_ne hkey]

/-- The keys of a written table are the written keys in the order in which they
first appear.  (`List.dedup` keeps the last of equal elements.) -/
theorem keys_ofList (entries : List (String × α)) :
    (ofList entries).keys = (entries.map Prod.fst).reverse.dedup.reverse := by
  induction entries using List.reverseRecOn with
  | nil => rfl
  | append_singleton entries e ih =>
      obtain ⟨k, v⟩ := e
      rw [ofList_append_singleton, keys_insert, ih, List.map_append,
        List.reverse_append, List.map_singleton, List.reverse_singleton,
        List.singleton_append]
      by_cases hk : k ∈ (entries.map Prod.fst).reverse
      · rw [List.dedup_cons_of_mem hk, if_pos]
        simpa using hk
      · rw [List.dedup_cons_of_notMem hk, if_neg, List.reverse_cons]
        simpa using hk

/-- In a table with distinct keys, an entry is what its key is looked up to. -/
theorem KeysDistinct.mem_entries_iff
    {t : Table α} (ht : t.KeysDistinct) {key : String} {value : α} :
    (key, value) ∈ t.entries ↔ t.get? key = some value := by
  obtain ⟨entries⟩ := t
  unfold KeysDistinct keys at ht
  unfold get?
  rw [List.lookup_eq_some_iff]
  constructor
  · intro hmem
    obtain ⟨before, after, hsplit⟩ := List.append_of_mem hmem
    refine ⟨before, after, hsplit, ?_⟩
    intro p hp
    simp only at hsplit
    rw [hsplit, List.map_append, List.map_cons, List.nodup_append] at ht
    simpa using (ht.2.2 p.1 (List.mem_map_of_mem hp) key (by simp)).symm
  · rintro ⟨before, after, hsplit, -⟩
    rw [hsplit]
    simp

/-- A table with distinct keys is known by its keys and what it holds. -/
theorem KeysDistinct.eq_of_keys_of_get?
    {t u : Table α} (ht : t.KeysDistinct) (hkeys : t.keys = u.keys)
    (hget : ∀ key, t.get? key = u.get? key) :
    t = u := by
  obtain ⟨es⟩ := t
  obtain ⟨fs⟩ := u
  have hu : KeysDistinct (⟨fs⟩ : Table α) := by
    unfold KeysDistinct
    rw [← hkeys]
    exact ht
  have hlength : es.length = fs.length := by
    simpa [keys] using congrArg List.length hkeys
  congr 1
  apply List.ext_getElem hlength
  intro i hi hj
  have hkey : es[i].1 = fs[i].1 := by
    have h := congrArg (fun l => l[i]?) hkeys
    simpa [keys, hi, hj] using h
  have hleft : get? ⟨es⟩ es[i].1 = some es[i].2 :=
    ht.mem_entries_iff.mp (List.getElem_mem hi)
  have hright : get? ⟨fs⟩ fs[i].1 = some fs[i].2 :=
    hu.mem_entries_iff.mp (List.getElem_mem hj)
  rw [hget, hkey, hright] at hleft
  exact Prod.ext hkey (Option.some.inj hleft).symm

/-- The entries of a written table are among the entries written. -/
theorem mem_of_mem_entries_ofList {entries : List (String × α)} {e : String × α}
    (he : e ∈ (ofList entries).entries) : e ∈ entries := by
  have hget := (keysDistinct_ofList entries).mem_entries_iff.mp he
  rw [get?_ofList, List.lookup_eq_some_iff] at hget
  obtain ⟨before, after, hsplit, -⟩ := hget
  rw [← List.mem_reverse, hsplit]
  simp

/-- Writing the entries of a table with distinct keys gives the table back. -/
theorem KeysDistinct.ofList_entries {t : Table α} (ht : t.KeysDistinct) :
    ofList t.entries = t := by
  apply (keysDistinct_ofList _).eq_of_keys_of_get?
  · have hnodup : (t.entries.map Prod.fst).reverse.Nodup :=
      List.nodup_reverse.mpr ht
    rw [keys_ofList, hnodup.dedup, List.reverse_reverse]
    rfl
  · intro key
    have hreverse : KeysDistinct ⟨t.entries.reverse⟩ := by
      unfold KeysDistinct keys
      rw [List.map_reverse]
      exact List.nodup_reverse.mpr ht
    rw [get?_ofList]
    refine Option.ext fun value => ?_
    rw [← ht.mem_entries_iff, ← List.mem_reverse]
    exact hreverse.mem_entries_iff.symm

/-- An entry that is written over later leaves no trace. -/
theorem ofList_eq_of_overwritten
    {before after : List (String × α)} {key : String}
    (hafter : key ∈ after.map Prod.fst) (value other : α) :
    ofList (before ++ (key, value) :: after) =
      ofList (before ++ (key, other) :: after) := by
  apply (keysDistinct_ofList _).eq_of_keys_of_get?
  · simp only [keys_ofList, List.map_append, List.map_cons]
  · intro k
    simp only [get?_ofList, List.reverse_append, List.reverse_cons,
      List.append_assoc, List.lookup_append]
    by_cases hk : k = key
    · obtain ⟨e, he, rfl⟩ := List.mem_map.mp hafter
      have hsome : (after.reverse.lookup k).isSome := by
        rw [List.lookup_isSome_iff]
        exact ⟨e, List.mem_reverse.mpr he, by simp [hk]⟩
      obtain ⟨v, hv⟩ := Option.isSome_iff_exists.mp hsome
      simp [hv]
    · simp [List.lookup_cons, beq_false_of_ne hk]

/-! ## Where an entry is written -/

/-- Entries with other keys are passed over. -/
theorem insertEntry_append_of_notMem
    {front : List (String × α)} {key : String} (hkey : key ∉ front.map Prod.fst)
    (value : α) (back : List (String × α)) :
    insertEntry key value (front ++ back) =
      front ++ insertEntry key value back := by
  induction front with
  | nil => rfl
  | cons e front ih =>
      rw [List.map_cons, List.mem_cons, not_or] at hkey
      rw [List.cons_append, List.cons_append, insertEntry, if_neg hkey.1,
        ih hkey.2]

/-- A new key is written at the end. -/
theorem entries_insert_of_notMem
    {t : Table α} {key : String} (hkey : key ∉ t.keys) (value : α) :
    (t.insert key value).entries = t.entries ++ [(key, value)] := by
  have hend := insertEntry_append_of_notMem hkey value []
  rw [List.append_nil] at hend
  exact hend

/-- A key that is there is written over at its place. -/
theorem entries_insert_of_mem
    {t : Table α} {key : String} (hkey : key ∈ t.keys) :
    ∃ before old after, t.entries = before ++ (key, old) :: after ∧
      ∀ value,
        (t.insert key value).entries = before ++ (key, value) :: after := by
  obtain ⟨keys, keys', hkeys, hfirst⟩ := List.eq_append_cons_of_mem hkey
  obtain ⟨before, rest, hentries, rfl, hrest⟩ := List.map_eq_append_iff.mp hkeys
  obtain ⟨⟨_, old⟩, after, rfl, rfl, -⟩ := List.map_eq_cons_iff.mp hrest
  refine ⟨before, old, after, hentries, fun value => ?_⟩
  rw [insert, hentries, insertEntry_append_of_notMem hfirst, insertEntry,
    if_pos rfl]

/-- Entries with keys of their own are written behind all others. -/
theorem entries_ofList_append
    {entries entries' : List (String × α)}
    (hkeys : ∀ e ∈ entries, ∀ e' ∈ entries', e.1 ≠ e'.1) :
    (ofList (entries ++ entries')).entries =
      (ofList entries).entries ++ (ofList entries').entries := by
  induction entries' using List.reverseRecOn with
  | nil => simp [ofList, empty]
  | append_singleton entries' e' ih =>
      have hfresh : e'.1 ∉ (ofList entries).entries.map Prod.fst := by
        intro hmem
        obtain ⟨e, he, hkey⟩ := List.mem_map.mp hmem
        exact hkeys e (mem_of_mem_entries_ofList he) e' (by simp) hkey
      rw [← List.append_assoc, ofList_append_singleton, ofList_append_singleton,
        insert, ih fun e he f hf => hkeys e he f (List.mem_append_left _ hf),
        insertEntry_append_of_notMem hfresh]
      rfl

end NativeGlue.Table

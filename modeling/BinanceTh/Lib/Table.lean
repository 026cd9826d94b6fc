import Mathlib.Data.List.AList

/-!
# Tables

A table holds records by a key that the record itself carries; the entry found under a key has that
key. So the records of a table are a set, in which `v` is found under its own key
(`mem_values_iff`).
-/

/-- Records by their own key. -/
structure Table {K V : Type} [DecidableEq K] (key : V → K) where
  entries : AList fun _ : K => V
  keyed : ∀ k v, entries.lookup k = some v → key v = k

namespace Table

variable {K V : Type} [DecidableEq K] {key : V → K}

def lookup (t : Table key) (k : K) : Option V := t.entries.lookup k

def values (t : Table key) : List V := t.entries.entries.map fun entry => entry.2

def empty : Table key := ⟨∅, fun k v h => by rw [AList.lookup_empty] at h; cases h⟩

def insert (t : Table key) (v : V) : Table key where
  entries := t.entries.insert (key v) v
  keyed k w h := by
    by_cases hk : k = key v
    · subst hk
      rw [AList.lookup_insert] at h
      rw [Option.some.inj h]
    · rw [AList.lookup_insert_ne hk] at h
      exact t.keyed k w h

def erase (t : Table key) (k : K) : Table key where
  entries := t.entries.erase k
  keyed k' w h := by
    by_cases hk : k' = k
    · subst hk
      rw [AList.lookup_erase] at h
      cases h
    · rw [AList.lookup_erase_ne hk] at h
      exact t.keyed k' w h

/-- The table of a list; of two records with one key the later one stays. -/
def ofList (vs : List V) : Table key := vs.foldl insert empty

variable {t : Table key} {k : K} {v : V}

theorem key_of_lookup (h : t.lookup k = some v) : key v = k := t.keyed k v h

@[simp] theorem lookup_empty : (empty : Table key).lookup k = none := AList.lookup_empty k

theorem lookup_insert : (t.insert v).lookup k = if key v = k then some v else t.lookup k := by
  unfold lookup insert
  by_cases hk : key v = k
  · subst hk
    rw [if_pos rfl]
    exact AList.lookup_insert _
  · rw [if_neg hk]
    exact AList.lookup_insert_ne (Ne.symm hk)

theorem lookup_erase {k' : K} :
    (t.erase k').lookup k = if k' = k then none else t.lookup k := by
  unfold lookup erase
  by_cases hk : k' = k
  · subst hk
    rw [if_pos rfl]
    exact AList.lookup_erase _ _
  · rw [if_neg hk]
    exact AList.lookup_erase_ne (Ne.symm hk)

theorem mem_values_iff : v ∈ t.values ↔ t.lookup (key v) = some v := by
  unfold values lookup
  rw [List.mem_map, ← Option.mem_def, AList.mem_lookup_iff]
  constructor
  · rintro ⟨⟨k, w⟩, hmem, rfl⟩
    have hk : key w = k := t.keyed k w (AList.mem_lookup_iff.2 hmem)
    rw [hk]
    exact hmem
  · intro hmem
    exact ⟨_, hmem, rfl⟩

theorem lookup_foldl_insert {vs : List V} (hvs : ∀ w ∈ vs, key w ≠ k) :
    (vs.foldl insert t).lookup k = t.lookup k := by
  induction vs generalizing t with
  | nil => rfl
  | cons w vs ih =>
    rw [List.foldl_cons, ih fun u hu => hvs u (List.mem_cons_of_mem w hu), lookup_insert,
      if_neg (hvs w List.mem_cons_self)]

theorem lookup_ofList_of_forall_ne {vs : List V} (hvs : ∀ w ∈ vs, key w ≠ k) :
    (ofList vs : Table key).lookup k = none := by
  unfold ofList
  rw [lookup_foldl_insert hvs, lookup_empty]

theorem mem_of_lookup_ofList {vs : List V} (h : (ofList vs : Table key).lookup k = some v) :
    v ∈ vs := by
  suffices hfold : ∀ t : Table key, (vs.foldl insert t).lookup k = some v →
      t.lookup k = some v ∨ v ∈ vs by
    exact (hfold empty h).resolve_left fun hempty => by rw [lookup_empty] at hempty; cases hempty
  clear h
  induction vs with
  | nil => exact fun t h => .inl h
  | cons w vs ih =>
    intro t h
    rcases ih (t.insert w) h with hinsert | hmem
    · rw [lookup_insert] at hinsert
      split at hinsert
      · exact .inr (Option.some.inj hinsert ▸ List.mem_cons_self)
      · exact .inl hinsert
    · exact .inr (List.mem_cons_of_mem w hmem)

/-- The only record of its key in a list is found in the table of the list. -/
theorem lookup_ofList_of_mem {vs : List V} (hmem : v ∈ vs)
    (hvs : ∀ w ∈ vs, key w = key v → w = v) : (ofList vs : Table key).lookup (key v) = some v := by
  suffices h : ∀ t : Table key, (vs.foldl insert t).lookup (key v) = some v from h empty
  induction vs with
  | nil => cases hmem
  | cons w vs ih =>
    intro t
    have hrest : ∀ u ∈ vs, key u = key v → u = v := fun u hu => hvs u (List.mem_cons_of_mem w hu)
    by_cases hlater : ∃ u ∈ vs, key u = key v
    · obtain ⟨u, hu, hkey⟩ := hlater
      obtain rfl := hrest u hu hkey
      exact ih hu hrest (t.insert w)
    · have hnone : ∀ u ∈ vs, key u ≠ key v := fun u hu hkey => hlater ⟨u, hu, hkey⟩
      have hw : v = w := (List.mem_cons.1 hmem).resolve_right fun hv => hnone v hv rfl
      rw [List.foldl_cons, lookup_foldl_insert hnone, lookup_insert, hw, if_pos rfl]

end Table

/-!
Tables in order of first arrival. A key that is present keeps its place when its value is replaced,
and every key stands in the table once.
-/
namespace PluginHost

/-- The entry of a key is replaced where it stands; a new key goes to the end. -/
def putEntry {κ α : Type} [DecidableEq κ] (k : κ) (v : α) : List (κ × α) → List (κ × α)
  | [] => [(k, v)]
  | e :: es => if e.1 = k then (k, v) :: es else e :: putEntry k v es

variable {κ α : Type} [DecidableEq κ]

theorem keys_putEntry_of_mem {k : κ} {v : α} {es : List (κ × α)} (h : k ∈ es.map Prod.fst) :
    (putEntry k v es).map Prod.fst = es.map Prod.fst := by
  induction es with
  | nil => simp at h
  | cons e es ih =>
    by_cases he : e.1 = k
    · simp [putEntry, he]
    · have : k ∈ es.map Prod.fst := by
        simp only [List.map_cons, List.mem_cons] at h
        exact h.resolve_left (fun hk => he hk.symm)
      simp [putEntry, he, ih this]

theorem keys_putEntry_of_not_mem {k : κ} {v : α} {es : List (κ × α)} (h : k ∉ es.map Prod.fst) :
    (putEntry k v es).map Prod.fst = es.map Prod.fst ++ [k] := by
  induction es with
  | nil => simp [putEntry]
  | cons e es ih =>
    simp only [List.map_cons, List.mem_cons, not_or] at h
    have he : ¬ e.1 = k := fun hk => h.1 hk.symm
    simp [putEntry, he, ih h.2]

theorem nodup_keys_putEntry {k : κ} {v : α} {es : List (κ × α)}
    (h : (es.map Prod.fst).Nodup) : ((putEntry k v es).map Prod.fst).Nodup := by
  by_cases hk : k ∈ es.map Prod.fst
  · rw [keys_putEntry_of_mem hk]; exact h
  · rw [keys_putEntry_of_not_mem hk, List.nodup_append]
    refine ⟨h, by simp, ?_⟩
    intro a ha b hb hab
    simp only [List.mem_singleton] at hb
    subst hab
    exact hk (hb ▸ ha)

/-- The first entry of a key. -/
def lookup? (k : κ) : List (κ × α) → Option α
  | [] => none
  | e :: es => if e.1 = k then some e.2 else lookup? k es

theorem lookup?_putEntry (k j : κ) (v : α) (es : List (κ × α)) :
    lookup? j (putEntry k v es) = if k = j then some v else lookup? j es := by
  induction es with
  | nil => by_cases h : k = j <;> simp [putEntry, lookup?, h]
  | cons e es ih =>
    by_cases he : e.1 = k
    · by_cases h : k = j <;> simp [putEntry, lookup?, he, h]
    · by_cases h : k = j
      · subst h; simp [putEntry, lookup?, he, ih]
      · by_cases hj : e.1 = j
        · have : ¬ j = k := fun hk => h hk.symm
          simp [putEntry, lookup?, hj, h, this]
        · simp [putEntry, lookup?, he, hj, h, ih]

/-- Entries in order of first arrival, one for each key. -/
structure Table (κ α : Type) where
  entries : List (κ × α)
  distinct : (entries.map Prod.fst).Nodup

namespace Table

def empty : Table κ α := ⟨[], by simp⟩

instance : Inhabited (Table κ α) := ⟨empty⟩

def get? (t : Table κ α) (k : κ) : Option α := lookup? k t.entries

def contains (t : Table κ α) (k : κ) : Bool := (t.get? k).isSome

def keys (t : Table κ α) : List κ := t.entries.map Prod.fst

def values (t : Table κ α) : List α := t.entries.map Prod.snd

def size (t : Table κ α) : Nat := t.entries.length

def isEmpty (t : Table κ α) : Bool := t.entries.isEmpty

def insert (t : Table κ α) (k : κ) (v : α) : Table κ α :=
  ⟨putEntry k v t.entries, nodup_keys_putEntry t.distinct⟩

def erase (t : Table κ α) (k : κ) : Table κ α :=
  ⟨t.entries.filter (fun e => e.1 ≠ k), t.distinct.sublist (List.filter_sublist.map _)⟩

/-- Later entries of a key replace earlier ones. -/
def ofList (es : List (κ × α)) : Table κ α := es.foldl (fun t e => t.insert e.1 e.2) empty

/-- The entries of `es` are written over those of `t`. -/
def union (t : Table κ α) (es : List (κ × α)) : Table κ α :=
  es.foldl (fun t e => t.insert e.1 e.2) t

@[simp] theorem get?_empty (k : κ) : (empty : Table κ α).get? k = none := rfl

@[simp] theorem get?_insert (t : Table κ α) (k j : κ) (v : α) :
    (t.insert k v).get? j = if k = j then some v else t.get? j :=
  lookup?_putEntry k j v t.entries

theorem get?_erase (t : Table κ α) (k j : κ) :
    (t.erase k).get? j = if k = j then none else t.get? j := by
  show lookup? j (t.entries.filter _) = _
  unfold get?
  induction t.entries with
  | nil => simp [lookup?]
  | cons e es ih =>
    by_cases he : e.1 = k
    · subst he
      by_cases hj : e.1 = j
      · simp only [hj, if_true] at ih ⊢
        simpa [hj] using ih
      · simp only [hj, if_false] at ih ⊢
        simpa [lookup?, hj] using ih
    · by_cases hj : e.1 = j
      · subst hj
        simp [lookup?, he, Ne.symm he]
      · by_cases hk : k = j
        · simp only [hk, if_true] at ih ⊢
          simpa [lookup?, he, hj, hk] using ih
        · simp only [hk, if_false] at ih ⊢
          simpa [lookup?, he, hj] using ih

omit [DecidableEq κ] in
theorem nodup_keys (t : Table κ α) : t.keys.Nodup := t.distinct

theorem keys_insert_of_mem {t : Table κ α} {k : κ} {v : α} (h : k ∈ t.keys) :
    (t.insert k v).keys = t.keys := keys_putEntry_of_mem h

theorem keys_insert_of_not_mem {t : Table κ α} {k : κ} {v : α} (h : k ∉ t.keys) :
    (t.insert k v).keys = t.keys ++ [k] := keys_putEntry_of_not_mem h

theorem contains_iff_mem_keys (t : Table κ α) (k : κ) : t.contains k = true ↔ k ∈ t.keys := by
  unfold contains get? keys
  induction t.entries with
  | nil => simp [lookup?]
  | cons e es ih =>
    by_cases he : e.1 = k
    · simp [lookup?, he]
    · have : ¬ k = e.1 := fun h => he h.symm
      simp [lookup?, he, this, ih]

end Table

end PluginHost

import Mathlib.Order.Lex
import Mathlib.Tactic
import MonitoringAgent.Library.Increasing

/-! # Ordered tables

A finite map whose entries are listed in ascending key order. A table that is not in order
cannot be built, so two tables with the same lookups are equal. -/

namespace MonitoringAgent.Library

/-- A finite map from `K` to `V`, in ascending key order. -/
structure Table (K V : Type*) [LinearOrder K] where
  entries : List (K × V)
  sorted : entries.Pairwise fun a b => a.1 < b.1

namespace Table

variable {K V W : Type*} [LinearOrder K]

/-! ### Operations -/

def empty : Table K V := ⟨[], .nil⟩

def lookup : List (K × V) → K → Option V
  | [], _ => none
  | (k, v) :: rest, key => if k = key then some v else lookup rest key

/-- The value of a key, if the table holds it. -/
def get? (t : Table K V) (key : K) : Option V := lookup t.entries key

def insertEntry (key : K) (value : V) : List (K × V) → List (K × V)
  | [] => [(key, value)]
  | (k, v) :: rest =>
      if key < k then (key, value) :: (k, v) :: rest
      else if key = k then (key, value) :: rest
      else (k, v) :: insertEntry key value rest

theorem mem_insertEntry {key : K} {value : V} {entries : List (K × V)} {e : K × V}
    (h : e ∈ insertEntry key value entries) : e = (key, value) ∨ e ∈ entries := by
  induction entries with
  | nil => simpa [insertEntry] using h
  | cons hd rest ih =>
      obtain ⟨k, v⟩ := hd
      rw [insertEntry] at h
      split_ifs at h with hlt heq
      · simpa using h
      · rcases List.mem_cons.mp h with h | h
        · exact .inl h
        · exact .inr (List.mem_cons_of_mem _ h)
      · rcases List.mem_cons.mp h with h | h
        · exact .inr (h ▸ List.mem_cons_self)
        · exact (ih h).imp_right (List.mem_cons_of_mem _)

theorem sorted_insertEntry {key : K} {value : V} {entries : List (K × V)}
    (h : entries.Pairwise fun a b => a.1 < b.1) :
    (insertEntry key value entries).Pairwise fun a b => a.1 < b.1 := by
  induction entries with
  | nil => simp [insertEntry]
  | cons hd rest ih =>
      obtain ⟨k, v⟩ := hd
      obtain ⟨hhead, hrest⟩ := List.pairwise_cons.mp h
      rw [insertEntry]
      split_ifs with hlt heq
      · refine List.pairwise_cons.mpr ⟨?_, h⟩
        intro e he
        rcases List.mem_cons.mp he with rfl | he
        · exact hlt
        · exact hlt.trans (hhead e he)
      · subst heq
        exact List.pairwise_cons.mpr ⟨hhead, hrest⟩
      · refine List.pairwise_cons.mpr ⟨?_, ih hrest⟩
        intro e he
        rcases mem_insertEntry he with rfl | he
        · exact lt_of_le_of_ne (not_lt.mp hlt) (Ne.symm heq)
        · exact hhead e he

/-- Adds an entry, replacing the key's value if the table holds the key. -/
def insert (t : Table K V) (key : K) (value : V) : Table K V :=
  ⟨insertEntry key value t.entries, sorted_insertEntry t.sorted⟩

/-- Keeps the entries `p` accepts. -/
def filter (t : Table K V) (p : K → V → Bool) : Table K V :=
  ⟨t.entries.filter fun e => p e.1 e.2, t.sorted.filter _⟩

def erase (t : Table K V) (key : K) : Table K V := t.filter fun k _ => k ≠ key

/-- Changes every value in place. -/
def mapValues (t : Table K V) (f : K → V → W) : Table K W where
  entries := t.entries.map fun e => (e.1, f e.1 e.2)
  sorted := List.pairwise_map.mpr t.sorted

def contains (t : Table K V) (key : K) : Bool := (t.get? key).isSome

def keys (t : Table K V) : List K := t.entries.map Prod.fst

/-! ### Lookups and entries -/

@[ext] theorem ext_entries {t u : Table K V} (h : t.entries = u.entries) : t = u := by
  cases t
  cases u
  simpa using h

theorem lookup_iff_mem {entries : List (K × V)} {key : K} {value : V}
    (h : entries.Pairwise fun a b => a.1 < b.1) :
    lookup entries key = some value ↔ (key, value) ∈ entries := by
  induction entries with
  | nil => simp [lookup]
  | cons hd rest ih =>
      obtain ⟨k, v⟩ := hd
      obtain ⟨hhead, hrest⟩ := List.pairwise_cons.mp h
      rw [lookup]
      split_ifs with heq
      · subst heq
        refine ⟨fun hv => by simp_all, fun hmem => ?_⟩
        rcases List.mem_cons.mp hmem with hmem | hmem
        · simp_all
        · exact absurd (hhead _ hmem) (lt_irrefl _)
      · rw [ih hrest, List.mem_cons, or_iff_right]
        rintro ⟨⟩
        exact heq rfl

theorem get?_eq_some_iff {t : Table K V} {key : K} {value : V} :
    t.get? key = some value ↔ (key, value) ∈ t.entries :=
  lookup_iff_mem t.sorted

theorem mem_keys {t : Table K V} {key : K} : key ∈ t.keys ↔ ∃ value, t.get? key = some value := by
  simp [keys, get?_eq_some_iff]

theorem contains_iff {t : Table K V} {key : K} :
    t.contains key = true ↔ ∃ value, t.get? key = some value := by
  rw [contains, Option.isSome_iff_exists]

theorem nodup_keys (t : Table K V) : t.keys.Nodup := by
  rw [keys, List.Nodup, List.pairwise_map]
  exact t.sorted.imp fun h => h.ne

@[simp] theorem get?_empty (key : K) : (empty : Table K V).get? key = none := rfl

theorem get?_insert (t : Table K V) (key : K) (value : V) (k : K) :
    (t.insert key value).get? k = if key = k then some value else t.get? k := by
  obtain ⟨entries, hsorted⟩ := t
  simp only [get?, insert]
  induction entries with
  | nil => rfl
  | cons hd rest ih =>
      obtain ⟨k', v'⟩ := hd
      have ih := ih (List.pairwise_cons.mp hsorted).2
      rcases lt_trichotomy key k' with hlt | rfl | hgt
      · rw [insertEntry, if_pos hlt, lookup]
      · by_cases hk : key = k
        · simp [insertEntry, lookup, hk]
        · simp [insertEntry, lookup, hk]
      · rw [insertEntry, if_neg hgt.asymm, if_neg hgt.ne', lookup, lookup, ih]
        by_cases hk : k' = k
        · simp [hk, (hk ▸ hgt).ne']
        · simp [hk]

@[simp] theorem get?_insert_self (t : Table K V) (key : K) (value : V) :
    (t.insert key value).get? key = some value := by
  simp [get?_insert]

theorem get?_insert_of_ne (t : Table K V) {key k : K} (value : V) (h : key ≠ k) :
    (t.insert key value).get? k = t.get? k := by
  simp [get?_insert, h]

theorem get?_filter (t : Table K V) (p : K → V → Bool) (key : K) :
    (t.filter p).get? key = (t.get? key).filter (p key) := by
  ext value
  simp [get?_eq_some_iff, filter, Option.filter_eq_some_iff]

theorem get?_erase (t : Table K V) (key k : K) :
    (t.erase key).get? k = if k = key then none else t.get? k := by
  rw [erase, get?_filter]
  split_ifs with h
  · simp [h]
  · cases t.get? k <;> simp [h]

theorem get?_mapValues (t : Table K V) (f : K → V → W) (key : K) :
    (t.mapValues f).get? key = (t.get? key).map (f key) := by
  obtain ⟨entries, hsorted⟩ := t
  simp only [get?, mapValues]
  clear hsorted
  induction entries with
  | nil => rfl
  | cons hd rest ih =>
      obtain ⟨k, v⟩ := hd
      simp only [List.map_cons, lookup]
      split_ifs with h
      · simp [h]
      · exact ih

theorem get?_foldl_erase (t : Table K V) (keys : List K) (key : K) :
    (keys.foldl erase t).get? key = if key ∈ keys then none else t.get? key := by
  induction keys generalizing t with
  | nil => simp
  | cons k keys ih =>
      rw [List.foldl_cons, ih, get?_erase]
      by_cases hmem : key ∈ keys
      · simp [hmem]
      · simp [hmem]

theorem entries_foldl_erase (t : Table K V) (gone : List K) :
    (gone.foldl erase t).entries = t.entries.filter fun e => e.1 ∉ gone := by
  induction gone generalizing t with
  | nil => simp
  | cons k gone ih =>
      rw [List.foldl_cons, ih, erase, filter, List.filter_filter]
      refine List.filter_congr fun e _ => ?_
      simp [Bool.and_comm]

theorem mem_keys_insert {t : Table K V} {key k : K} {value : V} : k ∈ (t.insert key value).keys ↔
    k = key ∨ k ∈ t.keys := by
  rw [mem_keys, get?_insert, mem_keys]
  split_ifs with h
  · simp [h]
  · simp [Ne.symm h]

theorem mem_keys_foldl_erase {t : Table K V} {gone : List K} {k : K} :
    k ∈ (gone.foldl erase t).keys ↔ k ∈ t.keys ∧ k ∉ gone := by
  rw [mem_keys, get?_foldl_erase, mem_keys]
  split_ifs with h
  · simp [h]
  · simp [h]

theorem mem_keys_erase {t : Table K V} {key k : K} :
    k ∈ (t.erase key).keys ↔ k ∈ t.keys ∧ k ≠ key :=
  (@mem_keys_foldl_erase _ _ _ t [key] k).trans (by rw [List.mem_singleton])

theorem mem_keys_foldl_insert {entries : List (K × V)} {t : Table K V} {k : K} :
    k ∈ (entries.foldl (fun t e => t.insert e.1 e.2) t).keys ↔ k ∈ t.keys ∨
    k ∈ entries.map Prod.fst := by
  induction entries generalizing t with
  | nil => simp
  | cons e entries ih =>
      rw [List.foldl_cons, ih, mem_keys_insert, List.map_cons, List.mem_cons,
        or_comm (a := k = e.1), or_assoc]

/-- Lookups determine a table. -/
theorem ext {t u : Table K V} (h : ∀ key, t.get? key = u.get? key) : t = u := by
  apply ext_entries
  have : IsStrictOrder (K × V) fun a b => a.1 < b.1 :=
    { irrefl := fun _ => lt_irrefl _, trans := fun _ _ _ => lt_trans }
  refine eq_of_increasing t.sorted u.sorted ?_
  rintro ⟨key, value⟩
  rw [← get?_eq_some_iff, ← get?_eq_some_iff, h]

/-- A key past the last one goes to the end. -/
theorem entries_insert_of_lt {t : Table K V} {key : K} {value : V} (h : ∀ k ∈ t.keys, k < key) :
    (t.insert key value).entries = t.entries ++ [(key, value)] := by
  obtain ⟨entries, hsorted⟩ := t
  simp only [insert, keys] at h ⊢
  clear hsorted
  induction entries with
  | nil => rfl
  | cons hd rest ih =>
      obtain ⟨k, v⟩ := hd
      have hk : k < key := h k (by simp)
      rw [insertEntry, if_neg hk.asymm, if_neg hk.ne', ih fun k hk => h k (by simp_all)]
      rfl

/-- Entries inserted one after another: a key's value is the one inserted for it, if all of
its entries agree, and the one it had otherwise. -/
theorem get?_foldl_insert {entries : List (K × V)} {key : K}
    (h : ∀ v v', (key, v) ∈ entries → (key, v') ∈ entries → v = v') (t : Table K V) (value : V) :
    (entries.foldl (fun t e => t.insert e.1 e.2) t).get? key = some value ↔
      (key, value) ∈ entries ∨ (∀ v, (key, v) ∉ entries) ∧ t.get? key = some value := by
  induction entries generalizing t with
  | nil => simp
  | cons e entries ih =>
      obtain ⟨k, v⟩ := e
      rw [List.foldl_cons, ih fun v v' hv hv' => h v v' (List.mem_cons_of_mem _ hv)
        (List.mem_cons_of_mem _ hv')]
      simp only [get?_insert, List.mem_cons, Prod.mk.injEq, not_or]
      by_cases hk : k = key
      · subst hk
        simp only [true_and, if_true, Option.some.injEq]
        constructor
        · rintro (hmem | ⟨-, rfl⟩)
          · exact .inl (.inr hmem)
          · exact .inl (.inl rfl)
        · rintro ((rfl | hmem) | ⟨hnone, -⟩)
          · by_cases hmem : (k, value) ∈ entries
            · exact .inl hmem
            · refine .inr ⟨fun v hv => hmem ?_, rfl⟩
              rwa [h value v List.mem_cons_self (List.mem_cons_of_mem _ hv)]
          · exact .inl hmem
          · exact absurd rfl (hnone v).1
      · simp [hk, Ne.symm hk]

end Table

end MonitoringAgent.Library

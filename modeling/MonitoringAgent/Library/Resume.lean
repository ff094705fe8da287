import MonitoringAgent.Library.Table

/-! # A scan resumed across changes

A table scanned in key order, so many keys at a time. Between two steps the table may change in any
way; the scan goes on from the first key it left. -/

namespace MonitoringAgent.Library

open List

variable {K V : Type*} [LinearOrder K]

/-! ### One step -/

namespace Table

theorem pairwise_keys (t : Table K V) : t.keys.Pairwise (· < ·) := List.pairwise_map.mpr t.sorted

/-- The keys from `start` on. -/
def keysFrom (t : Table K V) (start : K) : List K := t.keys.filter (start ≤ ·)

theorem pairwise_keysFrom (t : Table K V) (start : K) : (t.keysFrom start).Pairwise (· < ·) :=
  t.pairwise_keys.filter _

theorem mem_keysFrom {t : Table K V} {start key : K} :
    key ∈ t.keysFrom start ↔ key ∈ t.keys ∧ start ≤ key := by
  rw [keysFrom, List.mem_filter, decide_eq_true_eq]

/-- The first key found is the least. -/
theorem head?_keysFrom_le {t : Table K V} {start first key : K}
    (h : (t.keysFrom start).head? = some first) (hkey : key ∈ t.keysFrom start) : first ≤ key := by
  obtain ⟨rest, hrest⟩ := List.head?_eq_some_iff.mp h
  have hsorted := t.pairwise_keysFrom start
  rw [hrest] at hsorted hkey
  rcases List.mem_cons.mp hkey with rfl | hkey
  · exact le_rfl
  · exact ((List.pairwise_cons.mp hsorted).1 key hkey).le

/-- The keys from `start` on are those before a later key, then those from it on. -/
theorem keysFrom_eq_append {t : Table K V} {start next : K} (h : start ≤ next) :
    t.keysFrom start = (t.keysFrom start).filter (· < next) ++ t.keysFrom next := by
  refine eq_of_increasing (t.pairwise_keysFrom start) (List.pairwise_append.mpr
    ⟨(t.pairwise_keysFrom start).filter _, t.pairwise_keysFrom next, fun a ha b hb => ?_⟩)
      fun key => ?_
  · exact (of_decide_eq_true (List.mem_filter.mp ha).2).trans_le (mem_keysFrom.mp hb).2
  · rw [List.mem_append, List.mem_filter, mem_keysFrom, mem_keysFrom, decide_eq_true_eq]
    constructor
    · rintro ⟨hkey, hstart⟩
      rcases lt_or_ge key next with hlt | hge
      · exact .inl ⟨⟨hkey, hstart⟩, hlt⟩
      · exact .inr ⟨hkey, hge⟩
    · rintro (⟨hkey, -⟩ | ⟨hkey, hge⟩)
      · exact hkey
      · exact ⟨hkey, h.trans hge⟩

/-- A seek past the first key found leaves fewer keys to find. -/
theorem length_keysFrom_lt {t : Table K V} {start first next : K}
    (h : (t.keysFrom start).head? = some first) (hnext : first < next) :
    (t.keysFrom next).length < (t.keysFrom start).length := by
  have hfirst := List.mem_of_mem_head? h
  have hstart := (mem_keysFrom.mp hfirst).2
  rw [keysFrom_eq_append (t := t) (hstart.trans hnext.le), List.length_append]
  have hbefore : first ∈ (t.keysFrom start).filter (· < next) :=
    List.mem_filter.mpr ⟨hfirst, decide_eq_true hnext⟩
  have hpos := List.length_pos_of_mem hbefore
  omega

end Table

/-- The keys a step visits from `start` on, and the first one it leaves. -/
def scanStep (limit : ℕ) (t : Table K V) (start : K) : List K × Option K :=
  ((t.keysFrom start).take limit, ((t.keysFrom start).drop limit).head?)

section Step

variable {limit : ℕ} {t : Table K V} {start key next : K}

theorem mem_of_mem_scanStep (h : key ∈ (scanStep limit t start).1) : key ∈ t.keys ∧ start ≤ key :=
  Table.mem_keysFrom.mp (List.mem_of_mem_take h)

theorem take_drop_lt {left : K} (h : key ∈ (scanStep limit t start).1)
    (hleft : left ∈ (t.keysFrom start).drop limit) : key < left := by
  have hpairwise := t.pairwise_keysFrom start
  rw [← List.take_append_drop limit (t.keysFrom start)] at hpairwise
  exact (List.pairwise_append.mp hpairwise).2.2 key h left hleft

theorem lt_of_mem_scanStep (h : key ∈ (scanStep limit t start).1)
    (hnext : (scanStep limit t start).2 = some next) : key < next :=
  take_drop_lt h (List.mem_of_mem_head? hnext)

/-- A key of the table that isn't past what the step visits is visited. -/
theorem mem_scanStep (hkey : key ∈ t.keys) (hstart : start ≤ key)
    (hnext : ∀ next, (scanStep limit t start).2 = some next → key < next) :
    key ∈ (scanStep limit t start).1 := by
  have hmem : key ∈ (t.keysFrom start).take limit ++ (t.keysFrom start).drop limit := by
    rw [List.take_append_drop]
    exact Table.mem_keysFrom.mpr ⟨hkey, hstart⟩
  rcases List.mem_append.mp hmem with hmem | hmem
  · exact hmem
  · obtain ⟨first, left, hleft⟩ := List.exists_cons_of_ne_nil (List.ne_nil_of_mem hmem)
    have hlt := hnext first (by rw [scanStep, hleft]; rfl)
    have hsorted := (t.pairwise_keysFrom start).drop (i := limit)
    rw [hleft] at hmem hsorted
    rcases List.mem_cons.mp hmem with rfl | hmem
    · exact absurd hlt (lt_irrefl _)
    · exact absurd hlt ((List.pairwise_cons.mp hsorted).1 key hmem).asymm

theorem nodup_scanStep : (scanStep limit t start).1.Nodup :=
  ((t.pairwise_keysFrom start).imp fun hlt => hlt.ne).sublist (List.take_sublist _ _)

/-- A step that leaves a key has visited as many as it may. -/
theorem length_scanStep (h : (scanStep limit t start).2 = some next) :
    (scanStep limit t start).1.length = limit := by
  have hmem : next ∈ (t.keysFrom start).drop limit := List.mem_of_mem_head? h
  have hlength := List.length_pos_of_mem hmem
  rw [List.length_drop] at hlength
  rw [scanStep, List.length_take]
  omega

/-- What a step leaves is past where it started. -/
theorem lt_scanStep (hlimit : 0 < limit) (h : (scanStep limit t start).2 = some next) :
    start < next := by
  have hlength := length_scanStep h
  obtain ⟨first, rest, hvisited⟩ := List.exists_cons_of_ne_nil
    (List.ne_nil_of_length_pos (hlength ▸ hlimit))
  have hfirst : first ∈ (scanStep limit t start).1 := hvisited ▸ List.mem_cons_self
  exact (mem_of_mem_scanStep hfirst).2.trans_lt (lt_of_mem_scanStep hfirst h)

end Step

/-! ### A run -/

/-- Where the scan is before each step, over the tables the steps find; none once it is done. -/
def position (limit : ℕ) (tables : ℕ → Table K V) (start : K) : ℕ → Option K
  | 0 => some start
  | n + 1 => (position limit tables start n).bind fun place => (scanStep limit (tables n) place).2

/-- The keys a step visits. -/
def visited (limit : ℕ) (tables : ℕ → Table K V) (start : K) (n : ℕ) : List K :=
  match position limit tables start n with
  | some place => (scanStep limit (tables n) place).1
  | none => []

section Run

variable {limit : ℕ} {tables : ℕ → Table K V} {start : K}

theorem position_succ {n : ℕ} {next : K} (h : position limit tables start (n + 1) = some next) :
    ∃ place, position limit tables start n = some place ∧
      (scanStep limit (tables n) place).2 = some next :=
  Option.bind_eq_some_iff.mp h

/-- The scan only goes forward. -/
theorem position_lt (hlimit : 0 < limit) {i j : ℕ} (hij : i < j) {place later : K}
    (hi : position limit tables start i = some place)
    (hj : position limit tables start j = some later) : place < later := by
  induction j, hij using Nat.le_induction generalizing later with
  | base =>
      obtain ⟨before, hbefore, hstep⟩ := position_succ hj
      obtain rfl := Option.some.inj (hi.symm.trans hbefore)
      exact lt_scanStep hlimit hstep
  | succ j _ ih =>
      obtain ⟨before, hbefore, hstep⟩ := position_succ hj
      exact (ih hbefore).trans (lt_scanStep hlimit hstep)

theorem mem_visited {n : ℕ} {key : K} : key ∈ visited limit tables start n ↔
    ∃ place, position limit tables start n = some place ∧
      key ∈ (scanStep limit (tables n) place).1 := by
  rw [visited]
  cases position limit tables start n with
  | none => simp
  | some place => simp

theorem nodup_visited {n : ℕ} : (visited limit tables start n).Nodup := by
  rw [visited]
  cases position limit tables start n with
  | none => exact List.nodup_nil
  | some place => exact nodup_scanStep

/-- No key is visited in two steps. -/
theorem visited_once (hlimit : 0 < limit) {i j : ℕ} {key : K}
    (hi : key ∈ visited limit tables start i) (hj : key ∈ visited limit tables start j) :
    i = j := by
  have hapart {i j : ℕ} (hi : key ∈ visited limit tables start i)
      (hj : key ∈ visited limit tables start j) :
      ¬i < j := by
    intro hij
    obtain ⟨place, hplace, hkey⟩ := mem_visited.mp hi
    obtain ⟨later, hlater, hkey'⟩ := mem_visited.mp hj
    obtain ⟨next, hnext⟩ : ∃ next, (scanStep limit (tables i) place).2 = some next := by
      cases hstep : (scanStep limit (tables i) place).2 with
      | some next => exact ⟨next, rfl⟩
      | none =>
          have hdone (n : ℕ) : position limit tables start (i + 1 + n) = none := by
            induction n with
            | zero => rw [Nat.add_zero, position, hplace, Option.bind_some, hstep]
            | succ n ih => rw [← Nat.add_assoc, position, ih, Option.bind_none]
          obtain ⟨n, rfl⟩ := Nat.exists_eq_add_of_le hij
          rw [Nat.succ_eq_add_one, hdone n] at hlater
          cases hlater
    have hposition : position limit tables start (i + 1) = some next := by
      rw [position, hplace, Option.bind_some, hnext]
    have hlt := lt_of_mem_scanStep hkey hnext
    have hle := (mem_of_mem_scanStep hkey').2
    rcases Nat.lt_or_eq_of_le (Nat.succ_le_of_lt hij) with hlt' | heq
    · exact absurd (hlt.trans (position_lt hlimit hlt' hposition hlater)) hle.not_gt
    · rw [← heq] at hlater
      rw [Option.some.inj (hposition.symm.trans hlater)] at hlt
      exact absurd hlt hle.not_gt
  exact Nat.le_antisymm (not_lt.mp (hapart hj hi)) (not_lt.mp (hapart hi hj))

/-- A key that each step until its own finds is visited before the scan is done. -/
theorem exists_visited {m : ℕ} (hdone : position limit tables start (m + 1) = none) {key : K}
    (hstart : start ≤ key) (hkey : ∀ n ≤ m, (∀ j < n, key ∉ visited limit tables start j) →
      key ∈ (tables n).keys) :
    ∃ n ≤ m, key ∈ visited limit tables start n := by
  have hahead : ∀ n ≤ m + 1, (∃ j < n, key ∈ visited limit tables start j) ∨
      ∃ place, position limit tables start n = some place ∧ place ≤ key := by
    intro n
    induction n with
    | zero => exact fun _ => .inr ⟨start, rfl, hstart⟩
    | succ n ih =>
        intro hn
        rcases ih (by omega) with ⟨j, hj, hvisited⟩ | ⟨place, hplace, hle⟩
        · exact .inl ⟨j, by omega, hvisited⟩
        by_cases hbefore : ∃ j < n, key ∈ visited limit tables start j
        · obtain ⟨j, hj, hvisited⟩ := hbefore
          exact .inl ⟨j, by omega, hvisited⟩
        have hpresent := hkey n (by omega) fun j hj hvisited => hbefore ⟨j, hj, hvisited⟩
        by_cases hnow : key ∈ (scanStep limit (tables n) place).1
        · exact .inl ⟨n, by omega, mem_visited.mpr ⟨place, hplace, hnow⟩⟩
        · refine .inr ?_
          by_contra hpast
          refine hnow (mem_scanStep hpresent hle fun next hnext => ?_)
          by_contra hge
          refine hpast ⟨next, ?_, not_lt.mp hge⟩
          rw [position, hplace, Option.bind_some, hnext]
  rcases hahead (m + 1) le_rfl with ⟨j, hj, hvisited⟩ | ⟨place, hplace, -⟩
  · exact ⟨j, by omega, hvisited⟩
  · rw [hdone] at hplace
    cases hplace

/-- Each step but the last visits as many keys as it may, none of them again. -/
theorem steps_le (hlimit : 0 < limit) (keys : Finset K)
    (hkeys : ∀ n place, position limit tables start n = some place →
      ∀ key ∈ (tables n).keys, key ∈ keys) {n : ℕ}
    {place : K} (h : position limit tables start n = some place) :
    n * limit ≤ (keys.filter (· < place)).card := by
  induction n generalizing place with
  | zero => rw [Nat.zero_mul]; exact Nat.zero_le _
  | succ n ih =>
      obtain ⟨before, hbefore, hstep⟩ := position_succ h
      have hlength := length_scanStep hstep
      have hnodup : (scanStep limit (tables n) before).1.Nodup := nodup_scanStep
      have hcard := List.toFinset_card_of_nodup hnodup
      have hdisjoint : Disjoint (keys.filter (· < before))
          (scanStep limit (tables n) before).1.toFinset := by
        rw [Finset.disjoint_left]
        intro key hkey hvisited
        exact absurd (Finset.mem_filter.mp hkey).2
          (mem_of_mem_scanStep (List.mem_toFinset.mp hvisited)).2.not_gt
      have hsubset : keys.filter (· < before) ∪ (scanStep limit (tables n) before).1.toFinset ⊆
          keys.filter (· < place) := by
        intro key hkey
        rcases Finset.mem_union.mp hkey with hkey | hkey
        · obtain ⟨hmem, hlt⟩ := Finset.mem_filter.mp hkey
          exact Finset.mem_filter.mpr ⟨hmem, hlt.trans (lt_scanStep hlimit hstep)⟩
        · have hvisited := List.mem_toFinset.mp hkey
          exact Finset.mem_filter.mpr
            ⟨hkeys n before hbefore key (mem_of_mem_scanStep hvisited).1,
              lt_of_mem_scanStep hvisited hstep⟩
      have hle := Finset.card_le_card hsubset
      rw [Finset.card_union_of_disjoint hdisjoint, hcard, hlength] at hle
      have hbeforeLe := ih hbefore
      rw [Nat.succ_mul]
      omega

/-- The scan is done after as many steps as the keys it may find take. -/
theorem position_eq_none (hlimit : 0 < limit) (keys : Finset K)
    (hkeys : ∀ n place, position limit tables start n = some place →
      ∀ key ∈ (tables n).keys, key ∈ keys) :
    position limit tables start (keys.card / limit + 1) = none := by
  cases h : position limit tables start (keys.card / limit + 1) with
  | none => rfl
  | some place =>
      have hsteps := steps_le hlimit keys hkeys h
      have hle := Finset.card_le_card (Finset.filter_subset (· < place) keys)
      have hdiv := Nat.lt_div_mul_add hlimit (a := keys.card)
      rw [Nat.succ_mul] at hsteps
      omega

end Run

end MonitoringAgent.Library

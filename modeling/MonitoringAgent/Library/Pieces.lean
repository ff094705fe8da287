import Mathlib.Tactic

/-! # Lists cut into pieces

`chunks(n)` of a slice: pieces of `n` elements, the last one possibly shorter. -/

namespace MonitoringAgent.Library

variable {α β : Type}

/-- The pieces of `n` elements of a list. -/
def pieces (n : ℕ) (l : List α) : List (List α) :=
  (List.range ((l.length + n - 1) / n)).map fun i => (l.drop (i * n)).take n

theorem length_pieces (n : ℕ) (l : List α) : (pieces n l).length = (l.length + n - 1) / n := by
  rw [pieces, List.length_map, List.length_range]

theorem getElem?_pieces {n : ℕ} (hn : 0 < n) (l : List α) (i : ℕ) :
    (pieces n l)[i]? = if i * n < l.length then some ((l.drop (i * n)).take n) else none := by
  have hcount : i < (l.length + n - 1) / n ↔ i * n < l.length := by
    rw [Nat.lt_div_iff_mul_lt hn]
    omega
  rw [pieces, List.getElem?_map]
  split_ifs with hi
  · rw [List.getElem?_range (hcount.mpr hi)]
    rfl
  · rw [List.getElem?_eq_none (by simpa using Nat.not_lt.mp fun h => hi (hcount.mp h))]
    rfl

/-- A piece is not empty. -/
theorem piece_ne_nil {n : ℕ} (hn : 0 < n) {l piece : List α} (h : piece ∈ pieces n l) :
    piece ≠ [] := by
  obtain ⟨i, hi⟩ := List.getElem?_of_mem h
  rw [getElem?_pieces hn] at hi
  split_ifs at hi with hlt
  obtain rfl := Option.some.inj hi
  intro hnil
  have hlength := congrArg List.length hnil
  rw [List.length_take, List.length_drop, List.length_nil] at hlength
  omega

theorem pieces_map (n : ℕ) (l : List α) (f : α → β) :
    pieces n (l.map f) = (pieces n l).map (List.map f) := by
  rw [pieces, pieces, List.map_map, List.length_map]
  refine List.map_congr_left fun i _ => ?_
  rw [Function.comp_apply, List.map_take, List.map_drop]

theorem flatten_pieces {n : ℕ} (hn : 0 < n) (l : List α) : (pieces n l).flatten = l := by
  suffices h : ∀ k, ((List.range k).map fun i => (l.drop (i * n)).take n).flatten =
      l.take (k * n) by
    rw [pieces, h, List.take_of_length_le]
    have hdiv := Nat.lt_div_mul_add (a := l.length + n - 1) hn
    omega
  intro k
  induction k with
  | zero => simp
  | succ k ih =>
      rw [List.range_succ, List.map_append, List.flatten_append, ih, List.map_singleton,
        List.flatten_singleton, Nat.succ_mul, ← List.take_add]

/-- A search that passes over what holds nothing misses nothing. -/
theorem flatMap_filter_of_nil {l : List α} {p : α → Bool} {f : α → List β}
    (h : ∀ a ∈ l, ¬p a = true → f a = []) : (l.filter p).flatMap f = l.flatMap f := by
  induction l with
  | nil => rfl
  | cons a l ih =>
      have hrest := ih fun b hb => h b (List.mem_cons_of_mem a hb)
      rw [List.filter_cons, List.flatMap_cons]
      split_ifs with hp
      · rw [List.flatMap_cons, hrest]
      · rw [hrest, h a List.mem_cons_self hp, List.nil_append]

/-! ### Records of one width -/

section Records

variable {f : α → List β} {w : ℕ}

theorem length_flatMap_const (hw : ∀ a, (f a).length = w) (l : List α) :
    (l.flatMap f).length = l.length * w := by
  induction l with
  | nil => simp
  | cons a l ih =>
      rw [List.flatMap_cons, List.length_append, hw, ih, List.length_cons]
      ring

theorem drop_flatMap_const (hw : ∀ a, (f a).length = w) (l : List α) (k : ℕ) :
    (l.flatMap f).drop (k * w) = (l.drop k).flatMap f := by
  induction k generalizing l with
  | zero => simp
  | succ k ih =>
      cases l with
      | nil => simp
      | cons a l =>
          rw [List.flatMap_cons, List.drop_succ_cons, ← ih, Nat.succ_mul, Nat.add_comm,
            ← List.drop_drop, List.drop_left' (hw a)]

theorem take_flatMap_const (hw : ∀ a, (f a).length = w) (l : List α) (k : ℕ) :
    (l.flatMap f).take (k * w) = (l.take k).flatMap f := by
  induction k generalizing l with
  | zero => simp
  | succ k ih =>
      cases l with
      | nil => simp
      | cons a l =>
          rw [List.flatMap_cons, List.take_succ_cons, List.flatMap_cons, ← ih, Nat.succ_mul,
            List.take_append, hw, Nat.add_sub_cancel, List.take_of_length_le (by rw [hw]; omega)]

/-- Bytes of `n` records a piece are the pieces of `n` records. -/
theorem pieces_flatMap {n : ℕ} (hn : 0 < n) (hw : ∀ a, (f a).length = w)
    (hpos : 0 < w) (l : List α) :
    pieces (n * w) (l.flatMap f) = (pieces n l).map (List.flatMap f) := by
  refine List.ext_getElem? fun i => ?_
  rw [getElem?_pieces (Nat.mul_pos hn hpos), List.getElem?_map, getElem?_pieces hn,
    length_flatMap_const hw, ← Nat.mul_assoc, drop_flatMap_const hw, take_flatMap_const hw]
  have hlt : i * n * w < l.length * w ↔ i * n < l.length := Nat.mul_lt_mul_right hpos
  split_ifs with h1 h2 h2
  · rfl
  · exact absurd (hlt.mp h1) h2
  · exact absurd (hlt.mpr h2) h1
  · rfl

/-- Bytes cut at the width are the records' own. -/
theorem pieces_flatMap_one (hw : ∀ a, (f a).length = w) (hpos : 0 < w) (l : List α) :
    pieces w (l.flatMap f) = l.map f := by
  have hone : pieces 1 l = l.map fun a => [a] := by
    refine List.ext_getElem? fun i => ?_
    rw [getElem?_pieces one_pos, List.getElem?_map, Nat.mul_one]
    split_ifs with hlt
    · rw [List.getElem?_eq_getElem hlt, Option.map_some, List.drop_eq_getElem_cons hlt]
      rfl
    · rw [List.getElem?_eq_none (not_lt.mp hlt)]
      rfl
  have hcut := pieces_flatMap one_pos hw hpos l
  rw [Nat.one_mul, hone, List.map_map] at hcut
  rw [hcut]
  refine List.map_congr_left fun a _ => ?_
  rw [Function.comp_apply, List.flatMap_singleton]

end Records

end MonitoringAgent.Library

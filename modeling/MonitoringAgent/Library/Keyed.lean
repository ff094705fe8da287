import Mathlib.Tactic

/-! # Keyed lists and loops over keys

The items of one key in a list of keyed items, and loops whose rounds each touch the part of
the state that belongs to one key. -/

namespace MonitoringAgent.Library

variable {κ α β σ ι : Type*} [DecidableEq κ] [DecidableEq ι]

/-! ### The items of one key -/

/-- The items listed under `key`, in order. -/
def select (items : List (κ × α)) (key : κ) : List α :=
  items.filterMap fun (k, a) => if k = key then some a else none

@[simp] theorem select_nil (key : κ) : select ([] : List (κ × α)) key = [] := rfl

@[simp] theorem select_append (xs ys : List (κ × α)) (key : κ) :
    select (xs ++ ys) key = select xs key ++ select ys key := by
  simp [select]

theorem select_cons (k : κ) (a : α) (xs : List (κ × α)) (key : κ) :
    select ((k, a) :: xs) key = if k = key then a :: select xs key else select xs key := by
  rw [select, List.filterMap_cons]
  split_ifs with h
  · simp [h, select]
  · simp [h, select]

theorem mem_select {items : List (κ × α)} {key : κ} {a : α} :
    a ∈ select items key ↔ (key, a) ∈ items := by
  simp only [select, List.mem_filterMap, Prod.exists, Option.ite_none_right_eq_some,
    Option.some.injEq]
  exact ⟨fun ⟨k, b, hmem, hk, hb⟩ => hk ▸ hb ▸ hmem, fun h => ⟨key, a, h, rfl, rfl⟩⟩

theorem select_map_pair (key other : κ) (xs : List α) :
    select (xs.map fun a => (key, a)) other = if key = other then xs else [] := by
  induction xs with
  | nil => simp
  | cons a xs ih =>
      rw [List.map_cons, select_cons, ih]
      split_ifs with h
      · rfl
      · rfl

theorem select_sublist {xs ys : List (κ × α)} (h : xs.Sublist ys) (key : κ) :
    (select xs key).Sublist (select ys key) :=
  h.filterMap _

/-! ### Loops over distinct keys -/

/-- A loop over distinct keys changes what belongs to `key` in its own round only. -/
theorem foldl_view {step : σ → ι → σ} {view : σ → β} {P : σ → Prop} {key : ι} {before after : β}
    (hkeep : ∀ s k, P s → P (step s k))
    (hother : ∀ s k, P s → k ≠ key → view (step s k) = view s)
    (hself : ∀ s, P s → view s = before → view (step s key) = after)
    {keys : List ι} (hnodup : keys.Nodup) {s : σ} (hs : P s) (hview : view s = before) :
    view (keys.foldl step s) = if key ∈ keys then after else before := by
  -- Once the round of `key` is over, no later round touches it.
  have hdone : ∀ (keys : List ι) (s : σ), P s → key ∉ keys → view (keys.foldl step s) = view s := by
    intro keys
    induction keys with
    | nil => intro s _ _; rfl
    | cons k keys ih =>
        intro s hs hmem
        rw [List.mem_cons, not_or] at hmem
        rw [List.foldl_cons, ih _ (hkeep s k hs) hmem.2, hother s k hs (Ne.symm hmem.1)]
  induction keys generalizing s with
  | nil => simpa using hview
  | cons k keys ih =>
      rw [List.nodup_cons] at hnodup
      rw [List.foldl_cons]
      by_cases hk : k = key
      · subst hk
        rw [hdone keys _ (hkeep s k hs) hnodup.1, hself s hs hview]
        simp
      · rw [ih hnodup.2 (hkeep s k hs) ((hother s k hs hk).trans hview)]
        simp [Ne.symm hk]

end MonitoringAgent.Library

import Mathlib.Tactic

/-! # Bounded queues

A list that holds at most so many items, the oldest dropped first, and the first item of each key it
was given. -/

namespace MonitoringAgent.Library

variable {α κ : Type*}

/-- Pushes onto a list that holds at most `max` items; past that, the oldest is dropped. -/
def pushBounded (max : ℕ) (held : List α) (item : α) : List α :=
  (if held.length = max then held.drop 1 else held) ++ [item]

theorem pushBounded_of_ne {max : ℕ} {held : List α} (h : held.length ≠ max) (item : α) :
    pushBounded max held item = held ++ [item] := by
  rw [pushBounded, if_neg h]

theorem pushBounded_of_eq {max : ℕ} {held : List α} (h : held.length = max) (item : α) :
    pushBounded max held item = held.drop 1 ++ [item] := by
  rw [pushBounded, if_pos h]

theorem length_pushBounded_le {max : ℕ} (hmax : 0 < max) {held : List α}
    (h : held.length ≤ max) (item : α) : (pushBounded max held item).length ≤ max := by
  by_cases hfull : held.length = max
  · rw [pushBounded_of_eq hfull]
    simp
    omega
  · rw [pushBounded_of_ne hfull]
    simp
    omega

theorem mem_pushBounded {max : ℕ} {held : List α} {item x : α} (h : x ∈ pushBounded max held item) :
    x ∈ held ∨ x = item := by
  by_cases hfull : held.length = max
  · rw [pushBounded_of_eq hfull, List.mem_append, List.mem_singleton] at h
    exact h.imp_left List.mem_of_mem_drop
  · rw [pushBounded_of_ne hfull, List.mem_append, List.mem_singleton] at h
    exact h

/-! ### The first of each key -/

variable [DecidableEq κ]

/-- Notes an item unless one of its key is held. -/
def noteFirst (key : α → κ) (held : List α) (item : α) : List α :=
  if held.any (key · = key item) then held else held ++ [item]

/-- The first item of each key, in order. -/
def firstOfEach (key : α → κ) (items : List α) : List α := items.foldl (noteFirst key) []

/-- Notes an item unless one of its key is held, in a list of at most `max`. -/
def noteBounded (max : ℕ) (key : α → κ) (held : List α) (item : α) : List α :=
  if held.any (key · = key item) then held else pushBounded max held item

variable {key : α → κ} {max : ℕ} {held items : List α}

theorem any_key_iff (item : α) : held.any (key · = key item) = true ↔ key item ∈ held.map key := by
  simp

theorem firstOfEach_append (items : List α) (item : α) :
    firstOfEach key (items ++ [item]) = noteFirst key (firstOfEach key items) item := by
  rw [firstOfEach, List.foldl_append]
  rfl

theorem mem_firstOfEach_keys (items : List α) (k : κ) :
    k ∈ (firstOfEach key items).map key ↔ k ∈ items.map key := by
  induction items using List.reverseRecOn with
  | nil => rfl
  | append_singleton items item ih =>
      rw [firstOfEach_append, noteFirst]
      split_ifs with hheld
      · rw [ih, List.map_append, List.mem_append]
        refine ⟨.inl, ?_⟩
        rintro (hk | hk)
        · exact hk
        · rw [List.map_singleton, List.mem_singleton] at hk
          exact ih.mp (hk ▸ (any_key_iff item).mp hheld)
      · rw [List.map_append, List.mem_append, ih, List.map_append, List.mem_append]

/-- What a bounded list of firsts holds of the items it was given: the first of each key while they
fit, and as many of them as fit past that. -/
structure HoldsFirsts (max : ℕ) (key : α → κ) (items held : List α) : Prop where
  nodup : (held.map key).Nodup
  length_le : held.length ≤ max
  subset : ∀ item ∈ held, key item ∈ items.map key
  eq_firsts : (firstOfEach key items).length ≤ max → held = firstOfEach key items
  full : max < (firstOfEach key items).length → held.length = max

theorem holdsFirsts_nil : HoldsFirsts max key [] [] where
  nodup := List.nodup_nil
  length_le := Nat.zero_le _
  subset _ h := absurd h List.not_mem_nil
  eq_firsts _ := rfl
  full h := absurd h (Nat.not_lt_zero _)

theorem nodup_noteBounded (h : (held.map key).Nodup) (item : α) :
    ((noteBounded max key held item).map key).Nodup := by
  rw [noteBounded]
  split_ifs with hheld
  · exact h
  rw [any_key_iff] at hheld
  by_cases hfull : held.length = max
  · rw [pushBounded_of_eq hfull, List.map_append, List.map_singleton, List.map_drop]
    refine List.Nodup.append (h.sublist (List.drop_sublist _ _)) (List.nodup_singleton _) ?_
    rw [List.disjoint_singleton]
    exact fun hmem => hheld (List.mem_of_mem_drop hmem)
  · rw [pushBounded_of_ne hfull, List.map_append, List.map_singleton]
    refine List.Nodup.append h (List.nodup_singleton _) ?_
    rw [List.disjoint_singleton]
    exact hheld

/-- Noting an item keeps what a bounded list of firsts holds. -/
theorem HoldsFirsts.note (hmax : 0 < max) (h : HoldsFirsts max key items held) (item : α) :
    HoldsFirsts max key (items ++ [item]) (noteBounded max key held item) where
  nodup := nodup_noteBounded h.nodup item
  length_le := by
    rw [noteBounded]
    split_ifs
    · exact h.length_le
    · exact length_pushBounded_le hmax h.length_le item
  subset x hx := by
    rw [List.map_append, List.mem_append]
    rw [noteBounded] at hx
    split_ifs at hx
    · exact .inl (h.subset x hx)
    · obtain hx | rfl := mem_pushBounded hx
      · exact .inl (h.subset x hx)
      · exact .inr (List.mem_singleton_self _)
  eq_firsts hfit := by
    rw [firstOfEach_append] at hfit ⊢
    have hle : (firstOfEach key items).length ≤
        (noteFirst key (firstOfEach key items) item).length := by
      rw [noteFirst]
      split_ifs
      · exact le_rfl
      · simp
    have heq := h.eq_firsts (hle.trans hfit)
    rw [noteBounded, heq]
    rw [noteFirst] at hfit ⊢
    split_ifs at hfit ⊢ with hheld
    · rfl
    · refine pushBounded_of_ne ?_ item
      simp at hfit
      omega
  full hover := by
    rw [firstOfEach_append, noteFirst] at hover
    by_cases hbefore : max < (firstOfEach key items).length
    · have hfull := h.full hbefore
      rw [noteBounded]
      split_ifs
      · exact hfull
      · rw [pushBounded_of_eq hfull]
        simp
        omega
    · have heq := h.eq_firsts (Nat.le_of_not_lt hbefore)
      rw [noteBounded, heq]
      split_ifs at hover ⊢ with hheld
      · exact absurd hover hbefore
      · have hfull : (firstOfEach key items).length = max := by
          simp at hover
          omega
        rw [pushBounded_of_eq hfull]
        simp
        omega

theorem HoldsFirsts.notes (hmax : 0 < max) (h : HoldsFirsts max key items held) (more : List α) :
    HoldsFirsts max key (items ++ more) (more.foldl (noteBounded max key) held) := by
  induction more generalizing items held with
  | nil => simpa using h
  | cons item more ih =>
      rw [List.append_cons]
      exact ih (h.note hmax item)

/-! ### What stays held -/

theorem noteBounded_keys {item x : α} (h : x ∈ noteBounded max key held item) :
    x ∈ held ∨ x = item := by
  rw [noteBounded] at h
  split_ifs at h
  · exact .inl h
  · exact mem_pushBounded h

theorem foldl_noteBounded_keys {more : List α} {x : α}
    (h : x ∈ more.foldl (noteBounded max key) held) : x ∈ held ∨ x ∈ more := by
  induction more generalizing held with
  | nil => exact .inl h
  | cons item more ih =>
      obtain hx | hx := ih h
      · refine (noteBounded_keys hx).imp_right ?_
        rintro rfl
        exact List.mem_cons_self
      · exact .inr (List.mem_cons_of_mem item hx)

/-- What is held stays while fewer come after it than fit. -/
theorem mem_foldl_noteBounded {more before after : List α} {x : α}
    (hlen : after.length + more.length < max) :
    x ∈ more.foldl (noteBounded max key) (before ++ x :: after) := by
  induction more generalizing before after with
  | nil => exact List.mem_append_right _ List.mem_cons_self
  | cons item more ih =>
      rw [List.length_cons] at hlen
      rw [List.foldl_cons, noteBounded]
      split_ifs
      · exact ih (by omega)
      by_cases hfull : (before ++ x :: after).length = max
      · rw [pushBounded_of_eq hfull]
        cases before with
        | nil =>
            simp at hfull
            omega
        | cons first before =>
            rw [List.cons_append, List.drop_succ_cons, List.drop_zero,
              List.append_assoc, List.cons_append]
            exact ih (by simp; omega)
      · rw [pushBounded_of_ne hfull, List.append_assoc, List.cons_append]
        exact ih (by simp; omega)

/-- A new key is held after a batch of items that fits. -/
theorem mem_keys_foldl_noteBounded {more : List α} {k : κ} (hfit : more.length ≤ max)
    (hnew : k ∉ held.map key) (hmem : k ∈ more.map key) :
    k ∈ (more.foldl (noteBounded max key) held).map key := by
  induction more generalizing held with
  | nil => cases hmem
  | cons item more ih =>
      rw [List.length_cons] at hfit
      rw [List.foldl_cons]
      by_cases hk : key item = k
      · rw [← hk] at hnew ⊢
        rw [noteBounded, if_neg (by rwa [any_key_iff]), pushBounded]
        exact List.mem_map_of_mem (mem_foldl_noteBounded (by simp; omega))
      · refine ih (by omega) ?_ ?_
        · intro hin
          obtain ⟨x, hx, hkey⟩ := List.mem_map.mp hin
          obtain hheld | rfl := noteBounded_keys hx
          · exact hnew (List.mem_map.mpr ⟨x, hheld, hkey⟩)
          · exact hk hkey
        · rw [List.map_cons, List.mem_cons] at hmem
          exact hmem.resolve_left fun heq => hk heq.symm

/-- Distinct keys are their own firsts. -/
theorem firstOfEach_of_nodup {items : List α} (h : (items.map key).Nodup) :
    firstOfEach key items = items := by
  induction items using List.reverseRecOn with
  | nil => rfl
  | append_singleton items item ih =>
      rw [List.map_append, List.nodup_append] at h
      obtain ⟨hitems, -, hdistinct⟩ := h
      rw [firstOfEach_append, ih hitems, noteFirst, if_neg]
      rw [any_key_iff]
      exact fun hmem => hdistinct _ hmem _ List.mem_cons_self rfl

theorem holdsFirsts_of_nodup (h : (held.map key).Nodup) (hlen : held.length ≤ max) :
    HoldsFirsts max key held held where
  nodup := h
  length_le := hlen
  subset item hitem := List.mem_map_of_mem hitem
  eq_firsts _ := (firstOfEach_of_nodup h).symm
  full hover := absurd hlen (by rw [firstOfEach_of_nodup h] at hover; omega)

end MonitoringAgent.Library

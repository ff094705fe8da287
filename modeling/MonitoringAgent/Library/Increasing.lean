import Mathlib.Data.List.Range
import Mathlib.Data.Finset.Card
import Mathlib.Order.Interval.Finset.Nat

/-! # Strictly increasing lists of numbers -/

namespace MonitoringAgent.Library

variable {α : Type}

/-- A list whose ranks strictly increase inside a window of `width` numbers is no longer
than the window. -/
theorem length_le_of_window {rank : α → ℕ} {xs : List α} (start : ℕ) {width : ℕ}
    (hinc : xs.Pairwise fun x y => rank x < rank y)
    (hwin : ∀ x ∈ xs, start ≤ rank x ∧ rank x < start + width) : xs.length ≤ width := by
  have hnodup : (xs.map rank).Nodup := by
    rw [List.nodup_iff_pairwise_ne, List.pairwise_map]
    exact hinc.imp fun h => Nat.ne_of_lt h
  have hsub : (xs.map rank).toFinset ⊆ Finset.Ico start (start + width) := by
    intro n hn
    obtain ⟨x, hx, rfl⟩ := List.mem_map.mp (List.mem_toFinset.mp hn)
    exact Finset.mem_Ico.mpr (hwin x hx)
  have hcard := Finset.card_le_card hsub
  rw [List.toFinset_card_of_nodup hnodup, List.length_map, Nat.card_Ico] at hcard
  omega

/-- Lists in strict order are equal when they hold the same items. -/
theorem eq_of_increasing {β : Type*} {r : β → β → Prop} [IsStrictOrder β r] {xs ys : List β}
    (hx : xs.Pairwise r) (hy : ys.Pairwise r) (h : ∀ a, a ∈ xs ↔ a ∈ ys) : xs = ys := by
  have hnodup : ∀ {zs : List β}, zs.Pairwise r → zs.Nodup := by
    intro zs hz
    refine hz.imp ?_
    intro a b hab heq
    exact irrefl_of r b (heq ▸ hab)
  exact List.Perm.eq_of_pairwise (fun a b _ _ hab hba => absurd hab (asymm_of r hba)) hx hy
    ((List.perm_ext_iff_of_nodup (hnodup hx) (hnodup hy)).mpr h)

/-! ### Keeping only later items -/

/-- Appends an item whose rank is past the last one's, and drops any other. -/
def absorb (rank : α → ℕ) (kept : List α) (x : α) : List α :=
  if kept.getLast?.any (rank x ≤ rank ·) then kept else kept ++ [x]

theorem absorb_of_mem {rank : α → ℕ} {kept : List α} {x : α}
    (hinc : kept.Pairwise fun x y => rank x < rank y) (hx : x ∈ kept) :
    absorb rank kept x = kept := by
  obtain ⟨last, hlast⟩ : ∃ last, kept.getLast? = some last :=
    ⟨_, List.getLast?_eq_some_getLast (List.ne_nil_of_mem hx)⟩
  obtain ⟨front, rfl⟩ := List.getLast?_eq_some_iff.mp hlast
  have hle : rank x ≤ rank last := by
    rcases List.mem_append.mp hx with hx | hx
    · exact ((List.pairwise_append.mp hinc).2.2 x hx last (by simp)).le
    · rw [List.mem_singleton.mp hx]
  simp [absorb, hle]

theorem absorb_of_lt {rank : α → ℕ} {kept : List α} {x : α} (hx : ∀ y ∈ kept, rank y < rank x) :
    absorb rank kept x = kept ++ [x] := by
  rw [absorb, if_neg]
  simp only [Option.any_eq_true, decide_eq_true_eq, not_exists, not_and, not_le]
  intro last hlast
  exact hx last (List.mem_of_getLast? hlast)

theorem prefix_foldl_absorb (rank : α → ℕ) (offered kept : List α) :
    kept <+: offered.foldl (absorb rank) kept := by
  induction offered generalizing kept with
  | nil => exact List.prefix_refl _
  | cons x offered ih =>
      refine List.IsPrefix.trans ?_ (ih (absorb rank kept x))
      rw [absorb]
      split_ifs
      · exact List.prefix_refl _
      · exact List.prefix_append _ _

/-- Offering a part of an increasing list that holds all of its end to its beginning gives
the whole list: what the beginning holds already is dropped, the rest is appended once. -/
theorem foldl_absorb {rank : α → ℕ} {offered kept rest : List α}
    (hinc : (kept ++ rest).Pairwise fun x y => rank x < rank y)
    (hsub : offered.Sublist (kept ++ rest)) (hrest : ∀ x ∈ rest, x ∈ offered) :
    offered.foldl (absorb rank) kept = kept ++ rest := by
  induction offered generalizing kept rest with
  | nil => simp_all [List.eq_nil_iff_forall_not_mem]
  | cons x offered ih =>
      have hofferedInc := hinc.sublist hsub
      rw [List.pairwise_cons] at hofferedInc
      have hsub' : offered.Sublist (kept ++ rest) := (List.sublist_cons_self _ _).trans hsub
      obtain ⟨hkeptInc, hrestInc, hcross⟩ := List.pairwise_append.mp hinc
      rw [List.foldl_cons]
      rcases List.mem_append.mp (hsub.subset List.mem_cons_self) with hx | hx
      · rw [absorb_of_mem hkeptInc hx]
        refine ih hinc hsub' fun y hy => ?_
        rcases List.mem_cons.mp (hrest y hy) with rfl | hy'
        · exact absurd (hcross y hx y hy) (lt_irrefl _)
        · exact hy'
      · -- Everything of `rest` is still to be offered, so `x` comes first in it.
        cases rest with
        | nil => cases hx
        | cons z rest =>
            have hz : z = x := by
              rcases List.mem_cons.mp (hrest z List.mem_cons_self) with hz | hz
              · exact hz
              · rcases List.mem_cons.mp hx with hx | hx
                · exact hx.symm
                · have h1 := hofferedInc.1 z hz
                  have h2 := (List.pairwise_cons.mp hrestInc).1 x hx
                  omega
            subst hz
            rw [absorb_of_lt fun y hy => hcross y hy z List.mem_cons_self]
            have happend : kept ++ z :: rest = kept ++ [z] ++ rest := by simp
            rw [happend] at hinc hsub' ⊢
            refine ih hinc hsub' fun y hy => ?_
            rcases List.mem_cons.mp (hrest y (List.mem_cons_of_mem _ hy)) with rfl | hy'
            · exact absurd ((List.pairwise_cons.mp hrestInc).1 y hy) (lt_irrefl _)
            · exact hy'

end MonitoringAgent.Library

import Mathlib.Data.List.Lex
import Mathlib.Tactic

/-! # Lexicographic order

What starts with the same list is together in the order, and the first of two lists that differ
decides it. -/

namespace MonitoringAgent.Library

variable {α : Type*} [LinearOrder α]

theorem cons_le_cons_iff {a b : α} {s t : List α} : a :: s ≤ b :: t ↔ a < b ∨ a = b ∧ s ≤ t := by
  rw [le_iff_lt_or_eq, le_iff_lt_or_eq, List.cons_lt_cons_iff, List.cons.injEq]
  tauto

/-- Between two lists with a common start, every list has it. -/
theorem isPrefix_of_between {start a b x : List α} (ha : start <+: a) (hb : start <+: b)
    (hax : a ≤ x) (hxb : x ≤ b) : start <+: x := by
  induction start generalizing a b x with
  | nil => exact List.nil_prefix
  | cons c start ih =>
      obtain ⟨a, rfl⟩ := ha
      obtain ⟨b, rfl⟩ := hb
      cases x with
      | nil => exact absurd hax (by simp)
      | cons d x =>
          rw [List.cons_append, cons_le_cons_iff] at hax hxb
          rcases hax with hcd | ⟨rfl, hax⟩
          · rcases hxb with hdc | ⟨rfl, -⟩
            · exact absurd hdc (lt_asymm hcd)
            · exact absurd hcd (lt_irrefl _)
          · rcases hxb with hlt | ⟨-, hxb⟩
            · exact absurd hlt (lt_irrefl _)
            · exact List.cons_prefix_cons.mpr ⟨rfl, ih (List.prefix_append _ _)
                (List.prefix_append _ _) hax hxb⟩

end MonitoringAgent.Library

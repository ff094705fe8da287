import Mathlib.Tactic

/-! # Fallible computations -/

namespace MonitoringAgent.Library

variable {ε α β : Type}

@[simp] theorem except_ok_bind (a : α) (f : α → Except ε β) : (Except.ok a >>= f) = f a := rfl

/-- A computation that succeeds succeeded at its first part, and then at the rest. -/
theorem except_bind_eq_ok {x : Except ε α} {f : α → Except ε β} {b : β} :
    (x >>= f) = .ok b ↔ ∃ a, x = .ok a ∧ f a = .ok b := by
  cases x with
  | error e =>
      constructor
      · intro h
        cases h
      · rintro ⟨a, ⟨⟩, -⟩
  | ok a =>
      constructor
      · intro h
        exact ⟨a, rfl, h⟩
      · rintro ⟨a, ⟨⟩, h⟩
        exact h

/-- A loop whose steps all succeed. -/
theorem except_mapM_ok {f : α → Except ε β} {g : α → β} {l : List α}
    (h : ∀ a ∈ l, f a = .ok (g a)) : l.mapM f = .ok (l.map g) := by
  induction l with
  | nil => rfl
  | cons a l ih =>
      rw [List.mapM_cons, h a List.mem_cons_self, except_ok_bind,
        ih fun b hb => h b (List.mem_cons_of_mem a hb)]
      rfl

/-- A loop whose steps all succeed with what they are to. -/
theorem except_mapM_forall₂ {f : α → Except ε β} {R : α → β → Prop} {l : List α}
    (h : ∀ a ∈ l, ∃ b, f a = .ok b ∧ R a b) : ∃ out, l.mapM f = .ok out ∧ List.Forall₂ R l out := by
  induction l with
  | nil => exact ⟨[], rfl, .nil⟩
  | cons a l ih =>
      obtain ⟨b, hb, hab⟩ := h a List.mem_cons_self
      obtain ⟨out, hout, hall⟩ := ih fun c hc => h c (List.mem_cons_of_mem a hc)
      refine ⟨b :: out, ?_, .cons hab hall⟩
      rw [List.mapM_cons, hb, except_ok_bind, hout]
      rfl

theorem except_mapM_congr {f g : α → Except ε β} {l : List α} (h : ∀ a ∈ l, f a = g a) :
    l.mapM f = l.mapM g := by
  induction l with
  | nil => rfl
  | cons a l ih =>
      rw [List.mapM_cons, List.mapM_cons, h a List.mem_cons_self,
        ih fun b hb => h b (List.mem_cons_of_mem a hb)]

/-- A loop whose steps succeed, or fail where `P` holds: where it holds of some step, the loop fails
at the first one. -/
theorem except_mapM_error {f : α → Except ε β} {g : α → ε} {P : α → Prop} {l : List α}
    (h : ∀ a ∈ l, (¬P a ∧ ∃ b, f a = .ok b) ∨ P a ∧ f a = .error (g a)) (hsome : ∃ a ∈ l, P a) :
    ∃ a ∈ l, P a ∧ l.mapM f = .error (g a) := by
  induction l with
  | nil =>
      obtain ⟨a, hmem, -⟩ := hsome
      cases hmem
  | cons a l ih =>
      rw [List.mapM_cons]
      obtain ⟨hnot, b, hb⟩ | ⟨hpos, herror⟩ := h a List.mem_cons_self
      · obtain ⟨c, hmem, hc⟩ := hsome
        obtain rfl | hmem := List.mem_cons.mp hmem
        · exact absurd hc hnot
        · obtain ⟨d, hd, hpos, herror⟩ :=
            ih (fun e he => h e (List.mem_cons_of_mem a he)) ⟨c, hmem, hc⟩
          refine ⟨d, List.mem_cons_of_mem a hd, hpos, ?_⟩
          rw [hb, except_ok_bind, herror]
          rfl
      · refine ⟨a, List.mem_cons_self, hpos, ?_⟩
        rw [herror]
        rfl

/-- A loop that succeeds succeeded at each of its steps. -/
theorem except_mapM_eq_ok {f : α → Except ε β} {g : α → β} {l : List α} {out : List β}
    (hg : ∀ a b, f a = .ok b → b = g a) (h : l.mapM f = .ok out) :
    out = l.map g ∧ ∀ a ∈ l, f a = .ok (g a) := by
  induction l generalizing out with
  | nil =>
      cases h
      exact ⟨rfl, by simp⟩
  | cons a l ih =>
      rw [List.mapM_cons] at h
      obtain ⟨b, hb, h⟩ := except_bind_eq_ok.mp h
      obtain ⟨rest, hrest, h⟩ := except_bind_eq_ok.mp h
      cases h
      obtain ⟨rfl, hall⟩ := ih hrest
      obtain rfl := hg a b hb
      exact ⟨rfl, List.forall_mem_cons.mpr ⟨hb, hall⟩⟩

/-- What every step of a loop keeps holds of what the loop ends with. -/
theorem except_foldlM_inv {step : β → α → Except ε β} {P : β → Prop} {l : List α}
    (hstep : ∀ b b' a, P b → step b a = .ok b' → P b') {b b' : β} (h : P b)
    (hrun : l.foldlM step b = .ok b') : P b' := by
  induction l generalizing b with
  | nil =>
      cases hrun
      exact h
  | cons a l ih =>
      rw [List.foldlM_cons] at hrun
      obtain ⟨next, hnext, hrun⟩ := except_bind_eq_ok.mp hrun
      exact ih (hstep b next a h hnext) hrun

end MonitoringAgent.Library

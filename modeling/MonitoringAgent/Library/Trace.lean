import Mathlib.Data.List.Infix

/-! # Logs read from the start

What holds of every entry of a log, given the entries before it. -/

namespace MonitoringAgent.Library

variable {α : Type*} {P Q : List α → α → Prop} {log : List α} {x : α}

/-- `P` holds of every entry, given the ones before it. -/
def Throughout (P : List α → α → Prop) (log : List α) : Prop :=
  ∀ past entry, past ++ [entry] <+: log → P past entry

theorem throughout_nil : Throughout P [] := by
  intro past entry h
  exact absurd (List.prefix_nil.mp h) (by simp)

theorem throughout_concat : Throughout P (log ++ [x]) ↔ Throughout P log ∧ P log x := by
  constructor
  · intro h
    refine ⟨fun past entry hpast => h past entry (hpast.trans (List.prefix_append log [x])),
      h log x List.prefix_rfl⟩
  · rintro ⟨hlog, hx⟩ past entry hpast
    rcases List.prefix_concat_iff.mp hpast with heq | hpast
    · obtain ⟨rfl, hentry⟩ := List.append_inj' heq rfl
      obtain rfl := List.head_eq_of_cons_eq hentry
      exact hx
    · exact hlog past entry hpast

/-- An entry of a log with one more is the last one, or is followed by it. -/
theorem eq_concat_cases {before after : List α} {entry : α}
    (h : log ++ [x] = before ++ entry :: after) :
    (before = log ∧ entry = x ∧ after = []) ∨ ∃ rest, after = rest ++ [x] ∧
      log = before ++ entry :: rest := by
  rcases List.eq_nil_or_concat after with rfl | ⟨rest, last, rfl⟩
  · obtain ⟨rfl, hentry⟩ := List.append_inj' h rfl
    exact .inl ⟨rfl, (List.head_eq_of_cons_eq hentry).symm, rfl⟩
  · rw [List.concat_eq_append, ← List.cons_append, ← List.append_assoc] at h
    obtain ⟨rfl, hlast⟩ := List.append_inj' h rfl
    obtain rfl := List.head_eq_of_cons_eq hlast
    exact .inr ⟨rest, List.concat_eq_append, rfl⟩

/-- What demands an entry right after it has one, and it fits. -/
def Followed (demands : α → Bool) (Fits : α → α → Prop) (log : List α) : Prop :=
  ∀ before entry after, log = before ++ entry :: after → demands entry = true →
    ∃ next rest, after = next :: rest ∧ Fits entry next

variable {demands : α → Bool} {Fits : α → α → Prop}

theorem followed_of_forall (h : ∀ entry ∈ log, demands entry = false) :
    Followed demands Fits log := by
  intro before entry after hsplit hdemands
  rw [h entry (by simp [hsplit])] at hdemands
  cases hdemands

theorem Followed.append {more : List α} (hlog : Followed demands Fits log)
    (hmore : Followed demands Fits more) : Followed demands Fits (log ++ more) := by
  intro before entry after hsplit hdemands
  rcases List.append_eq_append_iff.mp hsplit with ⟨before', -, heq⟩ | ⟨rest, heq, hrest⟩
  · exact hmore before' entry after heq hdemands
  · cases rest with
    | nil => exact hmore [] entry after hrest.symm hdemands
    | cons first rest =>
        obtain ⟨rfl, rfl⟩ := List.cons.inj hrest
        obtain ⟨next, rest', rfl, hfits⟩ := hlog before entry rest heq hdemands
        exact ⟨next, rest' ++ more, rfl, hfits⟩

theorem Followed.cons {entry next : α} (hfits : Fits entry next)
    (hlog : Followed demands Fits (next :: log)) :
    Followed demands Fits (entry :: next :: log) := by
  intro before demanding after hsplit hdemands
  cases before with
  | nil =>
      obtain ⟨rfl, rfl⟩ := List.cons.inj hsplit
      exact ⟨next, log, rfl, hfits⟩
  | cons first before => exact hlog before demanding after (List.cons.inj hsplit).2 hdemands

theorem Followed.cons_quiet {entry : α} (hquiet : demands entry = false)
    (hlog : Followed demands Fits log) : Followed demands Fits (entry :: log) := by
  intro before demanding after hsplit hdemands
  cases before with
  | nil =>
      obtain ⟨rfl, -⟩ := List.cons.inj hsplit
      rw [hquiet] at hdemands
      cases hdemands
  | cons first before => exact hlog before demanding after (List.cons.inj hsplit).2 hdemands

end MonitoringAgent.Library

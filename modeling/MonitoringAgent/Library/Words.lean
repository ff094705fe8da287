import Mathlib.Data.List.Basic

/-! # Text in words

The words of a text are what stands between its breaks. -/

namespace MonitoringAgent.Library

variable {α : Type*} {p : α → Bool}

/-- The words of the text, none of them empty. -/
def words (p : α → Bool) (text : List α) : List (List α) := (text.splitOnP p).filter (· ≠ [])

@[simp] theorem words_nil : words p [] = [] := by
  rw [words, List.splitOnP_nil]
  rfl

/-- A break ends a word. -/
theorem words_append_cons {sep : α} (hsep : p sep = true) (text rest : List α) :
    words p (text ++ sep :: rest) = words p text ++ words p rest := by
  rw [words, List.splitOnP_append_cons text rest hsep, List.filter_append]
  rfl

theorem words_eq_singleton {text : List α} (hne : text ≠ []) (h : ∀ c ∈ text, p c = false) :
    words p text = [text] := by
  rw [words, List.splitOnP_eq_singleton h, List.filter_cons_of_pos (by simpa using hne)]
  rfl

theorem words_cons_ne_nil {c : α} (h : p c = false) (text : List α) : words p (c :: text) ≠ [] := by
  obtain ⟨first, rest, hsplit⟩ := List.exists_cons_of_ne_nil (List.splitOnP_ne_nil p text)
  rw [words, List.splitOnP_cons_eq_if_modifyHead, h, if_neg Bool.false_ne_true, hsplit,
    List.modifyHead_cons, List.filter_cons_of_pos (by simp)]
  exact List.cons_ne_nil _ _

/-- Texts joined by a break have their words in turn. -/
theorem words_intercalate {sep : α} (hsep : p sep = true) (texts : List (List α)) :
    words p ([sep].intercalate texts) = texts.flatMap (words p) := by
  induction texts with
  | nil => exact words_nil
  | cons text texts ih =>
      cases texts with
      | nil => simp
      | cons next texts =>
          rw [List.intercalate_cons_cons, List.append_assoc, List.singleton_append,
            words_append_cons hsep, ih]
          rfl

theorem mem_intercalate {sep c : α} {texts : List (List α)} (h : c ∈ [sep].intercalate texts) :
    c = sep ∨ ∃ text ∈ texts, c ∈ text := by
  induction texts with
  | nil => cases h
  | cons text texts ih =>
      cases texts with
      | nil =>
          rw [List.intercalate_singleton] at h
          exact .inr ⟨text, List.mem_cons_self, h⟩
      | cons next texts =>
          rw [List.intercalate_cons_cons, List.mem_append, List.mem_append, List.mem_singleton] at h
          rcases h with (h | rfl) | h
          · exact .inr ⟨text, List.mem_cons_self, h⟩
          · exact .inl rfl
          · refine (ih h).imp_right ?_
            rintro ⟨other, hother, hc⟩
            exact ⟨other, List.mem_cons_of_mem text hother, hc⟩

/-- A word holds no break, and nothing the text doesn't hold. -/
theorem mem_words {text word : List α} (h : word ∈ words p text) :
    word ≠ [] ∧ ∀ c ∈ word, p c = false ∧ c ∈ text := by
  rw [words, List.mem_filter, decide_eq_true_eq] at h
  refine ⟨h.2, ?_⟩
  have hpieces : ∀ text : List α, ∀ word ∈ text.splitOnP p, ∀ c ∈ word, p c = false ∧ c ∈ text := by
    intro text
    induction text with
    | nil =>
        intro word hword c hc
        rw [List.splitOnP_nil, List.mem_singleton] at hword
        subst hword
        cases hc
    | cons d text ih =>
        intro word hword c hc
        rw [List.splitOnP_cons_eq_if_modifyHead] at hword
        split_ifs at hword with hd
        · rcases List.mem_cons.mp hword with rfl | hword
          · cases hc
          · exact ⟨(ih word hword c hc).1, List.mem_cons_of_mem d (ih word hword c hc).2⟩
        · obtain ⟨first, rest, hsplit⟩ := List.exists_cons_of_ne_nil (List.splitOnP_ne_nil p text)
          rw [hsplit] at hword ih
          rw [List.modifyHead_cons] at hword
          rcases List.mem_cons.mp hword with rfl | hword
          · rcases List.mem_cons.mp hc with rfl | hc
            · exact ⟨Bool.not_eq_true _ ▸ hd, List.mem_cons_self⟩
            · have hfirst := ih first List.mem_cons_self c hc
              exact ⟨hfirst.1, List.mem_cons_of_mem d hfirst.2⟩
          · have hrest := ih word (List.mem_cons_of_mem first hword) c hc
            exact ⟨hrest.1, List.mem_cons_of_mem d hrest.2⟩
  exact hpieces text word h.1

/-! ### Escapes -/

/-- What holds no break goes on with the first piece. -/
theorem splitOnP_append {text : List α} (h : ∀ c ∈ text, p c = false) (rest : List α) :
    (text ++ rest).splitOnP p = (rest.splitOnP p).modifyHead (text ++ ·) := by
  induction text with
  | nil =>
      obtain ⟨first, pieces, hsplit⟩ := List.exists_cons_of_ne_nil (List.splitOnP_ne_nil p rest)
      rw [List.nil_append, hsplit]
      rfl
  | cons c text ih =>
      rw [List.cons_append, List.splitOnP_cons_eq_if_modifyHead, h c List.mem_cons_self,
        ih fun d hd => h d (List.mem_cons_of_mem c hd), if_neg Bool.false_ne_true,
          List.modifyHead_modifyHead]
      rfl

/-- Escaping every break but those of `q` leaves the words between those. -/
theorem words_flatMap {β : Type*} {q : β → Bool} {escape : β → List α}
    (hbreak : ∀ c, q c = true → ∃ sep, escape c = [sep] ∧ p sep = true)
    (hescape : ∀ c, q c = false → escape c ≠ [] ∧ ∀ d ∈ escape c, p d = false) (text : List β) :
    words p (text.flatMap escape) = (words q text).map fun word => word.flatMap escape := by
  have hsplit : (text.flatMap escape).splitOnP p = (text.splitOnP q).map fun word =>
      word.flatMap escape := by
    induction text with
    | nil => rfl
    | cons c text ih =>
        rw [List.flatMap_cons, List.splitOnP_cons_eq_if_modifyHead]
        split_ifs with hc
        · obtain ⟨sep, hsep, hp⟩ := hbreak c hc
          rw [hsep, List.singleton_append, List.splitOnP_cons_eq_if_modifyHead, if_pos hp, ih]
          rfl
        · obtain ⟨first, pieces, hpieces⟩ := List.exists_cons_of_ne_nil
            (List.splitOnP_ne_nil q text)
          rw [splitOnP_append (hescape c (Bool.not_eq_true _ ▸ hc)).2, ih, hpieces]
          rfl
  have hempty (word : List β) : word.flatMap escape ≠ [] ↔ word ≠ [] := by
    cases word with
    | nil => simp
    | cons c word =>
        rw [List.flatMap_cons]
        cases hc : q c with
        | true =>
            obtain ⟨sep, hsep, -⟩ := hbreak c hc
            simp [hsep]
        | false => simp [(hescape c hc).1]
  rw [words, hsplit, words, List.filter_map]
  congr 1
  exact List.filter_congr fun word _ => decide_eq_decide.mpr (hempty word)

end MonitoringAgent.Library

import Mathlib.Data.List.TakeWhile
import MonitoringAgent.Model.Agent.Cgroup

/-! # The cgroup mount as the kernel wrote it

The kernel escapes a space, a tab, a line feed and a backslash; the reader cuts fields at every
whitespace Unicode has. What it makes of a mount whose paths hold other whitespace is what is left
of them. -/

namespace MonitoringAgent.Agent.Cgroup

open MonitoringAgent.Library

/-! ### Slices -/

theorem splitBytes_byteLength (before after : List Char) :
    splitBytes (byteLength before) (before ++ after) = some (before, after) := by
  induction before with
  | nil => cases after <;> rfl
  | cons c before ih =>
      have hpos := c.utf8Size_pos
      obtain ⟨n, hn⟩ := Nat.exists_eq_succ_of_ne_zero
        (Nat.pos_iff_ne_zero.mp (Nat.add_pos_left hpos (byteLength before)))
      have hlength : byteLength (c :: before) = c.utf8Size + byteLength before := rfl
      rw [hlength, hn, List.cons_append, splitBytes, if_pos (by omega)]
      have hrest : n + 1 - c.utf8Size = byteLength before := by omega
      rw [hrest, ih]
      rfl

/-- Past a boundary, offsets count from it. -/
theorem splitBytes_add {m n : ℕ} {text before after : List Char}
    (h : splitBytes m text = some (before, after)) :
    splitBytes (m + n) text = (splitBytes n after).map fun parts =>
      (before ++ parts.1, parts.2) := by
  induction text generalizing m before with
  | nil =>
      cases m with
      | zero =>
          obtain ⟨rfl, rfl⟩ := Prod.mk.inj (Option.some.inj h)
          rw [Nat.zero_add]
          cases splitBytes n [] <;> rfl
      | succ m => cases h
  | cons c text ih =>
      cases m with
      | zero =>
          obtain ⟨rfl, rfl⟩ := Prod.mk.inj (Option.some.inj h)
          rw [Nat.zero_add]
          cases splitBytes n (c :: text) <;> rfl
      | succ m =>
          rw [splitBytes] at h
          split_ifs at h with hc
          obtain ⟨parts, hparts, heq⟩ := Option.map_eq_some_iff.mp h
          obtain ⟨rfl, rfl⟩ := Prod.mk.inj heq
          have hleft : m + n + 1 - c.utf8Size = m + 1 - c.utf8Size + n := by omega
          rw [Nat.add_right_comm, splitBytes, if_pos (by omega), hleft, ih hparts, Option.map_map]
          rfl

/-! ### Octal escapes -/

/-- What is before the first backslash, and what is from it on. -/
theorem eq_append_backslash {text : List Char} (h : '\\' ∈ text) :
    ∃ after, text = text.takeWhile (· ≠ '\\') ++ '\\' :: after := by
  have hdrop : text.dropWhile (· ≠ '\\') ≠ [] := by
    intro hnil
    have hall := List.dropWhile_eq_nil_iff.mp hnil '\\' h
    simp at hall
  obtain ⟨c, after, hcons⟩ := List.exists_cons_of_ne_nil hdrop
  have hc := List.head_dropWhile_not (· ≠ '\\') hdrop
  have hhead : c = '\\' := by
    simp only [hcons, List.head_cons] at hc
    simpa using hc
  subst hhead
  exact ⟨after, by rw [← hcons, List.takeWhile_append_dropWhile]⟩

/-- A turn of the loop: its slices are between characters. -/
theorem unescapeMountinfo_backslash {before : List Char} (h : '\\' ∉ before) (after : List Char) :
    unescapeMountinfo (before ++ '\\' :: after) =
      match (splitBytes 3 after).bind fun parts => (fromStrRadix8 parts.1).map fun byte =>
        (byte, parts.2) with
      | some (byte, rest) => (unescapeMountinfo rest).map (before ++ Char.ofNat byte :: ·)
      | none => (unescapeMountinfo after).map (before ++ '\\' :: ·) := by
  have hplain : ∀ c ∈ before, decide (c ≠ '\\') = true := by
    intro c hc
    rw [decide_eq_true_eq]
    rintro rfl
    exact h hc
  have hbefore : (before ++ '\\' :: after).takeWhile (· ≠ '\\') = before := by
    rw [List.takeWhile_append_of_pos hplain, List.takeWhile_cons_of_neg (by simp), List.append_nil]
  have hone : splitBytes 1 ('\\' :: after) = some (['\\'], after) := by cases after <;> rfl
  have hnext : splitBytes (byteLength before + 1) (before ++ '\\' :: after) =
      some (before ++ ['\\'], after) := by
    rw [splitBytes_add (splitBytes_byteLength before _), hone]
    rfl
  have hget : getBytes (before ++ '\\' :: after) (byteLength before + 1) (byteLength before + 4) =
      (splitBytes 3 after).map Prod.fst := by
    rw [getBytes, hnext, Nat.add_sub_add_left]
    rfl
  rw [unescapeMountinfo, if_pos (List.mem_append_right _ List.mem_cons_self)]
  dsimp only
  rw [hbefore, hget]
  cases hbyte : ((splitBytes 3 after).map Prod.fst).bind fromStrRadix8 with
  | none =>
      have hescape : ((splitBytes 3 after).bind fun parts => (fromStrRadix8 parts.1).map
          fun byte => (byte, parts.2)) =
          none := by
        cases hthree : splitBytes 3 after with
        | none => rfl
        | some parts =>
            rw [hthree, Option.map_some, Option.bind_some] at hbyte
            rw [Option.bind_some, hbyte]
            rfl
      rw [hescape]
      dsimp only
      split
      · next parts hparts =>
          rw [hnext] at hparts
          cases hparts
          rfl
      · next hnone =>
          rw [hnext] at hnone
          cases hnone
  | some byte =>
      obtain ⟨octal, hoctal, hvalue⟩ := Option.bind_eq_some_iff.mp hbyte
      obtain ⟨⟨digits, rest⟩, hthree, rfl⟩ := Option.map_eq_some_iff.mp hoctal
      have hfour : splitBytes (byteLength before + 4) (before ++ '\\' :: after) =
          some (before ++ ['\\'] ++ digits, rest) := by
        rw [splitBytes_add (m := byteLength before + 1) (n := 3) hnext, hthree]
        rfl
      rw [hthree, Option.bind_some, hvalue]
      dsimp only [Option.map_some]
      split
      · next parts hparts =>
          rw [hfour] at hparts
          cases hparts
          rfl
      · next hnone =>
          rw [hfour] at hnone
          cases hnone

/-- The loop slices between characters only. -/
theorem unescapeMountinfo_ok (text : List Char) : ∃ out, unescapeMountinfo text = .ok out := by
  induction hn : text.length using Nat.strong_induction_on generalizing text with
  | _ n ih =>
      by_cases hmem : '\\' ∈ text
      · obtain ⟨after, hafter⟩ := eq_append_backslash hmem
        have hbefore : '\\' ∉ text.takeWhile (· ≠ '\\') := by
          intro h
          simpa using List.mem_takeWhile_imp h
        have hlength : after.length < n := by
          rw [← hn, hafter, List.length_append, List.length_cons]
          omega
        rw [hafter, unescapeMountinfo_backslash hbefore]
        cases hescape : (splitBytes 3 after).bind fun parts => (fromStrRadix8 parts.1).map
          fun byte => (byte, parts.2) with
        | none =>
            obtain ⟨out, hout⟩ := ih after.length hlength after rfl
            exact ⟨_, by rw [hout]; rfl⟩
        | some parts =>
            obtain ⟨⟨octal, rest⟩, hthree, hparts⟩ := Option.bind_eq_some_iff.mp hescape
            obtain ⟨byte, -, rfl⟩ := Option.map_eq_some_iff.mp hparts
            obtain ⟨out, hout⟩ := ih rest.length
              ((splitBytes_shorter hthree).trans hlength) rest rfl
            exact ⟨_, by dsimp only; rw [hout]; rfl⟩
      · exact ⟨text, by rw [unescapeMountinfo, if_neg hmem]⟩

theorem unescapeMountinfo_cons {c : Char} (h : c ≠ '\\') (text : List Char) :
    unescapeMountinfo (c :: text) = (unescapeMountinfo text).map (c :: ·) := by
  by_cases hmem : '\\' ∈ text
  · obtain ⟨after, hafter⟩ := eq_append_backslash hmem
    have hbefore : '\\' ∉ text.takeWhile (· ≠ '\\') := by
      intro h
      simpa using List.mem_takeWhile_imp h
    have hcons : '\\' ∉ c :: text.takeWhile (· ≠ '\\') :=
      List.not_mem_cons_of_ne_of_not_mem h.symm hbefore
    rw [hafter, ← List.cons_append]
    generalize text.takeWhile (· ≠ '\\') = before at hbefore hcons
    rw [unescapeMountinfo_backslash hcons, unescapeMountinfo_backslash hbefore]
    cases (splitBytes 3 after).bind fun parts => (fromStrRadix8 parts.1).map fun byte =>
      (byte, parts.2) with
    | none => cases unescapeMountinfo after <;> rfl
    | some parts => cases hrest : unescapeMountinfo parts.2 <;> simp [hrest, Except.map]
  · rw [unescapeMountinfo, if_neg (List.not_mem_cons_of_ne_of_not_mem h.symm hmem),
      unescapeMountinfo, if_neg hmem]
    rfl

/-! ### What the kernel writes -/

/-- A character as the kernel writes it in a path. -/
def escapeChar (c : Char) : List Char :=
  if c = ' ' then ['\\', '0', '4', '0']
  else if c = '\t' then ['\\', '0', '1', '1']
  else if c = '\n' then ['\\', '0', '1', '2']
  else if c = '\\' then ['\\', '1', '3', '4']
  else [c]

def escape (text : List Char) : List Char := text.flatMap escapeChar

/-- An escape reads back as the character of its octal digits. -/
theorem unescapeMountinfo_octal (octal : List Char) {byte : ℕ} (text : List Char)
    (hlength : byteLength octal = 3) (hbyte : fromStrRadix8 octal = some byte) :
    unescapeMountinfo ('\\' :: octal ++ text) = (unescapeMountinfo text).map
      (Char.ofNat byte :: ·) := by
  have hsplit := splitBytes_byteLength octal text
  rw [hlength] at hsplit
  have hturn := unescapeMountinfo_backslash (List.not_mem_nil (a := '\\')) (octal ++ text)
  rw [hsplit, Option.bind_some, hbyte] at hturn
  exact hturn

theorem unescapeMountinfo_escapeChar (c : Char) (text : List Char) :
    unescapeMountinfo (escapeChar c ++ text) = (unescapeMountinfo text).map (c :: ·) := by
  rw [escapeChar]
  split_ifs with hspace htab hfeed hbackslash
  · subst hspace
    exact unescapeMountinfo_octal ['0', '4', '0'] text (by decide) (by decide)
  · subst htab
    exact unescapeMountinfo_octal ['0', '1', '1'] text (by decide) (by decide)
  · subst hfeed
    exact unescapeMountinfo_octal ['0', '1', '2'] text (by decide) (by decide)
  · subst hbackslash
    exact unescapeMountinfo_octal ['1', '3', '4'] text (by decide) (by decide)
  · exact unescapeMountinfo_cons hbackslash text

/-- Every text reads back as the kernel escaped it. -/
theorem unescapeMountinfo_escape (text : List Char) :
    unescapeMountinfo (escape text) = .ok text := by
  induction text with
  | nil =>
      rw [escape, List.flatMap_nil, unescapeMountinfo, if_neg List.not_mem_nil]
  | cons c text ih =>
      rw [escape, List.flatMap_cons, unescapeMountinfo_escapeChar, ← escape, ih]
      rfl

end MonitoringAgent.Agent.Cgroup

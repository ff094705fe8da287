import Mathlib.Tactic

/-! # Text in lines

A line ends at a line feed, which it doesn't hold, nor a carriage return right before it; text after
the last line feed is a line of its own. -/

namespace MonitoringAgent.Library

/-- The line without a carriage return at its end. -/
def stripReturn (line : List Char) :
    List Char := if line.getLast? = some '\r' then line.dropLast else line

/-- The lines of the text, the first of which starts with `read`. -/
def linesFrom (read : List Char) : List Char → List (List Char)
  | [] => if read = [] then [] else [read]
  | c :: rest => if c = '\n' then stripReturn read :: linesFrom [] rest
      else linesFrom (read ++ [c]) rest

def lines (text : List Char) : List (List Char) := linesFrom [] text

theorem stripReturn_eq_self {line : List Char} (h : line.getLast? ≠ some '\r') :
    stripReturn line = line := if_neg h

/-- What ends a line after a character that is no carriage return. -/
theorem stripReturn_append {c : Char} (hc : c ≠ '\r') (before after : List Char) :
    stripReturn (before ++ c :: after) = before ++ c :: stripReturn after := by
  cases after with
  | nil => exact stripReturn_eq_self (by simpa using hc)
  | cons d after =>
      have hlast : (before ++ c :: d :: after).getLast? = (d :: after).getLast? := by
        rw [List.getLast?_append_cons, List.getLast?_cons_cons]
      rw [stripReturn, stripReturn, hlast]
      split_ifs
      · rw [List.dropLast_append_cons, List.dropLast_cons_cons]
      · rfl

theorem linesFrom_append {line : List Char} (h : '\n' ∉ line) (read rest : List Char) :
    linesFrom read (line ++ '\n' :: rest) = stripReturn (read ++ line) :: linesFrom [] rest := by
  induction line generalizing read with
  | nil => rw [List.nil_append, linesFrom, if_pos rfl, List.append_nil]
  | cons c line ih =>
      rw [List.mem_cons, not_or] at h
      rw [List.cons_append, linesFrom, if_neg (Ne.symm h.1), ih h.2, List.append_assoc,
        List.singleton_append]

/-- Texts that hold no line feed, each with its line feed, are the lines of the whole, but for a
carriage return at their end. -/
theorem lines_flatMap_strip {ls : List (List Char)} (h : ∀ line ∈ ls, '\n' ∉ line) :
    lines (ls.flatMap (· ++ ['\n'])) = ls.map stripReturn := by
  induction ls with
  | nil => rfl
  | cons line ls ih =>
      rw [lines, List.flatMap_cons, List.append_assoc, List.singleton_append,
        linesFrom_append (h line List.mem_cons_self), List.nil_append]
      exact congrArg (stripReturn line :: ·)
        (ih fun other hother => h other (List.mem_cons_of_mem line hother))

/-- Lines that hold no line feed and end in no carriage return, each with its line feed, are the
lines of the whole. -/
theorem lines_flatMap {ls : List (List Char)}
    (h : ∀ line ∈ ls, '\n' ∉ line ∧ line.getLast? ≠ some '\r') :
    lines (ls.flatMap (· ++ ['\n'])) = ls := by
  rw [lines_flatMap_strip fun line hline => (h line hline).1]
  calc ls.map stripReturn = ls.map id := List.map_congr_left fun line hline =>
    stripReturn_eq_self (h line hline).2
    _ = ls := List.map_id ls

end MonitoringAgent.Library

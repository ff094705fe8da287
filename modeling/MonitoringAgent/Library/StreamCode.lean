import Mathlib.Data.List.Basic

/-! # Codes that depend on what came before

A list of items coded one after another, each item's code depending on a state that the
items before it left: the shape of delta and delta-of-delta encoders. -/

namespace MonitoringAgent.Library

variable {σ α β : Type}

/-- The codes of `items` in order, the first one's at state `s`. -/
def emit (next : σ → α → σ) (code : σ → α → List β) : σ → List α → List β
  | _, [] => []
  | s, a :: items => code s a ++ emit next code (next s a) items

/-- Every item satisfies `ok` at the state it is coded in. -/
def AllFrom (next : σ → α → σ) (ok : σ → α → Prop) : σ → List α → Prop
  | _, [] => True
  | s, a :: items => ok s a ∧ AllFrom next ok (next s a) items

variable {next : σ → α → σ} {code : σ → α → List β} {ok : σ → α → Prop}

theorem emit_append (s : σ) (xs ys : List α) :
    emit next code s (xs ++ ys) = emit next code s xs ++ emit next code (xs.foldl next s) ys := by
  induction xs generalizing s with
  | nil => rfl
  | cons a xs ih => simp [emit, ih]

theorem emit_concat (s : σ) (xs : List α) (a : α) :
    emit next code s (xs ++ [a]) = emit next code s xs ++ code (xs.foldl next s) a := by
  simp [emit_append, emit]

theorem allFrom_concat (s : σ) (xs : List α) (a : α) :
    AllFrom next ok s (xs ++ [a]) ↔ AllFrom next ok s xs ∧ ok (xs.foldl next s) a := by
  induction xs generalizing s with
  | nil => simp [AllFrom]
  | cons b xs ih => simp [AllFrom, ih, and_assoc]

end MonitoringAgent.Library

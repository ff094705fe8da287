import MonitoringAgent.Library.Except

/-! # Checked machine arithmetic

A computation over machine words ends with a value, with an error of its own, or with a panic:
an operation given operands it has no result for. A checked computation that keeps to a plain
one never panics. -/

namespace MonitoringAgent.Library

variable {ε α β : Type}

/-- How a computation ends without a value. -/
inductive Stop (ε : Type) where
  /-- An operation outside its domain. -/
  | panic
  /-- An error the computation returns. -/
  | refused (e : ε)
  deriving DecidableEq, Repr

/-! ### The operations -/

/-- `a + b` on words of `w` bits. -/
def addWord (w a b : ℕ) : Except (Stop ε) ℕ :=
  if a + b < 2 ^ w then .ok (a + b) else .error .panic

/-- `a * b` on words of `w` bits. -/
def mulWord (w a b : ℕ) : Except (Stop ε) ℕ :=
  if a * b < 2 ^ w then .ok (a * b) else .error .panic

/-- `a - b` on unsigned words. -/
def subWord (a b : ℕ) : Except (Stop ε) ℕ :=
  if b ≤ a then .ok (a - b) else .error .panic

/-- `a + b` on signed words of `w + 1` bits. -/
def addInt (w : ℕ) (a b : ℤ) : Except (Stop ε) ℤ :=
  if -2 ^ w ≤ a + b ∧ a + b < 2 ^ w then .ok (a + b) else .error .panic

/-- `a - b` on signed words of `w + 1` bits. -/
def subInt (w : ℕ) (a b : ℤ) : Except (Stop ε) ℤ :=
  if -2 ^ w ≤ a - b ∧ a - b < 2 ^ w then .ok (a - b) else .error .panic

/-- `a * b` on signed words of `w + 1` bits. -/
def mulInt (w : ℕ) (a b : ℤ) : Except (Stop ε) ℤ :=
  if -2 ^ w ≤ a * b ∧ a * b < 2 ^ w then .ok (a * b) else .error .panic

/-- `a / b` on signed words of `w + 1` bits, truncated. -/
def divInt (w : ℕ) (a b : ℤ) : Except (Stop ε) ℤ :=
  if b ≠ 0 ∧ a.tdiv b < 2 ^ w then .ok (a.tdiv b) else .error .panic

/-- `a.clamp(low, high)`. -/
def clampInt (a low high : ℤ) : Except (Stop ε) ℤ :=
  if low ≤ high then .ok (max low (min a high)) else .error .panic

/-- `a << n` on words of `w` bits; the bits shifted out are lost. -/
def shlWord (w a n : ℕ) : Except (Stop ε) ℕ :=
  if n < w then .ok ((a <<< n) % 2 ^ w) else .error .panic

/-- `a >> n` on words of `w` bits. -/
def shrWord (w a n : ℕ) : Except (Stop ε) ℕ :=
  if n < w then .ok (a >>> n) else .error .panic

/-- `xs[i]`. -/
def indexed (xs : List α) (i : ℕ) : Except (Stop ε) α :=
  match xs[i]? with
  | some x => .ok x
  | none => .error .panic

/-- `&xs[i..]`. -/
def sliceFrom (xs : List α) (i : ℕ) : Except (Stop ε) (List α) :=
  if i ≤ xs.length then .ok (xs.drop i) else .error .panic

/-- `&xs[..i]`. -/
def sliceTo (xs : List α) (i : ℕ) : Except (Stop ε) (List α) :=
  if i ≤ xs.length then .ok (xs.take i) else .error .panic

theorem addWord_eq {w a b : ℕ} (h : a + b < 2 ^ w) :
    (addWord w a b : Except (Stop ε) ℕ) = .ok (a + b) :=
  if_pos h

theorem mulWord_eq {w a b : ℕ} (h : a * b < 2 ^ w) :
    (mulWord w a b : Except (Stop ε) ℕ) = .ok (a * b) :=
  if_pos h

theorem subWord_eq {a b : ℕ} (h : b ≤ a) : (subWord a b : Except (Stop ε) ℕ) = .ok (a - b) :=
  if_pos h

theorem addInt_eq {w : ℕ} {a b : ℤ} (h : -2 ^ w ≤ a + b ∧ a + b < 2 ^ w) :
    (addInt w a b : Except (Stop ε) ℤ) = .ok (a + b) :=
  if_pos h

theorem subInt_eq {w : ℕ} {a b : ℤ} (h : -2 ^ w ≤ a - b ∧ a - b < 2 ^ w) :
    (subInt w a b : Except (Stop ε) ℤ) = .ok (a - b) :=
  if_pos h

theorem mulInt_eq {w : ℕ} {a b : ℤ} (h : -2 ^ w ≤ a * b ∧ a * b < 2 ^ w) :
    (mulInt w a b : Except (Stop ε) ℤ) = .ok (a * b) :=
  if_pos h

theorem divInt_eq {w : ℕ} {a b : ℤ} (h : b ≠ 0 ∧ a.tdiv b < 2 ^ w) :
    (divInt w a b : Except (Stop ε) ℤ) = .ok (a.tdiv b) :=
  if_pos h

theorem clampInt_eq {a low high : ℤ} (h : low ≤ high) :
    (clampInt a low high : Except (Stop ε) ℤ) = .ok (max low (min a high)) :=
  if_pos h

theorem shlWord_eq {w a n : ℕ} (h : n < w) :
    (shlWord w a n : Except (Stop ε) ℕ) = .ok ((a <<< n) % 2 ^ w) :=
  if_pos h

theorem shrWord_eq {w a n : ℕ} (h : n < w) : (shrWord w a n : Except (Stop ε) ℕ) = .ok (a >>> n) :=
  if_pos h

theorem indexed_eq {xs : List α} {i : ℕ} {x : α} (h : xs[i]? = some x) :
    (indexed xs i : Except (Stop ε) α) = .ok x := by
  rw [indexed, h]

theorem sliceFrom_eq {xs : List α} {i : ℕ} (h : i ≤ xs.length) :
    (sliceFrom xs i : Except (Stop ε) (List α)) = .ok (xs.drop i) :=
  if_pos h

theorem sliceTo_eq {xs : List α} {i : ℕ} (h : i ≤ xs.length) :
    (sliceTo xs i : Except (Stop ε) (List α)) = .ok (xs.take i) :=
  if_pos h

/-! ### Keeping to a plain computation -/

/-- The checked computation ends as the plain one does. -/
def Calm (x : Except (Stop ε) α) (y : Except ε α) : Prop := x = y.mapError .refused

theorem calm_ok (a : α) : Calm (.ok a : Except (Stop ε) α) (.ok a) := rfl

theorem calm_refused (e : ε) : Calm (.error (.refused e) : Except (Stop ε) α) (.error e) := rfl

theorem Calm.bind {x : Except (Stop ε) α} {y : Except ε α} {f : α → Except (Stop ε) β}
    {g : α → Except ε β} (hx : Calm x y) (hf : ∀ a, y = .ok a → Calm (f a) (g a)) :
    Calm (x >>= f) (y >>= g) := by
  rw [Calm] at hx
  subst hx
  cases y with
  | error e => rfl
  | ok a => exact hf a rfl

theorem Calm.ne_panic {x : Except (Stop ε) α} {y : Except ε α} (h : Calm x y) :
    x ≠ .error .panic := by
  rw [Calm] at h
  subst h
  cases y with
  | error e =>
      intro hpanic
      cases Except.error.inj hpanic
  | ok a =>
      intro hpanic
      cases hpanic

/-! ### What a checked computation returns -/

/-- The computation doesn't panic, and what it returns satisfies `P`. -/
def Safe (x : Except (Stop ε) α) (P : α → Prop) : Prop := x ≠ .error .panic ∧ ∀ a, x = .ok a → P a

theorem safe_ok {P : α → Prop} {a : α} (h : P a) : Safe (.ok a : Except (Stop ε) α) P := by
  refine ⟨fun hpanic => ?_, fun b hb => ?_⟩
  · cases hpanic
  · cases hb
    exact h

theorem safe_refused {P : α → Prop} (e : ε) : Safe (.error (.refused e) : Except (Stop ε) α) P := by
  refine ⟨fun hpanic => ?_, fun a ha => ?_⟩
  · cases Except.error.inj hpanic
  · cases ha

theorem Safe.mono {x : Except (Stop ε) α} {P Q : α → Prop} (h : Safe x P)
    (hPQ : ∀ a, P a → Q a) : Safe x Q :=
  ⟨h.1, fun a ha => hPQ a (h.2 a ha)⟩

theorem Safe.bind {x : Except (Stop ε) α} {P : α → Prop} {f : α → Except (Stop ε) β} {Q : β → Prop}
    (hx : Safe x P) (hf : ∀ a, P a → Safe (f a) Q) : Safe (x >>= f) Q := by
  cases x with
  | ok a => exact hf a (hx.2 a rfl)
  | error stop =>
      cases stop with
      | panic => exact absurd rfl hx.1
      | refused e => exact safe_refused e

theorem Calm.safe {x : Except (Stop ε) α} {y : Except ε α} (h : Calm x y) :
    Safe x fun a => y = .ok a := by
  refine ⟨h.ne_panic, fun a ha => ?_⟩
  rw [Calm] at h
  subst h
  cases y with
  | error e => cases ha
  | ok b => exact congrArg Except.ok (Except.ok.inj ha)

/-- A fold whose every step has a result has the result of the plain fold. -/
theorem foldlM_ok {f : β → α → Except ε β} {g : β → α → β} {xs : List α}
    (h : ∀ acc, ∀ x ∈ xs, f acc x = .ok (g acc x)) (acc : β) :
    xs.foldlM f acc = .ok (xs.foldl g acc) := by
  induction xs generalizing acc with
  | nil => rfl
  | cons x xs ih =>
      rw [List.foldlM_cons, h acc x List.mem_cons_self]
      exact ih (fun acc y hy => h acc y (List.mem_cons_of_mem x hy)) (g acc x)

end MonitoringAgent.Library

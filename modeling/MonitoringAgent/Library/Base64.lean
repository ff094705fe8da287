import Mathlib.Tactic

/-! # Base64

The standard alphabet with canonical padding: three bytes are four characters, a last group of one
or two bytes is padded, and the bits the padding stands for are zero. -/

namespace MonitoringAgent.Library.Base64

/-- The character of each six-bit value. -/
def alphabet : List Char :=
  "ABCDEFGHIJKLMNOPQRSTUVWXYZabcdefghijklmnopqrstuvwxyz0123456789+/".toList

/-- The character of a six-bit value. -/
def symbol (n : ℕ) : Char := alphabet.getD n '='

/-- The six-bit value of a character of the alphabet. -/
def value (c : Char) : Option ℕ := alphabet.idxOf? c

def encode : List UInt8 → List Char
  | [] => []
  | [a] =>
      let n := a.toNat * 16
      [symbol (n / 64), symbol (n % 64), '=', '=']
  | [a, b] =>
      let n := (a.toNat * 256 + b.toNat) * 4
      [symbol (n / 4096), symbol (n / 64 % 64), symbol (n % 64), '=']
  | a :: b :: c :: rest =>
      let n := (a.toNat * 256 + b.toNat) * 256 + c.toNat
      symbol (n / 262144) :: symbol (n / 4096 % 64) :: symbol (n / 64 % 64) :: symbol
        (n % 64) :: encode rest

/-- The bytes the characters encode, none when they aren't base64. -/
def decode : List Char → Option (List UInt8)
  | [] => some []
  | a :: b :: c :: d :: rest => do
      let x ← value a
      let y ← value b
      if rest = [] ∧ c = '=' ∧ d = '=' then
        let n := x * 64 + y
        if n % 16 = 0 then some [UInt8.ofNat (n / 16)] else none
      else
        let z ← value c
        if rest = [] ∧ d = '=' then
          let n := (x * 64 + y) * 64 + z
          if n % 4 = 0 then some [UInt8.ofNat (n / 1024), UInt8.ofNat (n / 4 % 256)] else none
        else
          let w ← value d
          let n := ((x * 64 + y) * 64 + z) * 64 + w
          let bytes ← decode rest
          some (UInt8.ofNat (n / 65536) :: UInt8.ofNat (n / 256 % 256) :: UInt8.ofNat
            (n % 256) :: bytes)
  | _ => none

/-! ### The alphabet -/

theorem value_symbol {n : ℕ} (h : n < 64) : value (symbol n) = some n := by
  have hall : ∀ i : Fin 64, value (symbol i) = some i.val := by decide +kernel
  exact hall ⟨n, h⟩

theorem symbol_mem {n : ℕ} (h : n < 64) : symbol n ∈ alphabet := by
  have hall : ∀ i : Fin 64, symbol i ∈ alphabet := by decide +kernel
  exact hall ⟨n, h⟩

theorem symbol_ne_pad {n : ℕ} (h : n < 64) : symbol n ≠ '=' := by
  have hall : ∀ i : Fin 64, symbol i ≠ '=' := by decide +kernel
  exact hall ⟨n, h⟩

/-- Base64 is written in the alphabet and the padding. -/
theorem mem_encode {bytes : List UInt8} {c : Char} (h : c ∈ encode bytes) :
    c ∈ alphabet ∨ c = '=' := by
  fun_induction encode bytes with
  | case1 => cases h
  | case2 a n =>
      have ha := a.toNat_lt
      rw [List.mem_cons, List.mem_cons] at h
      rcases h with rfl | rfl | h
      · exact .inl (symbol_mem (by omega))
      · exact .inl (symbol_mem (by omega))
      · exact .inr (by simpa using h)
  | case3 a b n =>
      have ha := a.toNat_lt
      have hb := b.toNat_lt
      rw [List.mem_cons, List.mem_cons, List.mem_cons] at h
      rcases h with rfl | rfl | rfl | h
      · exact .inl (symbol_mem (by omega))
      · exact .inl (symbol_mem (by omega))
      · exact .inl (symbol_mem (by omega))
      · exact .inr (by simpa using h)
  | case4 a b c rest n ih =>
      have ha := a.toNat_lt
      have hb := b.toNat_lt
      have hc := c.toNat_lt
      rw [List.mem_cons, List.mem_cons, List.mem_cons, List.mem_cons] at h
      rcases h with rfl | rfl | rfl | rfl | h
      · exact .inl (symbol_mem (by omega))
      · exact .inl (symbol_mem (by omega))
      · exact .inl (symbol_mem (by omega))
      · exact .inl (symbol_mem (by omega))
      · exact ih h

/-! ### The round trip -/

theorem ofNat_eq {a : UInt8} {n : ℕ} (h : n = a.toNat) : UInt8.ofNat n = a := by
  rw [h, UInt8.ofNat_toNat]

theorem decode_encode (bytes : List UInt8) : decode (encode bytes) = some bytes := by
  fun_induction encode bytes with
  | case1 => rfl
  | case2 a n =>
      have ha := a.toNat_lt
      have hn : n / 64 * 64 + n % 64 = n := by omega
      have hbyte : UInt8.ofNat (n / 16) = a := ofNat_eq (by omega)
      rw [decode, value_symbol (by omega : n / 64 < 64), value_symbol (by omega : n % 64 < 64)]
      simp only [Option.bind_eq_bind, Option.bind_some, and_self, if_true, hn, hbyte]
      rw [if_pos (by omega)]
  | case3 a b n =>
      have ha := a.toNat_lt
      have hb := b.toNat_lt
      have hn : (n / 4096 * 64 + n / 64 % 64) * 64 + n % 64 = n := by omega
      have hfirst : UInt8.ofNat (n / 1024) = a := ofNat_eq (by omega)
      have hsecond : UInt8.ofNat (n / 4 % 256) = b := ofNat_eq (by omega)
      have hpad := symbol_ne_pad (by omega : n % 64 < 64)
      rw [decode, value_symbol (by omega : n / 4096 < 64),
        value_symbol (by omega : n / 64 % 64 < 64), value_symbol (by omega : n % 64 < 64)]
      simp only [Option.bind_eq_bind, Option.bind_some, hpad, false_and, and_false, if_false,
        and_self, if_true, hn, hfirst, hsecond]
      rw [if_pos (by omega)]
  | case4 a b c rest n ih =>
      have ha := a.toNat_lt
      have hb := b.toNat_lt
      have hc := c.toNat_lt
      have hn : ((n / 262144 * 64 + n / 4096 % 64) * 64 + n / 64 % 64) * 64 + n % 64 = n := by omega
      have hfirst : UInt8.ofNat (n / 65536) = a := ofNat_eq (by omega)
      have hsecond : UInt8.ofNat (n / 256 % 256) = b := ofNat_eq (by omega)
      have hthird : UInt8.ofNat (n % 256) = c := ofNat_eq (by omega)
      have hpad := symbol_ne_pad (by omega : n % 64 < 64)
      rw [decode, value_symbol (by omega : n / 262144 < 64),
        value_symbol (by omega : n / 4096 % 64 < 64), value_symbol (by omega : n / 64 % 64 < 64),
        value_symbol (by omega : n % 64 < 64), ih]
      simp only [Option.bind_eq_bind, Option.bind_some, hpad, and_false, if_false, hn, hfirst,
        hsecond, hthird]

end MonitoringAgent.Library.Base64

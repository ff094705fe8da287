import MonitoringAgent.Model.Agent.Auth

/-! # Tokens in the query

The decoder slices the text after a `%` and takes each byte for a character. The slice is whole
unless the text cuts it through a character, and the characters are the encoded ones exactly when
the token is ASCII. -/

namespace MonitoringAgent.Agent.Auth

open MonitoringAgent.Library

/-! ### The slice after a percent sign -/

/-- The two bytes after a percent sign end inside a character. -/
def cutsChar : List Char → Prop
  | [] => False
  | c :: after => 3 ≤ c.utf8Size ∨ isAscii c ∧ ∃ d ∈ after.head?, ¬isAscii d

/-- Some percent sign of the text has its two bytes end inside a character. -/
def Cuts (cs : List Char) : Prop := ∃ before after, cs = before ++ '%' :: after ∧ cutsChar after

theorem cuts_cons (c : Char) (cs : List Char) :
    Cuts (c :: cs) ↔ c = '%' ∧ cutsChar cs ∨ Cuts cs := by
  constructor
  · rintro ⟨before, after, heq, hcut⟩
    cases before with
    | nil =>
        obtain ⟨rfl, rfl⟩ := List.cons.inj heq
        exact .inl ⟨rfl, hcut⟩
    | cons b before =>
        obtain ⟨rfl, rfl⟩ := List.cons.inj heq
        exact .inr ⟨before, after, rfl, hcut⟩
  · rintro (⟨rfl, hcut⟩ | ⟨before, after, rfl, hcut⟩)
    · exact ⟨[], cs, rfl, hcut⟩
    · exact ⟨c :: before, after, rfl, hcut⟩

/-- The slice ends at a character's boundary, or the text cuts it. -/
theorem isCharBoundary_drop_two (cs : List Char) :
    isCharBoundary ((encoded cs).drop 2) = false ↔ cutsChar cs := by
  cases cs with
  | nil => simp [encoded, isCharBoundary, cutsChar]
  | cons c after =>
      rw [cutsChar]
      by_cases hc : isAscii c
      · have hsize : c.utf8Size = 1 := by
          rw [← String.length_utf8EncodeChar, utf8EncodeChar_ascii hc]
          rfl
        rw [encoded_cons_ascii hc, List.drop_succ_cons, hsize]
        cases after with
        | nil => simp [encoded, isCharBoundary]
        | cons d after =>
            by_cases hd : isAscii d
            · rw [encoded_cons_ascii hd, List.drop_succ_cons, List.drop_zero,
                isCharBoundary_encoded]
              simp [hd]
            · obtain ⟨lead, conts, henc, -, hne, -, hconts⟩ := encoded_cons_wide hd after
              rw [henc, List.drop_succ_cons, List.drop_zero, isCharBoundary_conts hne hconts]
              simp [hc, hd]
      · obtain ⟨lead, conts, henc, -, hne, hsize, hconts⟩ := encoded_cons_wide hc after
        obtain ⟨b, conts, rfl⟩ := List.exists_cons_of_ne_nil hne
        rw [henc, List.drop_succ_cons, List.cons_append, List.drop_succ_cons, List.drop_zero]
        cases conts with
        | nil =>
            rw [List.nil_append, isCharBoundary_encoded, ← hsize]
            simp [hc]
        | cons b' conts =>
            rw [isCharBoundary_conts (List.cons_ne_nil _ _) fun b hb => hconts b
              (List.mem_cons_of_mem _ hb), ← hsize]
            simp

/-! ### One turn of the loop -/

/-- What the loop pushes for a byte that starts no escape. -/
def plainChar (b : UInt8) : Char := if b = 0x2b then ' ' else byteChar b

theorem urlencodingFrom_plain {b : UInt8} {rest : List UInt8} (h : b ≠ 0x25 ∨ rest.length < 2) :
    urlencodingFrom (b :: rest) = (urlencodingFrom rest).map (plainChar b :: ·) := by
  match rest, h with
  | [], _ => rfl
  | [c], _ => rfl
  | c :: d :: more, h =>
      have hb : b ≠ 0x25 := h.resolve_right (by simp)
      rw [urlencodingFrom, if_neg hb]
      rfl

theorem urlencodingFrom_percent {c d : UInt8} {more : List UInt8}
    (hstart : isCharBoundary (c :: d :: more) = true) :
    urlencodingFrom (0x25 :: c :: d :: more) =
      if isCharBoundary more = true then
        match fromStrRadix16 c d with
        | some hex => (urlencodingFrom more).map (Char.ofNat hex :: ·)
        | none => (urlencodingFrom (c :: d :: more)).map ('%' :: ·)
      else .error .panic := by
  rw [urlencodingFrom, if_pos rfl]
  simp only [hstart, true_and]
  rfl

theorem map_eq_panic {α β : Type} {x : Except (Stop Empty) α} {f : α → β} :
    x.map f = .error .panic ↔ x = .error .panic := by
  cases x with
  | error e => simp [Except.map]
  | ok a => simp [Except.map]

theorem hexDigitOf_spec {b : UInt8} {n : ℕ} (h : hexDigitOf b = some n) :
    b < 0x80 ∧ b ≠ 0x25 ∧ n < 16 := by
  rw [hexDigitOf] at h
  simp only [UInt8.le_iff_toNat_le, UInt8.lt_iff_toNat_lt, ne_eq, ← UInt8.toNat_inj,
    UInt8.reduceToNat] at h ⊢
  split_ifs at h <;> have h := Option.some.inj h <;> omega

theorem fromStrRadix16_spec {c d : UInt8} {hex : ℕ} (h : fromStrRadix16 c d = some hex) :
    (c < 0x80 ∧ c ≠ 0x25) ∧ d < 0x80 ∧ d ≠ 0x25 := by
  rw [fromStrRadix16] at h
  split_ifs at h with hplus
  · obtain ⟨hd, hne, -⟩ := hexDigitOf_spec h
    subst hplus
    exact ⟨by decide, hd, hne⟩
  · obtain ⟨high, hhigh, h⟩ := Option.bind_eq_some_iff.mp h
    obtain ⟨low, hlow, -⟩ := Option.bind_eq_some_iff.mp h
    obtain ⟨hc, hcne, -⟩ := hexDigitOf_spec hhigh
    obtain ⟨hd, hdne, -⟩ := hexDigitOf_spec hlow
    exact ⟨⟨hc, hcne⟩, hd, hdne⟩

/-- The loop passes over what is no percent sign. -/
theorem urlencodingFrom_plains {plains : List UInt8} (h : ∀ b ∈ plains, b ≠ 0x25)
    (rest : List UInt8) :
    urlencodingFrom (plains ++ rest) = (urlencodingFrom rest).map (plains.map plainChar ++ ·) := by
  induction plains with
  | nil =>
      cases hrest : urlencodingFrom rest with
      | error e => simp [hrest, Except.map]
      | ok a => simp [hrest, Except.map]
  | cons b plains ih =>
      rw [List.cons_append, urlencodingFrom_plain (.inl (h b List.mem_cons_self)),
        ih fun b hb => h b (List.mem_cons_of_mem _ hb)]
      cases urlencodingFrom rest <;> rfl

theorem ofNat_eq_percent {c : Char} (hc : isAscii c) : UInt8.ofNat c.toNat = 0x25 ↔ c = '%' := by
  rw [← UInt8.toNat_inj, UInt8.toNat_ofNat', ← Char.toNat_inj]
  have hc : c.toNat < 128 := hc
  have h25 : (0x25 : UInt8).toNat = 37 := rfl
  have hp : '%'.toNat = 37 := rfl
  omega

/-- No byte of a character past ASCII starts an escape. -/
theorem urlencodingFrom_wide {c : Char} (hc : ¬isAscii c) (cs : List Char) :
    ∃ pushed, urlencodingFrom (encoded (c :: cs)) =
      (urlencodingFrom (encoded cs)).map (pushed ++ ·) := by
  obtain ⟨lead, conts, henc, hlead, -, -, hconts⟩ := encoded_cons_wide hc cs
  have hplain : ∀ b ∈ lead :: conts, b ≠ 0x25 := by
    intro b hb
    rcases List.mem_cons.mp hb with rfl | hb
    · rintro rfl
      exact absurd hlead (by decide)
    · rintro rfl
      exact absurd (hconts _ hb) (by decide)
  rw [henc, ← List.cons_append, urlencodingFrom_plains hplain]
  exact ⟨_, rfl⟩

/-- The decoder panics exactly when a percent sign's two bytes end inside a character. -/
theorem urlencodingFrom_eq_panic (cs : List Char) :
    urlencodingFrom (encoded cs) = .error .panic ↔ Cuts cs := by
  induction hn : cs.length using Nat.strong_induction_on generalizing cs with
  | _ n ih =>
      cases cs with
      | nil => simp [encoded, urlencodingFrom, Cuts]
      | cons c cs =>
          have hrest : urlencodingFrom (encoded cs) = .error .panic ↔ Cuts cs :=
            ih cs.length (by rw [← hn]; exact Nat.lt_succ_self _) cs rfl
          rw [cuts_cons]
          by_cases hc : isAscii c
          · rw [encoded_cons_ascii hc]
            by_cases hpercent : c = '%'
            · subst hpercent
              have hcut := isCharBoundary_drop_two cs
              have hstart := isCharBoundary_encoded cs
              rcases henc : encoded cs with _ | ⟨b, _ | ⟨d, more⟩⟩
              · rw [henc] at hrest hcut
                rw [urlencodingFrom_plain (.inr (by simp)), map_eq_panic, hrest, ← hcut]
                simp [isCharBoundary]
              · rw [henc] at hrest hcut
                rw [urlencodingFrom_plain (.inr (by simp)), map_eq_panic, hrest, ← hcut]
                simp [isCharBoundary]
              · rw [henc] at hrest hcut hstart
                change urlencodingFrom (0x25 :: b :: d :: more) = _ ↔ _
                rw [urlencodingFrom_percent hstart, ← hcut, List.drop_succ_cons,
                  List.drop_succ_cons, List.drop_zero]
                cases hmore : isCharBoundary more with
                | false => simp
                | true =>
                    rw [if_pos rfl]
                    cases hhex : fromStrRadix16 b d with
                    | none => simp [map_eq_panic, hrest]
                    | some hex =>
                        -- The two digits are characters, and neither is a percent sign.
                        obtain ⟨⟨hb, hbne⟩, hd, hdne⟩ := fromStrRadix16_spec hhex
                        obtain ⟨c, cs, rfl, -, rfl, hcs⟩ := encoded_eq_cons henc hb
                        obtain ⟨e, cs, rfl, -, rfl, rfl⟩ := encoded_eq_cons hcs.symm hd
                        have hc : c ≠ '%' := by
                          rintro rfl
                          exact hbne rfl
                        have he : e ≠ '%' := by
                          rintro rfl
                          exact hdne rfl
                        have hlater := ih cs.length
                          (by rw [← hn]; simp only [List.length_cons]; omega) cs rfl
                        rw [cuts_cons, cuts_cons]
                        simp [map_eq_panic, hlater, hc, he]
            · rw [urlencodingFrom_plain (.inl fun h => hpercent ((ofNat_eq_percent hc).mp h)),
                map_eq_panic, hrest]
              simp [hpercent]
          · obtain ⟨pushed, hpushed⟩ := urlencodingFrom_wide hc cs
            rw [hpushed, map_eq_panic, hrest]
            have hpercent : c ≠ '%' := by
              rintro rfl
              exact hc (by decide)
            simp [hpercent]

theorem urlencoding_eq_panic (s : String) : urlencoding s = .error .panic ↔ Cuts s.toList := by
  rw [urlencoding, map_eq_panic, utf8_eq_flatMap]
  exact urlencodingFrom_eq_panic s.toList

/-! ### Form encodings -/

/-- The upper and the lower case of a hexadecimal digit. -/
def hexDigits (n : ℕ) : List Char :=
  ["0123456789ABCDEF".toList.getD n '0', "0123456789abcdef".toList.getD n '0']

def Unreserved (c : Char) : Prop := c.isAlphanum = true ∨ c ∈ ['-', '.', '_', '~']

instance (c : Char) : Decidable (Unreserved c) := inferInstanceAs (Decidable (_ ∨ _))

/-- A form encoding of bytes: each as an escape, a space also as a plus sign, and an unreserved
character also as itself. -/
inductive FormEncoding : List UInt8 → List Char → Prop
  | nil : FormEncoding [] []
  | escape {b : UInt8} {high low : Char} {bs : List UInt8} {v : List Char}
      (hhigh : high ∈ hexDigits (b.toNat / 16))
      (hlow : low ∈ hexDigits (b.toNat % 16)) (hrest : FormEncoding bs v) :
      FormEncoding (b :: bs) ('%' :: high :: low :: v)
  | plus {bs : List UInt8} {v : List Char} (hrest : FormEncoding bs v) :
      FormEncoding (0x20 :: bs) ('+' :: v)
  | unreserved {c : Char} {bs : List UInt8} {v : List Char} (hc : Unreserved c)
      (hrest : FormEncoding bs v) : FormEncoding (UInt8.ofNat c.toNat :: bs) (c :: v)

/-- `v` is a form encoding of the token. -/
def FormEncodes (t v : String) : Prop := FormEncoding (utf8 t) v.toList

theorem hexDigits_spec {n : ℕ} (hn : n < 16) {c : Char} (hc : c ∈ hexDigits n) :
    isAscii c ∧ hexDigitOf (UInt8.ofNat c.toNat) = some n := by
  interval_cases n <;> fin_cases hc <;> decide

theorem fromStrRadix16_digits {c d : UInt8} {high low : ℕ} (hc : hexDigitOf c = some high)
    (hd : hexDigitOf d = some low) : fromStrRadix16 c d = some (16 * high + low) := by
  have hplus : c ≠ 0x2b := by
    rintro rfl
    cases hc
  rw [fromStrRadix16, if_neg hplus, hc, hd]
  rfl

theorem toNat_of_isAlphanum {c : Char} (h : c.isAlphanum = true) :
    48 ≤ c.toNat ∧ c.toNat < 128 := by
  have hval : c.val.toNat = c.toNat := rfl
  have hdigits : '0'.val.toNat = 48 ∧ '9'.val.toNat = 57 := ⟨rfl, rfl⟩
  have hupper : 'A'.val.toNat = 65 ∧ 'Z'.val.toNat = 90 := ⟨rfl, rfl⟩
  have hlower : 'a'.val.toNat = 97 ∧ 'z'.val.toNat = 122 := ⟨rfl, rfl⟩
  delta Char.isAlphanum Char.isAlpha Char.isUpper Char.isLower Char.isDigit at h
  simp only [Bool.or_eq_true, Bool.and_eq_true, decide_eq_true_eq,
    UInt32.le_iff_toNat_le, ge_iff_le] at h
  omega

theorem unreserved_spec {c : Char} (h : Unreserved c) :
    isAscii c ∧ UInt8.ofNat c.toNat ≠ 0x25 ∧ UInt8.ofNat c.toNat ≠ 0x2b := by
  rcases h with h | h
  · have hc := toNat_of_isAlphanum h
    refine ⟨hc.2, fun heq => ?_, fun heq => ?_⟩
    all_goals
      have hnat := congrArg UInt8.toNat heq
      rw [UInt8.toNat_ofNat', Nat.mod_eq_of_lt (by omega)] at hnat
      have hsign : (0x25 : UInt8).toNat = 37 ∧ (0x2b : UInt8).toNat = 43 := ⟨rfl, rfl⟩
      omega
  · fin_cases h <;> decide

/-- The decoder gives each encoded byte as the character of its code, and goes on. -/
theorem FormEncoding.decode_append {bs : List UInt8} {v : List Char} (h : FormEncoding bs v)
    (rest : List Char) :
    urlencodingFrom (encoded (v ++ rest)) =
      (urlencodingFrom (encoded rest)).map (bs.map byteChar ++ ·) := by
  have hmap (x : Except (Stop Empty) (List Char)) (c : Char) (cs : List Char) :
      (x.map (cs ++ ·)).map (c :: ·) = x.map (c :: cs ++ ·) := by
    cases x <;> rfl
  induction h with
  | nil =>
      rw [List.nil_append]
      cases urlencodingFrom (encoded rest) <;> rfl
  | @escape b high low bs v hhigh hlow hrest ih =>
      have hb : b.toNat < 256 := UInt8.toNat_lt b
      obtain ⟨hhighAscii, hhighDigit⟩ := hexDigits_spec (by omega) hhigh
      obtain ⟨hlowAscii, hlowDigit⟩ := hexDigits_spec (by omega) hlow
      have hstart := isCharBoundary_encoded (high :: low :: (v ++ rest))
      rw [encoded_cons_ascii hhighAscii, encoded_cons_ascii hlowAscii] at hstart
      rw [List.cons_append, List.cons_append, List.cons_append, encoded_cons_ascii (by decide),
        encoded_cons_ascii hhighAscii, encoded_cons_ascii hlowAscii]
      change urlencodingFrom (0x25 :: _ :: _ :: _) = _
      rw [urlencodingFrom_percent hstart, if_pos (isCharBoundary_encoded (v ++ rest)),
        fromStrRadix16_digits hhighDigit hlowDigit, ih, Nat.div_add_mod]
      exact hmap _ _ _
  | plus hrest ih =>
      rw [List.cons_append, encoded_cons_ascii (by decide),
        urlencodingFrom_plain (.inl (by decide)), ih]
      exact hmap _ _ _
  | @unreserved c bs v hc hrest ih =>
      obtain ⟨hascii, hpercent, hplus⟩ := unreserved_spec hc
      rw [List.cons_append, encoded_cons_ascii hascii, urlencodingFrom_plain (.inl hpercent), ih,
        plainChar, if_neg hplus]
      exact hmap _ _ _

theorem FormEncoding.decode {bs : List UInt8} {v : List Char} (h : FormEncoding bs v) :
    urlencodingFrom (encoded v) = .ok (bs.map byteChar) := by
  have hdecode := h.decode_append []
  rw [List.append_nil] at hdecode
  rw [hdecode]
  exact congrArg Except.ok (List.append_nil _)

theorem toNat_ofNat {n : ℕ} (h : n < 256) : (Char.ofNat n).toNat = n := by
  rw [Char.ofNat, dif_pos (.inl (by omega))]
  rfl

theorem byteChar_wide {b : UInt8} (h : 0xc0 ≤ b) : ¬isAscii (byteChar b) := by
  have hlt := UInt8.toNat_lt b
  rw [isAscii, byteChar, toNat_ofNat hlt]
  rw [UInt8.le_iff_toNat_le] at h
  have hc0 : (0xc0 : UInt8).toNat = 192 := rfl
  omega

theorem byteChar_ofNat {c : Char} (hc : isAscii c) : byteChar (UInt8.ofNat c.toNat) = c := by
  rw [byteChar, UInt8.toNat_ofNat', Nat.mod_eq_of_lt (hc.trans (by norm_num)), Char.ofNat_toNat]

theorem length_le_encoded (cs : List Char) : cs.length ≤ (encoded cs).length := by
  induction cs with
  | nil => exact le_rfl
  | cons c cs ih =>
      rw [encoded, List.flatMap_cons, List.length_append,
        String.length_utf8EncodeChar, List.length_cons]
      have hpos := c.utf8Size_pos
      rw [encoded] at ih
      omega

/-- The bytes of a text, each taken for a character. -/
def latin (t : String) : String := String.ofList ((utf8 t).map byteChar)

theorem urlencoding_of_formEncodes {t v : String} (h : FormEncodes t v) :
    urlencoding v = .ok (latin t) := by
  have hdecode := FormEncoding.decode h
  rw [encoded, ← utf8_eq_flatMap] at hdecode
  rw [urlencoding, hdecode]
  rfl

/-- All bytes have a form encoding. -/
theorem exists_formEncoding (bs : List UInt8) : ∃ v, FormEncoding bs v := by
  induction bs with
  | nil => exact ⟨[], .nil⟩
  | cons b bs ih =>
      obtain ⟨v, hv⟩ := ih
      exact ⟨_, .escape List.mem_cons_self List.mem_cons_self hv⟩

theorem exists_formEncodes (t : String) : ∃ v, FormEncodes t v := by
  obtain ⟨v, hv⟩ := exists_formEncoding (utf8 t)
  exact ⟨String.ofList v, by rwa [FormEncodes, String.toList_ofList]⟩

/-- The bytes of a text are its characters exactly when it is ASCII. -/
theorem map_byteChar_encoded (cs : List Char) :
    (encoded cs).map byteChar = cs ↔ ∀ c ∈ cs, isAscii c := by
  induction cs with
  | nil => simp [encoded]
  | cons c cs ih =>
      rw [List.forall_mem_cons, ← ih]
      by_cases hc : isAscii c
      · rw [encoded_cons_ascii hc, List.map_cons, byteChar_ofNat hc, List.cons.injEq]
        simp [hc]
      · obtain ⟨lead, conts, henc, -, hne, -⟩ := encoded_cons_wide hc cs
        refine iff_of_false (fun heq => ?_) fun h => hc h.1
        -- More bytes than characters.
        have hlength := congrArg List.length heq
        have hconts := List.length_pos_of_ne_nil hne
        have hcs := length_le_encoded cs
        rw [henc, List.length_map, List.length_cons, List.length_append,
          List.length_cons] at hlength
        omega

theorem latin_eq_self_iff (t : String) : latin t = t ↔ ∀ c ∈ t.toList, isAscii c := by
  rw [latin, utf8_eq_flatMap, ← String.toList_inj, String.toList_ofList]
  exact map_byteChar_encoded t.toList

/-! ### What a value stands for -/

def IsHexDigit (c : Char) : Prop := ∃ n < 16, c ∈ hexDigits n

def StartsEscape (v : List Char) : Prop :=
  ∃ high low rest, v = high :: low :: rest ∧ IsHexDigit high ∧ IsHexDigit low

/-- The bytes that a value of a form stands for, encoding or not: an escape's byte, a space for a
plus sign, and any other character's own. -/
inductive FormReads : List Char → List UInt8 → Prop
  | nil : FormReads [] []
  | escape {b : UInt8} {high low : Char} {v : List Char} {bs : List UInt8}
      (hhigh : high ∈ hexDigits (b.toNat / 16)) (hlow : low ∈ hexDigits (b.toNat % 16))
      (hrest : FormReads v bs) : FormReads ('%' :: high :: low :: v) (b :: bs)
  | plus {v : List Char} {bs : List UInt8} (hrest : FormReads v bs) :
      FormReads ('+' :: v) (0x20 :: bs)
  | other {c : Char} {v : List Char} {bs : List UInt8} (hplus : c ≠ '+')
      (hescape : c = '%' → ¬StartsEscape v) (hrest : FormReads v bs) :
      FormReads (c :: v) (String.utf8EncodeChar c ++ bs)

/-- An escape of the value has a plus sign for its first digit. Such a value encodes nothing. -/
def SignedEscape (v : List Char) : Prop :=
  ∃ before digit after, v = before ++ '%' :: '+' :: digit :: after ∧ IsHexDigit digit

theorem SignedEscape.cons {v : List Char} (h : SignedEscape v) (c : Char) :
    SignedEscape (c :: v) := by
  obtain ⟨before, digit, after, rfl, hdigit⟩ := h
  exact ⟨c :: before, digit, after, rfl, hdigit⟩

theorem mem_hexDigits_of {c : Char} (hc : isAscii c) {n : ℕ}
    (h : hexDigitOf (UInt8.ofNat c.toNat) = some n) : n < 16 ∧ c ∈ hexDigits n := by
  have hall : ∀ k < 128, ∀ n ∈ hexDigitOf (UInt8.ofNat k), n < 16 ∧ Char.ofNat k ∈ hexDigits n := by
    decide
  have hdigit := hall c.toNat hc n h
  rwa [Char.ofNat_toNat] at hdigit

theorem plus_not_mem_hexDigits {n : ℕ} (hn : n < 16) : '+' ∉ hexDigits n := by
  interval_cases n <;> decide

/-- Two digits are an escape's byte, or the first is a plus sign and the byte is below 16. -/
theorem fromStrRadix16_chars {c d : Char} (hc : isAscii c) (hd : isAscii d) {hex : ℕ}
    (h : fromStrRadix16 (UInt8.ofNat c.toNat) (UInt8.ofNat d.toNat) = some hex) :
    c = '+' ∧ IsHexDigit d ∧ hex < 16 ∨
      hex < 256 ∧ c ∈ hexDigits (hex / 16) ∧ d ∈ hexDigits (hex % 16) := by
  rw [fromStrRadix16] at h
  split_ifs at h with hplus
  · obtain ⟨hhex, hdigit⟩ := mem_hexDigits_of hd h
    refine .inl ⟨?_, ⟨hex, hhex, hdigit⟩, hhex⟩
    rw [← UInt8.toNat_inj, UInt8.toNat_ofNat', Nat.mod_eq_of_lt (hc.trans (by norm_num))] at hplus
    exact Char.toNat_inj.mp hplus
  · obtain ⟨high, hhigh, h⟩ := Option.bind_eq_some_iff.mp h
    obtain ⟨low, hlow, h⟩ := Option.bind_eq_some_iff.mp h
    obtain ⟨hhigh16, hhigh⟩ := mem_hexDigits_of hc hhigh
    obtain ⟨hlow16, hlow⟩ := mem_hexDigits_of hd hlow
    obtain rfl := Option.some.inj h
    have hdiv : (16 * high + low) / 16 = high := by omega
    have hmod : (16 * high + low) % 16 = low := by omega
    rw [hdiv, hmod]
    exact .inr ⟨by omega, hhigh, hlow⟩

theorem not_startsEscape_short {v : List Char} (h : v.length < 2) : ¬StartsEscape v := by
  rintro ⟨high, low, rest, rfl, -⟩
  rw [List.length_cons, List.length_cons] at h
  omega

theorem not_startsEscape_of {c d : UInt8} {more : List UInt8} {v : List Char}
    (henc : encoded v = c :: d :: more) (h : fromStrRadix16 c d = none) : ¬StartsEscape v := by
  rintro ⟨high, low, rest, rfl, ⟨m, hm, hhigh⟩, n, hn, hlow⟩
  obtain ⟨hhighAscii, hhighDigit⟩ := hexDigits_spec hm hhigh
  obtain ⟨hlowAscii, hlowDigit⟩ := hexDigits_spec hn hlow
  rw [encoded_cons_ascii hhighAscii, encoded_cons_ascii hlowAscii] at henc
  obtain ⟨hc, henc⟩ := List.cons.inj henc
  obtain ⟨hd, -⟩ := List.cons.inj henc
  rw [← hc, ← hd, fromStrRadix16_digits hhighDigit hlowDigit] at h
  cases h

/-- The bytes of characters that are each their own byte. -/
def asciiBytes (cs : List Char) : List UInt8 := cs.map fun c => UInt8.ofNat c.toNat

theorem encoded_ascii {cs : List Char} (h : ∀ c ∈ cs, isAscii c) : encoded cs = asciiBytes cs := by
  induction cs with
  | nil => rfl
  | cons c cs ih =>
      obtain ⟨hc, hcs⟩ := List.forall_mem_cons.mp h
      rw [encoded_cons_ascii hc, ih hcs]
      rfl

theorem exists_of_map {α β : Type} {x : Except (Stop Empty) α} {f : α → β} {out : β}
    (h : x.map f = .ok out) :
    ∃ pushed, x = .ok pushed ∧ f pushed = out := by
  cases x with
  | error e => cases h
  | ok pushed => exact ⟨pushed, rfl, Except.ok.inj h⟩

/-- What a turn that reads no escape pushes is what its character stands for. -/
theorem FormReads.plain {c : Char} {cs pushed : List Char} (hc : isAscii c)
    (hescape : c = '%' → ¬StartsEscape cs) (h : FormReads cs (asciiBytes pushed)) :
    FormReads (c :: cs) (asciiBytes (plainChar (UInt8.ofNat c.toNat) :: pushed)) := by
  by_cases hplus : c = '+'
  · subst hplus
    exact .plus h
  · have hbyte : UInt8.ofNat c.toNat ≠ 0x2b := by
      intro heq
      rw [← UInt8.toNat_inj, UInt8.toNat_ofNat', Nat.mod_eq_of_lt (hc.trans (by norm_num))] at heq
      exact hplus (Char.toNat_inj.mp heq)
    have hother := FormReads.other hplus hescape h
    rw [utf8EncodeChar_ascii hc] at hother
    rw [plainChar, if_neg hbyte, byteChar_ofNat hc]
    exact hother

/-- An escape's character is that of its byte. -/
theorem FormReads.hex {high low : Char} {v pushed : List Char} {hex : ℕ} (hlt : hex < 256)
    (hhigh : high ∈ hexDigits (hex / 16)) (hlow : low ∈ hexDigits (hex % 16))
    (h : FormReads v (asciiBytes pushed)) :
    FormReads ('%' :: high :: low :: v) (asciiBytes (Char.ofNat hex :: pushed)) := by
  have hbyte : (UInt8.ofNat (Char.ofNat hex).toNat).toNat = hex := by
    rw [toNat_ofNat hlt, UInt8.toNat_ofNat', Nat.mod_eq_of_lt hlt]
  exact .escape (by rwa [hbyte]) (by rwa [hbyte]) h

/-- What the decoder's first turn on `c` and the text after it did: it pushed `c` as it is, or the
character of an escape whose first digit may be a plus sign. -/
inductive TurnRead (c : Char) : List Char → List Char → Prop
  | plain {cs pushed : List Char} (hc : isAscii c) (hescape : c = '%' → ¬StartsEscape cs)
      (hrest : urlencodingFrom (encoded cs) = .ok pushed) :
      TurnRead c cs (plainChar (UInt8.ofNat c.toNat) :: pushed)
  | escape {high low : Char} {cs pushed : List Char} {hex : ℕ} (hpercent : c = '%')
      (hdigits : high = '+' ∧ IsHexDigit low ∧ hex < 16 ∨
        hex < 256 ∧ high ∈ hexDigits (hex / 16) ∧ low ∈ hexDigits (hex % 16))
      (hrest : urlencodingFrom (encoded cs) = .ok pushed) :
      TurnRead c (high :: low :: cs) (Char.ofNat hex :: pushed)

theorem turnRead_plain {c : Char} {cs out : List Char} (hc : isAscii c)
    (hescape : c = '%' → ¬StartsEscape cs)
    (h : (urlencodingFrom (encoded cs)).map (plainChar (UInt8.ofNat c.toNat) :: ·) = .ok out) :
    TurnRead c cs out := by
  obtain ⟨pushed, hpushed, rfl⟩ := exists_of_map h
  exact .plain hc hescape hpushed

/-- A percent sign with two bytes after it gives an escape's character, or itself where they are no
digits. -/
theorem turnRead_percent {cs out : List Char} {b d : UInt8} {more : List UInt8}
    (henc : encoded cs = b :: d :: more) (h : urlencodingFrom (0x25 :: b :: d :: more) = .ok out) :
    TurnRead '%' cs out := by
  have hstart := isCharBoundary_encoded cs
  rw [henc] at hstart
  rw [urlencodingFrom_percent hstart] at h
  split_ifs at h with hmore
  cases hhex : fromStrRadix16 b d with
  | none =>
      rw [hhex] at h
      refine turnRead_plain (by decide) (fun _ => not_startsEscape_of henc hhex) ?_
      rwa [henc]
  | some hex =>
      rw [hhex] at h
      obtain ⟨pushed, hpushed, rfl⟩ := exists_of_map h
      obtain ⟨⟨hb, -⟩, hd, -⟩ := fromStrRadix16_spec hhex
      obtain ⟨high, cs, rfl, hhigh, rfl, hcs⟩ := encoded_eq_cons henc hb
      obtain ⟨low, cs, rfl, hlow, rfl, rfl⟩ := encoded_eq_cons hcs.symm hd
      exact .escape rfl (fromStrRadix16_chars hhigh hlow hhex) hpushed

theorem turnRead_of_decoded {c : Char} {cs out : List Char}
    (h : urlencodingFrom (encoded (c :: cs)) = .ok out) (hascii : ∀ d ∈ out, isAscii d) :
    TurnRead c cs out := by
  by_cases hc : isAscii c
  · rw [encoded_cons_ascii hc] at h
    by_cases hpercent : c = '%'
    · subst hpercent
      have hlength := length_le_encoded cs
      change urlencodingFrom (0x25 :: encoded cs) = _ at h
      rcases henc : encoded cs with _ | ⟨b, _ | ⟨d, more⟩⟩
      · rw [henc] at h hlength
        refine turnRead_plain hc (fun _ => not_startsEscape_short (hlength.trans_lt Nat.two_pos)) ?_
        rw [henc]
        rwa [urlencodingFrom_plain (.inr (by simp))] at h
      · rw [henc] at h hlength
        refine turnRead_plain hc (fun _ => not_startsEscape_short
          (hlength.trans_lt Nat.one_lt_two)) ?_
        rw [henc]
        rwa [urlencodingFrom_plain (.inr (by simp))] at h
      · rw [henc] at h
        exact turnRead_percent henc h
    · refine turnRead_plain hc (fun h => absurd h hpercent) ?_
      rwa [← urlencodingFrom_plain (.inl fun h => hpercent ((ofNat_eq_percent hc).mp h))]
  · -- The first of its bytes is no ASCII character.
    obtain ⟨lead, conts, henc, hlead, -⟩ := encoded_cons_wide hc cs
    have hne : lead ≠ 0x25 := by
      rintro rfl
      exact absurd hlead (by decide)
    have hplus : lead ≠ 0x2b := by
      rintro rfl
      exact absurd hlead (by decide)
    rw [henc, urlencodingFrom_plain (.inl hne)] at h
    obtain ⟨pushed, -, rfl⟩ := exists_of_map h
    have hpushed := hascii _ List.mem_cons_self
    rw [plainChar, if_neg hplus] at hpushed
    exact absurd hpushed (byteChar_wide hlead)

/-- What the decoder makes of a value within ASCII is what the value stands for, but where an escape
with a plus sign gives a character below 16. -/
theorem reads_or_signed (v : List Char) {out : List Char}
    (h : urlencodingFrom (encoded v) = .ok out) (hascii : ∀ c ∈ out, isAscii c) :
    FormReads v (asciiBytes out) ∨ SignedEscape v ∧ ∃ c ∈ out, c.toNat < 16 := by
  induction hn : v.length using Nat.strong_induction_on generalizing v out with
  | _ n ih =>
      cases v with
      | nil =>
          obtain rfl := Except.ok.inj h
          exact .inl .nil
      | cons c cs =>
          cases turnRead_of_decoded h hascii with
          | plain hc hescape hrest =>
              obtain hreads | ⟨hsigned, low, hlow, hlt⟩ := ih cs.length
                (by rw [← hn]; exact Nat.lt_succ_self _) cs hrest
                (fun d hd => hascii d (List.mem_cons_of_mem _ hd)) rfl
              · exact .inl (hreads.plain hc hescape)
              · exact .inr ⟨hsigned.cons c, low, List.mem_cons_of_mem _ hlow, hlt⟩
          | @escape high low cs pushed hex hpercent hdigits hrest =>
              subst hpercent
              obtain ⟨rfl, hdigit, hlt⟩ | ⟨hlt, hhigh, hlow⟩ := hdigits
              · refine .inr ⟨⟨[], low, cs, rfl, hdigit⟩, _, List.mem_cons_self, ?_⟩
                rwa [toNat_ofNat (hlt.trans (by norm_num))]
              · obtain hreads | ⟨hsigned, c, hmem, hc⟩ := ih cs.length
                  (by rw [← hn]; simp only [List.length_cons]; omega) cs hrest
                  (fun c hmem => hascii c (List.mem_cons_of_mem _ hmem)) rfl
                · exact .inl (hreads.hex hlt hhigh hlow)
                · exact .inr ⟨((hsigned.cons low).cons high).cons '%', c,
                    List.mem_cons_of_mem _ hmem, hc⟩

/-- What encodes bytes stands for them, and its reading goes on. -/
theorem FormEncoding.reads {bs : List UInt8} {v : List Char} (h : FormEncoding bs v)
    {rest : List Char} {out : List UInt8} (hreads : FormReads (v ++ rest) out) :
    ∃ later, out = bs ++ later ∧ FormReads rest later := by
  induction h generalizing out with
  | nil => exact ⟨out, rfl, hreads⟩
  | @escape b high low bs v hhigh hlow hrest ih =>
      have hb : b.toNat < 256 := UInt8.toNat_lt b
      cases hreads with
      | @escape b' high low v out hhigh' hlow' hreads =>
          have hb' : b'.toNat < 256 := UInt8.toNat_lt b'
          have hdiv := (hexDigits_spec (by omega) hhigh).2.symm.trans
            (hexDigits_spec (by omega) hhigh').2
          have hmod := (hexDigits_spec (by omega) hlow).2.symm.trans
            (hexDigits_spec (by omega) hlow').2
          have heq : b' = b := by
            rw [← UInt8.toNat_inj]
            rw [Option.some.injEq] at hdiv hmod
            omega
          obtain ⟨later, rfl, hlater⟩ := ih hreads
          exact ⟨later, by rw [heq, List.cons_append], hlater⟩
      | other hplus hescape hreads =>
          exact absurd ⟨high, low, v ++ rest, rfl, ⟨_, by omega, hhigh⟩, _, by omega, hlow⟩
            (hescape rfl)
  | plus hrest ih =>
      cases hreads with
      | plus hreads =>
          obtain ⟨later, rfl, hlater⟩ := ih hreads
          exact ⟨later, rfl, hlater⟩
      | other hplus hescape hreads => exact absurd rfl hplus
  | @unreserved c bs v hc hrest ih =>
      obtain ⟨hascii, hpercent, hplus⟩ := unreserved_spec hc
      rw [List.cons_append] at hreads
      generalize v ++ rest = more at hreads ih
      cases hreads with
      | escape hhigh hlow hreads => exact absurd rfl hpercent
      | plus hreads => exact absurd rfl hplus
      | other hplus hescape hreads =>
          obtain ⟨later, rfl, hlater⟩ := ih hreads
          exact ⟨later, by rw [utf8EncodeChar_ascii hascii]; rfl, hlater⟩

theorem ampersand_not_mem_hexDigits {n : ℕ} (hn : n < 16) : '&' ∉ hexDigits n := by
  interval_cases n <;> decide

/-- A form encoding stands within its pair. -/
theorem FormEncoding.no_ampersand {bs : List UInt8} {v : List Char} (h : FormEncoding bs v) :
    '&' ∉ v := by
  induction h with
  | nil => exact List.not_mem_nil
  | @escape b high low bs v hhigh hlow hrest ih =>
      have hb : b.toNat < 256 := UInt8.toNat_lt b
      rw [List.mem_cons, List.mem_cons, List.mem_cons]
      rintro (h | rfl | rfl | h)
      · exact absurd h (by decide)
      · exact ampersand_not_mem_hexDigits (by omega) hhigh
      · exact ampersand_not_mem_hexDigits (by omega) hlow
      · exact ih h
  | plus hrest ih =>
      rw [List.mem_cons]
      rintro (h | h)
      · exact absurd h (by decide)
      · exact ih h
  | unreserved hc hrest ih =>
      rw [List.mem_cons]
      rintro (rfl | h)
      · exact absurd hc (by decide)
      · exact ih h

/-- An escape with a plus sign is read as its one digit. -/
theorem urlencodingFrom_signed {n : ℕ} (hn : n < 16) {digit : Char} (hdigit : digit ∈ hexDigits n)
    (rest : List Char) :
    urlencodingFrom (encoded ('%' :: '+' :: digit :: rest)) =
      (urlencodingFrom (encoded rest)).map (Char.ofNat n :: ·) := by
  obtain ⟨hascii, hdigitOf⟩ := hexDigits_spec hn hdigit
  have hhex : fromStrRadix16 0x2b (UInt8.ofNat digit.toNat) = some n := by
    rw [fromStrRadix16, if_pos rfl, hdigitOf]
  have hstart := isCharBoundary_encoded ('+' :: digit :: rest)
  rw [encoded_cons_ascii (by decide), encoded_cons_ascii hascii] at hstart
  change isCharBoundary (0x2b :: _ :: _) = true at hstart
  rw [encoded_cons_ascii (by decide), encoded_cons_ascii (by decide), encoded_cons_ascii hascii]
  change urlencodingFrom (0x25 :: 0x2b :: _ :: _) = _
  rw [urlencodingFrom_percent hstart, if_pos (isCharBoundary_encoded rest), hhex]

/-- An escape with a plus sign gives any character below 16. The value that has it for one of a
token's characters, and encodes the others, stands for another text. -/
theorem exists_signed {t : String} (hascii : ∀ c ∈ t.toList, isAscii c) {c : Char}
    (hmem : c ∈ t.toList) (hlow : c.toNat < 16) :
    ∃ v : String, urlencoding v = .ok t ∧ '&' ∉ v.toList ∧
      ∀ u, FormReads v.toList (utf8 u) → u ≠ t := by
  obtain ⟨before, after, ht⟩ := List.append_of_mem hmem
  rw [ht] at hascii
  have hbefore : ∀ c ∈ before, isAscii c := fun c hc => hascii c (List.mem_append_left _ hc)
  have hafter : ∀ c ∈ after, isAscii c :=
    fun c hc => hascii c (List.mem_append_right _ (List.mem_cons_of_mem _ hc))
  obtain ⟨first, hfirst⟩ := exists_formEncoding (encoded before)
  obtain ⟨last, hlast⟩ := exists_formEncoding (encoded after)
  obtain ⟨digit, hdigit⟩ : ∃ digit, digit ∈ hexDigits c.toNat := ⟨_, List.mem_cons_self⟩
  refine ⟨String.ofList (first ++ '%' :: '+' :: digit :: last), ?_, ?_, fun u hu heq => ?_⟩
  · have hescape : urlencodingFrom (encoded ('%' :: '+' :: digit :: last)) = .ok (c :: after) := by
      rw [urlencodingFrom_signed hlow hdigit, hlast.decode, (map_byteChar_encoded after).mpr hafter]
      exact congrArg (fun first => Except.ok (first :: after)) (Char.ofNat_toNat c)
    rw [urlencoding, utf8_eq_flatMap, String.toList_ofList]
    change (urlencodingFrom (encoded _)).map _ = _
    rw [hfirst.decode_append, hescape, (map_byteChar_encoded before).mpr hbefore]
    change Except.ok (String.ofList (before ++ c :: after)) = _
    rw [← ht, String.ofList_toList]
  · rw [String.toList_ofList, List.mem_append, List.mem_cons, List.mem_cons, List.mem_cons]
    rintro (h | h | h | rfl | h)
    · exact hfirst.no_ampersand h
    · exact absurd h (by decide)
    · exact absurd h (by decide)
    · exact ampersand_not_mem_hexDigits hlow hdigit
    · exact hlast.no_ampersand h
  · rw [String.toList_ofList, heq, utf8_eq_flatMap, ht] at hu
    obtain ⟨later, hbytes, hlater⟩ := hfirst.reads hu
    rw [List.flatMap_append, ← encoded, List.append_cancel_left_eq, List.flatMap_cons,
      utf8EncodeChar_ascii (hascii c (List.mem_append_right _ List.mem_cons_self))] at hbytes
    -- The sign stands for itself, and `c` is below it.
    cases hlater with
    | @escape b _ _ _ _ hhigh _ _ =>
        have hb : b.toNat < 256 := UInt8.toNat_lt b
        exact plus_not_mem_hexDigits (by omega) hhigh
    | other _ _ hrest =>
        have hc := (List.cons.inj hbytes).1
        rw [← UInt8.toNat_inj, UInt8.toNat_ofNat', Nat.mod_eq_of_lt (by omega)] at hc
        exact absurd hlow (by rw [hc]; decide)

/-! ### Requests -/

/-- The query of these pairs. -/
def joinPairs (pairs : List String) : String :=
  String.ofList (['&'].intercalate (pairs.map String.toList))

/-- The first token pair is found among any others. -/
theorem queryToken_joinPairs {r : Request} {before after : List String} {v : String}
    (hquery : r.query = some (joinPairs (before ++ ("token=" ++ v) :: after)))
    (hpairs : ∀ p ∈ before ++ ("token=" ++ v) :: after, '&' ∉ p.toList)
    (hbefore : ∀ p ∈ before, stripPrefix "token=" p = none) : r.queryToken = some v := by
  have hsplit : (joinPairs (before ++ ("token=" ++ v) :: after)).toList.splitOn '&' =
      (before ++ ("token=" ++ v) :: after).map String.toList := by
    rw [joinPairs, String.toList_ofList]
    refine List.splitOn_intercalate '&' (fun l hl => ?_) (by simp)
    obtain ⟨p, hp, rfl⟩ := List.mem_map.mp hl
    exact hpairs p hp
  have hstrip : stripPrefix "token=" ("token=" ++ v) = some v := by
    have hdrop : ("token=".toList ++ v.toList).dropPrefix? "token=".toList = some v.toList :=
      List.dropPrefix?_append_of_beq v.toList (beq_self_eq_true _)
    rw [stripPrefix, String.toList_append, hdrop, Option.map_some, String.ofList_toList]
  have hstrings : ((before ++ ("token=" ++ v) :: after).map String.toList).map String.ofList =
      before ++ ("token=" ++ v) :: after := by
    rw [List.map_map]
    exact List.map_id'' (fun _ => String.ofList_toList) _
  rw [Request.queryToken, hquery, Option.bind_some, hsplit, hstrings, List.findSome?_append,
    List.findSome?_eq_none_iff.mpr hbefore, List.findSome?_cons, hstrip]
  rfl

theorem no_ampersand_pair {v : String} (h : '&' ∉ v.toList) : '&' ∉ ("token=" ++ v).toList := by
  rw [String.toList_append, List.mem_append]
  rintro (hname | hvalue)
  · exact absurd hname (by decide)
  · exact h hvalue

/-- What a request presents: a header's token, or the text that the value of the query's first token
pair stands for. -/
def Request.Presents (r : Request) (u : String) : Prop :=
  match r.bearer, r.apiKey, r.queryToken with
  | some token, _, _ => u = token
  | none, some key, _ => u = key
  | none, none, some v => FormReads v.toList (utf8 u)
  | none, none, none => False

/-- No escape of the query's token has a plus sign for its first digit. -/
def Request.Unsigned (r : Request) : Prop := ∀ v, r.queryToken = some v → ¬SignedEscape v.toList

/-- A configured token is read as it was encoded, and admits what presents it; of some requests,
nothing else. -/
structure TokenRead (t : String) (within : Request → Prop) : Prop where
  decoded : ∀ v, FormEncodes t v → urlencoding v = .ok t
  /-- Of a request with no other credential, on any path. -/
  admitted : ∀ (r : Request) before after v, r.bearer = none → r.apiKey = none →
    r.query = some (joinPairs (before ++ ("token=" ++ v) :: after)) →
      (∀ p ∈ before ++ after, '&' ∉ p.toList) →
      (∀ p ∈ before, stripPrefix "token=" p = none) → FormEncodes t v →
      requireAuth (some t) r = .ok .passed
  /-- Of a request whose decoding, if it comes to that, doesn't panic. -/
  refused : ∀ r : Request, within r → isExempt r.path = false →
    (r.bearer = none → r.apiKey = none → ∀ v, r.queryToken = some v → ¬Cuts v.toList) →
      (∀ u, r.Presents u → u ≠ t) → requireAuth (some t) r = .ok .unauthorized

theorem requireAuth_eq {t : String} (ht : t ≠ "") {r : Request} (hpath : isExempt r.path = false)
    {token : Option String} (htoken : extractToken r = .ok token) :
    requireAuth (some t) r = .ok (if token = some t then .passed else .unauthorized) := by
  have hconfigured : configuredToken (some t) = some t := by simp [configuredToken, ht]
  have hmatch : tokensMatch token t = true ↔ token = some t := by
    cases token with
    | none => simp [tokensMatch]
    | some token => simp [tokensMatch, utf8_injective.eq_iff]
  rw [requireAuth, hconfigured]
  dsimp only
  rw [hpath, if_neg Bool.false_ne_true, htoken, except_ok_bind]
  simp only [hmatch]
  rfl

/-- What a request that presents another token is compared by is another token. -/
theorem extractToken_ne {t : String} (hascii : ∀ c ∈ t.toList, isAscii c) {r : Request}
    (hlow : r.Unsigned ∨ ∀ c ∈ t.toList, 16 ≤ c.toNat)
    (hcuts : r.bearer = none → r.apiKey = none → ∀ v, r.queryToken = some v → ¬Cuts v.toList)
    (hother : ∀ u, r.Presents u → u ≠ t) :
    ∃ token, extractToken r = .ok token ∧ token ≠ some t := by
  rw [extractToken]
  simp only [Request.Presents] at hother
  cases hbearer : r.bearer with
  | some token =>
      rw [hbearer] at hother
      exact ⟨some token, rfl, fun h => hother token rfl (Option.some.inj h)⟩
  | none =>
      cases hkey : r.apiKey with
      | some key =>
          rw [hbearer, hkey] at hother
          exact ⟨some key, rfl, fun h => hother key rfl (Option.some.inj h)⟩
      | none =>
          cases hquery : r.queryToken with
          | none => exact ⟨none, rfl, Option.some_ne_none t |>.symm⟩
          | some v =>
              rw [hbearer, hkey, hquery] at hother
              dsimp only at hother ⊢
              cases hdecoded : urlencoding v with
              | error e =>
                  cases e with
                  | panic => exact absurd ((urlencoding_eq_panic v).mp hdecoded) (hcuts
                      hbearer hkey v hquery)
                  | refused e => exact e.elim
              | ok u =>
                  refine ⟨some u, rfl, fun h => ?_⟩
                  obtain rfl : u = t := Option.some.inj h
                  rw [urlencoding, utf8_eq_flatMap] at hdecoded
                  obtain ⟨out, hout, rfl⟩ := exists_of_map hdecoded
                  rw [String.toList_ofList] at hascii hlow
                  obtain hreads | ⟨hsigned, c, hmem, hc⟩ := reads_or_signed v.toList hout hascii
                  · rw [← encoded_ascii hascii, encoded, ← String.toList_ofList (l := out),
                      ← utf8_eq_flatMap] at hreads
                    exact hother _ hreads rfl
                  · rcases hlow with hunsigned | hlow
                    · exact hunsigned v hquery hsigned
                    · exact absurd hc (Nat.not_lt.mpr (hlow c hmem))

/-- An ASCII token is read as it was encoded, and refuses what stands for another text, short of a
character below 16 and an escape with a plus sign. -/
theorem TokenRead.of_ascii {t : String} (ht : t ≠ "") (hascii : ∀ c ∈ t.toList, isAscii c)
    {within : Request → Prop} (hlow : ∀ r, within r → r.Unsigned ∨ ∀ c ∈ t.toList, 16 ≤ c.toNat) :
    TokenRead t within := by
  have hlatin := (latin_eq_self_iff t).mpr hascii
  refine ⟨fun v hv => ?_, fun r before after v hbearer hkey hquery hpairs hbefore hv => ?_,
    fun r hwithin hpath hcuts hother => ?_⟩
  · rw [urlencoding_of_formEncodes hv, hlatin]
  · have hall : ∀ p ∈ before ++ ("token=" ++ v) :: after, '&' ∉ p.toList := by
      intro p hp
      rcases List.mem_append.mp hp with hp | hp
      · exact hpairs p (List.mem_append_left _ hp)
      · rcases List.mem_cons.mp hp with rfl | hp
        · exact no_ampersand_pair hv.no_ampersand
        · exact hpairs p (List.mem_append_right _ hp)
    have htoken : extractToken r = .ok (some t) := by
      rw [extractToken, hbearer, hkey, queryToken_joinPairs hquery hall hbefore]
      dsimp only
      rw [urlencoding_of_formEncodes hv, hlatin]
      rfl
    cases hpath : isExempt r.path with
    | true =>
        have hconfigured : configuredToken (some t) = some t := by simp [configuredToken, ht]
        rw [requireAuth, hconfigured]
        exact if_pos hpath
    | false => rw [requireAuth_eq ht hpath htoken, if_pos rfl]
  · obtain ⟨token, htoken, hne⟩ := extractToken_ne hascii (hlow r hwithin) hcuts hother
    rw [requireAuth_eq ht hpath htoken, if_neg hne]

theorem TokenRead.ascii {t : String} {within : Request → Prop} (h : TokenRead t within) :
    ∀ c ∈ t.toList, isAscii c := by
  obtain ⟨v, hv⟩ := exists_formEncodes t
  have hdecoded := h.decoded v hv
  rw [urlencoding_of_formEncodes hv] at hdecoded
  exact (latin_eq_self_iff t).mp (Except.ok.inj hdecoded)

/-- A token with a character below 16 is let through by what stands for another text. -/
theorem TokenRead.low {t : String} (ht : t ≠ "") (h : TokenRead t fun _ => True) :
    ∀ c ∈ t.toList, 16 ≤ c.toNat := by
  intro c hmem
  by_contra hlow
  obtain ⟨v, hdecoded, hvalue, hother⟩ := exists_signed h.ascii hmem (Nat.not_le.mp hlow)
  let r : Request := ⟨"/api/overview", some (joinPairs ([] ++ ("token=" ++ v) :: [])), []⟩
  have hpair : ∀ p ∈ [] ++ ("token=" ++ v) :: [], '&' ∉ p.toList :=
    fun p hp => List.mem_singleton.mp hp ▸ no_ampersand_pair hvalue
  have hquery : r.queryToken = some v :=
    queryToken_joinPairs rfl hpair fun p hp => absurd hp List.not_mem_nil
  have hpath : isExempt r.path = false := show isExempt "/api/overview" = false by decide
  have hpasses : requireAuth (some t) r = .ok .passed := by
    have htoken : extractToken r = .ok (some t) := by
      have hnone : r.bearer = none ∧ r.apiKey = none := ⟨rfl, rfl⟩
      rw [extractToken, hnone.1, hnone.2, hquery]
      dsimp only
      rw [hdecoded]
      rfl
    rw [requireAuth_eq ht hpath htoken, if_pos rfl]
  have hrefuses := h.refused r trivial hpath (fun _ _ w hw => by
      obtain rfl := Option.some.inj (hquery.symm.trans hw)
      rw [← urlencoding_eq_panic, hdecoded]
      exact fun hpanic => nomatch hpanic) fun u hu => by
    rw [Request.Presents, hquery] at hu
    exact hother u hu
  rw [hpasses] at hrefuses
  cases hrefuses

/-- The decoder panics on exactly the texts with a percent sign that cuts a character. Short of
that, a configured token is read as it was encoded, admits what presents it and refuses what
presents another, exactly when it is ASCII and has no character below 16; an escape with a plus sign
aside, exactly when it is ASCII. -/
theorem query_token_read_iff (s t : String) (ht : t ≠ "") :
    (urlencoding s ≠ .error .panic ↔ ¬Cuts s.toList) ∧
    (TokenRead t (fun _ => True) ↔ ∀ c ∈ t.toList, isAscii c ∧ 16 ≤ c.toNat) ∧
    (TokenRead t Request.Unsigned ↔ ∀ c ∈ t.toList, isAscii c) := by
  refine ⟨not_congr (urlencoding_eq_panic s), ⟨fun h c hmem => ⟨h.ascii c hmem, h.low ht c hmem⟩,
    fun h => ?_⟩, fun h => h.ascii, fun h => ?_⟩
  · exact .of_ascii ht (fun c hmem => (h c hmem).1) fun r _ => .inr fun c hmem => (h c hmem).2
  · exact .of_ascii ht h fun r hr => .inl hr

theorem query_token_read_ascii :
    urlencoding "a%20b" ≠ .error .panic ∧ TokenRead "a b" (fun _ => True) ∧
      TokenRead "a\n" Request.Unsigned ∧ ¬TokenRead "a\n" (fun _ => True) := by
  obtain ⟨hpanic, hread, -⟩ := query_token_read_iff "a%20b" "a b" (by decide)
  obtain ⟨-, hlow, hunsigned⟩ := query_token_read_iff "a%20b" "a\n" (by decide)
  refine ⟨by decide, hread.mpr (forall_mem_of_all (by decide)),
    hunsigned.mpr (forall_mem_of_all (by decide)), ?_⟩
  exact fun h => absurd (hlow.mp h '\n' (by decide)).2 (by decide)

/-- A percent sign before `aé` panics; and the token `é`, encoded, is refused. -/
theorem wide_token_misread :
    urlencoding "%aé" = .error .panic ∧ FormEncodes "é" "%C3%A9" ∧ urlencoding "%C3%A9" = .ok "Ã©" ∧
      requireAuth (some "é") ⟨"/api/overview", some "token=%C3%A9", []⟩ = .ok .unauthorized := by
  refine ⟨by decide, ?_, by decide, by decide⟩
  exact .escape (b := 0xc3) (by decide) (by decide)
    (.escape (b := 0xa9) (by decide) (by decide) .nil)

end MonitoringAgent.Agent.Auth

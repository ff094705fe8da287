import MonitoringAgent.Library.BigEndian
import MonitoringAgent.Library.Datum

/-! # A binary format

Tagged scalars of fixed width; texts, sequences and maps run to an end mark. It carries every value
whose integers fit in 64 bits. A value may have a text of its own instead, as another format writes
it. -/

namespace MonitoringAgent.Library

open Datum

/-! ### Packing -/

/-- Four bytes a character, up to the end mark. -/
def packText (s : String) : List UInt8 := (s.toList.flatMap fun c => beBytes 4 c.toNat) ++ [0xff]

def packScalar : Scalar → List UInt8
  | .null => [0xc0]
  | .text s => 0xd9 :: packText s
  | .nat n => 0xcf :: beBytes 8 n
  | .float32 bits => 0xca :: beBytes 4 bits.toNat
  | .float64 bits => 0xcb :: beBytes 8 bits.toNat

mutual

def pack : Datum → List UInt8
  | .scalar s => packScalar s
  | .seq items => 0xdc :: packItems items
  | .map entries => 0xde :: packEntries entries

def packItems : List Datum → List UInt8
  | [] => [0xc1]
  | d :: items => pack d ++ packItems items

def packEntries : List (String × Datum) → List UInt8
  | [] => [0xc1]
  | (name, d) :: entries => 0xd9 :: packText name ++ pack d ++ packEntries entries

end

/-! ### Unpacking -/

def unpackChars : List UInt8 → Option (List Char × List UInt8)
  | 0xff :: rest => some ([], rest)
  | a :: b :: c :: d :: rest =>
      (unpackChars rest).map fun (cs, rest) => (Char.ofNat (ofBeBytes [a, b, c, d]) :: cs, rest)
  | _ => none

def unpackText (bytes : List UInt8) : Option (String × List UInt8) :=
  (unpackChars bytes).map fun (cs, rest) => (String.ofList cs, rest)

mutual

def unpack : ℕ → List UInt8 → Option (Datum × List UInt8)
  | 0, _ => none
  | _ + 1, 0xc0 :: rest => some (.null, rest)
  | _ + 1, 0xd9 :: rest => (unpackText rest).map fun (s, rest) => (.text s, rest)
  | _ + 1, 0xcf :: rest => some (.nat (ofBeBytes (rest.take 8)), rest.drop 8)
  | _ + 1, 0xca :: rest => some (.float32 (.ofNat 32 (ofBeBytes (rest.take 4))), rest.drop 4)
  | _ + 1, 0xcb :: rest => some (.float64 (.ofNat 64 (ofBeBytes (rest.take 8))), rest.drop 8)
  | fuel + 1, 0xdc :: rest => (unpackItems fuel rest).map fun (items, rest) => (.seq items, rest)
  | fuel + 1, 0xde :: rest => (unpackEntries fuel rest).map fun (entries, rest) =>
      (.map entries, rest)
  | _ + 1, _ => none

def unpackItems : ℕ → List UInt8 → Option (List Datum × List UInt8)
  | 0, _ => none
  | fuel + 1, bytes =>
      if bytes.head? = some 0xc1 then some ([], bytes.tail)
      else do
        let (d, rest) ← unpack fuel bytes
        let (items, rest) ← unpackItems fuel rest
        return (d :: items, rest)

def unpackEntries : ℕ → List UInt8 → Option (List (String × Datum) × List UInt8)
  | 0, _ => none
  | fuel + 1, bytes =>
      if bytes.head? = some 0xc1 then some ([], bytes.tail)
      else do
        let (name, rest) ← unpackText bytes.tail
        let (d, rest) ← unpack fuel rest
        let (entries, rest) ← unpackEntries fuel rest
        return ((name, d) :: entries, rest)

end

def packed : Format where
  encode := pack
  decode bytes := (unpack bytes.length bytes).map Prod.fst

/-! ### What is packed is unpacked -/

theorem unpackChars_flatMap (cs : List Char) (rest : List UInt8) :
    unpackChars ((cs.flatMap fun c => beBytes 4 c.toNat) ++ 0xff :: rest) = some (cs, rest) := by
  induction cs with
  | nil => rfl
  | cons c cs ih =>
      have hlt : c.toNat < 256 ^ 3 := by
        have hvalid : c.toNat < 0xd800 ∨ 0xdfff < c.toNat ∧ c.toNat < 0x110000 := c.valid
        omega
      have hbytes : beBytes 4 c.toNat = [0, UInt8.ofNat (c.toNat / 256 ^ 2),
          UInt8.ofNat (c.toNat / 256 ^ 1), UInt8.ofNat (c.toNat / 256 ^ 0)] := by
        rw [beBytes, beBytes, beBytes, beBytes, beBytes, Nat.div_eq_of_lt hlt]
        rfl
      have hvalue := ofBeBytes_beBytes 4 c.toNat
      rw [Nat.mod_eq_of_lt (hlt.trans (by norm_num)), hbytes] at hvalue
      rw [List.flatMap_cons, hbytes]
      simp only [List.cons_append, List.nil_append]
      rw [unpackChars, ih, hvalue, Option.map_some]
      · simp only [Char.ofNat_toNat]
      · decide

theorem unpackText_packText (s : String) (rest : List UInt8) :
    unpackText (packText s ++ rest) = some (s, rest) := by
  rw [unpackText, packText, List.append_assoc, List.singleton_append,
    unpackChars_flatMap, Option.map_some]
  simp only [String.ofList_toList]

theorem ofBeBytes_take (width : ℕ) {value : ℕ} (h : value < 256 ^ width) (rest : List UInt8) :
    ofBeBytes ((beBytes width value ++ rest).take width) = value := by
  rw [List.take_left' (length_beBytes width value), ofBeBytes_beBytes, Nat.mod_eq_of_lt h]

theorem drop_beBytes (width value : ℕ) (rest : List UInt8) :
    (beBytes width value ++ rest).drop width = rest :=
  List.drop_left' (length_beBytes width value)

theorem unpack_packScalar {s : Scalar} (h : s.Sized) (fuel : ℕ) (rest : List UInt8) :
    unpack (fuel + 1) (packScalar s ++ rest) = some (.scalar s, rest) := by
  cases s with
  | null => rfl
  | text s =>
      rw [packScalar, List.cons_append, unpack, unpackText_packText]
      rfl
  | nat n =>
      rw [packScalar, List.cons_append, unpack, ofBeBytes_take 8 h, drop_beBytes]
      rfl
  | float32 bits =>
      rw [packScalar, List.cons_append, unpack, ofBeBytes_take 4 bits.isLt, drop_beBytes,
        BitVec.ofNat_toNat, BitVec.setWidth_eq]
      rfl
  | float64 bits =>
      rw [packScalar, List.cons_append, unpack, ofBeBytes_take 8 bits.isLt, drop_beBytes,
        BitVec.ofNat_toNat, BitVec.setWidth_eq]
      rfl

theorem head?_pack (d : Datum) (rest : List UInt8) :
    (pack d ++ rest).head? ≠ some 0xc1 ∧ 0 < (pack d).length := by
  cases d with
  | scalar s => cases s <;> simp [pack, packScalar]
  | seq items => simp [pack]
  | map entries => simp [pack]

theorem unpackItems_packItems {items : List Datum}
    (h : ∀ d ∈ items, ∀ fuel rest, (pack d).length ≤ fuel →
      unpack fuel (pack d ++ rest) = some (d, rest))
    {fuel : ℕ} (hfuel : (packItems items).length ≤ fuel) (rest : List UInt8) :
    unpackItems fuel (packItems items ++ rest) = some (items, rest) := by
  induction items generalizing fuel with
  | nil =>
      obtain ⟨fuel, rfl⟩ := Nat.exists_eq_add_of_le' (show 1 ≤ fuel from hfuel)
      rfl
  | cons d items ih =>
      obtain ⟨hhead, hpos⟩ := head?_pack d (packItems items ++ rest)
      rw [packItems, List.length_append] at hfuel
      obtain ⟨fuel, rfl⟩ := Nat.exists_eq_add_of_le' (show 1 ≤ fuel by omega)
      have hitems : 0 < (packItems items).length := by
        cases items with
        | nil => simp [packItems]
        | cons e items =>
            rw [packItems, List.length_append]
            have hpos' := (head?_pack e rest).2
            omega
      rw [packItems, List.append_assoc, unpackItems, if_neg hhead,
        h d List.mem_cons_self fuel _ (by omega)]
      change (unpackItems fuel (packItems items ++ rest) >>= fun r => pure (d :: r.1, r.2)) = _
      rw [ih (fun e he => h e (List.mem_cons_of_mem d he)) (by omega)]
      rfl

theorem unpackEntries_packEntries {entries : List (String × Datum)}
    (h : ∀ e ∈ entries, ∀ fuel rest, (pack e.2).length ≤ fuel →
      unpack fuel (pack e.2 ++ rest) = some (e.2, rest))
    {fuel : ℕ} (hfuel : (packEntries entries).length ≤ fuel) (rest : List UInt8) :
    unpackEntries fuel (packEntries entries ++ rest) = some (entries, rest) := by
  induction entries generalizing fuel with
  | nil =>
      obtain ⟨fuel, rfl⟩ := Nat.exists_eq_add_of_le' (show 1 ≤ fuel from hfuel)
      rfl
  | cons e entries ih =>
      obtain ⟨name, d⟩ := e
      simp only [packEntries, List.length_append, List.length_cons] at hfuel
      obtain ⟨fuel, rfl⟩ := Nat.exists_eq_add_of_le' (show 1 ≤ fuel by omega)
      have hd := h (name, d) List.mem_cons_self fuel (packEntries entries ++ rest)
        (by dsimp only; omega)
      have hle : (packEntries entries).length ≤ fuel := by omega
      have hentries := ih (fun e he => h e (List.mem_cons_of_mem _ he)) hle
      rw [packEntries, unpackEntries, List.append_assoc, List.append_assoc, List.cons_append,
        if_neg (by simp), List.tail_cons, unpackText_packText]
      change (unpack fuel (pack d ++ (packEntries entries ++ rest)) >>= fun r =>
        unpackEntries fuel r.2 >>= fun q => pure ((name, r.1) :: q.1, q.2)) = _
      rw [hd]
      change (unpackEntries fuel (packEntries entries ++ rest) >>= fun q => pure
        ((name, d) :: q.1, q.2)) = _
      rw [hentries]
      rfl

theorem unpack_pack {d : Datum} (h : d.All Scalar.Sized) :
    ∀ fuel rest, (pack d).length ≤ fuel → unpack fuel (pack d ++ rest) = some (d, rest) := by
  induction h with
  | @scalar s hs =>
      intro fuel rest hfuel
      have hpos := (head?_pack (.scalar s) rest).2
      obtain ⟨fuel, rfl⟩ := Nat.exists_eq_add_of_le' (show 1 ≤ fuel by omega)
      rw [pack]
      exact unpack_packScalar hs fuel rest
  | seq _ ih =>
      intro fuel rest hfuel
      rw [pack, List.length_cons] at hfuel
      obtain ⟨fuel, rfl⟩ := Nat.exists_eq_add_of_le' (show 1 ≤ fuel by omega)
      rw [pack, List.cons_append, unpack, unpackItems_packItems ih (by omega)]
      rfl
  | map _ ih =>
      intro fuel rest hfuel
      rw [pack, List.length_cons] at hfuel
      obtain ⟨fuel, rfl⟩ := Nat.exists_eq_add_of_le' (show 1 ≤ fuel by omega)
      rw [pack, List.cons_append, unpack, unpackEntries_packEntries ih (by omega)]
      rfl

theorem packed_carries : packed.Carries Scalar.Sized := by
  intro d hd
  have hunpack := unpack_pack hd (pack d).length [] le_rfl
  rw [List.append_nil] at hunpack
  rw [packed]
  simp only [hunpack, Option.map_some]

/-! ### A text for one value -/

/-- The binary format, but that `d` is written as a text. -/
def spelled (d : Datum) (text : List UInt8) : Format where
  encode e := if pack e = pack d then text else pack e
  decode bytes := if bytes = text then some d else packed.decode bytes

theorem spelled_encode {d e : Datum} (h : pack e = pack d) (text : List UInt8) :
    (spelled d text).encode e = text :=
  if_pos h

/-- What is packed begins with a tag, and no tag is ASCII. -/
theorem pack_ne_cons (d : Datum) {b : UInt8} (hb : b < 0x80) (bytes : List UInt8) :
    pack d ≠ b :: bytes := by
  intro h
  have hhead := congrArg List.head? h
  cases d with
  | scalar s =>
      cases s <;> simp only [pack, packScalar, List.head?_cons, Option.some.injEq] at hhead <;>
        exact absurd (hhead ▸ hb) (by decide)
  | seq items =>
      simp only [pack, List.head?_cons, Option.some.injEq] at hhead
      exact absurd (hhead ▸ hb) (by decide)
  | map entries =>
      simp only [pack, List.head?_cons, Option.some.injEq] at hhead
      exact absurd (hhead ▸ hb) (by decide)

theorem spelled_carries {d : Datum} (hd : d.All Scalar.Sized) {b : UInt8} (hb : b < 0x80)
    (bytes : List UInt8) : (spelled d (b :: bytes)).Carries Scalar.Sized := by
  intro e he
  have hpacked : packed.decode (pack e) = some e := packed_carries e he
  by_cases hsame : pack e = pack d
  · have hdecoded : packed.decode (pack d) = some d := packed_carries d hd
    rw [← hsame, hpacked] at hdecoded
    simp only [spelled, hsame, if_true]
    exact hdecoded.symm
  · simp only [spelled, hsame, if_false, pack_ne_cons e hb bytes, hpacked]

end MonitoringAgent.Library

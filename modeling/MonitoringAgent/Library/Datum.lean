import Mathlib.Data.String.Basic
import MonitoringAgent.Library.Table

/-! # Values of a self-describing format

What a format such as MessagePack or JSON carries: scalars, sequences and maps. A record is written
by position or by field name, and read from either. -/

namespace MonitoringAgent.Library

inductive Scalar where
  | null
  | text (s : String)
  | nat (n : ℕ)
  | float32 (bits : BitVec 32)
  | float64 (bits : BitVec 64)
  deriving DecidableEq, Repr

inductive Datum where
  | scalar (s : Scalar)
  | seq (items : List Datum)
  | map (entries : List (String × Datum))

/-! ### Formats -/

/-- An integer that fits in 64 bits, or anything else. -/
def Scalar.Sized : Scalar → Prop
  | .nat n => n < 2 ^ 64
  | _ => True

/-- Nothing, every text and every integer of 64 bits satisfies `p`. -/
structure Scalar.Plain (p : Scalar → Prop) : Prop where
  null : p .null
  text : ∀ s, p (.text s)
  nat : ∀ n, n < 2 ^ 64 → p (.nat n)

theorem Scalar.plain_sized : Scalar.Plain Scalar.Sized := ⟨trivial, fun _ => trivial, fun _ h => h⟩

/-- Every scalar in the value satisfies `p`. -/
inductive Datum.All (p : Scalar → Prop) : Datum → Prop
  | scalar {s : Scalar} (h : p s) : All p (.scalar s)
  | seq {items : List Datum} (h : ∀ d ∈ items, All p d) : All p (.seq items)
  | map {entries : List (String × Datum)} (h : ∀ e ∈ entries, All p e.2) : All p (.map entries)

/-- An encoder of values and its decoder. -/
structure Format where
  encode : Datum → List UInt8
  decode : List UInt8 → Option Datum

/-- The format carries every value whose scalars satisfy `p`. -/
def Format.Carries (format : Format) (p : Scalar → Prop) : Prop :=
  ∀ d : Datum, d.All p → format.decode (format.encode d) = some d

/-! ### Writing -/

namespace Datum

def null : Datum := .scalar .null

def text (s : String) : Datum := .scalar (.text s)

def nat (n : ℕ) : Datum := .scalar (.nat n)

def float32 (bits : BitVec 32) : Datum := .scalar (.float32 bits)

def float64 (bits : BitVec 64) : Datum := .scalar (.float64 bits)

def option {α : Type} (write : α → Datum) : Option α → Datum
  | none => null
  | some a => write a

/-- How records are written. -/
inductive Layout where
  | positional
  | named
  deriving DecidableEq, Repr

def record (layout : Layout) (fields : List (String × Datum)) : Datum :=
  match layout with
  | .positional => .seq (fields.map Prod.snd)
  | .named => .map fields

/-! ### Reading -/

def asText : Datum → Option String
  | .scalar (.text s) => some s
  | _ => none

def asNat : Datum → Option ℕ
  | .scalar (.nat n) => some n
  | _ => none

def asFloat32 : Datum → Option (BitVec 32)
  | .scalar (.float32 bits) => some bits
  | _ => none

def asFloat64 : Datum → Option (BitVec 64)
  | .scalar (.float64 bits) => some bits
  | _ => none

def asSeq {α : Type} (read : Datum → Option α) : Datum → Option (List α)
  | .seq items => items.mapM read
  | _ => none

/-- A map into an ordered table; of two entries of a name, the later counts. -/
def asTable {α : Type} (read : Datum → Option α) : Datum → Option (Table String α)
  | .map entries =>
      (entries.mapM fun e => (read e.2).map (e.1, ·)).map fun read =>
        read.foldl (fun t e => t.insert e.1 e.2) .empty
  | _ => none

def asOption {α : Type} (read : Datum → Option α) : Datum → Option (Option α)
  | .scalar .null => some none
  | d => (read d).map some

/-- The value of a record's field, none when the record leaves it out. A sequence has an item for
each field, and a map may have entries of other names. -/
def fields (names : List String) : Datum → Option (List (Option Datum))
  | .seq items => if items.length = names.length then some (items.map some) else none
  | .map entries =>
      names.mapM fun name =>
        match entries.filter fun e => e.1 = name with
        | [] => some none
        | [e] => some (some e.2)
        | _ => none
  | _ => none

/-- A field that has to be there. -/
def required {α : Type} (read : Datum → Option α) (field : Option Datum) :
    Option α := field.bind read

/-- A field that may be left out. -/
def optional {α : Type} (read : Datum → Option α) (field : Option Datum) : Option (Option α) :=
  (field.map (asOption read)).getD (some none)

/-- A field with a default. -/
def defaulted {α : Type} (read : Datum → Option α) (value : α) (field : Option Datum) : Option α :=
  (field.map read).getD (some value)

/-! ### What a format carries -/

section All

variable {p : Scalar → Prop}

theorem All.record (layout : Layout) {fs : List (String × Datum)} (h : ∀ f ∈ fs, f.2.All p) :
    (record layout fs).All p := by
  cases layout with
  | positional =>
      refine .seq fun d hd => ?_
      obtain ⟨f, hf, rfl⟩ := List.mem_map.mp hd
      exact h f hf
  | named => exact .map h

theorem All.option {α : Type} (hnull : p .null) {write : α → Datum} {o : Option α}
    (h : ∀ a, o = some a → (write a).All p) : (Datum.option write o).All p := by
  cases o with
  | none => exact .scalar hnull
  | some a => exact h a rfl

theorem All.seqMap {α : Type} {write : α → Datum} {l : List α} (h : ∀ a ∈ l, (write a).All p) :
    (Datum.seq (l.map write)).All p := by
  refine .seq fun d hd => ?_
  obtain ⟨a, ha, rfl⟩ := List.mem_map.mp hd
  exact h a ha

end All

/-! ### What is written is read back -/

@[simp] theorem asText_text (s : String) : (text s).asText = some s := rfl

@[simp] theorem asNat_nat (n : ℕ) : (nat n).asNat = some n := rfl

@[simp] theorem asFloat32_float32 (bits : BitVec 32) : (float32 bits).asFloat32 = some bits := rfl

@[simp] theorem asFloat64_float64 (bits : BitVec 64) : (float64 bits).asFloat64 = some bits := rfl

variable {α β : Type}

theorem record_ne_null (layout : Layout) (fs : List (String × Datum)) :
    record layout fs ≠ null := by
  cases layout <;> exact Datum.noConfusion

theorem asOption_option {write : α → Datum} {read : Datum → Option β} {f : α → β}
    (hne : ∀ a, write a ≠ null) (hread : ∀ a, read (write a) = some (f a)) (o : Option α) :
    asOption read (option write o) = some (o.map f) := by
  cases o with
  | none => rfl
  | some a =>
      rw [option, asOption, hread a]
      · rfl
      · exact hne a

@[simp] theorem asOption_text (o : Option String) : asOption asText (option text o) = some o := by
  cases o <;> rfl

@[simp] theorem asOption_nat (o : Option ℕ) : asOption asNat (option nat o) = some o := by
  cases o <;> rfl

theorem mapM_eq_some {read : α → Option β} {f : α → β} {l : List α}
    (h : ∀ a ∈ l, read a = some (f a)) : l.mapM read = some (l.map f) := by
  induction l with
  | nil => rfl
  | cons a l ih =>
      rw [List.mapM_cons, h a List.mem_cons_self, ih fun b hb => h b (List.mem_cons_of_mem a hb)]
      rfl

theorem asSeq_map {γ : Type} {write : γ → Datum} {read : Datum → Option β} {f : γ → β} {l : List γ}
    (h : ∀ a ∈ l, read (write a) = some (f a)) :
    asSeq read (.seq (l.map write)) = some (l.map f) := by
  rw [asSeq, List.mapM_map]
  exact mapM_eq_some h

/-- A table written as a map is read back. -/
theorem asTable_entries {write : α → Datum} {read : Datum → Option α}
    (h : ∀ a, read (write a) = some a) (t : Table String α) :
    asTable read (.map (t.entries.map fun e => (e.1, write e.2))) = some t := by
  have hentries : (t.entries.map fun e => (e.1, write e.2)).mapM
      (fun e => (read e.2).map (e.1, ·)) =
      some t.entries := by
    have hread : ∀ e ∈ t.entries,
        (((fun e => (read e.2).map (e.1, ·)) ∘ fun e => (e.1, write e.2)) e) =
        some (id e) := by
      intro e _
      simp only [Function.comp_apply, h]
      rfl
    rw [List.mapM_map, mapM_eq_some hread, List.map_id]
  rw [asTable, hentries, Option.map_some, Option.some.injEq]
  apply Table.ext
  intro key
  apply Option.ext
  intro value
  rw [Table.get?_foldl_insert]
  · rw [Table.get?_empty, Table.get?_eq_some_iff]
    simp
  · intro v v' hv hv'
    rw [← Table.get?_eq_some_iff] at hv hv'
    rw [hv] at hv'
    exact Option.some.inj hv'

theorem lookup_of_mem {fs : List (String × α)} (hnodup : (fs.map Prod.fst).Nodup) {f : String × α}
    (h : f ∈ fs) : fs.lookup f.1 = some f.2 := by
  induction fs with
  | nil => cases h
  | cons e fs ih =>
      rw [List.map_cons, List.nodup_cons] at hnodup
      rcases List.mem_cons.mp h with rfl | h
      · rw [List.lookup_cons_self]
      · have hne : f.1 ≠ e.1 := fun heq => hnodup.1 (heq ▸ List.mem_map_of_mem h)
        rw [List.lookup_cons, beq_false_of_ne hne]
        exact ih hnodup.2 h

theorem filter_fst_of_notMem {fs : List (String × α)} {name : String} (h : name ∉ fs.map Prod.fst) :
    (fs.filter fun e => e.1 = name) = [] := by
  rw [List.filter_eq_nil_iff]
  intro e he
  have hne : e.1 ≠ name := fun heq => h (heq ▸ List.mem_map_of_mem he)
  simpa using hne

/-- Fields with distinct names, read from a map by any names. -/
theorem fields_map {fs : List (String × Datum)} (hnodup : (fs.map Prod.fst).Nodup)
    (names : List String) :
    fields names (.map fs) = some (names.map fun name => fs.lookup name) := by
  apply mapM_eq_some
  intro name _
  induction fs with
  | nil => rfl
  | cons e fs ih =>
      rw [List.map_cons, List.nodup_cons] at hnodup
      by_cases he : e.1 = name
      · subst he
        rw [List.filter_cons_of_pos (by simp), filter_fst_of_notMem hnodup.1]
        have hself : (e :: fs).lookup e.1 = some e.2 := List.lookup_cons_self
        simp [hself]
      · rw [List.filter_cons_of_neg (by simpa using he), List.lookup_cons,
          beq_false_of_ne (Ne.symm he)]
        exact ih hnodup.2

/-- A record read in its own layout by some of its names, which are distinct. -/
theorem fields_named {fs : List (String × Datum)} (hnodup : (fs.map Prod.fst).Nodup)
    (names : List String) :
    fields names (record .named fs) = some (names.map fun name => fs.lookup name) :=
      fields_map hnodup names

/-- A record is read back in either layout. -/
theorem fields_record (layout : Layout) {names : List String} {fs : List (String × Datum)}
    (hnames : fs.map Prod.fst = names) (hnodup : names.Nodup) :
    fields names (record layout fs) = some (fs.map fun f => some f.2) := by
  subst hnames
  cases layout with
  | positional => simp [record, fields, Function.comp_def]
  | named =>
      rw [record, fields_map hnodup, List.map_map, Option.some.injEq]
      apply List.map_congr_left
      intro f hf
      exact lookup_of_mem hnodup hf

end Datum

end MonitoringAgent.Library

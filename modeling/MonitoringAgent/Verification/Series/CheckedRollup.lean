import MonitoringAgent.Library.Text
import MonitoringAgent.Model.CheckedRollup
import MonitoringAgent.Verification.Series.CheckedTail
import MonitoringAgent.Verification.Series.Rollup

/-! # Accumulation is exact

An accumulator of values is their sum, their number and their extremes, in whatever order they come;
its average is the mean rounded, which is between the extremes, and no step of it overflows. -/

namespace MonitoringAgent.HubStore

open List MonitoringAgent.Library

/-! ### An accumulator of values -/

/-- The accumulator has added exactly the values. -/
structure Accumulator.OfValues (a : Accumulator) (values : List ℤ) : Prop where
  sum : a.sum = values.sum
  count : a.count = values.length
  min : values.min? = some a.min
  max : values.max? = some a.max

namespace Accumulator.OfValues

variable {a : Accumulator} {values : List ℤ}

theorem bounds (h : a.OfValues values) (hvalues : ∀ v ∈ values, IsI64 v) :
    IsI64 a.min ∧ IsI64 a.max ∧ a.min ≤ a.max ∧ 0 < a.count ∧
      (a.count : ℤ) * a.min ≤ a.sum ∧ a.sum ≤ (a.count : ℤ) * a.max := by
  obtain ⟨hminMem, hmin⟩ := List.min?_eq_some_iff.mp h.min
  obtain ⟨hmaxMem, hmax⟩ := List.max?_eq_some_iff.mp h.max
  have hlow := List.card_nsmul_le_sum values a.min hmin
  have hhigh := List.sum_le_card_nsmul values a.max hmax
  rw [nsmul_eq_mul] at hlow hhigh
  rw [h.sum, h.count]
  exact ⟨hvalues _ hminMem, hvalues _ hmaxMem, hmin _ hmaxMem,
    List.length_pos_of_mem hminMem, hlow, hhigh⟩

/-- An accumulator is what its bucket and its values make it, in any order. -/
theorem eq_of_perm {b : Accumulator} {others : List ℤ} (h : a.OfValues values)
    (h' : b.OfValues others) (hindex : a.index = b.index) (hperm : others ~ values) : b = a := by
  have hsum : b.sum = a.sum := by rw [h.sum, h'.sum, hperm.sum_eq]
  have hcount : b.count = a.count := by rw [h.count, h'.count, hperm.length_eq]
  obtain ⟨hmem, hle⟩ := List.min?_eq_some_iff.mp h.min
  obtain ⟨hmem', hle'⟩ := List.min?_eq_some_iff.mp h'.min
  have hmin : b.min = a.min := le_antisymm (hle' _ (hperm.mem_iff.mpr hmem))
    (hle _ (hperm.mem_iff.mp hmem'))
  obtain ⟨hmem, hle⟩ := List.max?_eq_some_iff.mp h.max
  obtain ⟨hmem', hle'⟩ := List.max?_eq_some_iff.mp h'.max
  have hmax : b.max = a.max := le_antisymm (hle _ (hperm.mem_iff.mp hmem'))
    (hle' _ (hperm.mem_iff.mpr hmem))
  cases a
  cases b
  simp only [Accumulator.mk.injEq]
  exact ⟨hindex.symm, hsum, hcount, hmin, hmax⟩

end Accumulator.OfValues

namespace Checked

variable {ε : Type} {a : Accumulator} {values : List ℤ}

/-- A sum of as many values as a `u32` counts is far from the ends of an `i128`. -/
theorem sum_range (h : a.OfValues values) (hvalues : ∀ v ∈ values, IsI64 v)
    (hlength : values.length < 2 ^ 32) : -2 ^ 95 ≤ a.sum ∧ a.sum ≤ 2 ^ 95 := by
  obtain ⟨hmin, hmax, -, hpos, hlow, hhigh⟩ := h.bounds hvalues
  have hcount := h.count
  have hmin := hmin.1
  have hmax := hmax.2
  constructor <;> nlinarith

/-- A value added to the others of its bucket. -/
theorem add_ok (h : a.OfValues values) (hvalues : ∀ v ∈ values, IsI64 v) {value : ℤ}
    (hvalue : IsI64 value) (hlength : values.length + 1 < 2 ^ 32) :
    ∃ b, (add a value : Except (Stop ε) Accumulator) = .ok b ∧ b.index = a.index ∧
      b.OfValues (values ++ [value]) := by
  obtain ⟨hlow, hhigh⟩ := sum_range h hvalues (by omega)
  obtain ⟨hvalueLow, hvalueHigh⟩ := hvalue
  have hcount := h.count
  obtain ⟨hminMem, hmin⟩ := List.min?_eq_some_iff.mp h.min
  obtain ⟨hmaxMem, hmax⟩ := List.max?_eq_some_iff.mp h.max
  refine ⟨⟨a.index, a.sum + value, min (a.count + 1) (2 ^ 32 - 1), min a.min value,
    max a.max value⟩, ?_, rfl, ?_⟩
  · rw [add, addInt_eq (by constructor <;> omega)]
    rfl
  refine ⟨?_, ?_, List.min?_eq_some_iff.mpr ⟨?_, ?_⟩, List.max?_eq_some_iff.mpr ⟨?_, ?_⟩⟩
  · rw [List.sum_append, List.sum_singleton, ← h.sum]
  · rw [List.length_append, List.length_singleton]
    change min (a.count + 1) (2 ^ 32 - 1) = _
    omega
  · rcases min_choice a.min value with hm | hm
    · rw [hm]
      exact List.mem_append_left _ hminMem
    · rw [hm]
      exact List.mem_append_right _ List.mem_cons_self
  · intro v hv
    rcases List.mem_append.mp hv with hv | hv
    · exact (min_le_left _ _).trans (hmin v hv)
    · rw [List.mem_singleton.mp hv]
      exact min_le_right _ _
  · rcases max_choice a.max value with hm | hm
    · rw [hm]
      exact List.mem_append_left _ hmaxMem
    · rw [hm]
      exact List.mem_append_right _ List.mem_cons_self
  · intro v hv
    rcases List.mem_append.mp hv with hv | hv
    · exact (hmax v hv).trans (le_max_left _ _)
    · rw [List.mem_singleton.mp hv]
      exact le_max_right _ _

/-- The values of a bucket added in turn. -/
theorem foldlM_add_ok (h : a.OfValues values) (hvalues : ∀ v ∈ values, IsI64 v) {rest : List ℤ}
    (hrest : ∀ v ∈ rest, IsI64 v) (hlength : values.length + rest.length < 2 ^ 32) :
    ∃ b, (rest.foldlM add a : Except (Stop ε) Accumulator) = .ok b ∧ b.index = a.index ∧
      b.OfValues (values ++ rest) := by
  induction rest generalizing a values with
  | nil =>
      rw [List.append_nil]
      exact ⟨a, rfl, rfl, h⟩
  | cons value rest ih =>
      have hvalue := hrest value List.mem_cons_self
      rw [List.length_cons] at hlength
      obtain ⟨next, hadd, hindex, hnext⟩ := add_ok (ε := ε) h hvalues hvalue (by omega)
      have hall : ∀ v ∈ values ++ [value], IsI64 v := by
        intro v hv
        rcases List.mem_append.mp hv with hv | hv
        · exact hvalues v hv
        · rwa [List.mem_singleton.mp hv]
      obtain ⟨b, hfold, hindex', hb⟩ := ih hnext hall
        (fun v hv => hrest v (List.mem_cons_of_mem value hv))
        (by rw [List.length_append, List.length_singleton]; omega)
      rw [List.append_assoc, List.singleton_append] at hb
      exact ⟨b, by rw [List.foldlM_cons, hadd, except_ok_bind, hfold], hindex'.trans hindex, hb⟩

theorem accumulate_ok (tier : RollupTier) (ts : ℕ) {first : ℤ} {rest : List ℤ}
    (hvalues : ∀ v ∈ first :: rest, IsI64 v) (hlength : rest.length + 1 < 2 ^ 32) :
    ∃ b, (accumulate tier ts first rest : Except (Stop ε) Accumulator) = .ok b ∧
      b.index = ts / tier.bucketSecs ∧
      b.OfValues (first :: rest) := by
  have hopen : (Accumulator.open tier ts first).OfValues [first] := by
    refine ⟨?_, rfl, rfl, rfl⟩
    rw [List.sum_singleton]
    rfl
  have hfirst : ∀ v ∈ [first], IsI64 v := fun v hv =>
    hvalues v (by rw [List.mem_singleton.mp hv]; exact List.mem_cons_self)
  exact foldlM_add_ok hopen hfirst (fun v hv => hvalues v (List.mem_cons_of_mem first hv))
    (by rw [List.length_singleton]; omega)

/-- The mean, rounded. -/
def mean (values : List ℤ) : ℤ := roundHalfAway ((values.sum : ℚ) / values.length)

theorem rounded_ok (h : a.OfValues values) (hvalues : ∀ v ∈ values, IsI64 v)
    (hlength : values.length < 2 ^ 32) : (rounded a : Except (Stop ε) ℤ) = .ok (mean values) := by
  obtain ⟨-, -, -, hpos, -, -⟩ := h.bounds hvalues
  obtain ⟨hlow, hhigh⟩ := sum_range h hvalues hlength
  have hcount := h.count
  have hmean := @Accumulator.Of.rounded_eq a.sum a.count hpos
  have hcast : (a.sum : ℚ) / a.count = (values.sum : ℚ) / values.length := by rw [h.sum, h.count]
  rw [hcast] at hmean
  rw [mean, ← hmean, rounded, addInt_eq (by constructor <;> omega), except_ok_bind]
  -- Dividing by the count takes no sum further from zero.
  have hquotient (n : ℤ) (hn : n < 2 ^ 127) : n.tdiv a.count < 2 ^ 127 := by
    rcases le_or_gt 0 n with hsign | hsign
    · rw [Int.tdiv_eq_ediv_of_nonneg hsign]
      exact (Int.ediv_le_self _ hsign).trans_lt hn
    · have hneg : 0 ≤ (-n).tdiv a.count := Int.tdiv_nonneg (by omega) (by omega)
      rw [Int.neg_tdiv] at hneg
      omega
  split_ifs with hsign
  · rw [addInt_eq (by constructor <;> omega), except_ok_bind, subInt_eq (by constructor <;> omega),
      except_ok_bind, divInt_eq ⟨by omega, hquotient _ (by omega)⟩]
  · rw [subInt_eq (by constructor <;> omega), except_ok_bind, addInt_eq (by constructor <;> omega),
      except_ok_bind, divInt_eq ⟨by omega, hquotient _ (by omega)⟩]

/-- The mean is between the extremes. -/
theorem mean_bounds (h : a.OfValues values) (hvalues : ∀ v ∈ values, IsI64 v) :
    a.min ≤ mean values ∧ mean values ≤ a.max := by
  obtain ⟨-, -, -, hpos, hlow, hhigh⟩ := h.bounds hvalues
  have hcount : (0 : ℚ) < values.length := by
    rw [← h.count]
    exact_mod_cast hpos
  rw [h.sum, h.count] at hlow hhigh
  constructor
  · apply le_roundHalfAway
    rw [le_div_iff₀ hcount, mul_comm]
    exact_mod_cast hlow
  · apply roundHalfAway_le
    rw [div_le_iff₀ hcount, mul_comm]
    exact_mod_cast hhigh

theorem close_ok (h : a.OfValues values) (hvalues : ∀ v ∈ values, IsI64 v)
    (hlength : values.length < 2 ^ 32) :
    (close a : Except (Stop ε) Bucket) =
      .ok ⟨a.index, mean values, a.min, a.max, values.length⟩ := by
  obtain ⟨hmin, hmax, hle, -, -, -⟩ := h.bounds hvalues
  obtain ⟨hlow, hhigh⟩ := mean_bounds h hvalues
  rw [close, rounded_ok h hvalues hlength, except_ok_bind, clampInt_eq hle, except_ok_bind,
    min_eq_left hhigh, max_eq_right hlow,
    wrapI64_of_isI64 ⟨hmin.1.trans hlow, hhigh.trans_lt hmax.2⟩, h.count]

theorem fromParts_ok (h : a.OfValues values) (hvalues : ∀ v ∈ values, IsI64 v)
    (hlength : values.length < 2 ^ 32) :
    (fromParts a.index a.sum a.count a.min a.max : Except (Stop ε) (Option Accumulator)) = .ok
      (some a) := by
  obtain ⟨hmin, hmax, hle, hpos, hlow, hhigh⟩ := h.bounds hvalues
  have hcount := h.count
  have hproduct (v : ℤ) (hv : IsI64 v) : -2 ^ 127 ≤ (a.count : ℤ) * v ∧
      (a.count : ℤ) * v < 2 ^ 127 := by
    obtain ⟨hv, hv'⟩ := hv
    constructor <;> nlinarith
  rw [fromParts, if_pos ⟨hpos, hle⟩, mulInt_eq (hproduct _ hmin), except_ok_bind, if_pos hlow,
    mulInt_eq (hproduct _ hmax), except_ok_bind, if_pos hhigh]

/-- Accumulating is exact, keeps within an `i128`, and doesn't depend on the order. -/
theorem rollup_exact (tier : RollupTier) (ts : ℕ) {first : ℤ} {rest : List ℤ}
    (hvalues : ∀ v ∈ first :: rest, IsI64 v) (hlength : (first :: rest).length ≤ 2 ^ 32 - 1) :
    ∃ a lowest highest, (first :: rest).min? = some lowest ∧ (first :: rest).max? = some highest ∧
      (accumulate tier ts first rest : Except (Stop Empty) Accumulator) = .ok a ∧
      (rounded a : Except (Stop Empty) ℤ) = .ok (mean (first :: rest)) ∧
      lowest ≤ mean (first :: rest) ∧ mean (first :: rest) ≤ highest ∧
      (close a : Except (Stop Empty) Bucket) =
        .ok ⟨ts / tier.bucketSecs, mean (first :: rest), lowest, highest, (first :: rest).length⟩ ∧
      (∀ ts' first' rest', ts' / tier.bucketSecs = ts / tier.bucketSecs →
        first' :: rest' ~ first :: rest →
        (accumulate tier ts' first' rest' : Except (Stop Empty) Accumulator) = .ok a) ∧
      (fromParts a.index a.sum a.count a.min a.max : Except (Stop Empty) (Option Accumulator)) =
        .ok (some a) := by
  rw [List.length_cons] at hlength
  obtain ⟨a, haccumulate, hindex, ha⟩ := accumulate_ok (ε := Empty) tier ts hvalues (by omega)
  have hcount : (first :: rest).length < 2 ^ 32 := by
    rw [List.length_cons]
    omega
  obtain ⟨hlow, hhigh⟩ := mean_bounds ha hvalues
  refine ⟨a, a.min, a.max, ha.min, ha.max, haccumulate, rounded_ok ha hvalues hcount, hlow, hhigh,
    ?_, ?_, fromParts_ok ha hvalues hcount⟩
  · rw [close_ok ha hvalues hcount, hindex]
  · intro ts' first' rest' hts hperm
    have hsize := hperm.length_eq
    rw [List.length_cons, List.length_cons] at hsize
    obtain ⟨b, haccumulate', hindex', hb⟩ := accumulate_ok (ε := Empty) tier ts'
      (fun v hv => hvalues v (hperm.mem_iff.mp hv)) (by omega)
    rw [haccumulate', ha.eq_of_perm hb (by rw [hindex, hindex', hts]) hperm]

/-- A mean of minus two and a half is rounded away from zero. -/
theorem rollup_exact_half :
    ∃ a, (accumulate .minute 61 (-2) [-3] : Except (Stop Empty) Accumulator) = .ok a ∧
      (close a : Except (Stop Empty) Bucket) = .ok ⟨1, -3, -3, -2, 2⟩ := by
  obtain ⟨a, lowest, highest, hmin, hmax, haccumulate, -, -, -, hclose, -, -⟩ :=
    rollup_exact .minute 61 (forall_mem_of_all (by decide) : ∀ v ∈ [-2, -3], IsI64 v) (by decide)
  obtain rfl : lowest = -3 := by simpa using hmin.symm
  obtain rfl : highest = -2 := by simpa using hmax.symm
  have hmean : mean [-2, -3] = -3 := by norm_num [mean, roundHalfAway]
  rw [hmean] at hclose
  exact ⟨a, haccumulate, hclose⟩

end Checked

end MonitoringAgent.HubStore

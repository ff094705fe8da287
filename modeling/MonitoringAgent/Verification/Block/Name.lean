import MonitoringAgent.Model.Block.Name

/-! # Block files are told by their names

A name is a block's, or a block's temporary's, exactly when that block is spelled so. -/

namespace MonitoringAgent.HubStore

open MonitoringAgent.Library

namespace BlockName

/-- A block on its tier's grid, its numbers as wide as the store keeps them. -/
structure OnGrid (b : BlockName) : Prop where
  grid : b.span % b.tier.spanSecs = 0
  span_lt : b.span < 2 ^ 64
  rewrite_lt : b.rewrite < 2 ^ 32

/-- The name without its suffix. -/
def stem (b : BlockName) : List Char :=
  if b.rewrite = 0 then Nat.toDigits 10 b.span
  else Nat.toDigits 10 b.span ++ (['.', 'r'] ++ Nat.toDigits 10 b.rewrite)

theorem toList_fileName (b : BlockName) : b.fileName.toList = b.stem ++ ".blk".toList := by
  rw [fileName, stem]
  split_ifs
  · rw [String.toList_append, toList_toString]
  · rw [String.toList_append, String.toList_append, String.toList_append, toList_toString,
      toList_toString, List.append_assoc, List.append_assoc, List.append_assoc]
    rfl

theorem toList_temporaryName (b : BlockName) :
    b.temporaryName.toList = b.stem ++ ".blk.tmp".toList := by
  rw [temporaryName, String.toList_append, toList_fileName, List.append_assoc]
  rfl

/-! ### Reading a stem -/

theorem canonical_eq_some {bound n : ℕ} {digits : List Char} :
    canonical bound digits = some n ↔ digits = Nat.toDigits 10 n ∧ n < bound := by
  rw [canonical]
  constructor
  · intro h
    split_ifs at h with hdigits
    dsimp only at h
    split_ifs at h with hbound
    obtain rfl := Option.some.inj h
    exact ⟨(toDigits_of_canonical hdigits).symm, hbound⟩
  · rintro ⟨rfl, hbound⟩
    rw [if_pos (canonicalDigits_toDigits n), Nat.ofDigitChars_ten_toDigits, if_pos hbound]

theorem ne_dot_of_digit {n : ℕ} {c : Char} (h : c ∈ Nat.toDigits 10 n) : c ≠ '.' := by
  rintro rfl
  have hdigit := List.all_eq_true.mp (all_isDigit_toDigits n) '.' h
  revert hdigit
  decide

/-- Digits hold no `.r`. -/
theorem dropInfix_digits (n : ℕ) : (Nat.toDigits 10 n).dropInfix? ['.', 'r'] = none := by
  cases h : (Nat.toDigits 10 n).dropInfix? ['.', 'r'] with
  | none => rfl
  | some parts =>
      obtain ⟨before, after⟩ := parts
      obtain ⟨⟨pattern, heq, hpattern⟩, -⟩ := List.dropInfix?_eq_some_iff.mp h
      obtain rfl := eq_of_beq hpattern
      have hdot : '.' ∈ Nat.toDigits 10 n := by simp [heq]
      exact absurd rfl (ne_dot_of_digit hdot)

/-- The first `.r` after digits is the one that follows them. -/
theorem dropInfix_span (n : ℕ) (after : List Char) :
    (Nat.toDigits 10 n ++ (['.', 'r'] ++ after)).dropInfix? ['.', 'r'] = some
      (Nat.toDigits 10 n, after) := by
  refine dropInfix_append fun k hk hprefix => ?_
  rw [List.drop_eq_getElem_cons hk, List.cons_append] at hprefix
  obtain ⟨hdot, -⟩ := List.cons_prefix_cons.mp hprefix
  exact ne_dot_of_digit (List.getElem_mem hk) hdot.symm

theorem parseStem_stem {b : BlockName} (h : b.OnGrid) : parseStem b.tier b.stem = some b := by
  have hspan : canonical (2 ^ 64) (Nat.toDigits 10 b.span) = some b.span :=
    canonical_eq_some.mpr ⟨rfl, h.span_lt⟩
  have hrewrite : canonical (2 ^ 32) (Nat.toDigits 10 b.rewrite) = some b.rewrite :=
    canonical_eq_some.mpr ⟨rfl, h.rewrite_lt⟩
  have hgrid : SpanStart.new b.tier b.span = some b.span := if_pos h.grid
  have hsplit : splitStem b.stem = some (Nat.toDigits 10 b.span, b.rewrite) := by
    rw [splitStem, stem]
    by_cases hzero : b.rewrite = 0
    · rw [if_pos hzero, dropInfix_digits, hzero]
    · have hpos : decide (0 < b.rewrite) = true := decide_eq_true (Nat.pos_of_ne_zero hzero)
      rw [if_neg hzero, dropInfix_span]
      simp only [hrewrite, Option.filter_some, hpos, if_true, Option.map_some]
  simp only [parseStem, hsplit, Option.bind_eq_bind, Option.bind_some, hspan, hgrid]

/-- A stem that reads as a block is the block's stem. -/
theorem stem_of_parseStem {tier : Tier} {chars : List Char} {b : BlockName}
    (h : parseStem tier chars = some b) : b.tier = tier ∧ b.stem = chars ∧ b.OnGrid := by
  simp only [parseStem, Option.bind_eq_bind, Option.bind_eq_some_iff] at h
  obtain ⟨⟨digits, rewrite⟩, hsplit, span, hspan, start, hstart, h⟩ := h
  obtain rfl := Option.some.inj h
  obtain ⟨hdigits, hspanLt⟩ := canonical_eq_some.mp hspan
  dsimp only at hdigits
  rw [SpanStart.new] at hstart
  split_ifs at hstart with hgrid
  obtain rfl := Option.some.inj hstart
  rw [splitStem] at hsplit
  split at hsplit
  next before after hinfix =>
    simp only [Option.map_eq_some_iff, Option.filter_eq_some_iff, decide_eq_true_eq] at hsplit
    obtain ⟨n, ⟨hn, hpos⟩, hpair⟩ := hsplit
    obtain ⟨rfl, rfl⟩ := Prod.mk.inj hpair
    obtain ⟨hafter, hrewriteLt⟩ := canonical_eq_some.mp hn
    obtain ⟨⟨pattern, heq, hpattern⟩, -⟩ := List.dropInfix?_eq_some_iff.mp hinfix
    obtain rfl := eq_of_beq hpattern
    refine ⟨rfl, ?_, hgrid, hspanLt, hrewriteLt⟩
    rw [stem, if_neg (Nat.pos_iff_ne_zero.mp hpos), heq, hdigits, hafter, List.append_assoc]
  next =>
    obtain ⟨rfl, rfl⟩ := Prod.mk.inj (Option.some.inj hsplit)
    exact ⟨rfl, by rw [stem, if_pos rfl, hdigits], hgrid, hspanLt, by norm_num⟩

/-! ### Names -/

theorem dropSuffix_append (l s : List Char) : (l ++ s).dropSuffix? s = some l :=
  List.dropSuffix?_eq_some_iff.mpr ⟨s, rfl, beq_self_eq_true s⟩

theorem dropSuffix_temporary (b : BlockName) :
    b.fileName.toList.dropSuffix? ".blk.tmp".toList = none := by
  cases h : b.fileName.toList.dropSuffix? ".blk.tmp".toList with
  | none => rfl
  | some stem =>
      obtain ⟨suffix, heq, hsuffix⟩ := List.dropSuffix?_eq_some_iff.mp h
      obtain rfl := eq_of_beq hsuffix
      rw [toList_fileName] at heq
      have hlast := congrArg List.getLast? heq
      rw [List.getLast?_append_of_ne_nil _ (by decide), List.getLast?_append_of_ne_nil _
        (by decide)] at hlast
      exact absurd hlast (by decide)

theorem classify_fileName {b : BlockName} (h : b.OnGrid) :
    classify b.tier b.fileName = .block b := by
  rw [classify, dropSuffix_temporary]
  dsimp only
  rw [toList_fileName, dropSuffix_append, Option.bind_some, parseStem_stem h]

theorem classify_temporaryName {b : BlockName} (h : b.OnGrid) :
    classify b.tier b.temporaryName = .temporary := by
  rw [classify, toList_temporaryName, dropSuffix_append]
  dsimp only
  rw [parseStem_stem h]

theorem fileName_of_classify {tier : Tier} {name : String} {b : BlockName}
    (h : classify tier name = .block b) : b.tier = tier ∧ b.fileName = name ∧ b.OnGrid := by
  rw [classify] at h
  split at h
  · split at h <;> cases h
  · split at h
    next parsed hparsed =>
      cases h
      obtain ⟨stem, hstem, hparse⟩ := Option.bind_eq_some_iff.mp hparsed
      obtain ⟨suffix, heq, hsuffix⟩ := List.dropSuffix?_eq_some_iff.mp hstem
      obtain rfl := eq_of_beq hsuffix
      obtain ⟨htier, hname, hgrid⟩ := stem_of_parseStem hparse
      exact ⟨htier, String.toList_inj.mp (by rw [toList_fileName, hname, heq]), hgrid⟩
    next => cases h

theorem temporaryName_of_classify {tier : Tier} {name : String}
    (h : classify tier name = .temporary) :
    ∃ b : BlockName, b.tier = tier ∧ b.temporaryName = name ∧ b.OnGrid := by
  rw [classify] at h
  split at h
  next stem hstem =>
    split at h
    next b hparse =>
      obtain ⟨suffix, heq, hsuffix⟩ := List.dropSuffix?_eq_some_iff.mp hstem
      obtain rfl := eq_of_beq hsuffix
      obtain ⟨htier, hname, hgrid⟩ := stem_of_parseStem hparse
      exact ⟨b, htier, String.toList_inj.mp (by rw [toList_temporaryName, hname, heq]), hgrid⟩
    next => cases h
  next => split at h <;> cases h

theorem classify_eq_block {tier : Tier} {name : String} {b : BlockName} :
    classify tier name = .block b ↔ b.tier = tier ∧ b.fileName = name ∧ b.OnGrid := by
  refine ⟨fileName_of_classify, ?_⟩
  rintro ⟨rfl, rfl, hgrid⟩
  exact classify_fileName hgrid

theorem classify_eq_temporary {tier : Tier} {name : String} :
    classify tier name = .temporary ↔ ∃ b : BlockName, b.tier = tier ∧
      b.temporaryName = name ∧ b.OnGrid := by
  refine ⟨temporaryName_of_classify, ?_⟩
  rintro ⟨b, rfl, rfl, hgrid⟩
  exact classify_temporaryName hgrid

end BlockName

/-! ### The directories -/

namespace BlockDir

theorem mem_blocks_foldl (tier : Tier) (entries : List (List UInt8)) (scan : Scan) (b : BlockName) :
    b ∈ (entries.foldl (found tier) scan).blocks ↔
      b ∈ scan.blocks ∨ b.tier = tier ∧ b.OnGrid ∧ utf8 b.fileName ∈ entries := by
  induction entries generalizing scan with
  | nil => simp
  | cons entry entries ih =>
      rw [List.foldl_cons, ih, List.mem_cons]
      -- One name adds the block it is the name of.
      have hone : b ∈ (found tier scan entry).blocks ↔
          b ∈ scan.blocks ∨ b.tier = tier ∧ b.OnGrid ∧ utf8 b.fileName = entry := by
        rw [← fromUtf8_eq_some, found]
        cases hutf8 : fromUtf8 entry with
        | none => simp
        | some file =>
            have hkind := @BlockName.classify_eq_block tier file b
            rw [Option.some.injEq, eq_comm (a := file), ← and_comm
              (a := b.fileName = file), ← hkind]
            dsimp only
            cases BlockName.classify tier file <;> simp [eq_comm]
      rw [hone]
      tauto

theorem mem_temporaries_foldl (tier : Tier) (entries : List (List UInt8)) (scan : Scan)
    (t : Tier) (file : String) :
    (t, file) ∈ (entries.foldl (found tier) scan).temporaries ↔
      (t, file) ∈ scan.temporaries ∨
        t = tier ∧ BlockName.classify tier file = .temporary ∧ utf8 file ∈ entries := by
  induction entries generalizing scan with
  | nil => simp
  | cons entry entries ih =>
      rw [List.foldl_cons, ih, List.mem_cons]
      have hone : (t, file) ∈ (found tier scan entry).temporaries ↔
          (t, file) ∈ scan.temporaries ∨
            t = tier ∧ BlockName.classify tier file = .temporary ∧ utf8 file = entry := by
        rw [← fromUtf8_eq_some, found]
        cases hutf8 : fromUtf8 entry with
        | none => simp
        | some name =>
            rw [Option.some.injEq]
            dsimp only
            by_cases hname : name = file
            · subst hname
              cases BlockName.classify tier name <;> simp
            · cases BlockName.classify tier name <;> simp [hname, Ne.symm hname]
      rw [hone]
      tauto

theorem mem_scan_blocks (dirs : BlockDir) (b : BlockName) :
    b ∈ dirs.scan.blocks ↔ b.OnGrid ∧ utf8 b.fileName ∈ dirs b.tier := by
  simp only [scan, Tier.all, List.foldl_cons, List.foldl_nil, mem_blocks_foldl]
  cases htier : b.tier <;> simp

theorem mem_scan_temporaries (dirs : BlockDir) (tier : Tier) (file : String) :
    (tier, file) ∈ dirs.scan.temporaries ↔
      BlockName.classify tier file = .temporary ∧ utf8 file ∈ dirs tier := by
  simp only [scan, Tier.all, List.foldl_cons, List.foldl_nil, mem_temporaries_foldl]
  cases tier <;> simp

/-- Only the temporaries' names go. -/
theorem mem_removeTemporaries (dirs : BlockDir) (tier : Tier) (entry : List UInt8) :
    entry ∈ dirs.removeTemporaries tier ↔
      entry ∈ dirs tier ∧ ¬∃ b : BlockName, b.tier = tier ∧ b.OnGrid ∧
      utf8 b.temporaryName = entry := by
  rw [removeTemporaries, List.mem_filter]
  refine and_congr_right fun hentry => ?_
  rw [Bool.not_eq_true', ← Bool.not_eq_true, not_iff_not, List.any_eq_true]
  constructor
  · rintro ⟨⟨t, file⟩, hmem, hsame⟩
    simp only [Bool.and_eq_true, decide_eq_true_eq] at hsame
    obtain ⟨rfl, rfl⟩ := hsame
    obtain ⟨b, htier, hname, hgrid⟩ := BlockName.classify_eq_temporary.mp
      ((mem_scan_temporaries dirs _ _).mp hmem).1
    exact ⟨b, htier, hgrid, congrArg utf8 hname⟩
  · rintro ⟨b, rfl, hgrid, rfl⟩
    refine ⟨(b.tier, b.temporaryName), (mem_scan_temporaries dirs _ _).mpr ⟨?_, hentry⟩, by simp⟩
    exact BlockName.classify_temporaryName hgrid

end BlockDir

/-- A name is a block's or a block's temporary's exactly when that block is spelled so: distinct
blocks have distinct names, and of a directory the open takes as blocks and unlinks exactly those.
-/
theorem block_names_parsed_exactly :
    (∀ b : BlockName, b.OnGrid →
      BlockName.classify b.tier b.fileName = .block b ∧
      BlockName.classify b.tier b.temporaryName = .temporary) ∧
    (∀ tier name b, BlockName.classify tier name = .block b → b.tier = tier ∧ b.fileName = name) ∧
    (∀ tier name, BlockName.classify tier name = .temporary →
      ∃ b : BlockName, b.tier = tier ∧ b.OnGrid ∧ name = b.temporaryName) ∧
    (∀ b b' : BlockName, b.OnGrid → b'.OnGrid → b.tier = b'.tier →
      (b.fileName = b'.fileName ∨ b.temporaryName = b'.temporaryName) → b = b') ∧
    ∀ dirs : BlockDir,
      (∀ b, b ∈ dirs.scan.blocks ↔ b.OnGrid ∧ utf8 b.fileName ∈ dirs b.tier) ∧
      ∀ tier entry, entry ∈ dirs.removeTemporaries tier ↔
        entry ∈ dirs tier ∧ ¬∃ b : BlockName, b.tier = tier ∧ b.OnGrid ∧
        utf8 b.temporaryName = entry := by
  refine ⟨fun b h => ⟨BlockName.classify_fileName h, BlockName.classify_temporaryName h⟩,
      ?_, ?_, ?_, fun dirs =>
    ⟨BlockDir.mem_scan_blocks dirs, BlockDir.mem_removeTemporaries dirs⟩⟩
  · intro tier name b h
    obtain ⟨htier, hname, -⟩ := BlockName.fileName_of_classify h
    exact ⟨htier, hname⟩
  · intro tier name h
    obtain ⟨b, htier, hname, hgrid⟩ := BlockName.temporaryName_of_classify h
    exact ⟨b, htier, hgrid, hname.symm⟩
  · intro b b' hb hb' htier hname
    have hstem : b.stem = b'.stem := by
      rcases hname with hname | hname
      · have happend : b.stem ++ ".blk".toList = b'.stem ++ ".blk".toList := by
          rw [← BlockName.toList_fileName, ← BlockName.toList_fileName, hname]
        exact List.append_cancel_right happend
      · have happend : b.stem ++ ".blk.tmp".toList = b'.stem ++ ".blk.tmp".toList := by
          rw [← BlockName.toList_temporaryName, ← BlockName.toList_temporaryName, hname]
        exact List.append_cancel_right happend
    have hparse := BlockName.parseStem_stem hb
    rw [hstem, htier, BlockName.parseStem_stem hb'] at hparse
    exact (Option.some.inj hparse).symm

end MonitoringAgent.HubStore

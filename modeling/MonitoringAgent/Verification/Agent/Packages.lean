import Mathlib.Data.List.TakeWhile
import MonitoringAgent.Library.Text
import MonitoringAgent.Model.Agent.Packages

/-! # Listed packages read back

A listing reads back exactly when no name holds its separator. Of an Alpine listing, whose separator
is a dash, not every name meets that. -/

namespace MonitoringAgent.Agent.Packages

open MonitoringAgent.Library

/-! ### One line -/

/-- A name without the separator is what the line is cut to. -/
theorem cut_line {sep : Char} (manager : String) {name : List Char}
    (version : List Char) (h : sep ∉ name) :
    cut sep manager (name ++ sep :: version) =
      ⟨String.ofList name, String.ofList version, manager⟩ := by
  have hne : ∀ c ∈ name, decide (c ≠ sep) = true := by
    intro c hc
    rw [decide_eq_true_eq]
    rintro rfl
    exact h hc
  rw [cut, List.takeWhile_append_of_pos hne, List.dropWhile_append_of_pos hne,
    List.takeWhile_cons_of_neg (by simp), List.dropWhile_cons_of_neg (by simp), List.append_nil,
    List.drop_one, List.tail_cons]

/-- What the line is cut to holds no separator. -/
theorem cut_name (sep : Char) (manager : String) (line : List Char) :
    sep ∉ (cut sep manager line).name.toList := by
  intro h
  rw [cut, String.toList_ofList] at h
  have hne := List.mem_takeWhile_imp h
  rw [decide_eq_true_eq] at hne
  exact hne rfl

/-- The line of a name and a version. -/
def lineOf (sep : Char) (p : String × String) : List Char := p.1.toList ++ sep :: p.2.toList

def infoOf (manager : String) (p : String × String) : PackageInfo := ⟨p.1, p.2, manager⟩

/-- A line is cut right exactly when its name doesn't hold the separator. -/
theorem cut_lineOf_iff (sep : Char) (manager : String) (p : String × String) :
    cut sep manager (lineOf sep p) = infoOf manager p ↔ sep ∉ p.1.toList := by
  constructor
  · intro h
    have hname := cut_name sep manager (lineOf sep p)
    rwa [h] at hname
  · intro h
    rw [lineOf, cut_line manager _ h, String.ofList_toList, String.ofList_toList]
    rfl

/-! ### Tabs and spaces -/

/-- Neither the name nor the version breaks the line. -/
structure OneLine (p : String × String) : Prop where
  name : '\n' ∉ p.1.toList
  version : '\n' ∉ p.2.toList
  noReturn : '\r' ∉ p.2.toList

/-- The packages, a line each. -/
def listingOf (sep : Char) (packages : List (String × String)) : String :=
  String.ofList ((packages.map (lineOf sep)).flatMap (· ++ ['\n']))

theorem OneLine.lineOf {sep : Char} (hsep : sep ≠ '\n' ∧ sep ≠ '\r')
    {p : String × String} (h : OneLine p) :
    '\n' ∉ lineOf sep p ∧ (lineOf sep p).getLast? ≠ some '\r' := by
  constructor
  · intro hmem
    rcases List.mem_append.mp hmem with hmem | hmem
    · exact h.name hmem
    · rcases List.mem_cons.mp hmem with hmem | hmem
      · exact hsep.1 hmem.symm
      · exact h.version hmem
  · intro hlast
    rw [Packages.lineOf, List.getLast?_append_of_ne_nil _ (List.cons_ne_nil _ _)] at hlast
    rcases List.mem_cons.mp (List.mem_of_getLast? hlast) with hmem | hmem
    · exact hsep.2 hmem.symm
    · exact h.noReturn hmem

theorem map_cut_listingOf_iff {sep : Char} (hsep : sep ≠ '\n' ∧ sep ≠ '\r') (manager : String)
    {packages : List (String × String)} (h : ∀ p ∈ packages, OneLine p) :
    (lines (listingOf sep packages).toList).map (cut sep manager) = packages.map (infoOf manager) ↔
      ∀ p ∈ packages, sep ∉ p.1.toList := by
  have hlines : ∀ line ∈ packages.map (lineOf sep), '\n' ∉ line ∧ line.getLast? ≠ some '\r' := by
    intro line hline
    obtain ⟨p, hp, rfl⟩ := List.mem_map.mp hline
    exact (h p hp).lineOf hsep
  rw [listingOf, String.toList_ofList, lines_flatMap hlines, List.map_map, List.map_inj_left]
  exact forall₂_congr fun p _ => cut_lineOf_iff sep manager p

/-- The listings of `dpkg`, `rpm` and `pacman` read back, name and version and in order, exactly
when no name holds the separator. -/
theorem listings_read_iff {packages : List (String × String)} (h : ∀ p ∈ packages, OneLine p) :
    (parseDpkg (listingOf '\t' packages) = packages.map (infoOf "dpkg") ↔
      ∀ p ∈ packages, '\t' ∉ p.1.toList) ∧
    (parseRpm (listingOf '\t' packages) = packages.map (infoOf "rpm") ↔
      ∀ p ∈ packages, '\t' ∉ p.1.toList) ∧
    (parsePacman (listingOf ' ' packages) = packages.map (infoOf "pacman") ↔
      ∀ p ∈ packages, ' ' ∉ p.1.toList) :=
  ⟨map_cut_listingOf_iff (by decide) "dpkg" h, map_cut_listingOf_iff (by decide) "rpm" h,
    map_cut_listingOf_iff (by decide) "pacman" h⟩

/-! ### Alpine's listing -/

/-- An installed package: a name of letters, digits, `.`, `_`, `+` and `-` that starts with a letter
and in which no `-` is before a digit, and a version that starts with a digit and holds no `-`, but
for the one of an optional `-r<digits>`. -/
structure ApkPackage where
  name : String
  version : String
  nameStart : ∃ c cs, name.toList = c :: cs ∧ c.isAlpha = true
  nameChars : ∀ c ∈ name.toList, c.isAlphanum = true ∨ c ∈ ['.', '_', '+', '-']
  noDigitAfterDash : ∀ before c after, name.toList = before ++ '-' :: c :: after → c.isDigit = false
  versionStart : ∃ c cs, version.toList = c :: cs ∧ c.isDigit = true
  revision : ∃ base : List Char, '-' ∉ base ∧ (version.toList = base ∨
    ∃ digits, digits ≠ [] ∧ digits.all Char.isDigit = true ∧
      version.toList = base ++ '-' :: 'r' :: digits)
  oneLine : '\n' ∉ version.toList ∧ '\r' ∉ version.toList

namespace ApkPackage

def line (p : ApkPackage) : List Char := p.name.toList ++ '-' :: p.version.toList

/-- The packages as `apk info -v` lists them. -/
def listing (packages : List ApkPackage) : String :=
  String.ofList ((packages.map line).flatMap (· ++ ['\n']))

def info (p : ApkPackage) : PackageInfo := ⟨p.name, p.version, "apk"⟩

theorem line_oneLine (p : ApkPackage) : '\n' ∉ p.line ∧ p.line.getLast? ≠ some '\r' := by
  obtain ⟨c, cs, hversion, -⟩ := p.versionStart
  constructor
  · intro h
    rcases List.mem_append.mp h with h | h
    · exact absurd (p.nameChars '\n' h) (by decide)
    · rcases List.mem_cons.mp h with h | h
      · exact absurd h (by decide)
      · exact p.oneLine.1 h
  · intro h
    rw [line, List.getLast?_append_of_ne_nil _ (List.cons_ne_nil _ _), hversion,
      List.getLast?_cons_cons, ← hversion] at h
    exact p.oneLine.2 (List.mem_of_getLast? h)

theorem cut_line_name_ne (p : ApkPackage) : (cut '-' "apk" p.line).name ≠ "" := by
  obtain ⟨c, cs, hname, hc⟩ := p.nameStart
  have hdash : c ≠ '-' := by
    rintro rfl
    exact absurd hc (by decide)
  rw [cut, line, hname, List.cons_append, List.takeWhile_cons_of_pos (by simpa using hdash)]
  simp

theorem cut_line_eq_info (p : ApkPackage) : cut '-' "apk" p.line = p.info ↔ '-' ∉ p.name.toList :=
  cut_lineOf_iff '-' "apk" (p.name, p.version)

theorem parseApk_eq_map (packages : List ApkPackage) :
    parseApk (listing packages) = packages.map fun p => cut '-' "apk" p.line := by
  have hlines : ∀ l ∈ packages.map line, '\n' ∉ l ∧ l.getLast? ≠ some '\r' := by
    intro l hl
    obtain ⟨p, -, rfl⟩ := List.mem_map.mp hl
    exact p.line_oneLine
  rw [parseApk, listing, String.toList_ofList, lines_flatMap hlines, List.filterMap_map]
  refine List.filterMap_eq_map_iff_forall_eq_some.mpr fun p _ => ?_
  exact if_neg p.cut_line_name_ne

end ApkPackage

/-- An Alpine listing reads back, name and version and in order, exactly when no name holds a dash.
-/
theorem apk_listing_read_iff (packages : List ApkPackage) :
    parseApk (ApkPackage.listing packages) = packages.map ApkPackage.info ↔
    ∀ p ∈ packages, '-' ∉ p.name.toList := by
  rw [ApkPackage.parseApk_eq_map, List.map_inj_left]
  exact forall₂_congr fun p _ => p.cut_line_eq_info

def caCertificates : ApkPackage where
  name := "ca-certificates"
  version := "20230506-r0"
  nameStart := ⟨'c', "a-certificates".toList, by decide, by decide⟩
  nameChars := forall_mem_of_all (by decide)
  noDigitAfterDash := by
    intro before c after h
    have hc : c ∈ "ca-certificates".toList := h ▸ by simp
    exact (forall_mem_of_all (by decide) : ∀ c ∈ "ca-certificates".toList, c.isDigit = false) c hc
  versionStart := ⟨'2', "0230506-r0".toList, by decide, by decide⟩
  revision := ⟨"20230506".toList, by decide, .inr ⟨['0'], by decide, by decide, by decide⟩⟩
  oneLine := by decide

theorem apk_name_cut_at_its_dash :
    parseApk (ApkPackage.listing [caCertificates]) = [⟨"ca", "certificates-20230506-r0", "apk"⟩] ∧
      parseApk (ApkPackage.listing [caCertificates]) ≠ [caCertificates].map ApkPackage.info := by
  decide

end MonitoringAgent.Agent.Packages

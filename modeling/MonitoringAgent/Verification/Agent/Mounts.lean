import MonitoringAgent.Verification.Agent.Cgroup

/-! # Mounts as the kernel lists them

A mountinfo line separates its fields with spaces, and escapes in a path the four characters that
would break one. The reader breaks fields at other whitespace too, which a path may hold. -/

namespace MonitoringAgent.Agent.Cgroup

open MonitoringAgent.Library

/-! ### Lines -/

/-- What stands between two spaces of a line before its separator. -/
structure IsField (field : List Char) : Prop where
  ne_nil : field ≠ []
  ne_dash : field ≠ ['-']
  no_space : ' ' ∉ field
  no_feed : '\n' ∉ field

/-- A number of a line, or a name in it: without whitespace. -/
structure IsToken (field : List Char) : Prop where
  ne_nil : field ≠ []
  ne_dash : field ≠ ['-']
  no_whitespace : ∀ c ∈ field, isWhitespace c = false

/-- A mount of the agent's mount namespace. -/
structure Mount where
  id : List Char
  parent : List Char
  device : List Char
  root : List Char
  point : List Char
  options : List Char
  optionalFields : List (List Char)
  fstype : List Char
  /-- Its source and its filesystem's options. -/
  rest : List Char
  id_token : IsToken id
  parent_token : IsToken parent
  device_token : IsToken device
  root_ne_nil : root ≠ []
  root_ne_dash : root ≠ ['-']
  /-- A cgroup's path is its segments under the namespace root. -/
  root_cgroup : fstype = "cgroup2".toList →
    ∃ segments : List (List Char), (∀ segment ∈ segments, segment ≠ [] ∧ '/' ∉ segment) ∧
      root = '/' :: ['/'].intercalate segments
  point_absolute : ∃ path, point = '/' :: path
  options_field : IsField options
  optional_field : ∀ field ∈ optionalFields, IsField field
  fstype_token : IsToken fstype
  rest_no_feed : '\n' ∉ rest

namespace Mount

def fields (m : Mount) : List (List Char) :=
  [m.id, m.parent, m.device, escape m.root, escape m.point, m.options] ++ m.optionalFields

def line (m : Mount) : List Char :=
  [' '].intercalate m.fields ++ (" - ".toList ++ (escape m.fstype ++ ' ' :: m.rest))

/-- A cgroup2 mount whose point and root don't climb. -/
def Selected (m : Mount) : Prop :=
  m.fstype = "cgroup2".toList ∧ ['.', '.'] ∉ (Path.ofText m.point).parts ∧
    ∀ segment ∈ words (· = '/') m.root, segment ≠ ['.'] ∧ segment ≠ ['.', '.']

instance : DecidablePred Selected := fun m => by unfold Selected; infer_instance

end Mount

/-- The mountinfo text of the mounts. -/
def mountinfo (ms : List Mount) : List Char := (ms.map Mount.line).flatMap (· ++ ['\n'])

/-! ### Escaped fields -/

/-- Whitespace a field holds as it is. -/
def rawSpace (c : Char) : Bool := isWhitespace c && (c ≠ ' ' && c ≠ '\t' && c ≠ '\n')

theorem isWhitespace_escapeChar {c : Char} (h : rawSpace c = false) :
    ∀ d ∈ escapeChar c, isWhitespace d = false := by
  intro d hd
  rw [escapeChar] at hd
  split_ifs at hd with hspace htab hfeed hbackslash
  · exact (forall_mem_of_all (by decide) : ∀ d ∈ ['\\', '0', '4', '0'], isWhitespace d = false) d hd
  · exact (forall_mem_of_all (by decide) : ∀ d ∈ ['\\', '0', '1', '1'], isWhitespace d = false) d hd
  · exact (forall_mem_of_all (by decide) : ∀ d ∈ ['\\', '0', '1', '2'], isWhitespace d = false) d hd
  · exact (forall_mem_of_all (by decide) : ∀ d ∈ ['\\', '1', '3', '4'], isWhitespace d = false) d hd
  · obtain rfl := List.mem_singleton.mp hd
    simpa [rawSpace, hspace, htab, hfeed] using h

theorem escapeChar_ne_nil (c : Char) : escapeChar c ≠ [] := by
  rw [escapeChar]
  split_ifs
  · decide
  · decide
  · decide
  · decide
  · exact List.cons_ne_nil c []

theorem escapeChar_rawSpace {c : Char} (h : rawSpace c = true) :
    escapeChar c = [c] ∧ isWhitespace c = true := by
  simp only [rawSpace, Bool.and_eq_true, decide_eq_true_eq] at h
  obtain ⟨hwhite, ⟨hspace, htab⟩, hfeed⟩ := h
  refine ⟨?_, hwhite⟩
  rw [escapeChar, if_neg hspace, if_neg htab, if_neg hfeed, if_neg]
  rintro rfl
  exact absurd hwhite (by decide)

/-- An escaped text is cut at the whitespace it holds as it is. -/
theorem words_escape (text : List Char) :
    words isWhitespace (escape text) = (words rawSpace text).map escape :=
  words_flatMap (fun c h => ⟨c, escapeChar_rawSpace h⟩)
    (fun c h => ⟨escapeChar_ne_nil c, isWhitespace_escapeChar h⟩) text

theorem escape_injective : Function.Injective escape := by
  intro a b h
  have hread := unescapeMountinfo_escape a
  rw [h, unescapeMountinfo_escape b] at hread
  exact (Except.ok.inj hread).symm

theorem escape_ne_nil {text : List Char} (h : text ≠ []) : escape text ≠ [] := by
  intro hnil
  exact h (escape_injective (hnil.trans List.flatMap_nil.symm))

theorem not_mem_escape {c : Char} (hchar : ∀ d, c ∉ escapeChar d) (text : List Char) :
    c ∉ escape text := by
  rw [escape, List.mem_flatMap]
  rintro ⟨d, -, hd⟩
  exact hchar d hd

theorem not_mem_escapeChar {c : Char} (hc : c = ' ' ∨ c = '\n') (d : Char) : c ∉ escapeChar d := by
  rw [escapeChar]
  split_ifs with hspace htab hfeed hbackslash
  · rcases hc with rfl | rfl <;> decide
  · rcases hc with rfl | rfl <;> decide
  · rcases hc with rfl | rfl <;> decide
  · rcases hc with rfl | rfl <;> decide
  · rw [List.mem_singleton]
    rintro rfl
    exact hc.elim hspace hfeed

theorem isField_escape {text : List Char} (hne : text ≠ []) (hdash : text ≠ ['-']) :
    IsField (escape text) where
  ne_nil := escape_ne_nil hne
  ne_dash := fun h => hdash (escape_injective (h.trans (by decide)))
  no_space := not_mem_escape (not_mem_escapeChar (.inl rfl)) text
  no_feed := not_mem_escape (not_mem_escapeChar (.inr rfl)) text

theorem IsToken.field {text : List Char} (h : IsToken text) : IsField text where
  ne_nil := h.ne_nil
  ne_dash := h.ne_dash
  no_space := fun hmem => absurd (h.no_whitespace ' ' hmem) (by decide)
  no_feed := fun hmem => absurd (h.no_whitespace '\n' hmem) (by decide)

theorem Mount.isField (m : Mount) : ∀ field ∈ m.fields, IsField field := by
  intro field hfield
  rw [Mount.fields] at hfield
  simp only [List.cons_append, List.nil_append, List.mem_cons] at hfield
  obtain ⟨path, hpoint⟩ := m.point_absolute
  have hpoint : IsField (escape m.point) := by
    rw [hpoint]
    exact isField_escape (List.cons_ne_nil _ _) (fun h => absurd (List.cons.inj h).1 (by decide))
  rcases hfield with rfl | rfl | rfl | rfl | rfl | rfl | hfield
  · exact m.id_token.field
  · exact m.parent_token.field
  · exact m.device_token.field
  · exact isField_escape m.root_ne_nil m.root_ne_dash
  · exact hpoint
  · exact m.options_field
  · exact m.optional_field field hfield

/-! ### The separator -/

/-- After a space, no field is taken for the separator's dash. -/
theorem dash_not_first {field : List Char} (h : IsField field) (rest : List Char) :
    ¬ ['-', ' '] <+: field ++ ' ' :: rest := by
  intro hdash
  obtain ⟨c, tail, rfl⟩ := List.exists_cons_of_ne_nil h.ne_nil
  obtain ⟨rfl, htail⟩ := List.cons_prefix_cons.mp hdash
  cases tail with
  | nil => exact h.ne_dash rfl
  | cons d tail =>
      obtain ⟨rfl, -⟩ := List.cons_prefix_cons.mp htail
      exact h.no_space (List.mem_cons_of_mem _ List.mem_cons_self)

/-- Fields joined by spaces hold no separator, not even with what the separator starts with. -/
theorem separator_not_first {fields : List (List Char)} (h : ∀ field ∈ fields, IsField field)
    (after : List Char) :
    ∀ k < ([' '].intercalate fields).length,
      ¬ [' ', '-', ' '] <+: ([' '].intercalate fields).drop k ++ ([' ', '-', ' '] ++ after) := by
  induction fields with
  | nil =>
      intro k hk
      exact absurd hk (Nat.not_lt_zero k)
  | cons field fields ih =>
      have hfield := h field List.mem_cons_self
      have hinside {k : ℕ} (hk : k < field.length) (rest : List Char) :
          ¬ [' ', '-', ' '] <+: (field ++ rest).drop k ++ ([' ', '-', ' '] ++ after) := by
        intro hsep
        rw [List.drop_append_of_le_length hk.le, List.drop_eq_getElem_cons hk] at hsep
        have hspace := (List.cons_prefix_cons.mp hsep).1
        have hmem : field[k] ∈ field := List.getElem_mem hk
        rw [← hspace] at hmem
        exact hfield.no_space hmem
      cases fields with
      | nil =>
          intro k hk
          rw [List.intercalate_singleton] at hk ⊢
          simpa only [List.append_nil] using hinside hk []
      | cons next fields =>
          intro k hk
          rw [List.intercalate_cons_cons, List.append_assoc] at hk ⊢
          rcases Nat.lt_trichotomy k field.length with hlt | rfl | hgt
          · exact hinside hlt _
          · intro hsep
            rw [List.drop_left] at hsep
            have hrest : ['-', ' '] <+: [' '].intercalate (next :: fields) ++
                ([' ', '-', ' '] ++ after) :=
              (List.cons_prefix_cons.mp hsep).2
            have hnext := h next (List.mem_cons_of_mem field List.mem_cons_self)
            cases fields with
            | nil =>
                rw [List.intercalate_singleton] at hrest
                exact dash_not_first hnext _ hrest
            | cons other fields =>
                rw [List.intercalate_cons_cons, List.append_assoc, List.append_assoc] at hrest
                exact dash_not_first hnext _ hrest
          · obtain ⟨j, rfl⟩ := Nat.exists_eq_add_of_lt hgt
            have hj : j < ([' '].intercalate (next :: fields)).length := by
              simp only [List.length_append, List.length_singleton] at hk
              omega
            have hdrop : (field ++ ([' '] ++ [' '].intercalate (next :: fields))).drop
                (field.length + j + 1) = ([' '].intercalate (next :: fields)).drop j := by
              rw [Nat.add_assoc, List.drop_length_add_append]
              rfl
            rw [hdrop]
            exact ih (fun other hother => h other (List.mem_cons_of_mem field hother)) j hj

/-! ### What a line is read as -/

/-- The mount at the point, showing the root. -/
def mountAt (root point : List Char) : Option Cgroup2Mount :=
  if (Path.ofText point).absolute ∧ ['.', '.'] ∉ (Path.ofText point).parts then
    (CgroupPath.parse root).map fun root => ⟨point, root⟩
  else none

/-- The mount read from the line: its root and point are the first two of the pieces that the
whitespace in them leaves. -/
def Mount.readAs (m : Mount) : Option Cgroup2Mount :=
  if m.fstype = "cgroup2".toList then
    match words rawSpace m.root ++ words rawSpace m.point with
    | root :: point :: _ => mountAt root point
    | _ => none
  else none

theorem words_token {text : List Char} (h : IsToken text) : words isWhitespace text = [text] :=
  words_eq_singleton h.ne_nil h.no_whitespace

/-- The fields from the root on. -/
theorem Mount.words_fields (m : Mount) :
    ∃ others, (words isWhitespace ([' '].intercalate m.fields)).drop 3 =
      (words rawSpace m.root ++ words rawSpace m.point).map escape ++ others := by
  refine ⟨words isWhitespace m.options ++ m.optionalFields.flatMap (words isWhitespace), ?_⟩
  rw [words_intercalate (by decide), Mount.fields]
  simp only [List.flatMap_append, List.flatMap_cons, List.flatMap_nil, words_token m.id_token,
    words_token m.parent_token, words_token m.device_token, words_escape, List.map_append,
    List.append_assoc, List.cons_append]
  rfl

/-- A cgroup's root and its mount point are two pieces at least. -/
theorem Mount.two_pieces {m : Mount} (h : m.fstype = "cgroup2".toList) :
    ∃ root point rest, words rawSpace m.root ++ words rawSpace m.point = root :: point :: rest := by
  obtain ⟨segments, -, hroot⟩ := m.root_cgroup h
  obtain ⟨path, hpoint⟩ := m.point_absolute
  obtain ⟨root, roots, hroots⟩ := List.exists_cons_of_ne_nil
    (words_cons_ne_nil (p := rawSpace) (c := '/') (by decide) (['/'].intercalate segments))
  obtain ⟨point, points, hpoints⟩ := List.exists_cons_of_ne_nil
    (words_cons_ne_nil (p := rawSpace) (c := '/') (by decide) path)
  rw [hroot, hpoint, hroots, hpoints]
  cases roots with
  | nil => exact ⟨root, point, points, rfl⟩
  | cons next roots => exact ⟨root, next, roots ++ point :: points, rfl⟩

theorem Mount.head_fstype (m : Mount) (rest : List Char) :
    (words isWhitespace (escape m.fstype ++ ' ' :: rest)).head? = some "cgroup2".toList ↔
      m.fstype = "cgroup2".toList := by
  have hraw : ∀ c ∈ m.fstype, rawSpace c = false := by
    intro c hc
    rw [rawSpace, m.fstype_token.no_whitespace c hc, Bool.false_and]
  have hname : escape "cgroup2".toList = "cgroup2".toList := by decide
  rw [words_append_cons (by decide), words_escape, words_eq_singleton m.fstype_token.ne_nil hraw,
    List.map_singleton, List.singleton_append, List.head?_cons, Option.some_inj, ← hname,
    escape_injective.eq_iff, hname]

/-- The line is read as that mount, whatever else is on it. -/
theorem Mount.cgroup2MountLine_line (m : Mount) :
    cgroup2MountLine (stripReturn m.line) = .ok m.readAs := by
  have hstrip : stripReturn m.line =
      [' '].intercalate m.fields ++
        (" - ".toList ++ (escape m.fstype ++ ' ' :: stripReturn m.rest)) := by
    rw [Mount.line, ← List.append_assoc, ← List.append_assoc, stripReturn_append (by decide),
      List.append_assoc, List.append_assoc]
  have hseparator : " - ".toList = [' ', '-', ' '] := by decide
  rw [hstrip, cgroup2MountLine, hseparator, dropInfix_append (separator_not_first m.isField _)]
  dsimp only
  by_cases hname : m.fstype = "cgroup2".toList
  · obtain ⟨others, hwords⟩ := m.words_fields
    obtain ⟨root, point, rest, hpieces⟩ := m.two_pieces hname
    rw [if_neg (not_not_intro ((m.head_fstype _).mpr hname)), hwords, Mount.readAs,
      if_pos hname, hpieces]
    simp only [List.map_cons, List.cons_append, unescapeMountinfo_escape, mountAt]
    by_cases hpoint : (Path.ofText point).absolute ∧ ['.', '.'] ∉ (Path.ofText point).parts
    · rw [if_pos hpoint]
      exact if_pos hpoint
    · rw [if_neg hpoint]
      exact if_neg hpoint
  · rw [if_pos (mt (m.head_fstype _).mp hname), Mount.readAs, if_neg hname]

theorem Mount.no_feed (m : Mount) : '\n' ∉ m.line := by
  have hfields : '\n' ∉ [' '].intercalate m.fields := by
    intro hmem
    rcases mem_intercalate hmem with heq | ⟨field, hfield, hc⟩
    · exact absurd heq (by decide)
    · exact (m.isField field hfield).no_feed hc
  have hname := not_mem_escape (not_mem_escapeChar (c := '\n') (.inr rfl)) m.fstype
  have hseparator : '\n' ∉ " - ".toList := by decide
  rw [Mount.line]
  simp only [List.mem_append, List.mem_cons, not_or]
  exact ⟨hfields, hseparator, hname, by decide, m.rest_no_feed⟩

theorem parseCgroup2Mount_mountinfo (ms : List Mount) :
    parseCgroup2Mount (mountinfo ms) = .ok (ms.findSome? Mount.readAs) := by
  rw [parseCgroup2Mount, mountinfo, lines_flatMap_strip]
  · induction ms with
    | nil => rfl
    | cons m ms ih =>
        rw [List.map_cons, List.map_cons, findMount, m.cgroup2MountLine_line, List.findSome?_cons]
        cases m.readAs with
        | none => exact ih
        | some found => rfl
  · intro line hline
    obtain ⟨m, -, rfl⟩ := List.mem_map.mp hline
    exact m.no_feed

/-! ### What it should be read as -/

/-- A mount as the agent was shown it. -/
def Cgroup2Mount.shown (mount : Cgroup2Mount) : List Char × List Char :=
  (mount.point, mount.root.display)

/-- The mounts are read right: found is the first selected one, as it is mounted. -/
def Right (ms : List Mount) : Prop :=
  ∃ found, parseCgroup2Mount (mountinfo ms) = .ok found ∧
    found.map Cgroup2Mount.shown = (ms.find? fun m => decide m.Selected).map
      fun m => (m.point, m.root)

/-- The root and the point hold no whitespace but what the kernel escapes. -/
def Mount.Plain (m : Mount) : Prop := ∀ c ∈ m.root ++ m.point, rawSpace c = false

/-- The first two pieces of its root and point, for a root and a point, are a mount that doesn't
climb. -/
structure Mount.TakenFor (m : Mount) (root point : List Char) : Prop where
  cgroup : m.fstype = "cgroup2".toList
  pieces : ∃ rest, words rawSpace m.root ++ words rawSpace m.point = root :: point :: rest
  root_absolute : ∃ relative, root = '/' :: relative
  root_named : ∀ segment ∈ words (· = '/') root, segment ≠ ['.'] ∧ segment ≠ ['.', '.']
  point_absolute : (Path.ofText point).absolute = true
  point_named : ['.', '.'] ∉ (Path.ofText point).parts

/-- A root with its segments one slash apart. -/
def spacedOnce (root : List Char) : List Char := '/' :: ['/'].intercalate (words (· = '/') root)

/-- The first selected mount is plain; what one before it is taken for is that one's root and point,
and nothing else is taken for a mount. -/
def FirstPlain : List Mount → Prop
  | [] => True
  | m :: ms =>
    if m.Selected then m.Plain
    else
      (∀ root point, m.TakenFor root point → ∃ first,
        (ms.find? fun m => decide m.Selected) = some first ∧
        first.point = point ∧ first.root = spacedOnce root) ∧
      ((∀ root point, ¬ m.TakenFor root point) → FirstPlain ms)

theorem CgroupPath.segments_parse {text : List Char} {path : CgroupPath}
    (h : CgroupPath.parse text = some path) :
    ∃ relative, text = '/' :: relative ∧ path.segments = words (· = '/') relative := by
  unfold CgroupPath.parse at h
  split at h
  · next relative =>
      split_ifs at h
      obtain rfl := Option.some.inj h
      exact ⟨relative, rfl, rfl⟩
  · cases h

/-- A path is shown with the characters it was read from. -/
theorem CgroupPath.mem_display {text : List Char} {path : CgroupPath}
    (h : CgroupPath.parse text = some path) :
    ∀ c ∈ path.display, c ∈ text := by
  obtain ⟨relative, rfl, hsegments⟩ := CgroupPath.segments_parse h
  intro c hc
  rw [CgroupPath.display, hsegments] at hc
  rcases List.mem_cons.mp hc with rfl | hc
  · exact List.mem_cons_self
  · rcases mem_intercalate hc with rfl | ⟨segment, hsegment, hc⟩
    · exact List.mem_cons_self
    · exact List.mem_cons_of_mem _ ((mem_words hsegment).2 c hc).2

theorem words_slash (relative : List Char) :
    words (· = '/') ('/' :: relative) = words (· = '/') relative := by
  have hslash := words_append_cons (p := (· = '/'))
    (by decide : decide ('/' = '/') = true) [] relative
  rwa [words_nil, List.nil_append, List.nil_append] at hslash

theorem CgroupPath.parse_of_named {root relative : List Char} (hroot : root = '/' :: relative)
    (h : ∀ segment ∈ words (· = '/') root, segment ≠ ['.'] ∧ segment ≠ ['.', '.']) :
    ∃ path, CgroupPath.parse root = some path ∧ path.display = spacedOnce root := by
  subst hroot
  rw [words_slash] at h
  rw [CgroupPath.parse, dif_pos h]
  refine ⟨_, rfl, ?_⟩
  rw [spacedOnce, words_slash]
  rfl

/-- A root that doesn't climb is shown as it was read. -/
theorem Mount.display_root {m : Mount} (h : m.Selected) :
    ∃ path, CgroupPath.parse m.root = some path ∧ path.display = m.root := by
  obtain ⟨hname, -, hclimbs⟩ := h
  obtain ⟨segments, hsegments, hroot⟩ := m.root_cgroup hname
  have hwords : words (· = '/') (['/'].intercalate segments) = segments := by
    rw [words_intercalate (by decide)]
    calc segments.flatMap (words (· = '/')) = segments.flatMap fun segment => [segment] :=
          List.flatMap_congr fun segment hsegment =>
            words_eq_singleton (hsegments segment hsegment).1 fun c hc =>
              decide_eq_false fun heq => (hsegments segment hsegment).2 (heq ▸ hc)
      _ = segments := List.flatMap_singleton' segments
  have hspaced : spacedOnce m.root = m.root := by
    rw [spacedOnce, hroot, words_slash, hwords]
  obtain ⟨path, hpath, hdisplay⟩ := CgroupPath.parse_of_named hroot hclimbs
  exact ⟨path, hpath, hdisplay.trans hspaced⟩

/-- Nothing of raw whitespace is read. -/
theorem Mount.rawSpace_readAs {m : Mount} {found : Cgroup2Mount} (h : m.readAs = some found) :
    ∀ c ∈ found.shown.2 ++ found.shown.1, rawSpace c = false := by
  rw [Mount.readAs] at h
  split_ifs at h with hname
  obtain ⟨root, point, rest, hpieces⟩ := m.two_pieces hname
  have hpiece : ∀ piece ∈ root :: point :: rest, ∀ c ∈ piece, rawSpace c = false := by
    intro piece hpiece c hc
    rw [← hpieces, List.mem_append] at hpiece
    rcases hpiece with hpiece | hpiece
    · exact ((mem_words hpiece).2 c hc).1
    · exact ((mem_words hpiece).2 c hc).1
  rw [hpieces] at h
  simp only [mountAt] at h
  split_ifs at h
  obtain ⟨path, hpath, rfl⟩ := Option.map_eq_some_iff.mp h
  intro c hc
  rcases List.mem_append.mp hc with hc | hc
  · exact hpiece root List.mem_cons_self c (CgroupPath.mem_display hpath c hc)
  · exact hpiece point (List.mem_cons_of_mem root List.mem_cons_self) c hc

theorem Mount.readAs_selected {m : Mount} (h : m.Selected) (hplain : m.Plain) :
    ∃ found, m.readAs = some found ∧ found.shown = (m.point, m.root) := by
  obtain ⟨path, hpath, hdisplay⟩ := m.display_root h
  obtain ⟨hname, hpoint, -⟩ := h
  obtain ⟨tail, htail⟩ := m.point_absolute
  have hroot : words rawSpace m.root = [m.root] :=
    words_eq_singleton m.root_ne_nil fun c hc => hplain c (List.mem_append_left _ hc)
  have hwhole : words rawSpace m.point = [m.point] :=
    words_eq_singleton (htail ▸ List.cons_ne_nil _ _) fun c hc =>
      hplain c (List.mem_append_right _ hc)
  have habsolute : (Path.ofText m.point).absolute = true := by
    rw [htail]
    rfl
  refine ⟨⟨m.point, path⟩, ?_, by rw [Cgroup2Mount.shown, hdisplay]⟩
  rw [Mount.readAs, if_pos hname, hroot, hwhole]
  change mountAt m.root m.point = _
  rw [mountAt, if_pos ⟨habsolute, hpoint⟩, hpath]
  rfl

/-- What is read from any mount is no selected mount that isn't plain. -/
theorem shown_ne {ms : List Mount} {found : Cgroup2Mount}
    (h : ms.findSome? Mount.readAs = some found) {m : Mount} (hplain : ¬ m.Plain) :
    found.shown ≠ (m.point, m.root) := by
  obtain ⟨other, -, hread⟩ := List.exists_of_findSome?_eq_some h
  intro hshown
  have hraw := Mount.rawSpace_readAs hread
  rw [hshown] at hraw
  exact hplain hraw

theorem Mount.readAs_taken {m : Mount} {root point : List Char} (h : m.TakenFor root point) :
    ∃ found, m.readAs = some found ∧ found.shown = (point, spacedOnce root) := by
  obtain ⟨relative, hroot⟩ := h.root_absolute
  obtain ⟨rest, hpieces⟩ := h.pieces
  obtain ⟨path, hpath, hdisplay⟩ := CgroupPath.parse_of_named hroot h.root_named
  refine ⟨⟨point, path⟩, ?_, by rw [Cgroup2Mount.shown, hdisplay]⟩
  rw [Mount.readAs, if_pos h.cgroup, hpieces]
  change mountAt root point = _
  rw [mountAt, if_pos ⟨h.point_absolute, h.point_named⟩, hpath]
  rfl

/-- What is read is what the pieces are taken for. -/
theorem Mount.taken_of_readAs {m : Mount} {found : Cgroup2Mount} (h : m.readAs = some found) :
    ∃ root point, m.TakenFor root point := by
  rw [Mount.readAs] at h
  split_ifs at h with hname
  obtain ⟨root, point, rest, hpieces⟩ := m.two_pieces hname
  rw [hpieces] at h
  simp only [mountAt] at h
  split_ifs at h with hpoint
  obtain ⟨path, hpath, -⟩ := Option.map_eq_some_iff.mp h
  obtain ⟨relative, rfl, hsegments⟩ := CgroupPath.segments_parse hpath
  refine ⟨_, point, hname, ⟨rest, hpieces⟩, ⟨relative, rfl⟩,
    fun segment hsegment => ?_, hpoint.1, hpoint.2⟩
  rw [words_slash, ← hsegments] at hsegment
  obtain ⟨-, hdot, hclimbs, -⟩ := path.named segment hsegment
  exact ⟨hdot, hclimbs⟩

theorem Mount.TakenFor.unique {m : Mount} {root point root' point' : List Char}
    (h : m.TakenFor root point) (h' : m.TakenFor root' point') : root' = root ∧ point' = point := by
  obtain ⟨rest, hpieces⟩ := h.pieces
  obtain ⟨rest', hpieces'⟩ := h'.pieces
  obtain ⟨hroot, htail⟩ := List.cons.inj (hpieces'.symm.trans hpieces)
  exact ⟨hroot, (List.cons.inj htail).1⟩

/-- A plain mount is taken for itself, if it's selected. -/
theorem Mount.Plain.selected {m : Mount} (hplain : m.Plain) {root point : List Char}
    (h : m.TakenFor root point) : m.Selected := by
  obtain ⟨tail, htail⟩ := m.point_absolute
  obtain ⟨rest, hpieces⟩ := h.pieces
  rw [words_eq_singleton m.root_ne_nil fun c hc => hplain c (List.mem_append_left _ hc),
    words_eq_singleton (htail ▸ List.cons_ne_nil _ _) fun c hc =>
      hplain c (List.mem_append_right _ hc)] at hpieces
  obtain ⟨hroot, hpoint⟩ := List.cons.inj hpieces
  obtain ⟨rfl, -⟩ := List.cons.inj hpoint
  exact ⟨h.cgroup, h.point_named, hroot ▸ h.root_named⟩

theorem firstPlain_of_plain {ms : List Mount}
    (h : ∀ m ∈ ms, m.fstype = "cgroup2".toList → m.Plain) : FirstPlain ms := by
  induction ms with
  | nil => trivial
  | cons m ms ih =>
      obtain ⟨hm, hms⟩ := List.forall_mem_cons.mp h
      rw [FirstPlain]
      split_ifs with hselected
      · exact hm hselected.1
      · exact ⟨fun root point htaken => absurd ((hm htaken.cgroup).selected htaken) hselected,
          fun _ => ih hms⟩

theorem right_iff (ms : List Mount) : Right ms ↔ FirstPlain ms := by
  have hright (ms : List Mount) : Right ms ↔ (ms.findSome? Mount.readAs).map Cgroup2Mount.shown =
      (ms.find? fun m => decide m.Selected).map fun m => (m.point, m.root) := by
    simp only [Right, parseCgroup2Mount_mountinfo, Except.ok.injEq, exists_eq_left']
  induction ms with
  | nil => exact iff_of_true ((hright []).mpr rfl) trivial
  | cons m ms ih =>
      rw [hright] at ih ⊢
      rw [FirstPlain]
      by_cases hselected : m.Selected
      · rw [if_pos hselected, List.find?_cons_of_pos (p := fun m : Mount => decide m.Selected)
          (decide_eq_true hselected), Option.map_some]
        constructor
        · intro h
          obtain ⟨found, hfound, hshown⟩ := Option.map_eq_some_iff.mp h
          by_contra hplain
          exact shown_ne hfound hplain hshown
        · intro hplain
          obtain ⟨found, hread, hshown⟩ := Mount.readAs_selected hselected hplain
          rw [List.findSome?_cons, hread, Option.map_some, hshown]
      · rw [if_neg hselected, List.find?_cons_of_neg (by simpa using hselected),
          List.findSome?_cons]
        cases hread : m.readAs with
        | none =>
            have hnone (root point : List Char) : ¬ m.TakenFor root point := by
              intro htaken
              obtain ⟨found, hfound, -⟩ := Mount.readAs_taken htaken
              rw [hread] at hfound
              cases hfound
            refine ih.trans ⟨fun hms => ⟨fun root point htaken => absurd htaken (hnone root point),
              fun _ => hms⟩, ?_⟩
            exact fun h => h.2 hnone
        | some found =>
            obtain ⟨root, point, htaken⟩ := Mount.taken_of_readAs hread
            obtain ⟨other, hother, hshown⟩ := Mount.readAs_taken htaken
            obtain rfl : found = other := Option.some.inj (hread.symm.trans hother)
            dsimp only
            rw [Option.map_some, hshown]
            constructor
            · intro h
              refine ⟨fun root' point' htaken' => ?_, fun hnone => absurd htaken (hnone root point)⟩
              obtain ⟨rfl, rfl⟩ := htaken.unique htaken'
              obtain ⟨first, hfirst, heq⟩ := Option.map_eq_some_iff.mp h.symm
              obtain ⟨hpoint, hroot⟩ := Prod.mk.inj heq
              exact ⟨first, hfirst, hpoint, hroot⟩
            · rintro ⟨htakes, -⟩
              obtain ⟨first, hfirst, hpoint, hroot⟩ := htakes root point htaken
              rw [hfirst, Option.map_some, hpoint, hroot]

/-! ### Levels -/

theorem ofText_named {segment : List Char}
    (h : segment ≠ [] ∧ segment ≠ ['.'] ∧ segment ≠ ['.', '.'] ∧ '/' ∉ segment) :
    Path.ofText segment = ⟨false, [segment]⟩ := by
  obtain ⟨hne, hdot, -, hslash⟩ := h
  have hword : words (· = '/') segment = [segment] :=
    words_eq_singleton hne fun c hc => decide_eq_false fun heq => hslash (heq ▸ hc)
  have hhead : segment.head? ≠ some '/' := fun hhead => hslash (List.mem_of_mem_head? hhead)
  rw [Path.ofText, hword, decide_eq_false hhead, List.filter_cons_of_pos (by simpa using hdot),
    List.filter_nil]

theorem CgroupPath.relative_eq (path : CgroupPath) : path.relative = ⟨false, path.segments⟩ := by
  have hjoin (segments before : List (List Char))
      (h : ∀ segment ∈ segments, segment ≠ [] ∧ segment ≠ ['.'] ∧
        segment ≠ ['.', '.'] ∧ '/' ∉ segment) :
      (segments.map Path.ofText).foldl Path.join ⟨false, before⟩ = ⟨false, before ++ segments⟩ := by
    induction segments generalizing before with
    | nil => rw [List.append_nil]; rfl
    | cons segment segments ih =>
        rw [List.map_cons, List.foldl_cons, ofText_named (h segment List.mem_cons_self), Path.join,
          if_neg Bool.false_ne_true, ih _ fun other hother =>
            h other (List.mem_cons_of_mem segment hother),
          List.append_assoc, List.singleton_append]
  exact hjoin path.segments [] path.named

/-- Each level's directory is the mount point's, or named segments below it. -/
theorem MonitoredCgroup.levels_under {m : MonitoredCgroup} {dir : Path} (h : dir ∈ m.levels) :
    dir.absolute = false ∧ ∃ below, below <+: m.dir.segments ∧ ['.', '.'] ∉ below ∧
      dir.parts = (Path.ofText m.mountPoint).parts ++ below := by
  obtain ⟨level, hlevel, rfl⟩ := List.mem_map.mp h
  obtain ⟨depth, -, rfl⟩ := List.mem_map.mp hlevel
  rw [MonitoredCgroup.underMount, CgroupPath.relative_eq, Path.join, if_neg Bool.false_ne_true]
  refine ⟨rfl, m.dir.segments.take depth, List.take_prefix _ _, ?_, rfl⟩
  intro hclimbs
  exact (m.dir.named _ (List.mem_of_mem_take hclimbs)).2.2.1 rfl

/-- The mounts are read right exactly when the first selected one is plain, and what is before it
isn't taken for another; so when every cgroup2 mount is plain. No text stops the reader, no segment
climbs, and every level is under the mount point. -/
theorem cgroup_mount_read (ms : List Mount) (text : List Char) (m : MonitoredCgroup) :
    (Right ms ↔ FirstPlain ms) ∧ ((∀ m ∈ ms, m.fstype = "cgroup2".toList → m.Plain) → Right ms) ∧
      (∃ out, unescapeMountinfo text = .ok out) ∧
      (∀ path, CgroupPath.parse text = some path →
        ∀ segment ∈ path.segments, segment ≠ [] ∧ segment ≠ ['.'] ∧ segment ≠ ['.', '.']) ∧
      ∀ dir ∈ m.levels, dir.absolute = false ∧ ∃ below, below <+: m.dir.segments ∧
        ['.', '.'] ∉ below ∧
        dir.parts = (Path.ofText m.mountPoint).parts ++ below := by
  refine ⟨right_iff ms, fun h => (right_iff ms).mpr (firstPlain_of_plain h),
    unescapeMountinfo_ok text, ?_, fun dir hdir => MonitoredCgroup.levels_under hdir⟩
  intro path _ segment hsegment
  obtain ⟨hne, hdot, hclimbs, -⟩ := path.named segment hsegment
  exact ⟨hne, hdot, hclimbs⟩

/-- A cgroup2 mount at a directory named with a no-break space. -/
def noBreakMount : Mount where
  id := ['3', '0']
  parent := ['2', '1']
  device := ['0', ':', '2', '6']
  root := ['/']
  point := ['/', 's', 'y', 's', '/', 'f', 's', '/', 'c', 'g'] ++ '\u00a0' :: ['r', 'o', 'u', 'p']
  options := ['r', 'w']
  optionalFields := []
  fstype := ['c', 'g', 'r', 'o', 'u', 'p', '2']
  rest := ['c', 'g', 'r', 'o', 'u', 'p', '2', ' ', 'r', 'w']
  id_token := ⟨by decide, by decide, forall_mem_of_all (by decide)⟩
  parent_token := ⟨by decide, by decide, forall_mem_of_all (by decide)⟩
  device_token := ⟨by decide, by decide, forall_mem_of_all (by decide)⟩
  root_ne_nil := by decide
  root_ne_dash := by decide
  root_cgroup := fun _ => ⟨[], fun _ h => absurd h List.not_mem_nil, rfl⟩
  point_absolute := ⟨['s', 'y', 's', '/', 'f', 's', '/', 'c', 'g'] ++ '\u00a0' ::
    ['r', 'o', 'u', 'p'], by decide⟩
  options_field := ⟨by decide, by decide, by decide, by decide⟩
  optional_field := fun _ h => absurd h List.not_mem_nil
  fstype_token := ⟨by decide, by decide, forall_mem_of_all (by decide)⟩
  rest_no_feed := by decide

/-- It is read as mounted at what stands before the space. -/
theorem noBreakMount_read :
    parseCgroup2Mount (mountinfo [noBreakMount]) =
        .ok (some ⟨['/', 's', 'y', 's', '/', 'f', 's', '/', 'c', 'g'], CgroupPath.root⟩) ∧
      noBreakMount.Selected ∧ ¬ Right [noBreakMount] := by
  have hselected : noBreakMount.Selected := by decide
  have hread : noBreakMount.readAs =
      some ⟨['/', 's', 'y', 's', '/', 'f', 's', '/', 'c', 'g'], CgroupPath.root⟩ := by decide
  refine ⟨?_, hselected, ?_⟩
  · rw [parseCgroup2Mount_mountinfo, List.findSome?_cons, hread]
  · rw [right_iff, FirstPlain, if_pos hselected]
    intro hplain
    exact absurd (hplain '\u00a0' (by decide)) (by decide)

end MonitoringAgent.Agent.Cgroup

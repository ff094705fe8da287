import MonitoringAgent.Model.Agent.Seal
import MonitoringAgent.Model.Hub.Seal
import MonitoringAgent.Verification.Agent.Identity

/-! # Sealed mail reports, from the agent to the hub

The agent builds the header and the hub splits it, each with its own code; the hub finds the armour
in any text. -/

namespace MonitoringAgent.Wire

open MonitoringAgent.Library

/-! ### The armour -/

/-- The text is an armour of the sealed bytes, their base64 wrapped with any whitespace. -/
def Rewrapped (sealed : List UInt8) (text : List Char) : Prop :=
  ∃ body, text = Agent.armourBegin ++ body ++ Agent.armourEnd ∧
    (body.filter fun c => !isAsciiWhitespace c) = Base64.encode sealed

/-- The begin line without the dashes that end it. -/
def beginHead : List Char := "-----BEGIN SYSTEM-AGENT REPORT".toList

/-- The text ends in a begin line that the dashes of a following one would finish. -/
def EndsUnfinished (text : List Char) : Prop :=
  ∃ dashes < 5, beginHead ++ List.replicate dashes '-' <:+ text

/-- A begin line that overlaps the next is all but some of its last dashes. -/
theorem begin_overlap {m : ℕ} (hpos : 0 < m) (hlt : m < 35)
    (h : Hub.armourBegin.drop m = Hub.armourBegin.take (35 - m)) :
    ∃ dashes < 5, Hub.armourBegin.take m = beginHead ++ List.replicate dashes '-' := by
  have hall : ∀ i : Fin 35, 0 < i.val → Hub.armourBegin.drop i = Hub.armourBegin.take (35 - i) →
      i.val - 30 < 5 ∧ Hub.armourBegin.take i = beginHead ++ List.replicate (i.val - 30) '-' := by
    decide
  exact ⟨m - 30, hall ⟨m, hlt⟩ hpos h⟩

/-- After a text that neither holds a begin line nor ends in an unfinished one, a begin line is the
first. -/
theorem begin_first {text : List Char} (hnone : ¬ Hub.armourBegin <:+: text)
    (hend : ¬ EndsUnfinished text) (after : List Char) :
    ∀ k < text.length, ¬ Hub.armourBegin <+: text.drop k ++ (Hub.armourBegin ++ after) := by
  intro k hk hstarts
  have hlength : Hub.armourBegin.length = 35 := by decide
  have hsuffix := List.drop_suffix k text
  have hpos : 0 < (text.drop k).length := by
    rw [List.length_drop]
    omega
  rcases Nat.lt_or_ge (text.drop k).length 35 with hshort | hlong
  · -- The earlier begin line runs over into the later one.
    have htake : Hub.armourBegin.take (text.drop k).length = text.drop k := by
      have hprefix := List.prefix_of_prefix_length_le (List.prefix_append (text.drop k) _) hstarts
        (by rw [hlength]; exact hshort.le)
      exact (List.prefix_iff_eq_take.mp hprefix).symm
    obtain ⟨rest, hrest⟩ := hstarts
    have hdrop : Hub.armourBegin.drop (text.drop k).length ++ rest = Hub.armourBegin ++ after := by
      have hsplit := congrArg (List.drop (text.drop k).length) hrest
      rwa [List.drop_append_of_le_length (by rw [hlength]; exact hshort.le),
        List.drop_left] at hsplit
    have hoverlap : Hub.armourBegin.drop (text.drop k).length =
        Hub.armourBegin.take (35 - (text.drop k).length) := by
      have hprefix := List.prefix_of_prefix_length_le ⟨rest, hdrop⟩
        (List.prefix_append Hub.armourBegin after)
        (by rw [List.length_drop]; omega)
      rw [List.prefix_iff_eq_take.mp hprefix, List.length_drop, hlength]
    obtain ⟨dashes, hdashes, heq⟩ := begin_overlap hpos hshort hoverlap
    exact hend ⟨dashes, hdashes, by rwa [← heq, htake]⟩
  · refine hnone (List.IsInfix.trans (List.IsPrefix.isInfix ?_) hsuffix.isInfix)
    exact List.prefix_of_prefix_length_le hstarts (List.prefix_append _ _) (by rwa [hlength])

/-- No character of a wrapped base64 text is a dash. -/
theorem rewrapped_ne_dash {sealed : List UInt8} {body : List Char}
    (hbody : (body.filter fun c => !isAsciiWhitespace c) = Base64.encode sealed)
    {c : Char} (hc : c ∈ body) : c ≠ '-' := by
  rintro rfl
  have hkept : '-' ∈ body.filter fun c => !isAsciiWhitespace c :=
    List.mem_filter.mpr ⟨hc, by decide⟩
  rw [hbody] at hkept
  rcases Base64.mem_encode hkept with halphabet | hpad
  · exact absurd halphabet (by decide)
  · exact absurd hpad (by decide)

/-- The hub finds the sealed bytes in an armour, and refuses too many of them. -/
theorem dearmour_armoured {sealed : List UInt8} {armoured before after : List Char}
    (harmour : Rewrapped sealed armoured) (hnone : ¬ Hub.armourBegin <:+: before)
    (hend : ¬ EndsUnfinished before) :
    Hub.dearmour (before ++ armoured ++ after) =
      if sealed.length > Hub.maxSealedBytes then .error .tooLarge else .ok sealed := by
  obtain ⟨body, rfl, hbody⟩ := harmour
  have hbegin : (before ++ (Hub.armourBegin ++ (body ++ (Hub.armourEnd ++ after)))).dropInfix?
      Hub.armourBegin = some (before, body ++ (Hub.armourEnd ++ after)) :=
    dropInfix_append (begin_first hnone hend _)
  have hclose : (body ++ (Hub.armourEnd ++ after)).dropInfix? Hub.armourEnd =
      some (body, after) := by
    refine dropInfix_append fun k hk hstarts => ?_
    rw [List.drop_eq_getElem_cons hk, List.cons_append] at hstarts
    have hdash : Hub.armourEnd = '-' :: Hub.armourEnd.tail := by decide
    rw [hdash, List.cons_prefix_cons] at hstarts
    exact rewrapped_ne_dash hbody (List.getElem_mem hk) hstarts.1.symm
  have htext : before ++ (Agent.armourBegin ++ body ++ Agent.armourEnd) ++ after =
      before ++ (Hub.armourBegin ++ (body ++ (Hub.armourEnd ++ after))) := by
    simp only [List.append_assoc]
    rfl
  rw [Hub.dearmour, htext, hbegin]
  simp only [hclose, hbody, Base64.decode_encode]

/-- The hub finds the sealed bytes in an armour, whatever stands around it and however it is
wrapped. -/
theorem dearmour_rewrapped {sealed : List UInt8} {armoured before after : List Char}
    (harmour : Rewrapped sealed armoured) (hlength : sealed.length ≤ Hub.maxSealedBytes)
    (hnone : ¬ Hub.armourBegin <:+: before) (hend : ¬ EndsUnfinished before) :
    Hub.dearmour (before ++ armoured ++ after) = .ok sealed := by
  rw [dearmour_armoured harmour hnone hend, if_neg (Nat.not_lt.mpr hlength)]

/-- Lines joined by line feeds: every line after the first starts with the one that joined it. -/
theorem intercalate_lines (first last : List Char) (lines : List (List Char)) :
    ['\n'].intercalate (first :: lines ++ [last]) =
      first ++ (lines.flatMap fun line => '\n' :: line) ++ '\n' :: last := by
  induction lines generalizing first with
  | nil => simp [List.intercalate]
  | cons line lines ih =>
      have hstep : ['\n'].intercalate (first :: (line :: lines ++ [last])) =
          first ++ '\n' :: ['\n'].intercalate (line :: lines ++ [last]) := by
        simp [List.intercalate]
      rw [List.cons_append, hstep, ih]
      simp

/-- The line feeds go with the whitespace. -/
theorem filter_lines {lines : List (List Char)}
    (h : ∀ line ∈ lines, ∀ c ∈ line, isAsciiWhitespace c = false) :
    ((lines.flatMap fun line => '\n' :: line) ++ ['\n']).filter (fun c => !isAsciiWhitespace c) =
      lines.flatten := by
  induction lines with
  | nil => decide
  | cons line lines ih =>
      have hfeed : isAsciiWhitespace '\n' = true := by decide
      have hline : line.filter (fun c => !isAsciiWhitespace c) = line :=
        List.filter_eq_self.mpr fun c hc => by simp [h line List.mem_cons_self c hc]
      rw [List.flatMap_cons, List.append_assoc, List.filter_append,
        List.filter_cons_of_neg (by simp [hfeed]), hline,
        ih fun l hl => h l (List.mem_cons_of_mem line hl), List.flatten_cons]

theorem encode_not_whitespace {sealed : List UInt8} {c : Char} (hc : c ∈ Base64.encode sealed) :
    isAsciiWhitespace c = false := by
  have halphabet : ∀ c ∈ Base64.alphabet, isAsciiWhitespace c = false :=
    List.all_iff_forall_prop.mp (by decide)
  rcases Base64.mem_encode hc with hc | rfl
  · exact halphabet c hc
  · decide

/-- The agent's armour wraps its base64 with line feeds. -/
theorem rewrapped_armour (sealed : List UInt8) : Rewrapped sealed (Agent.armour sealed) := by
  have hpieces := flatten_pieces (n := Agent.armourColumns) (by decide) (Base64.encode sealed)
  refine ⟨((pieces Agent.armourColumns (Base64.encode sealed)).flatMap fun line => '\n' :: line) ++
    ['\n'], ?_, ?_⟩
  · rw [Agent.armour, intercalate_lines]
    simp
  · rw [filter_lines, hpieces]
    intro line hline c hc
    have hencoded : c ∈ Base64.encode sealed := by
      rw [← hpieces]
      exact List.mem_flatten_of_mem hline hc
    exact encode_not_whitespace hencoded

/-! ### The header -/

theorem headerOf_eq_ok {id : String} {head : List UInt8} : Agent.headerOf id = .ok head ↔
    (utf8 id).length < 2 ^ 8 ∧
      head = Hub.magic ++ Hub.version :: UInt8.ofNat (utf8 id).length :: utf8 id := by
  rw [Agent.headerOf]
  split_ifs with h
  · constructor
    · intro heq
      cases heq
      exact ⟨h, by simp only [List.append_assoc]; rfl⟩
    · rintro ⟨-, rfl⟩
      simp only [List.append_assoc]
      rfl
  · constructor
    · intro heq
      cases heq
    · rintro ⟨hlt, -⟩
      exact absurd hlt h

/-- The hub splits a sealed report where the agent joined it. -/
theorem parse_sealed {id : String} {head : List UInt8} (hhead : Agent.headerOf id = .ok head)
    (hid : Hub.SystemId.tryFrom id = .ok id) {nonce : List UInt8} (hnonce : nonce.length = 24)
    (ciphertext : List UInt8) :
    Hub.parse (head ++ nonce ++ ciphertext) = .ok ⟨head, id, nonce, ciphertext⟩ := by
  obtain ⟨hlt, rfl⟩ := headerOf_eq_ok.mp hhead
  set bytes := utf8 id with hbytes
  have hlen : (UInt8.ofNat bytes.length).toNat = bytes.length := UInt8.toNat_ofNat_of_lt hlt
  have hmagic : (Hub.magic ++ Hub.version :: UInt8.ofNat bytes.length :: bytes ++ nonce ++
      ciphertext).dropPrefix? Hub.magic =
      some (Hub.version :: UInt8.ofNat bytes.length :: (bytes ++ (nonce ++ ciphertext))) := by
    simp only [List.append_assoc, List.cons_append]
    exact List.dropPrefix?_append_of_beq _ (beq_self_eq_true _)
  have hid' : (bytes ++ (nonce ++ ciphertext)).take bytes.length = bytes := List.take_left
  have hrest : (bytes ++ (nonce ++ ciphertext)).drop bytes.length =
    nonce ++ ciphertext := List.drop_left
  have hlong : ¬ (nonce ++ ciphertext).length < Hub.nonceBytes := by
    rw [List.length_append, hnonce, Hub.nonceBytes]
    omega
  have hsplit : (nonce ++ ciphertext).take Hub.nonceBytes = nonce ∧
      (nonce ++ ciphertext).drop Hub.nonceBytes = ciphertext := by
    rw [show Hub.nonceBytes = nonce.length from hnonce.symm]
    exact ⟨List.take_left, List.drop_left⟩
  have hhead' : (Hub.magic ++ Hub.version :: UInt8.ofNat bytes.length :: bytes ++ nonce ++
      ciphertext).take (Hub.magic.length + 2 + bytes.length) =
      Hub.magic ++ Hub.version :: UInt8.ofNat bytes.length :: bytes := by
    rw [List.append_assoc]
    refine List.take_left' ?_
    simp only [List.length_append, List.length_cons]
    omega
  rw [Hub.parse, hmagic]
  simp only [ne_eq, not_true_eq_false, if_false, hlen]
  rw [if_neg (by rw [List.length_append]; omega), sliceFrom_eq (by rw [List.length_append]; omega)]
  simp only [except_ok_bind, hid', hrest]
  rw [if_neg hlong, sliceTo_eq (Nat.not_lt.mp hlong), sliceFrom_eq (Nat.not_lt.mp hlong)]
  simp only [except_ok_bind, hsplit, hbytes, fromUtf8_utf8, hid]
  rw [← hbytes, sliceTo_eq, hhead']
  · rfl
  · simp only [List.length_append, List.length_cons]
    omega

theorem tryFrom_eq_ok {value id : String} (h : Hub.SystemId.tryFrom value = .ok id) :
    id = value := by
  rw [Hub.SystemId.tryFrom] at h
  split_ifs at h
  exact (Except.ok.inj h).symm

/-- The parts that `parse` split make up the bytes, and the header is the one the agent writes for
the id. -/
structure Parsed (bytes : List UInt8) (parts : Hub.Sealed) : Prop where
  header : Agent.headerOf parts.id = .ok parts.header
  id : Hub.SystemId.tryFrom parts.id = .ok parts.id
  nonce : parts.nonce.length = 24
  bytes_eq : bytes = parts.header ++ parts.nonce ++ parts.ciphertext

/-- Every byte string is split or refused. -/
theorem parse_total (bytes : List UInt8) :
    (∃ refusal, Hub.parse bytes = .error (.refused refusal)) ∨
      ∃ parts, Hub.parse bytes = .ok parts ∧ Parsed bytes parts := by
  rw [Hub.parse]
  cases hmagic : bytes.dropPrefix? Hub.magic with
  | none => exact .inl ⟨_, rfl⟩
  | some rest =>
  obtain ⟨_, hbytes, hbeq⟩ := List.dropPrefix?_eq_some_iff.mp hmagic
  obtain rfl := eq_of_beq hbeq
  match rest, hbytes with
  | [], _ => exact .inl ⟨_, rfl⟩
  | v :: rest, hbytes =>
  by_cases hversion : v = Hub.version
  swap
  · exact .inl ⟨_, if_pos hversion⟩
  subst hversion
  simp only [ne_eq, not_true_eq_false, if_false]
  match rest, hbytes with
  | [], _ => exact .inl ⟨_, rfl⟩
  | idLen :: rest, hbytes =>
  by_cases hid : rest.length < idLen.toNat
  · exact .inl ⟨_, if_pos hid⟩
  simp only [if_neg hid, sliceFrom_eq (Nat.not_lt.mp hid), except_ok_bind]
  by_cases hnonce : (rest.drop idLen.toNat).length < Hub.nonceBytes
  · exact .inl ⟨_, if_pos hnonce⟩
  simp only [if_neg hnonce, sliceTo_eq (Nat.not_lt.mp hnonce), sliceFrom_eq (Nat.not_lt.mp hnonce),
    except_ok_bind]
  cases htext : fromUtf8 (rest.take idLen.toNat) with
  | none => exact .inl ⟨_, rfl⟩
  | some text =>
  cases htry : Hub.SystemId.tryFrom text with
  | error e => exact .inl ⟨.invalidSystemId e, by simp only [htry]⟩
  | ok id =>
  obtain rfl := tryFrom_eq_ok htry
  have hutf8 : utf8 id = rest.take idLen.toNat := fromUtf8_eq_some.mp htext
  have hlen : (utf8 id).length = idLen.toNat := by
    rw [hutf8, List.length_take]
    omega
  have hhead : bytes.take (Hub.magic.length + 2 + idLen.toNat) =
      Hub.magic ++ Hub.version :: idLen :: utf8 id := by
    rw [hbytes, List.take_append, List.take_of_length_le (by omega), hutf8]
    have hcount : Hub.magic.length + 2 + idLen.toNat - Hub.magic.length =
      idLen.toNat + 1 + 1 := by omega
    rw [hcount, List.take_succ_cons, List.take_succ_cons]
  have hfits : Hub.magic.length + 2 + idLen.toNat ≤ bytes.length := by
    rw [hbytes]
    simp only [List.length_append, List.length_cons]
    omega
  simp only [htry, sliceTo_eq hfits, except_ok_bind]
  refine .inr ⟨_, rfl, ?_, htry, ?_, ?_⟩
  · refine headerOf_eq_ok.mpr ⟨by rw [hlen]; exact idLen.toNat_lt, ?_⟩
    rw [hhead, hlen, UInt8.ofNat_toNat]
  · rw [List.length_take]
    have h24 : Hub.nonceBytes = 24 := rfl
    omega
  · rw [hhead, hutf8, hbytes]
    simp only [List.append_assoc, List.cons_append, List.take_append_drop]

/-! ### Opening -/

theorem nonceFromSlice_toList (nonce : Hub.Nonce) :
    Hub.nonceFromSlice nonce.toList = .ok nonce := by
  rw [Hub.nonceFromSlice, dif_pos (by simp)]
  rfl

theorem exists_nonce {bytes : List UInt8} (h : bytes.length = 24) : ∃ nonce :
    Hub.Nonce, bytes = nonce.toList :=
  ⟨⟨bytes.toArray, by simpa using h⟩, rfl⟩

section Opening

variable {hkdf : Hub.Hkdf} {aead : Aead Hub.MailKey Hub.Nonce} {master : Hub.MailMasterKey}

theorem open_parsed {bytes : List UInt8} {parts : Hub.Sealed} (hparse : Hub.parse bytes = .ok parts)
    {nonce : Hub.Nonce} (hnonce : parts.nonce = nonce.toList) :
    Hub.open hkdf aead bytes master =
      match aead.decrypt (Hub.MailMasterKey.derive hkdf master parts.id) nonce parts.ciphertext
        parts.header with
      | none => .error (.refused .notAuthentic)
      | some report => .ok (parts.id, report) := by
  obtain ⟨header, id, slice, ciphertext⟩ := parts
  obtain rfl : slice = nonce.toList := hnonce
  rw [Hub.open, hparse, except_ok_bind]
  cases hdecrypt : aead.decrypt
    (Hub.MailMasterKey.derive hkdf master id) nonce ciphertext header with
  | none => simp only [nonceFromSlice_toList, except_ok_bind, hdecrypt]
  | some report => simp only [nonceFromSlice_toList, except_ok_bind, hdecrypt]

/-- Every byte string is opened or refused. -/
theorem open_total (bytes : List UInt8) : Hub.open hkdf aead bytes master ≠ .error .panic := by
  rcases parse_total bytes with ⟨refusal, hparse⟩ | ⟨parts, hparse, hparsed⟩
  · rw [Hub.open, hparse]
    nofun
  · obtain ⟨nonce, hnonce⟩ := exists_nonce hparsed.nonce
    rw [open_parsed hparse hnonce]
    split
    · nofun
    · nofun

/-- A byte string opens as an id and a report exactly when it is the id's header, a nonce, and what
the cipher put out when the report was sealed under the id's key with the header. -/
theorem open_eq_ok {sealings : Set (Sealing Hub.MailKey Hub.Nonce)} (hideal : aead.Ideal sealings)
    {bytes report : List UInt8} {id : String} :
    Hub.open hkdf aead bytes master = .ok (id, report) ↔
      Hub.SystemId.tryFrom id = .ok id ∧ ∃ head nonce ciphertext, Agent.headerOf id = .ok head ∧
        ⟨Hub.MailMasterKey.derive hkdf master id, nonce, head, report⟩ ∈ sealings ∧
        aead.encrypt (Hub.MailMasterKey.derive hkdf master id) nonce report head = some ciphertext ∧
        bytes = head ++ nonce.toList ++ ciphertext := by
  constructor
  · intro h
    rcases parse_total bytes with ⟨refusal, hparse⟩ | ⟨parts, hparse, hparsed⟩
    · rw [Hub.open, hparse] at h
      cases h
    · obtain ⟨nonce, hnonce⟩ := exists_nonce hparsed.nonce
      rw [open_parsed hparse hnonce] at h
      split at h
      case h_1 => cases h
      case h_2 opened hopened =>
        cases h
        obtain ⟨hsealed, hcipher⟩ := (hideal _ _ _ _ _).mp hopened
        refine ⟨hparsed.id, _, nonce, _, hparsed.header, hsealed, hcipher, ?_⟩
        rw [← hnonce]
        exact hparsed.bytes_eq
  · rintro ⟨hid, head, nonce, ciphertext, hhead, hsealed, hcipher, rfl⟩
    have hnonce : nonce.toList.length = 24 := by simp
    have hparse := parse_sealed hhead hid hnonce ciphertext
    rw [open_parsed hparse rfl]
    simp only [(hideal _ _ _ _ _).mpr ⟨hsealed, hcipher⟩]

theorem seal_eq_ok {id : Agent.AgentId} {report bytes : List UInt8} {key : Hub.MailKey}
    {nonce : Hub.Nonce} :
    Agent.seal aead id report key nonce = .ok bytes ↔
      ∃ head ciphertext, Agent.header id = .ok head ∧
      aead.encrypt key nonce report head = some ciphertext ∧
      bytes = head ++ nonce.toList ++ ciphertext := by
  rw [Agent.seal, except_bind_eq_ok]
  constructor
  · rintro ⟨head, hhead, h⟩
    split at h
    case h_1 => cases h
    case h_2 ciphertext hcipher => exact ⟨head, ciphertext, hhead, hcipher, (Except.ok.inj h).symm⟩
  · rintro ⟨head, ciphertext, hhead, hcipher, rfl⟩
    exact ⟨head, hhead, by rw [hcipher]⟩

end Opening

/-- Headers delimit themselves: no byte string starts with the headers of two ids. -/
theorem headerOf_unique {id id' : String} {head head' rest rest' : List UInt8}
    (hhead : Agent.headerOf id = .ok head) (hhead' : Agent.headerOf id' = .ok head')
    (heq : head ++ rest = head' ++ rest') : id = id' ∧ head = head' ∧ rest = rest' := by
  obtain ⟨hlt, rfl⟩ := headerOf_eq_ok.mp hhead
  obtain ⟨hlt', rfl⟩ := headerOf_eq_ok.mp hhead'
  simp only [List.append_assoc, List.cons_append, List.append_cancel_left_eq,
    List.cons.injEq, true_and] at heq
  obtain ⟨hcount, hrest⟩ := heq
  have hlength : (utf8 id).length = (utf8 id').length := by
    have hcount := congrArg UInt8.toNat hcount
    rwa [UInt8.toNat_ofNat_of_lt' hlt, UInt8.toNat_ofNat_of_lt' hlt'] at hcount
  obtain ⟨hutf8, htail⟩ := List.append_inj hrest hlength
  obtain rfl := utf8_injective hutf8
  exact ⟨rfl, rfl, htail⟩

/-- A sealed report changed: a header for another id in place of its own, or bytes taken from its
end or put after it. -/
def Tampered (head sealed bytes : List UInt8) : Prop :=
  (∃ id other, Agent.headerOf id = .ok other ∧ other ≠ head ∧
    bytes = other ++ sealed.drop head.length) ∨
    (bytes ≠ sealed ∧ (bytes <+: sealed ∨ sealed <+: bytes))

/-- A changed report that still splits into a header, a nonce and a ciphertext has the sealed one's
nonce, and another header or ciphertext. -/
theorem Tampered.nonce_eq {id id' : String} {head head' ciphertext ciphertext' : List UInt8}
    {nonce nonce' : Hub.Nonce} (hhead : Agent.headerOf id = .ok head)
    (hhead' : Agent.headerOf id' = .ok head') (h : Tampered head
      (head ++ nonce.toList ++ ciphertext) (head' ++ nonce'.toList ++ ciphertext')) :
    nonce' = nonce ∧ (head' = head → ciphertext' ≠ ciphertext) := by
  have hnonce : ∀ {rest rest' : List UInt8}, nonce'.toList ++ rest = nonce.toList ++ rest' →
      nonce' = nonce := by
    intro rest rest' heq
    exact Vector.toList_inj.mp (List.append_inj_left heq (by simp))
  rcases h with ⟨other, head'', hother, hne, heq⟩ | ⟨hne, h⟩
  · rw [List.append_assoc, List.append_assoc, List.drop_left] at heq
    obtain ⟨-, rfl, hrest⟩ := headerOf_unique hhead' hother heq
    exact ⟨hnonce hrest, fun hsame => absurd hsame hne⟩
  · have hsame : nonce' = nonce := by
      rcases h with ⟨more, heq⟩ | ⟨more, heq⟩
      · simp only [List.append_assoc] at heq
        obtain ⟨-, -, hrest⟩ := headerOf_unique hhead' hhead heq
        exact hnonce hrest
      · simp only [List.append_assoc] at heq
        obtain ⟨-, -, hrest⟩ := headerOf_unique hhead' hhead heq.symm
        exact hnonce hrest
    refine ⟨hsame, ?_⟩
    rintro rfl rfl
    rw [hsame] at hne
    exact hne rfl

/-- Sealing and opening agree, and nothing else opens. The hub finds the sealed bytes of at most 512
KiB in every text whose first begin line is the armour's, and opens them as the id and the report.
Whatever opens is the id's header, a nonce and what the cipher put out for the report under the id's
key; when the nonce was used once, the report can't be addressed to another id, cut or extended. -/
theorem sealed_reports_open (hkdf : Hub.Hkdf) (aead : Aead Hub.MailKey Hub.Nonce)
    (sealings : Set (Sealing Hub.MailKey Hub.Nonce)) (hideal : aead.Ideal sealings)
    (master : Hub.MailMasterKey) :
    (∀ (id : Agent.AgentId) (report sealed head : List UInt8) (nonce : Hub.Nonce),
      Agent.header id = .ok head →
      Agent.seal aead id report (Hub.MailMasterKey.derive hkdf master id.text) nonce = .ok sealed →
      ⟨Hub.MailMasterKey.derive hkdf master id.text, nonce, head, report⟩ ∈ sealings →
        (sealed.length ≤ Hub.maxSealedBytes → Rewrapped sealed (Agent.armour sealed) ∧
          (∀ before armoured after, ¬ Agent.armourBegin <:+: before → ¬ EndsUnfinished before →
            Rewrapped sealed armoured → Hub.dearmour (before ++ armoured ++ after) = .ok sealed) ∧
          Hub.open hkdf aead sealed master = .ok (id.text, report)) ∧
        ((∀ other ∈ sealings, other.nonce = nonce →
            other = ⟨Hub.MailMasterKey.derive hkdf master id.text, nonce, head, report⟩) →
          ∀ bytes, Tampered head sealed bytes →
            ∃ refusal, Hub.open hkdf aead bytes master = .error (.refused refusal))) ∧
    (∀ bytes, Hub.parse bytes ≠ .error .panic ∧ Hub.open hkdf aead bytes master ≠ .error .panic) ∧
    (∀ bytes id report, Hub.open hkdf aead bytes master = .ok (id, report) →
      ∃ head nonce ciphertext, Agent.headerOf id = .ok head ∧
        ⟨Hub.MailMasterKey.derive hkdf master id, nonce, head, report⟩ ∈ sealings ∧
        aead.encrypt (Hub.MailMasterKey.derive hkdf master id) nonce report head = some ciphertext ∧
        bytes = head ++ nonce.toList ++ ciphertext) := by
  refine ⟨?_, ?_, ?_⟩
  · intro id report sealed head nonce hhead hseal hmem
    obtain ⟨_, ciphertext, hhead', hcipher, rfl⟩ := seal_eq_ok.mp hseal
    obtain rfl := Except.ok.inj (hhead.symm.trans hhead')
    refine ⟨?_, ?_⟩
    · intro hlength
      refine ⟨rewrapped_armour _, ?_, ?_⟩
      · intro before armoured after hnone hend harmour
        exact dearmour_rewrapped harmour hlength hnone hend
      · exact (open_eq_ok hideal).mpr
          ⟨Agent.tryFrom_agentId id, head, nonce, ciphertext, hhead, hmem, hcipher, rfl⟩
    · intro honce bytes htampered
      cases hopen : Hub.open hkdf aead bytes master with
      | error stop =>
          cases stop with
          | panic => exact absurd hopen (open_total bytes)
          | refused refusal => exact ⟨refusal, rfl⟩
      | ok opened =>
          -- What opened was sealed under this nonce, and only one report was.
          obtain ⟨-, head', nonce', ciphertext', hheader', hmem', hcipher', rfl⟩ :=
            (open_eq_ok hideal).mp (show _ = Except.ok (opened.1, opened.2) from hopen)
          obtain ⟨rfl, hdiffers⟩ := htampered.nonce_eq hhead hheader'
          obtain ⟨hkey, -, rfl, hreport⟩ := Sealing.mk.inj (honce _ hmem' rfl)
          rw [hkey, hreport, hcipher] at hcipher'
          exact absurd (Option.some.inj hcipher').symm (hdiffers rfl)
  · intro bytes
    refine ⟨?_, open_total bytes⟩
    rcases parse_total bytes with ⟨refusal, hparse⟩ | ⟨parts, hparse, -⟩
    · rw [hparse]
      nofun
    · rw [hparse]
      nofun
  · intro bytes id report h
    exact ((open_eq_ok hideal).mp h).2

/-! A report sealed for `web-01` under a key of the master key of 32 ones, and the nonce of 24
nines. -/

def webAgent : Agent.AgentId :=
  ⟨"web-01", by decide +kernel, by decide +kernel, by decide +kernel, by decide +kernel⟩

def onesMaster : Hub.MailMasterKey := Vector.replicate 32 1

def webKey : Hub.MailKey :=
  #v[43, 127, 145, 184, 121, 80, 213, 190, 240, 161, 132, 136, 141, 64, 79, 165, 213, 161, 27, 3,
    97, 145, 243, 164, 70, 53, 237, 220, 180, 246, 185, 243]

def webHkdf : Hub.Hkdf := fun salt master info =>
  if salt = Hub.keySalt ∧ master = onesMaster ∧
    info = utf8 "web-01" then webKey else Vector.replicate 32 0

def ninesNonce : Hub.Nonce := Vector.replicate 24 9

def webSealing : Sealing Hub.MailKey Hub.Nonce where
  key := webKey
  nonce := ninesNonce
  aad := [83, 65, 77, 82, 1, 6, 119, 101, 98, 45, 48, 49]
  msg := utf8 "a report"

def webCipher : Aead Hub.MailKey Hub.Nonce :=
  .single webSealing [111, 48, 31, 144, 164, 152, 138, 143, 131, 29, 136, 59, 33, 39, 114, 168, 89,
    104, 15, 225, 102, 105, 254, 232]

def webSealed : List UInt8 :=
  [83, 65, 77, 82, 1, 6, 119, 101, 98, 45, 48, 49] ++ List.replicate 24 9 ++
    [111, 48, 31, 144, 164, 152, 138, 143, 131, 29, 136, 59, 33, 39, 114, 168, 89, 104, 15, 225,
      102, 105, 254, 232]

theorem webSealed_eq :
    Agent.header webAgent = .ok webSealing.aad ∧
      Agent.seal webCipher webAgent (utf8 "a report")
        (Hub.MailMasterKey.derive webHkdf onesMaster webAgent.text) ninesNonce = .ok webSealed := by
  constructor
  · decide
  · decide

theorem sealed_reports_open_web :
    Hub.dearmour ("Report follows.\n".toList ++ Agent.armour webSealed ++ "\n-- ".toList) =
      .ok webSealed ∧
      Hub.open webHkdf webCipher webSealed onesMaster = .ok ("web-01", utf8 "a report") := by
  obtain ⟨hfinds, -, -⟩ := sealed_reports_open webHkdf webCipher {webSealing}
    (Aead.ideal_single _ _) onesMaster
  obtain ⟨hopens, -⟩ := hfinds webAgent
    (utf8 "a report") webSealed _ ninesNonce webSealed_eq.1 webSealed_eq.2
    (by rw [Set.mem_singleton_iff]; decide +kernel)
  obtain ⟨harmour, hdearmour, hopen⟩ := hopens (by decide +kernel)
  refine ⟨hdearmour _ _ _ (by decide +kernel) ?_ harmour, hopen⟩
  rintro ⟨dashes, -, hsuffix⟩
  have hend := hsuffix.length_le
  rw [List.length_append] at hend
  have hlong : "Report follows.\n".toList.length < beginHead.length := by decide +kernel
  omega

/-- After an unfinished begin line, which holds none, the armour isn't found. -/
theorem dearmour_unfinished :
    ¬ Agent.armourBegin <:+: "-----BEGIN SYSTEM-AGENT REPORT".toList ∧
      Agent.seal webCipher webAgent (utf8 "a report")
        (Hub.MailMasterKey.derive webHkdf onesMaster webAgent.text) ninesNonce = .ok webSealed ∧
      webSealed.length ≤ Hub.maxSealedBytes ∧
      Hub.dearmour ("-----BEGIN SYSTEM-AGENT REPORT".toList ++ Agent.armour webSealed) =
        .error .badArmor := by
  refine ⟨by decide +kernel, by decide +kernel, by decide +kernel, by decide +kernel⟩

end MonitoringAgent.Wire

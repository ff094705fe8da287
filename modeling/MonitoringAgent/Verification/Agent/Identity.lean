import MonitoringAgent.Model.Agent.Identity
import MonitoringAgent.Model.Hub.Registry

/-! # Racing agents agree on one id

What one agent's access to the directory may change, what it keeps for every other agent, and from
these the id file over any interleaving. -/

namespace MonitoringAgent.Agent

open MonitoringAgent.Library

/-! ### Ids -/

/-- What an agent writes to the id file, it reads back. -/
theorem parseIdFile_content (id : AgentId) : parseIdFile id.content = .ok id := by
  have htrim : trimAscii (id.text ++ "\n") = id.text :=
    trimAscii_append id.trimmed id.nonempty (List.all_iff_forall_prop.mp (by decide))
  rw [parseIdFile, AgentId.content, fromUtf8_utf8]
  simp only [AgentId.tryFrom, htrim]
  rw [dif_neg id.nonempty, dif_neg id.noDots, dif_neg (Nat.not_lt.mpr id.short)]
  rfl

/-- The hub takes every agent's id, unchanged. -/
theorem tryFrom_agentId (id : AgentId) : Hub.SystemId.tryFrom id.text = .ok id.text := by
  have hshort : ¬ Hub.maxSystemIdBytes < id.text.utf8ByteSize := Nat.not_lt.mpr id.short
  rw [Hub.SystemId.tryFrom, if_neg id.nonempty, if_neg id.noDots, if_neg hshort]

/-! ### The directory -/

/-- Files are old, no two temporaries are one file, and an id file holds a whole id. -/
structure DirectoryInv (d : Directory) : Prop where
  old : ∀ name file, d.entries name = some file → file < d.next
  distinct : ∀ u v file, d.entries (.temp u) = some file → d.entries (.temp v) = some file → u = v
  whole : ∀ bytes, d.contents .idFile = some bytes → ∃ id : AgentId, bytes = id.content

/-- What an access of the agent with the temporary `temp` leaves alone: the id file, and the
temporaries of the others. -/
structure Keeps (temp : Uuid) (d d' : Directory) : Prop where
  temps : ∀ u ≠ temp, d'.entries (.temp u) = d.entries (.temp u)
  idFile : ∀ file, d.entries .idFile = some file → d'.entries .idFile = some file ∧
    d'.data file = d.data file
  others : ∀ u ≠ temp, ∀ file, d.entries (.temp u) = some file →
    d'.data file = d.data file ∧ (d.entries .idFile ≠ some file → d'.entries .idFile ≠ some file)

theorem Keeps.refl (temp : Uuid) (d : Directory) : Keeps temp d d :=
  ⟨fun _ _ => rfl, fun _ h => ⟨h, rfl⟩, fun _ _ _ _ => ⟨rfl, id⟩⟩

theorem Keeps.contents {temp : Uuid} {d d' : Directory} (h : Keeps temp d d') {bytes : List UInt8}
    (hbytes : d.contents .idFile = some bytes) : d'.contents .idFile = some bytes := by
  obtain ⟨file, hfile, rfl⟩ := Option.map_eq_some_iff.mp hbytes
  obtain ⟨hentry, hdata⟩ := h.idFile file hfile
  rw [Directory.contents, hentry, Option.map_some, hdata]

/-! ### One agent -/

/-- Where an agent stands: its temporary, what it has written, and what it answers. -/
def Phase.Stands (temp : Uuid) (d : Directory) : Phase → Prop
  | .reading | .creating _ _ | .rereading => d.entries (.temp temp) = none
  | .writing id _ file rest => d.entries (.temp temp) = some file ∧ d.entries .idFile ≠ some file ∧
      d.data file ++ rest = id.content
  | .syncing id _ file | .linking id _ file => d.entries (.temp temp) = some file ∧
      d.entries .idFile ≠ some file ∧ d.data file = id.content
  | .removing linked => ∀ resolved, linked = .ok resolved →
      d.contents .idFile = some resolved.id.content
  | .done result => d.entries (.temp temp) = none ∧
      ∀ resolved, result = .ok resolved → d.contents .idFile = some resolved.id.content
  | .crashed => True

/-- The agent linked the id file into place. -/
def Phase.Wrote : Phase → Prop
  | .removing (.ok _) => True
  | .done (.ok ⟨_, .written _⟩) => True
  | _ => False

/-- An agent that wrote the id file left it in place. -/
theorem Phase.Stands.placed {temp : Uuid} {d : Directory} {p : Phase} (h : p.Stands temp d)
    (hwrote : p.Wrote) : d.entries .idFile ≠ none := by
  have hcontents : ∀ {bytes : List UInt8}, d.contents .idFile = some bytes →
      d.entries .idFile ≠ none := by
    intro bytes hbytes hnone
    rw [Directory.contents, hnone] at hbytes
    cases hbytes
  unfold Phase.Wrote at hwrote
  split at hwrote
  next resolved => exact hcontents (h resolved rfl)
  next id source => exact hcontents (h.2 _ rfl)
  · exact hwrote.elim

/-- Another agent's access leaves an agent where it stands. -/
theorem Phase.Stands.keep {temp other : Uuid} {d d' : Directory} {p : Phase} (h : p.Stands temp d)
    (hkeeps : Keeps other d d') (hne : temp ≠ other) : p.Stands temp d' := by
  have htemp := hkeeps.temps temp hne
  cases p with
  | reading => exact htemp.trans h
  | creating id source => exact htemp.trans h
  | rereading => exact htemp.trans h
  | writing id source file rest =>
      obtain ⟨hentry, hnot, hdata⟩ := h
      obtain ⟨hsame, hstill⟩ := hkeeps.others temp hne file hentry
      exact ⟨htemp.trans hentry, hstill hnot, by rw [hsame, hdata]⟩
  | syncing id source file =>
      obtain ⟨hentry, hnot, hdata⟩ := h
      obtain ⟨hsame, hstill⟩ := hkeeps.others temp hne file hentry
      exact ⟨htemp.trans hentry, hstill hnot, by rw [hsame, hdata]⟩
  | linking id source file =>
      obtain ⟨hentry, hnot, hdata⟩ := h
      obtain ⟨hsame, hstill⟩ := hkeeps.others temp hne file hentry
      exact ⟨htemp.trans hentry, hstill hnot, by rw [hsame, hdata]⟩
  | removing linked => exact fun resolved hok => hkeeps.contents (h resolved hok)
  | done result => exact ⟨htemp.trans h.1, fun resolved hok => hkeeps.contents (h.2 resolved hok)⟩
  | crashed => trivial

/-- A read of an id file answers with the id it holds. -/
theorem stands_read {d : Directory} (hd : DirectoryInv d) {temp : Uuid}
    (htemp : d.entries (.temp temp) = none) {bytes : List UInt8}
    (hbytes : d.contents .idFile = some bytes) :
    (Phase.done ((parseIdFile bytes).map (⟨·, .fromFile⟩))).Stands temp d := by
  refine ⟨htemp, fun resolved hok => ?_⟩
  obtain ⟨id, rfl⟩ := hd.whole bytes hbytes
  rw [parseIdFile_content] at hok
  obtain rfl : (⟨id, .fromFile⟩ : ResolvedId) = resolved := Except.ok.inj hok
  exact hbytes

/-- One access: where the agent stands after it, what it keeps, and when it writes the id file. -/
structure Advances (temp : Uuid) (p : Phase) (d : Directory) (p' : Phase)
    (d' : Directory) : Prop where
  stands : p'.Stands temp d'
  directory : DirectoryInv d'
  keeps : Keeps temp d d'
  wrote : p'.Wrote → p.Wrote ∨ d.entries .idFile = none

section Advances

variable {a : Starter} {d : Directory}

theorem advances_same {p p' : Phase} (hd : DirectoryInv d) (hstands : p'.Stands a.temp d)
    (hwrote : ¬ p'.Wrote) : Advances a.temp p d p' d :=
  ⟨hstands, hd, .refl _ _, fun h => absurd h hwrote⟩

theorem advances_create {id : AgentId} {source : IdSource} (hd : DirectoryInv d) :
    Advances a.temp (.creating id source) d (.writing id source d.next id.content)
      (d.create (.temp a.temp)) := by
  have hself : (d.create (.temp a.temp)).entries (.temp a.temp) = some d.next :=
    Function.update_self _ _ _
  have hother : ∀ name, name ≠ .temp a.temp →
      (d.create (.temp a.temp)).entries name = d.entries name :=
    fun name hne => Function.update_of_ne hne _ _
  have hdata : ∀ name file, d.entries name = some file →
      (d.create (.temp a.temp)).data file = d.data file :=
    fun name file hfile => Function.update_of_ne (ne_of_lt (hd.old name file hfile)) _ _
  refine ⟨⟨hself, ?_, ?_⟩, ⟨?_, ?_, ?_⟩, ⟨?_, ?_, ?_⟩, fun h => h.elim⟩
  · rw [hother _ (by simp)]
    intro hfile
    exact lt_irrefl _ (hd.old _ _ hfile)
  · have hempty : (d.create (.temp a.temp)).data d.next = [] := Function.update_self _ _ _
    rw [hempty, List.nil_append]
  · intro name file hfile
    change file < d.next + 1
    by_cases hname : name = .temp a.temp
    · rw [hname, hself] at hfile
      cases hfile
      exact Nat.lt_succ_self _
    · rw [hother _ hname] at hfile
      exact Nat.lt_succ_of_lt (hd.old name file hfile)
  · have hfresh : ∀ u file, u ≠ a.temp → (d.create (.temp a.temp)).entries (.temp u) = some file →
        file ≠ d.next := by
      intro u file hu hfile
      rw [hother _ (by simpa using hu)] at hfile
      exact ne_of_lt (hd.old _ _ hfile)
    intro u v file hu hv
    by_cases hua : u = a.temp
    · subst hua
      rw [hself] at hu
      cases hu
      by_contra hne
      exact hfresh v _ (Ne.symm hne) hv rfl
    · by_cases hva : v = a.temp
      · subst hva
        rw [hself] at hv
        cases hv
        exact absurd rfl (hfresh u _ hua hu)
      · rw [hother _ (by simpa using hua)] at hu
        rw [hother _ (by simpa using hva)] at hv
        exact hd.distinct u v file hu hv
  · intro bytes hbytes
    rw [Directory.contents, hother _ (by simp)] at hbytes
    obtain ⟨file, hfile, rfl⟩ := Option.map_eq_some_iff.mp hbytes
    rw [hdata _ file hfile]
    exact hd.whole _ (by rw [Directory.contents, hfile, Option.map_some])
  · exact fun u hu => hother _ (by simpa using hu)
  · exact fun file hfile => ⟨by rw [hother _ (by simp), hfile], hdata _ file hfile⟩
  · exact fun u hu file hfile => ⟨hdata _ file hfile, fun hnot => by rwa [hother _ (by simp)]⟩

theorem advances_append {id : AgentId} {source : IdSource} {file : ℕ} {rest : List UInt8}
    (hd : DirectoryInv d) (h : (Phase.writing id source file rest).Stands a.temp d) (count : ℕ) :
    Advances a.temp (.writing id source file rest) d
      (.writing id source file (rest.drop (count + 1)))
      (d.append file (rest.take (count + 1))) := by
  obtain ⟨hentry, hnot, hdata⟩ := h
  have hother : ∀ other, other ≠ file →
      (d.append file (rest.take (count + 1))).data other = d.data other :=
    fun other hne => Function.update_of_ne hne _ _
  refine ⟨⟨hentry, hnot, ?_⟩, ⟨hd.old, hd.distinct, ?_⟩, ⟨fun _ _ => rfl, ?_, ?_⟩, fun h => h.elim⟩
  · have hself : (d.append file (rest.take (count + 1))).data file =
        d.data file ++ rest.take (count + 1) :=
      Function.update_self _ _ _
    rw [hself, List.append_assoc, List.take_append_drop, hdata]
  · intro bytes hbytes
    obtain ⟨idFile, hidFile, rfl⟩ := Option.map_eq_some_iff.mp hbytes
    have hne : idFile ≠ file := by
      rintro rfl
      exact hnot hidFile
    rw [hother idFile hne]
    exact hd.whole _ (Option.map_eq_some_iff.mpr ⟨idFile, hidFile, rfl⟩)
  · intro idFile hidFile
    refine ⟨hidFile, hother idFile ?_⟩
    rintro rfl
    exact hnot hidFile
  · intro u hu other hentry'
    refine ⟨hother other ?_, fun hnot => hnot⟩
    rintro rfl
    exact hu (hd.distinct u a.temp other hentry' hentry)

theorem advances_link {id : AgentId} {source : IdSource} {file : ℕ} (hd : DirectoryInv d)
    (h : (Phase.linking id source file).Stands a.temp d) (hnone : d.entries .idFile = none) :
    Advances a.temp (.linking id source file) d (.removing (.ok ⟨id, .written source⟩))
      (d.link .idFile file) := by
  obtain ⟨hentry, -, hdata⟩ := h
  have hself : (d.link .idFile file).entries .idFile = some file := by simp [Directory.link]
  have hother : ∀ u, (d.link .idFile file).entries (.temp u) = d.entries (.temp u) := by
    simp [Directory.link]
  have hcontents : (d.link .idFile file).contents .idFile = some id.content := by
    rw [Directory.contents, hself, Option.map_some]
    exact congrArg some hdata
  refine ⟨?_, ⟨?_, ?_, ?_⟩, ⟨fun u _ => hother u, ?_, ?_⟩, fun _ => .inr hnone⟩
  · intro resolved hok
    obtain rfl := Except.ok.inj hok
    exact hcontents
  · intro name other hfile
    cases name with
    | idFile =>
        rw [hself] at hfile
        cases hfile
        exact hd.old _ _ hentry
    | temp u => exact hd.old _ _ ((hother u).symm.trans hfile)
  · intro u v other hu hv
    rw [hother] at hu hv
    exact hd.distinct u v other hu hv
  · intro bytes hbytes
    rw [hcontents] at hbytes
    exact ⟨id, (Option.some.inj hbytes).symm⟩
  · intro other hfile
    rw [hnone] at hfile
    cases hfile
  · intro u hu other hfile
    refine ⟨rfl, fun _ hlinked => ?_⟩
    rw [hself] at hlinked
    cases hlinked
    exact hu (hd.distinct u a.temp file hfile hentry)

theorem advances_remove {p p' : Phase} (hd : DirectoryInv d) (hwrote : p'.Wrote → p.Wrote)
    (hstands : (d.remove (.temp a.temp)).entries (.temp a.temp) = none →
      (d.remove (.temp a.temp)).contents .idFile = d.contents .idFile →
      p'.Stands a.temp (d.remove (.temp a.temp))) :
    Advances a.temp p d p' (d.remove (.temp a.temp)) := by
  have hself : (d.remove (.temp a.temp)).entries (.temp a.temp) = none := Function.update_self _ _ _
  have hother : ∀ name, name ≠ .temp a.temp →
      (d.remove (.temp a.temp)).entries name = d.entries name :=
    fun name hne => Function.update_of_ne hne _ _
  have hsub : ∀ name file, (d.remove (.temp a.temp)).entries name = some file →
      d.entries name = some file := by
    intro name file hfile
    by_cases hname : name = .temp a.temp
    · rw [hname, hself] at hfile
      cases hfile
    · rwa [hother name hname] at hfile
  have hcontents : (d.remove (.temp a.temp)).contents .idFile = d.contents .idFile := by
    rw [Directory.contents, hother _ (by simp)]
    rfl
  refine ⟨hstands hself hcontents, ⟨?_, ?_, ?_⟩, ⟨?_, ?_, ?_⟩, fun h => .inl (hwrote h)⟩
  · exact fun name file hfile => hd.old name file (hsub name file hfile)
  · exact fun u v file hu hv => hd.distinct u v file (hsub _ _ hu) (hsub _ _ hv)
  · exact fun bytes hbytes => hd.whole bytes (hcontents ▸ hbytes)
  · exact fun u hu => hother _ (by simpa using hu)
  · exact fun file hfile => ⟨by rw [hother _ (by simp), hfile], rfl⟩
  · exact fun u hu file hfile => ⟨rfl, fun hnot => by rwa [hother _ (by simp)]⟩

/-- One access of an agent. -/
theorem Phase.Stands.step {p p' : Phase} {d' : Directory} (h : p.Stands a.temp d)
    (hd : DirectoryInv d) {fault : Option Fault} {count : ℕ}
    (hstep : p.step a fault count d = (p', d')) : Advances a.temp p d p' d' := by
  have hfailed : ∀ (error : AgentIdError) (p : Phase),
      Advances a.temp p d (.removing (.error (.failed error))) d :=
    fun error p => advances_same hd (fun resolved hok => by cases hok) fun h => h
  have hrefused : ∀ (error : AgentIdError) (p : Phase), d.entries (.temp a.temp) = none →
      Advances a.temp p d (.done (.error error)) d :=
    fun error p htemp => advances_same hd ⟨htemp, fun resolved hok => by cases hok⟩ fun h => h
  have hread : ∀ (p : Phase) (bytes : List UInt8), d.entries (.temp a.temp) = none →
      d.contents .idFile = some bytes →
      Advances a.temp p d (.done ((parseIdFile bytes).map (⟨·, .fromFile⟩))) d := by
    intro p bytes htemp hbytes
    refine advances_same hd (stands_read hd htemp hbytes) ?_
    cases parseIdFile bytes with
    | error error => exact fun h => h
    | ok id => exact fun h => h
  unfold Phase.step at hstep
  cases p with
  | reading =>
      dsimp only at hstep
      split at hstep
      · cases hstep
        exact hrefused _ _ h
      · cases hstep
        unfold Phase.read
        split
        · exact advances_same hd h fun h => h
        next bytes hbytes => exact hread _ bytes h hbytes
  | creating id source =>
      dsimp only at hstep
      split at hstep
      · cases hstep
        exact advances_create hd
      · cases hstep
        exact hfailed _ _
  | writing id source file rest =>
      dsimp only at hstep
      split at hstep
      · cases hstep
        exact hfailed _ _
      · cases hstep
        obtain ⟨hentry, hnot, hdata⟩ := h
        exact advances_same hd ⟨hentry, hnot, by rwa [List.append_nil] at hdata⟩ fun h => h
      · cases hstep
        exact advances_append hd h count
  | syncing id source file =>
      dsimp only at hstep
      split at hstep
      · cases hstep
        exact hfailed _ _
      · cases hstep
        exact advances_same hd h fun h => h
  | linking id source file =>
      dsimp only at hstep
      split at hstep
      · cases hstep
        exact hfailed _ _
      · cases hstep
        exact hfailed _ _
      · cases hstep
        exact advances_same hd (fun resolved hok => by cases hok) fun h => h
      next file' hfile hnone =>
        cases hstep
        obtain rfl : file' = file := Option.some.inj (hfile.symm.trans h.1)
        exact advances_link hd h hnone
  | removing linked =>
      cases hstep
      cases linked with
      | ok resolved =>
          refine advances_remove hd (fun _ => trivial) fun htemp hsame =>
            ⟨htemp, fun resolved' hok => ?_⟩
          obtain rfl := Except.ok.inj hok
          rw [hsame]
          exact h resolved rfl
      | error error =>
          cases error with
          | taken => exact advances_remove hd (fun h => h.elim) fun htemp _ => htemp
          | failed error =>
              exact advances_remove hd (fun h => h.elim) fun htemp _ =>
                ⟨htemp, fun resolved hok => by cases hok⟩
  | rereading =>
      dsimp only at hstep
      split at hstep
      · cases hstep
        exact hrefused _ _ h
      · cases hstep
        unfold Phase.readFinal
        split
        · exact hrefused _ _ h
        next bytes hbytes => exact hread _ bytes h hbytes
  | done result =>
      cases hstep
      exact ⟨h, hd, .refl _ _, fun h => .inl h⟩
  | crashed =>
      cases hstep
      exact ⟨h, hd, .refl _ _, fun h => .inl h⟩

end Advances

/-! ### Every interleaving -/

/-- The agents and their directory; at most one agent wrote the id file. -/
structure RaceInv {ι : Type} (agents : ι → Starter) (s : Race ι) : Prop where
  directory : DirectoryInv s.directory
  stands : ∀ i, (s.phases i).Stands (agents i).temp s.directory
  once : ∀ i j, (s.phases i).Wrote → (s.phases j).Wrote → i = j

namespace RaceInv

variable {ι : Type} {agents : ι → Starter} {s : Race ι}

theorem start (agents : ι → Starter) (stored : Option AgentId) :
    RaceInv agents (.start stored) := by
  refine ⟨⟨?_, ?_, ?_⟩, fun i => rfl, fun i j h => h.elim⟩
  · intro name file hfile
    cases name with
    | idFile =>
        obtain ⟨id, -, rfl⟩ := Option.map_eq_some_iff.mp hfile
        exact Nat.one_pos
    | temp u => cases hfile
  · intro u v file hu
    cases hu
  · intro bytes hbytes
    obtain ⟨file, hfile, rfl⟩ := Option.map_eq_some_iff.mp hbytes
    obtain ⟨id, rfl, -⟩ := Option.map_eq_some_iff.mp hfile
    exact ⟨id, rfl⟩

variable [DecidableEq ι]

/-- One event keeps the invariant and the id file. -/
theorem step (h : RaceInv agents s) (htemps : Function.Injective fun i => (agents i).temp)
    (e : RaceEvent ι) :
    RaceInv agents (s.step agents e) ∧ ∀ bytes, s.directory.contents .idFile = some bytes →
      (s.step agents e).directory.contents .idFile = some bytes := by
  cases e with
  | crash i =>
      have hcrash : RaceInv agents { s with phases := Function.update s.phases i .crashed } := by
        have hwrote : ∀ j, (Function.update s.phases i .crashed j).Wrote → (s.phases j).Wrote := by
          intro j hj
          by_cases hji : j = i
          · subst hji
            rw [Function.update_self] at hj
            exact hj.elim
          · rwa [Function.update_of_ne hji] at hj
        refine ⟨h.directory, fun j => ?_, fun j k hj hk => h.once j k (hwrote j hj) (hwrote k hk)⟩
        by_cases hji : j = i
        · subst hji
          change (Function.update s.phases j .crashed j).Stands _ _
          rw [Function.update_self]
          trivial
        · change (Function.update s.phases i .crashed j).Stands _ _
          rw [Function.update_of_ne hji]
          exact h.stands j
      rw [Race.step]
      split
      · exact ⟨h, fun bytes hbytes => hbytes⟩
      · exact ⟨hcrash, fun bytes hbytes => hbytes⟩
  | step i fault count =>
      obtain ⟨p', d', hstep⟩ : ∃ p' d', (s.phases i).step
          (agents i) fault count s.directory = (p', d') :=
        ⟨_, _, rfl⟩
      obtain ⟨hstands, hdirectory, hkeeps, hwrote⟩ := (h.stands i).step h.directory hstep
      rw [Race.step, hstep]
      dsimp only
      -- An agent that wrote by this step found no id file, so no other had written.
      have honly : p'.Wrote → ∀ j ≠ i, ¬ (s.phases j).Wrote := by
        intro hp j hj hwrotej
        rcases hwrote hp with hi | hnone
        · exact hj (h.once j i hwrotej hi)
        · exact (h.stands j).placed hwrotej hnone
      refine ⟨⟨hdirectory, fun j => ?_, fun j k hj hk => ?_⟩, fun bytes => hkeeps.contents⟩
      · change (Function.update s.phases i p' j).Stands (agents j).temp d'
        by_cases hji : j = i
        · subst hji
          rw [Function.update_self]
          exact hstands
        · rw [Function.update_of_ne hji]
          exact (h.stands j).keep hkeeps fun heq => hji (htemps heq)
      · change (Function.update s.phases i p' j).Wrote at hj
        change (Function.update s.phases i p' k).Wrote at hk
        by_cases hji : j = i
        · subst hji
          by_cases hkj : k = j
          · exact hkj.symm
          · rw [Function.update_self] at hj
            rw [Function.update_of_ne hkj] at hk
            exact absurd hk (honly hj k hkj)
        · rw [Function.update_of_ne hji] at hj
          by_cases hki : k = i
          · subst hki
            rw [Function.update_self] at hk
            exact absurd hj (honly hk j hji)
          · rw [Function.update_of_ne hki] at hk
            exact h.once j k hj hk

theorem run (h : RaceInv agents s) (htemps : Function.Injective fun i => (agents i).temp)
    (events : List (RaceEvent ι)) :
    RaceInv agents (s.run agents events) ∧ ∀ bytes, s.directory.contents .idFile = some bytes →
      (s.run agents events).directory.contents .idFile = some bytes := by
  induction events generalizing s with
  | nil => exact ⟨h, fun bytes hbytes => hbytes⟩
  | cons e events ih =>
      obtain ⟨hstep, hkeep⟩ := h.step htemps e
      obtain ⟨hrun, hkeeps⟩ := ih hstep
      exact ⟨hrun, fun bytes hbytes => hkeeps bytes (hkeep bytes hbytes)⟩

end RaceInv

/-- Racing agents agree on one id. Whatever the agents' sources, the order of their steps, their
crashes, and the I/O failures of any access but the removal of the temporary, which always succeeds
here: an id file holds one whole id and keeps it; every agent that resolved an id resolved that one,
at most one of them by writing it, and left no temporary; the hub takes the id as it is, and an
agent that starts later reads it back from the file. -/
theorem Race.one_id {ι : Type} [DecidableEq ι] (agents : ι → Starter)
    (htemps : Function.Injective fun i => (agents i).temp) (stored : Option AgentId)
    (events more : List (RaceEvent ι)) :
    (∀ bytes, ((start stored).run agents events).directory.contents .idFile = some bytes →
      (∃ id : AgentId, bytes = id.content) ∧
        (((start stored).run agents events).run agents more).directory.contents .idFile =
          some bytes) ∧
    (∀ i result, ((start stored).run agents events).phases i = .done result →
      ((start stored).run agents events).directory.entries (.temp (agents i).temp) = none) ∧
    (∀ i j a b s t, ((start stored).run agents events).phases i = .done (.ok ⟨a, .written s⟩) →
      ((start stored).run agents events).phases j = .done (.ok ⟨b, .written t⟩) → i = j) ∧
    ∀ i resolved, ((start stored).run agents events).phases i = .done (.ok resolved) →
      ((start stored).run agents events).directory.contents .idFile = some resolved.id.content ∧
      Hub.SystemId.tryFrom resolved.id.text = .ok resolved.id.text ∧
      ∀ a count, Phase.reading.step a none count
          (((start stored).run agents events).run agents more).directory =
        (.done (.ok ⟨resolved.id, .fromFile⟩),
          (((start stored).run agents events).run agents more).directory) := by
  obtain ⟨hinv, -⟩ := (RaceInv.start agents stored).run htemps events
  obtain ⟨-, hkeeps⟩ := hinv.run htemps more
  refine ⟨fun bytes hbytes => ⟨hinv.directory.whole bytes hbytes, hkeeps bytes hbytes⟩, ?_, ?_, ?_⟩
  · intro i result hdone
    have hstands := hinv.stands i
    rw [hdone] at hstands
    exact hstands.1
  · intro i j a b s t hi hj
    refine hinv.once i j ?_ ?_
    · rw [hi]
      trivial
    · rw [hj]
      trivial
  · intro i resolved hdone
    have hstands := hinv.stands i
    rw [hdone] at hstands
    have hcontents := hstands.2 resolved rfl
    refine ⟨hcontents, tryFrom_agentId resolved.id, fun a count => ?_⟩
    unfold Phase.step
    dsimp only
    rw [Phase.read.eq_def, hkeeps _ hcontents]
    simp only [parseIdFile_content]
    rfl

/-- Two agents with host names of their own. -/
def twoHosts : Bool → Starter
  | false => ⟨⟨none, none, some "left\n", ⟨1⟩⟩, ⟨2⟩⟩
  | true => ⟨⟨none, none, some "right\n", ⟨3⟩⟩, ⟨4⟩⟩

/-- Both find no id file; the first writes and links its own, and the second then reads it. -/
def lostLink : List (RaceEvent Bool) :=
  let finish (agent : Bool) : List (RaceEvent Bool) := List.replicate 7 (.step agent none 10)
  [.step true none 0, .step false none 0] ++ finish false ++ finish true

/-- The id that an agent ended with. -/
def Phase.resolved? : Phase → Option ResolvedId
  | .done (.ok resolved) => some resolved
  | _ => none

theorem Phase.resolved?_eq_some {phase : Phase} {resolved : ResolvedId}
    (h : phase.resolved? = some resolved) : phase = .done (.ok resolved) := by
  rw [Phase.resolved?.eq_def] at h
  split at h
  · rw [Option.some.inj h]
  · cases h

theorem Race.one_id_lostLink : ∃ resolved,
    ((start none).run twoHosts lostLink).phases true = .done (.ok resolved) ∧
      resolved.id.text = "left" ∧ resolved.resolution = .fromFile ∧
      ((start none).run twoHosts lostLink).directory.contents .idFile =
        some resolved.id.content := by
  have hresolved : (((start none).run twoHosts lostLink).phases true).resolved?.any (fun resolved =>
      resolved.id.text == "left" && resolved.resolution == .fromFile) = true := by decide +kernel
  obtain ⟨resolved, hphase, hresolved⟩ := (Option.any_eq_true _ _).mp hresolved
  rw [Bool.and_eq_true, beq_iff_eq, beq_iff_eq] at hresolved
  have hdone := Phase.resolved?_eq_some hphase
  have hcontents := ((one_id twoHosts (by decide) none lostLink []).2.2.2 true resolved hdone).1
  exact ⟨resolved, hdone, hresolved.1, hresolved.2, hcontents⟩

end MonitoringAgent.Agent

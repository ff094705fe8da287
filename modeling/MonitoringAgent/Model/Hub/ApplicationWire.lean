import MonitoringAgent.Library.Datum
import MonitoringAgent.Model.Hub.Round

/-! # Scrape rounds as agents send them

A round pushed as an application frame or polled from an agent, and its conversion. Parsing a UUID
is a parameter. -/

namespace MonitoringAgent.Hub.Applications

open MonitoringAgent.Library MonitoringAgent.Library.Datum

/-! ### Wire shapes -/

/-- One application report as an agent sends it. -/
structure ApplicationReportDto where
  name : String
  health : String
  version : Option String
  gauges : Table String F64

def ApplicationReportDto.read (d : Datum) : Option ApplicationReportDto := do
  match ← d.fields ["name", "health", "version", "gauges"] with
  | [name, health, version, gauges] =>
      return {
        name := ← required asText name
        health := ← required asText health
        version := ← optional asText version
        gauges := ← required (asTable asFloat64) gauges }
  | _ => none

structure ApplicationFrameDto where
  kind : String
  run : String
  seq : ℕ
  intervalSecs : ℕ
  applications : List ApplicationReportDto

def ApplicationFrameDto.read (d : Datum) : Option ApplicationFrameDto := do
  match ← d.fields ["kind", "run", "seq", "interval_secs", "applications"] with
  | [kind, run, seq, intervalSecs, applications] =>
      return {
        kind := ← required asText kind
        run := ← required asText run
        seq := ← required asNat seq
        intervalSecs := ← required asNat intervalSecs
        applications := ← required (asSeq ApplicationReportDto.read) applications }
  | _ => none

structure RoundIdDto where
  run : String
  seq : ℕ

def RoundIdDto.read (d : Datum) : Option RoundIdDto := do
  match ← d.fields ["run", "seq"] with
  | [run, seq] => return ⟨← required asText run, ← required asNat seq⟩
  | _ => none

/-- The poll response as an agent serves it. The agent's `scraped_at` is ignored. -/
structure ApplicationsResponseDto where
  round : Option RoundIdDto
  intervalSecs : Option ℕ
  applications : List ApplicationReportDto

def ApplicationsResponseDto.read (d : Datum) : Option ApplicationsResponseDto := do
  match ← d.fields ["round", "interval_secs", "applications"] with
  | [round, intervalSecs, applications] =>
      return {
        round := ← optional RoundIdDto.read round
        intervalSecs := ← optional asNat intervalSecs
        applications := ← defaulted (asSeq ApplicationReportDto.read) [] applications }
  | _ => none

/-- Decodes an application frame; none for anything else. -/
def decode (msgpack : Format) (data : List UInt8) : Option ApplicationFrameDto :=
  (msgpack.decode data).bind ApplicationFrameDto.read

/-- Decodes the body of a poll response. -/
def decodeResponse (json : Format) (body : List UInt8) : Option ApplicationsResponseDto :=
  (json.decode body).bind ApplicationsResponseDto.read

/-! ### Conversion -/

/-- Keeps the gauges this hub knows, with finite values; of two values of a gauge, the later counts.
-/
def Gauges.fromWire (raw : List (String × F64)) : Gauges where
  get gauge := ((raw.filter fun e => e.2.isFinite).filterMap fun (name, value) =>
    (ApplicationGauge.fromWire name).map (·, value)).reverse.lookup gauge
  finite := by
    intro gauge value h
    obtain ⟨before, after, hsplit, -⟩ := List.lookup_eq_some_iff.mp h
    have hmem : (gauge, value) ∈ (raw.filter fun e => e.2.isFinite).filterMap fun (name, value) =>
        (ApplicationGauge.fromWire name).map (·, value) := by
      rw [← List.mem_reverse, hsplit]
      exact List.mem_append_right _ List.mem_cons_self
    obtain ⟨⟨name, v⟩, hraw, hv⟩ := List.mem_filterMap.mp hmem
    obtain ⟨g, -, hpair⟩ := Option.map_eq_some_iff.mp hv
    obtain ⟨rfl, rfl⟩ := Prod.mk.inj hpair
    simpa using (List.mem_filter.mp hraw).2

def ApplicationReport.tryFrom (dto : ApplicationReportDto) :
    Except ScrapeRoundError ApplicationReport := do
  let name ← (ApplicationName.parse dto.name).elim (.error .invalidApplicationName) .ok
  return {
    name
    health := .fromWire dto.health
    version := dto.version.bind ApplicationVersion.parse
    gauges := .fromWire dto.gauges.entries }

variable (tryParse : String → Option Uuid)

def RoundId.parse (run : String) (seq : ℕ) : Except ScrapeRoundError RoundId := do
  let run ← (tryParse run).elim (.error .invalidRun) .ok
  return ⟨run, seq⟩

/-- A round from the fields both wire shapes carry, refused as a whole on the first broken rule. -/
def buildRound (run : String) (seq intervalSecs : ℕ) (applications : List ApplicationReportDto) :
    Except ScrapeRoundError ScrapeRound := do
  let id ← RoundId.parse tryParse run seq
  let interval ← ScrapeInterval.fromSecs intervalSecs
  let applications ← applications.mapM ApplicationReport.tryFrom
  ScrapeRound.new id interval applications

/-- Why an application frame was refused. -/
inductive FrameRefusal where
  | unknownKind
  | round (error : ScrapeRoundError)
  deriving DecidableEq, Repr

def ScrapeRound.tryFrom (frame : ApplicationFrameDto) : Except FrameRefusal ScrapeRound :=
  if frame.kind ≠ "applications.v1" then .error .unknownKind
  else (buildRound tryParse frame.run frame.seq frame.intervalSecs frame.applications).mapError
    .round

/-- What a poll answered: no round, or one. -/
inductive PolledRound where
  | noRound
  | round (round : ScrapeRound)

def PolledRound.tryFrom (response : ApplicationsResponseDto) :
    Except ScrapeRoundError PolledRound := do
  match response.round with
  | none => return .noRound
  | some id =>
      let intervalSecs ← response.intervalSecs.elim (.error .invalidInterval) .ok
      return .round (← buildRound tryParse id.run id.seq intervalSecs response.applications)

end MonitoringAgent.Hub.Applications

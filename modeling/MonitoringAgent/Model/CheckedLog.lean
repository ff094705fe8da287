import MonitoringAgent.Model.Codec.Checked
import MonitoringAgent.Model.Log

/-! # Reading a log entry with every step checked

`decode_log_entry` with its operations checked and the turns of its loop counted: it has no result
when it takes more turns than it is given. -/

namespace MonitoringAgent.HubStore.Checked

open MonitoringAgent.Library

abbrev Logging (α : Type) : Type := Except (Stop BadLogEntry) α

def nextVarint (bytes : List UInt8) (pos : ℕ) : Logging (ℕ × ℕ) :=
  match readVarint bytes pos with
  | .ok read => .ok read
  | .error .panic => .error .panic
  | .error (.refused _) => .error (.refused .badLogEntry)

/-- One turn of the loop: a point, and the position after it. -/
def decodeLogPoint (bytes : List UInt8) (base pos : ℕ) : Logging (LoggedPoint × ℕ) := do
  let (id, pos) ← nextVarint bytes pos
  if id ≥ 2 ^ 32 then .error (.refused .badLogEntry)
  let (after, pos) ← nextVarint bytes pos
  if base + after ≥ 2 ^ 64 then .error (.refused .badLogEntry)
  let (code, pos) ← nextVarint bytes pos
  .ok (⟨id, base + after, unzigzag code⟩, pos)

/-- The loop over the declared count, after the points read so far; none when the turns don't
suffice. -/
def decodeLogPoints (bytes : List UInt8) (base : ℕ) :
    ℕ → ℕ → List LoggedPoint → ℕ → Option (Logging (List LoggedPoint × ℕ))
  | _, 0, points, pos => some (.ok (points, pos))
  | 0, _ + 1, _, _ => none
  | turns + 1, left + 1, points, pos =>
      match decodeLogPoint bytes base pos with
      | .ok (p, pos) => decodeLogPoints bytes base turns left (points ++ [p]) pos
      | .error stop => some (.error stop)

/-- The entry's points, in at most so many turns. -/
def decodeLogEntry (turns : ℕ) (bytes : List UInt8) : Option (Logging (List LoggedPoint)) :=
  if bytes.head? ≠ some logV1 then some (.error (.refused .badLogEntry))
  else
    match (do
      let (count, pos) ← nextVarint bytes 1
      let (base, pos) ← nextVarint bytes pos
      .ok (count, base, pos) : Logging (ℕ × ℕ × ℕ)) with
    | .error stop => some (.error stop)
    | .ok (count, base, pos) =>
        (decodeLogPoints bytes base turns count [] pos).map fun read => do
          let (points, pos) ← read
          if pos ≠ bytes.length then .error (.refused .badLogEntry)
          .ok points

end MonitoringAgent.HubStore.Checked

import MonitoringAgent.Library.Checked
import MonitoringAgent.Model.Agent.Alerts

/-! # Times as text, on machine words

The same function stands three times in the source: by the hub's clock, by the agent's alerts and by
its routes. -/

namespace MonitoringAgent

open MonitoringAgent.Library

namespace Iso8601

def isLeap (y : ℤ) : Bool := (y.tmod 4 = 0 ∧ y.tmod 100 ≠ 0) ∨ y.tmod 400 = 0

def daysInYear (y : ℤ) : ℤ := if isLeap y then 366 else 365

theorem daysInYear_pos (y : ℤ) : 0 < daysInYear y := by
  rw [daysInYear]
  split_ifs <;> omega

/-- The loop over the years. -/
def yearOf (y d : ℤ) : Except (Stop Empty) (ℤ × ℤ) :=
  if d < daysInYear y then .ok (y, d)
  else
    match _hd : (subInt 63 d (daysInYear y) : Except (Stop Empty) ℤ),
      (addInt 63 y 1 : Except (Stop Empty) ℤ) with
    | .ok d', .ok y' => yearOf y' d'
    | _, _ => .error .panic
termination_by d.toNat
decreasing_by
  have hpos := daysInYear_pos y
  rw [subInt] at _hd
  split_ifs at _hd
  cases _hd
  omega

/-- The loop over the lengths of the months. -/
def monthOf (m d : ℤ) : List ℤ → Except (Stop Empty) (ℤ × ℤ)
  | [] => .ok (m, d)
  | md :: rest =>
    if d < md then .ok (m, d)
    else do
      let d ← subInt 63 d md
      let m ← addInt 31 m 1
      monthOf m d rest

/-- A word read as a signed one. -/
def toI64 (n : ℕ) : ℤ := if n < 2 ^ 63 then n else n - 2 ^ 64

/-- `n` in decimal, its sign before the leading zeros. -/
def padded (width : ℕ) (n : ℤ) : String :=
  if n < 0 then "-" ++ Agent.padded (width - 1) n.natAbs else Agent.padded width n.toNat

def monthDays (y : ℤ) : List ℤ :=
  if isLeap y then [31, 29, 31, 30, 31, 30, 31, 31, 30, 31, 30, 31]
  else [31, 28, 31, 30, 31, 30, 31, 31, 30, 31, 30, 31]

def unixToIso8601 (secs : ℕ) : Except (Stop Empty) String := do
  let timeOfDay := secs % 86400
  let yearDay ← yearOf 1970 (toI64 (secs / 86400))
  let monthDay ← monthOf 1 yearDay.2 (monthDays yearDay.1)
  let day ← addInt 63 monthDay.2 1
  return padded 4 yearDay.1 ++ "-" ++ padded 2 monthDay.1 ++ "-" ++ padded 2 day ++ "T" ++
    Agent.padded 2 (timeOfDay / 3600) ++ ":" ++ Agent.padded 2 (timeOfDay % 3600 / 60) ++ ":" ++
    Agent.padded 2 (timeOfDay % 60) ++ "Z"

end Iso8601

namespace Hub.Clock

def unixToIso8601 (secs : ℕ) : Except (Stop Empty) String := Iso8601.unixToIso8601 secs

end Hub.Clock

namespace Agent.Alerts

def unixToIso8601 (secs : ℕ) : Except (Stop Empty) String := Iso8601.unixToIso8601 secs

end Agent.Alerts

namespace Agent.Api

def unixToIso8601 (secs : ℕ) : Except (Stop Empty) String := Iso8601.unixToIso8601 secs

end Agent.Api

end MonitoringAgent

import MonitoringAgent.Library.Aead
import MonitoringAgent.Library.Base64
import MonitoringAgent.Library.Pieces
import MonitoringAgent.Model.Agent.Identity

/-! # Sealing a mail report

A header authenticated as associated data, a nonce, the ciphertext, and base64 armour around them.
The cipher is a parameter. -/

namespace MonitoringAgent.Agent

open MonitoringAgent.Library

/-- The sealed report's first bytes, `SAMR`. -/
def magic : List UInt8 := [0x53, 0x41, 0x4d, 0x52]

/-- The sealed report's version. -/
def version : UInt8 := 1

/-- The armour's first line. -/
def armourBegin : List Char := "-----BEGIN SYSTEM-AGENT REPORT-----".toList

/-- The armour's last line. -/
def armourEnd : List Char := "-----END SYSTEM-AGENT REPORT-----".toList

/-- The armour's longest base64 line. -/
def armourColumns : ℕ := 76

/-- This system's mail key. -/
abbrev MailKey := Vector UInt8 32

/-- A nonce of the cipher. -/
abbrev Nonce := Vector UInt8 24

/-- Why a report couldn't be sealed. -/
inductive SealError where
  | idTooLong
  /-- The cipher refused the message. -/
  | encrypt
  deriving DecidableEq, Repr

/-- The header of an id's text. -/
def headerOf (id : String) : Except SealError (List UInt8) :=
  let bytes := utf8 id
  if bytes.length < 2 ^ 8 then .ok (magic ++ [version, UInt8.ofNat bytes.length] ++ bytes)
  else .error .idTooLong

/-- What the hub reads before it opens a report. -/
def header (id : AgentId) : Except SealError (List UInt8) := headerOf id.text

/-- The report sealed for the id. -/
def «seal» (aead : Aead MailKey Nonce) (id : AgentId) (report : List UInt8)
    (key : MailKey) (nonce : Nonce) :
    Except SealError (List UInt8) := do
  let sealed ← header id
  match aead.encrypt key nonce report sealed with
  | none => .error .encrypt
  | some ciphertext => .ok (sealed ++ nonce.toList ++ ciphertext)

/-- The text a message body carries. -/
def armour (sealed : List UInt8) : List Char :=
  let encoded := Base64.encode sealed
  ['\n'].intercalate (armourBegin :: pieces armourColumns encoded ++ [armourEnd])

end MonitoringAgent.Agent

import MonitoringAgent.Library.Aead
import MonitoringAgent.Library.Base64
import MonitoringAgent.Library.Checked
import MonitoringAgent.Library.Text
import MonitoringAgent.Model.Hub.Registry

/-! # Opening a sealed mail report

The armour, the header, the system's key derived from the hub's master key, and the cipher. The
cipher and the key derivation are parameters. A slice out of range panics. -/

namespace MonitoringAgent.Hub

open MonitoringAgent.Library

/-- `SAMR`. -/
def magic : List UInt8 := [0x53, 0x41, 0x4d, 0x52]

def version : UInt8 := 1

def armourBegin : List Char := "-----BEGIN SYSTEM-AGENT REPORT-----".toList

def armourEnd : List Char := "-----END SYSTEM-AGENT REPORT-----".toList

def nonceBytes : ℕ := 24

/-- The salt of the mail key derivation. -/
def keySalt : List UInt8 := utf8 "system-agent mail key v1"

/-- The largest sealed report the hub decodes. -/
def maxSealedBytes : ℕ := 512 * 1024

/-- The hub's mail master key. -/
abbrev MailMasterKey := Vector UInt8 32

/-- One system's mail key. -/
abbrev MailKey := Vector UInt8 32

abbrev Nonce := Vector UInt8 24

/-- HKDF: 32 bytes from a salt, a key and an info. -/
abbrev Hkdf := (salt : List UInt8) → MailMasterKey → (info : List UInt8) → MailKey

/-- Why a mail report wasn't opened. -/
inductive OpenRefusal where
  /-- No armour block, or base64 that doesn't decode. -/
  | badArmor
  /-- The armour decodes to more than `maxSealedBytes`. -/
  | tooLarge
  /-- The wrong magic, or a header that overruns the bytes. -/
  | badHeader
  | unknownVersion (version : UInt8)
  | invalidSystemId (error : SystemIdError)
  /-- The tag doesn't verify under the id's key. -/
  | notAuthentic
  deriving DecidableEq, Repr

/-- The key of a system. -/
def MailMasterKey.derive (hkdf : Hkdf) (master : MailMasterKey) (systemId : SystemId) : MailKey :=
  hkdf keySalt master (utf8 systemId)

/-- The sealed bytes in the first armour block of the text. -/
def dearmour (text : List Char) : Except OpenRefusal (List UInt8) :=
  match text.dropInfix? armourBegin with
  | none => .error .badArmor
  | some (_, afterBegin) =>
      match afterBegin.dropInfix? armourEnd with
      | none => .error .badArmor
      | some (body, _) =>
          match Base64.decode (body.filter fun c => !isAsciiWhitespace c) with
          | none => .error .badArmor
          | some sealed => if sealed.length > maxSealedBytes then .error .tooLarge else .ok sealed

/-- The parts of a sealed report. -/
structure Sealed where
  /-- Everything before the nonce: the associated data. -/
  header : List UInt8
  id : SystemId
  nonce : List UInt8
  ciphertext : List UInt8
  deriving DecidableEq, Repr

/-- Splits a sealed report and parses its id. -/
def parse (sealed : List UInt8) : Except (Stop OpenRefusal) Sealed :=
  match sealed.dropPrefix? magic with
  | none => .error (.refused .badHeader)
  | some rest =>
  match rest with
  | [] => .error (.refused .badHeader)
  | v :: rest =>
  if v ≠ version then .error (.refused (.unknownVersion v)) else
  match rest with
  | [] => .error (.refused .badHeader)
  | idLen :: rest =>
  let idLen := idLen.toNat
  if rest.length < idLen then .error (.refused .badHeader) else do
  let id := rest.take idLen
  let rest ← sliceFrom rest idLen
  if rest.length < nonceBytes then .error (.refused .badHeader) else
  let nonce ← sliceTo rest nonceBytes
  let ciphertext ← sliceFrom rest nonceBytes
  match fromUtf8 id with
  | none => .error (.refused .badHeader)
  | some id =>
  match SystemId.tryFrom id with
  | .error e => .error (.refused (.invalidSystemId e))
  | .ok id => do
  let header ← sliceTo sealed (magic.length + 2 + idLen)
  .ok ⟨header, id, nonce, ciphertext⟩

/-- The slice as a nonce; the wrong length panics. -/
def nonceFromSlice (bytes : List UInt8) : Except (Stop OpenRefusal) Nonce :=
  if h : bytes.length = 24 then .ok ⟨bytes.toArray, by simpa using h⟩ else .error .panic

/-- The system id of a sealed report and the report, authenticated with the header. -/
def «open» (hkdf : Hkdf) (aead : Aead MailKey Nonce) (sealed : List UInt8)
    (master : MailMasterKey) :
    Except (Stop OpenRefusal) (SystemId × List UInt8) := do
  let ⟨header, id, nonce, ciphertext⟩ ← parse sealed
  let key := MailMasterKey.derive hkdf master id
  let nonce ← nonceFromSlice nonce
  match aead.decrypt key nonce ciphertext header with
  | none => .error (.refused .notAuthentic)
  | some report => .ok (id, report)

end MonitoringAgent.Hub

import MonitoringAgent.Library.Decimal
import MonitoringAgent.Library.Text
import MonitoringAgent.Model.Tables

/-! # Block file names

`<span start>[.r<n>].blk`, derived from the file's typed key and rewrite number; and what a scan of
the tier directories finds. -/

namespace MonitoringAgent.HubStore

open MonitoringAgent.Library

/-- What a file found in a tier's directory is. -/
inductive FileKind where
  | block (name : BlockName)
  /-- A block file still being written: no row ever names one. -/
  | temporary
  /-- Anything else: not the store's, left alone. -/
  | foreign
  deriving DecidableEq, Repr

namespace BlockName

/-- The file's name inside its tier's directory. -/
def fileName (b : BlockName) : String :=
  if b.rewrite = 0 then toString b.span ++ ".blk"
    else toString b.span ++ ".r" ++ toString b.rewrite ++ ".blk"

/-- The name of the temporary file it is written to before its rename. -/
def temporaryName (b : BlockName) : String := b.fileName ++ ".tmp"

/-- A decimal number below `bound`, spelled as it is written. -/
def canonical (bound : ℕ) (digits : List Char) : Option ℕ :=
  if CanonicalDigits digits then
    let n := Nat.ofDigitChars 10 digits 0
    if n < bound then some n else none
  else none

/-- The digits of the span, and the rewrite number: canonically spelled and from 1, or 0 where there
is none. -/
def splitStem (stem : List Char) : Option (List Char × ℕ) :=
  match stem.dropInfix? ['.', 'r'] with
  | some (span, n) => ((canonical (2 ^ 32) n).filter (0 < ·)).map fun n => (span, n)
  | none => some (stem, 0)

/-- `<span>` or `<span>.r<n>`, canonically spelled. -/
def parseStem (tier : Tier) (stem : List Char) : Option BlockName := do
  let (span, rewrite) ← splitStem stem
  let span ← canonical (2 ^ 64) span
  let span ← SpanStart.new tier span
  some ⟨tier, span, rewrite⟩

/-- What a file named `name` in `tier`'s directory is. -/
def classify (tier : Tier) (name : String) : FileKind :=
  match name.toList.dropSuffix? ".blk.tmp".toList with
  | some stem =>
      match parseStem tier stem with
      | some _ => .temporary
      | none => .foreign
  | none =>
      match (name.toList.dropSuffix? ".blk".toList).bind (parseStem tier) with
      | some b => .block b
      | none => .foreign

end BlockName

/-! ### The directories -/

/-- `blocks`: the names in each tier's directory, as bytes. -/
abbrev BlockDir := Tier → List (List UInt8)

/-- What a scan of the tier directories found. -/
structure BlockDir.Scan where
  blocks : List BlockName
  /-- Each with the tier whose directory it is in. -/
  temporaries : List (Tier × String)

namespace BlockDir

/-- What one name of a tier's directory adds to the scan; a name that isn't UTF-8 is passed over. -/
def found (tier : Tier) (scan : Scan) (entry : List UInt8) : Scan :=
  match fromUtf8 entry with
  | none => scan
  | some file =>
      match BlockName.classify tier file with
      | .block name => { scan with blocks := scan.blocks ++ [name] }
      | .temporary => { scan with temporaries := scan.temporaries ++ [(tier, file)] }
      | .foreign => scan

/-- Every block file and temporary in the tier directories; anything else is left alone. -/
def scan (dirs : BlockDir) : Scan :=
  Tier.all.foldl (fun scan tier => (dirs tier).foldl (found tier) scan) ⟨[], []⟩

/-- Deletes every temporary. -/
def removeTemporaries (dirs : BlockDir) : BlockDir := fun tier =>
  (dirs tier).filter fun entry => !dirs.scan.temporaries.any fun (t, file) => t =
    tier && utf8 file = entry

end BlockDir

end MonitoringAgent.HubStore

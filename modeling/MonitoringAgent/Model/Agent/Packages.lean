import MonitoringAgent.Library.Lines

/-! # Installed packages, as the package managers list them

One package a line: its name, a separator, its version. -/

namespace MonitoringAgent.Agent.Packages

open MonitoringAgent.Library

structure PackageInfo where
  name : String
  version : String
  manager : String
  deriving DecidableEq, Repr

/-- The line cut at its first separator; without one it is all name. -/
def cut (sep : Char) (manager : String) (line : List Char) : PackageInfo :=
  ⟨String.ofList (line.takeWhile (· ≠ sep)), String.ofList
    ((line.dropWhile (· ≠ sep)).drop 1), manager⟩

def parseDpkg (output : String) : List PackageInfo := (lines output.toList).map (cut '\t' "dpkg")

def parseRpm (output : String) : List PackageInfo := (lines output.toList).map (cut '\t' "rpm")

def parsePacman (output : String) : List PackageInfo := (lines output.toList).map (cut ' ' "pacman")

/-- A line without a name is passed over. -/
def parseApk (output : String) : List PackageInfo :=
  (lines output.toList).filterMap fun line =>
    let package := cut '-' "apk" line
    if package.name = "" then none else some package

end MonitoringAgent.Agent.Packages

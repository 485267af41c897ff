import Fileset.Command.Run
import Std.Data.HashSet

namespace Fileset.Picture

structure State where
  entries : Array Tree.Entry := #[]
  placed : Std.HashSet String := {}
  listed : Std.HashSet String := {}

abbrev Taking := StateT State IO

def entryAt (path : String) : IO.FS.DirEntry := ⟨"/", path⟩

def under (dir name : String) : String := if dir = "/" then "/" ++ name else dir ++ "/" ++ name

def namesOf (path : String) : List String := (path.splitOn "/").filter (!·.isEmpty)

def place (dir name : String) (kind : Tree.Kind) : Taking Unit := do
  let path := under dir name
  unless (← get).placed.contains path do
    modify fun s => { s with
      entries := s.entries.push ⟨(namesOf dir).map Bytes.ofText, Bytes.ofText name, kind⟩
      placed := s.placed.insert path }

def realPath? (path : String) : IO (Option String) := do
  try
    let real := (← IO.FS.realPath path).toString
    return if ← (entryAt real).path.pathExists then some real else none
  catch _ => return none

def fileType? (path : String) : IO (Option IO.FS.FileType) := do
  try return some (← (entryAt path).path.symlinkMetadata).type catch _ => return none

def mayList (path : String) : IO Bool := do
  try
    discard (entryAt path).path.readDir
    return true
  catch _ => return false

def nowhere : Bytes := [Path.slash, 0]

def fileKind (path : String) (content : Bool) : IO Tree.Kind := do
  unless content do return .file []
  try return .file (← IO.FS.readBinFile path).toList catch _ => return .locked

mutual

/-- Take in all that lies on the way along `names` from the real directory `dir`, and all that lies
below its end. Only the file at the end is read, if its content counts. -/
partial def takePath (content : Bool) (dir : String) : List String → Taking Unit
  | [] => unless content do takeDirectory dir
  | "." :: names => takePath content dir names
  | ".." :: names => takePath content ("/" ++ "/".intercalate (namesOf dir).dropLast) names
  | name :: names => do
    let path := under dir name
    match ← fileType? path with
    | none => return
    | some .dir =>
      place dir name (.directory (← mayList path))
      takePath content path names
    | some .file =>
      place dir name (← fileKind path (content && names.isEmpty))
    | some .symlink =>
      match ← realPath? path with
      | none => place dir name (.link nowhere)
      | some real =>
        place dir name (.link (Bytes.ofText real))
        takePath content "/" (namesOf real ++ names)
    | some .other => place dir name .pipe

partial def takeDirectory (dir : String) : Taking Unit := do
  if (← get).listed.contains dir then return
  modify fun s => { s with listed := s.listed.insert dir }
  unless dir = "/" || (← mayList dir) do return
  for e in ← (entryAt dir).path.readDir do
    takePath false dir [e.fileName]

end

def take (settingsFile : Option String) (paths : List String) : IO Tree := do
  let all : Taking Unit := do
    if let some path := settingsFile then takePath true "/" (namesOf path)
    paths.forM fun path => takePath false "/" (namesOf path)
  let (_, s) ← all.run {}
  return ⟨s.entries.toList⟩

end Fileset.Picture

namespace Fileset.Command

/-- Colours are for terminals, unless the environment says otherwise. -/
def wantsColours (terminal : Bool) (allowed forbidden forced : Option String) : Bool :=
  if forced.any (· != "0") then true
  else if forbidden.isSome then false
  else terminal && allowed.all (· != "0")

def processorsIn (mask : String) : Nat :=
  let ones (digit : Nat) := digit % 2 + digit / 2 % 2 + digit / 4 % 2 + digit / 8 % 2
  mask.toList.foldl (fun n c => if c = ',' then n else n + ones ("0123456789abcdef".toList.idxOf c)) 0

/-- The lines of a file, less their common start; the others are left out. -/
def linesAfter (start path : String) : IO (List String) := do
  let lines ← try IO.FS.lines (Picture.entryAt path).path catch _ => pure #[]
  return (lines.toList.filter (·.startsWith start)).map fun line =>
    ((line.drop start.length).trimAscii).toString

/-- How many processors the time that a control group gets in each period comes to. -/
def share? (limits : String) : Option Nat :=
  match (limits.splitOn " ").map String.toNat? with
  | [some time, some period] => some (time / period)
  | _ => none

/-- The machine with the processors that the program may use, and with fewer if a control group that it
is in has less time than that. -/
def machine : IO Machine := do
  let masks ← linesAfter "Cpus_allowed:" "/proc/self/status"
  let names := (← linesAfter "0::" "/proc/self/cgroup").flatMap Picture.namesOf
  let limits ← (List.range (names.length + 1)).mapM fun n =>
    linesAfter "" ("/sys/fs/cgroup/" ++ "/".intercalate (names.take n ++ ["cpu.max"]))
  let processors := masks.foldl (fun n mask => n + processorsIn mask) 0
  return .ofCount ((limits.flatten.filterMap share?).foldl (fun n share => min n (max share 1)) processors)

def rootsOf (arguments : List String) : List String :=
  match parse? arguments with
  | some (.run _ (.act (.select roots _))) => roots
  | _ => []

end Fileset.Command

open Fileset

def keepSettings (path : String) (before after : Tree) : IO Unit := do
  let content (t : Tree) := (t.read (Bytes.ofText path)).toOption
  if content before != content after then
    if let some bytes := content after then
      if let some dir := (Picture.entryAt path).path.parent then IO.FS.createDirAll dir
      IO.FS.writeBinFile path ⟨bytes.toArray⟩

def main (arguments : List String) : IO UInt32 := do
  let directory := (← IO.currentDir).toString
  let home ← IO.getEnv "HOME"
  let absolute (path : String) := RelPath.enter directory path
  let settingsFile := (← IO.getEnv "ANTWALK_CONFIG_PATH").map absolute
  let env : Command.Environment := {
    directory := Bytes.ofText directory
    home
    settingsFile := settingsFile.map Bytes.ofText
    colours := Command.wantsColours (← (← IO.getStdout).isTty) (← IO.getEnv "CLICOLOR")
      (← IO.getEnv "NO_COLOR") (← IO.getEnv "CLICOLOR_FORCE")
    machine := ← Command.machine }
  let file := (Command.settingsPath env).toOption.map Bytes.display
  let roots := (Command.rootsOf arguments).filterMap fun r => (Home.expand home r).toOption
  let before ← Picture.take file (roots.map absolute)
  let result := Command.run env arguments before
  (← IO.getStdout).putStr result.output.out
  (← IO.getStderr).putStr result.output.err
  if let some path := file then keepSettings path before result.tree
  return result.status.toUInt32

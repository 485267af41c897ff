import Fileset.Walk.Listing
import Fileset.Walk.Recorded
import Fileset.Walk.Rules

namespace Fileset.Walk

/-- A visitor lives in a world that holds the tree. It leaves a new world, and an error if it
refuses the entry. -/
structure Visitor (ω : Type u) (ε : Type v) where
  tree : ω → Tree
  visit : Notice → ω → ω × Option ε

/-- A directory that waits to be listed. -/
structure Pending where
  location : Location
  path : RelPath
  deriving DecidableEq, Repr

structure State (ω : Type u) where
  world : ω
  queue : List Pending
  /-- Where the directories lie that were queued so far, if links are followed. -/
  walked : List Location
  summary : Summary

variable {ω : Type u} {ε : Type v}

structure Halt (ω : Type u) (ε : Type v) where
  stop : Stop ε
  world : ω

abbrev Step (ω : Type u) (ε : Type v) (α : Type w) := Recorded (Halt ω ε) α

def countVisit (s : Summary) (isFile : Bool) : Summary :=
  if isFile then { s with files := s.files + 1 } else { s with dirs := s.dirs + 1 }

def visit (v : Visitor ω ε) (n : Notice) (s : State ω) : Step ω ε (State ω) :=
  match v.visit n s.world with
  | (world, some e) => .stop ⟨.refused n e, world⟩
  | (world, none) =>
    .record [.notice n] (.ok { s with world, summary := countVisit s.summary n.path.isFile })

def State.countPruned (s : State ω) : State ω :=
  { s with summary := { s.summary with pruned := s.summary.pruned + 1 } }

def takeChildren (v : Visitor ω ε) (rules : Rules) (dir : Pending) :
    List Child → State ω → Step ω ε (State ω × List Pending)
  | [], s => .ok (s, [])
  | c :: cs, s =>
    let path := c.path dir.path
    let location := c.location dir.location
    match rules.admits path, c.isDir with
    | true, true =>
      (takeChildren v rules dir cs s).andThen fun (s, dirs) => .ok (s, ⟨location, path⟩ :: dirs)
    | true, false => (visit v ⟨location, path⟩ s).andThen (takeChildren v rules dir cs)
    | false, true => .record [.log (.pruned path)] (takeChildren v rules dir cs s.countPruned)
    | false, false => takeChildren v rules dir cs s

/-- Queue a directory, unless it was queued before under another name. -/
def enqueue (v : Visitor ω ε) (follow : Bool) (dir : Pending) (s : State ω) :
    Step ω ε (State ω) :=
  if follow then
    let place := ((v.tree s.world).locateAt dir.location).toOption.getD dir.location
    if s.walked.contains place then .record [.log (.alreadyWalked dir.location)] (.ok s)
    else .ok { s with queue := s.queue ++ [dir], walked := s.walked ++ [place] }
  else .ok { s with queue := s.queue ++ [dir] }

/-- Visit the admitted directories, and queue each of them as soon as it is visited. -/
def takeDirs (v : Visitor ω ε) (follow : Bool) : List Pending → State ω →
    Step ω ε (State ω)
  | [], s => .ok s
  | d :: ds, s =>
    (visit v ⟨d.location, d.path⟩ s).andThen fun s =>
      (enqueue v follow d s).andThen (takeDirs v follow ds)

def takeDirectory (v : Visitor ω ε) (rules : Rules) (options : Options) (dir : Pending)
    (s : State ω) : Step ω ε (State ω) :=
  match list (v.tree s.world) options dir.location with
  | .error cause =>
    match options.onUnreadable with
    | .abort => .stop ⟨.unreadable dir.location cause, s.world⟩
    | .skip =>
      .record [.log (.unreadable dir.location cause)] (.ok { s with
        summary := { s.summary with unreadable := s.summary.unreadable ++ [dir.location] } })
  | .ok listing =>
    .record (listing.skipped.map .log) <|
      (takeChildren v rules dir listing.children s).andThen fun (s, dirs) =>
        takeDirs v options.followLinks dirs s

/-- Take the directories in the queue, at most `limit` of them. -/
def drain (v : Visitor ω ε) (rules : Rules) (options : Options) :
    Nat → State ω → Step ω ε (State ω)
  | limit, s =>
    match s.queue with
    | [] => .ok s
    | dir :: queue =>
      match limit with
      | 0 => .stop ⟨.exhausted, s.world⟩
      | limit + 1 =>
        (takeDirectory v rules options dir { s with queue }).andThen (drain v rules options limit)

def takeRootFile (v : Visitor ω ε) (rules : Rules) (file : Location) (s : State ω) :
    Step ω ε (State ω) :=
  match file.getLast?.bind Bytes.text? with
  | none => .record [.log (.rootNotText file)] (.ok s)
  | some name =>
    let path := (RelPath.root true).child true name
    if rules.admits path then visit v ⟨file, path⟩ s
    else .record [.log (.rootRejected path)] (.ok s)

def initial (world : ω) (options : Options) (root : Location) : State ω where
  world
  queue := [⟨root, .root false⟩]
  walked := if options.followLinks then [root] else []
  summary := { rootFound := true }

def walkFrom (v : Visitor ω ε) (rules : Rules) (options : Options) (limit : Nat) (place : Location)
    (world : ω) : Step ω ε (State ω) :=
  let s := initial world options place
  if (v.tree world).isFile place then takeRootFile v rules place { s with queue := [] }
  else drain v rules options limit s

/-- Walk from the path `root`. A root that is not there is no error. -/
def walk (v : Visitor ω ε) (rules : Rules) (options : Options) (limit : Nat) (root : Bytes)
    (world : ω) : Step ω ε (ω × Summary) :=
  match (v.tree world).locatePath root with
  | .error cause =>
    .record [.log (.rootMissing root.display), .log (.rootUnresolved cause)] (.ok (world, {}))
  | .ok place =>
    (walkFrom v rules options limit place world).andThen fun s =>
      .record [.log s.summary.closing] (.ok (s.world, s.summary))

/-- Enough directories for a tree that stays as it is. -/
def limitFor (t : Tree) : Nat := t.directories.length

def observer : Visitor Tree Empty := ⟨id, fun _ t => (t, none)⟩

end Fileset.Walk

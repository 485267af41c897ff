import Fileset.Command.Basic
import Fileset.Command.Option

namespace Fileset.Command

namespace Known

def verbose : OptionKind := { name := "verbose", letter := some 'v' }
def quiet : OptionKind := { name := "quiet", letter := some 'q' }
def help : OptionKind := { name := "help", letter := some 'h', final := true }
def version : OptionKind := { name := "version", letter := some 'V', final := true }

def including : OptionKind := { name := "include", letter := some 'i', takesText := true, repeats := true }
def excluding : OptionKind := { name := "exclude", letter := some 'e', takesText := true, repeats := true }
def set : OptionKind := { name := "set", takesText := true }
def ignoreCase : OptionKind := { name := "ignore-case" }
def noDefaultExcludes : OptionKind := { name := "no-default-excludes" }
def followLinks : OptionKind := { name := "follow-symlinks" }
def sort : OptionKind := { name := "sort", opposite := some "no-sort" }
def noSort : OptionKind := { name := "no-sort", opposite := some "sort" }
def filesOnly : OptionKind := { name := "files-only" }
def dirsOnly : OptionKind := { name := "dirs-only" }
def absolute : OptionKind := { name := "absolute" }
def nul : OptionKind := { name := "null", letter := some '0' }
def failOnUnreadable : OptionKind := { name := "fail-on-unreadable" }

def asExclude : OptionKind := { name := "exclude" }
def directories : OptionKind := { name := "dir" }

def unset : OptionKind := { name := "unset" }
def list : OptionKind := { name := "list", letter := some 'l' }

def everywhere : List OptionKind := [verbose, quiet, help]

def forSelect : List OptionKind :=
  [including, excluding, set, ignoreCase, noDefaultExcludes, followLinks, sort, noSort, filesOnly,
    dirsOnly, absolute, nul, failOnUnreadable]

def forTest : List OptionKind := [asExclude, ignoreCase, directories]

def forSettings : List OptionKind := [unset, list]

end Known

structure Parts where
  items : List Item
  active : List OptionKind

def Parts.has (p : Parts) (kind : OptionKind) : Bool := p.active.contains kind
def Parts.words (p : Parts) : List String := Command.words p.items
def Parts.texts (p : Parts) (kind : OptionKind) : List String := textsOf kind p.items

def Parts.read? (known : List OptionKind) (arguments : List String) : Option Parts := do
  let items ← readAll known none arguments
  let active ← inForce [] items
  return ⟨items, active⟩

def Parts.clash (p : Parts) (a b : OptionKind) : Bool := p.has a && p.has b

def requestOf (p : Parts) : Request where
  includes := p.texts Known.including
  excludes := p.texts Known.excluding
  set := (p.texts Known.set).head?
  ignoreCase := p.has Known.ignoreCase
  noDefaultExcludes := p.has Known.noDefaultExcludes
  followLinks := p.has Known.followLinks
  sort := p.has Known.sort
  noSort := p.has Known.noSort
  filesOnly := p.has Known.filesOnly
  dirsOnly := p.has Known.dirsOnly
  absolute := p.has Known.absolute
  nul := p.has Known.nul
  failOnUnreadable := p.has Known.failOnUnreadable

inductive Topic
  | select
  | test
  | settings
  deriving DecidableEq, Repr

namespace Topic

def ofName? (name : String) : Option Topic :=
  if name = "select" then some .select
  else if name = "match" then some .test
  else if name = "config" then some .settings
  else none

def options : Topic → List OptionKind
  | .select => Known.forSelect
  | .test => Known.forTest
  | .settings => Known.forSettings

/-- Words that are refused as soon as they are read: an empty root, or a third word where there is
room for a key and a value. -/
def wordsFit : Topic → List String → Bool
  | .select, words => words.all (!·.isEmpty)
  | .test, _ => true
  | .settings, words => words.length ≤ 2

def command? (p : Parts) : Topic → Option Command
  | .select =>
    if p.words.isEmpty || p.clash Known.filesOnly Known.dirsOnly then none
    else some (.act (.select p.words (requestOf p)))
  | .test =>
    match p.words with
    | pattern :: path :: paths => some (.test {
        pattern, paths := path :: paths
        exclude := p.has Known.asExclude
        ignoreCase := p.has Known.ignoreCase
        directories := p.has Known.directories })
    | _ => none
  | .settings =>
    match p.words, p.has Known.unset, p.has Known.list with
    | _ :: _ :: _, true, _ => none
    | [], _, _ => some (.act .list)
    | _, _, true => some (.act .list)
    | key :: _, true, false => some (.act (.unset key))
    | [key], false, false => some (.act (.get key))
    | key :: value :: _, false, false => some (.act (.set key value))

end Topic

/-- Being quiet wins over being verbose where one stands in front of the command and the other
behind it. -/
def verbosityOf (front back : Parts) : Verbosity :=
  if front.has Known.quiet || back.has Known.quiet then .quiet
  else if front.has Known.verbose || back.has Known.verbose then .verbose
  else .normal

def parseTopic (front : Parts) (topic : Topic) (arguments : List String) : Option Invocation := do
  let back ← Parts.read? (topic.options ++ Known.everywhere) arguments
  if !topic.wordsFit back.words then none
  else if back.has Known.help then some .help
  else if front.clash Known.verbose Known.quiet || back.clash Known.verbose Known.quiet then none
  else (topic.command? back).map (.run (verbosityOf front back))

def parse? (arguments : List String) : Option Invocation := do
  let (leading, rest) := arguments.span isDashed
  let front ← Parts.read? (Known.version :: Known.everywhere) leading
  if front.has Known.help then some .help
  else if front.has Known.version then some .version
  else if leading.contains "--" then none
  else match rest with
    | [] => none
    | ["help"] => some .help
    | ["help", name] => (Topic.ofName? name).map fun _ => .help
    | name :: arguments => parseTopic front (← Topic.ofName? name) arguments

end Fileset.Command

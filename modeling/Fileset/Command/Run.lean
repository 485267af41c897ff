import Fileset.Command.Parse
import Fileset.Command.Select
import Fileset.Command.Test
import Fileset.Settings.Listing
import Fileset.Settings.Warning

namespace Fileset.Command

structure Environment where
  /-- Where paths are found from. -/
  directory : Bytes
  home : Option String
  /-- Where the settings are, if not in their place in the home directory. -/
  settingsFile : Option Bytes
  colours : Bool
  machine : Machine := .silent
  deriving DecidableEq, Repr

def settingsPath (env : Environment) : Except Error Bytes :=
  match env.settingsFile, env.home with
  | some path, _ => .ok path
  | none, some home => .ok (Path.join (Bytes.ofText home) (Bytes.ofText ".config/antwalk/config.toml"))
  | none, none => .error (.home .unknown)

def showWarnings (v : Voice) : List Settings.Warning → Output
  | [] => {}
  | ws => (v.warning "Configuration warnings:").append {
      err := String.join (ws.map fun w => "  " ++ w.message v.colours ++ "\n") ++ "\n" }

def inspect (v : Voice) (path : Bytes) (t : Tree) : Output :=
  match t.read path with
  | .error _ => v.warning s!"Configuration validation failed: Failed to read {path.display}"
  | .ok content =>
    match content.text?.bind Settings.Warning.ofText? with
    | some ws => showWarnings v ws
    | none => v.warning "Configuration validation failed: a number does not fit into 64 bits"

def store (v : Voice) (path : Bytes) (t : Tree) (changed : Except Settings.Error Settings)
    (success : String) : Outcome :=
  match changed with
  | .error e => { error := some (.setting e), tree := t }
  | .ok s =>
    match s.save path t with
    | .error e => { error := some (.saving e), tree := t }
    | .ok t => { output := v.success success, tree := t }

def showValue (v : Voice) (s : Settings) (key : String) : Output :=
  match s.get? key with
  | some value => .ofResult (value ++ "\n")
  | none => v.warning s!"Configuration key '{key}' is not set"

def runAction (env : Environment) (v : Voice) (path : Bytes) (s : Settings) (t : Tree) :
    Action → Outcome
  | .select roots request =>
    let (output, error) := runSelect v env.home env.directory s t roots request
    { output, error, tree := t }
  | .list => { output := .ofResult (s.list v.colours ++ "\n"), tree := t }
  | .get key => { output := showValue v s key, tree := t }
  | .set key value => store v path t (s.set key value) s!"Set {key} = {value}"
  | .unset key => store v path t (s.unset key env.machine) s!"Unset {key}"

def runLoaded (env : Environment) (v : Voice) (action : Action) (t : Tree) : Outcome :=
  match settingsPath env with
  | .error e => { error := some e, tree := t }
  | .ok path =>
    match Settings.load path t env.machine with
    | .error e => { error := some (.loading path e), tree := t }
    | .ok (s, t) =>
      let o := runAction env v path s t action
      { o with output := (inspect v path t).append o.output }

def runCommand (env : Environment) (v : Voice) (command : Command) (t : Tree) : Outcome :=
  match command with
  | .test trial =>
    let (output, error) := runTest v trial
    { output, error, tree := t }
  | .act action => runLoaded env v action t

structure Result where
  status : Nat
  output : Output
  tree : Tree
  deriving DecidableEq, Repr

def usage : String :=
  "Usage: antwalk [-v | -q] select [OPTIONS] ROOT...
       antwalk [-v | -q] match [--exclude] [--ignore-case] [--dir] PATTERN PATH...
       antwalk [-v | -q] config [--list] [--unset] [KEY [VALUE]]

Options of select:
  -i, --include PATTERN   admit what the pattern matches (repeatable)
  -e, --exclude PATTERN   leave out what the pattern matches (repeatable)
      --set NAME          start from a pattern set of the configuration
      --ignore-case, --no-default-excludes, --follow-symlinks, --sort, --no-sort,
      --files-only, --dirs-only, --absolute, -0 | --null, --fail-on-unreadable
"

/-- An error is the last message of a run. -/
def Outcome.result (v : Voice) (o : Outcome) : Result :=
  match o.error with
  | none => ⟨0, o.output, o.tree⟩
  | some e => ⟨1, o.output.append (v.failure e), o.tree⟩

def run (env : Environment) (arguments : List String) (t : Tree) : Result :=
  match parse? arguments with
  | none => ⟨2, { err := usage }, t⟩
  | some .help => ⟨0, .ofResult usage, t⟩
  | some .version => ⟨0, .ofResult "antwalk 0.1.0\n", t⟩
  | some (.run verbosity command) =>
    let v : Voice := ⟨verbosity, env.colours⟩
    (runCommand env v command t).result v

end Fileset.Command

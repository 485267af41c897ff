import Fileset.Walk.Walker

namespace Fileset.Walk

inductive Call
  | includes (raws : List String)
  | excludes (raws : List String)
  | options (options : Options)
  | start (limit : Nat) (root : Bytes)

inductive Failure (ε : Type)
  | badPattern (cause : Pattern.Error)
  | stopped (stop : Stop ε)

structure Session (ω : Type) where
  walker : Walker
  world : ω

namespace Session

variable {ω ε : Type}

def fresh (caseSensitive : Bool) (options : Options) (world : ω) : Session ω :=
  ⟨{ caseSensitive, options }, world⟩

abbrev Steps (ω ε : Type) := EStateM (Failure ε) (Session ω)

/-- Put a changed walker in the place of the old one, once it is there. -/
def replace (change : Walker → Except Pattern.Error Walker) : Steps ω ε Unit := do
  let walker ← ofExcept ((change (← get).walker).mapError .badPattern)
  modify fun s => { s with walker }

/-- The world stays as the visitor has left it, also when the walk has ended early. -/
def settle : Except (Halt ω ε) (ω × Summary) → Steps ω ε Summary
  | .ok (world, summary) => do
    modify fun s => { s with world }
    return summary
  | .error halt => do
    modify fun s => { s with world := halt.world }
    throw (.stopped halt.stop)

def start (v : Visitor ω ε) (limit : Nat) (root : Bytes) : Steps ω ε Summary := do
  let s ← get
  settle (s.walker.walk v limit root s.world).result

/-- A finished walk leaves its account; the other calls leave nothing to tell. -/
def make (v : Visitor ω ε) : Call → Steps ω ε (Option Summary)
  | .includes raws => do
    replace (·.setIncludes raws)
    return none
  | .excludes raws => do
    replace (·.setExcludes raws)
    return none
  | .options options => do
    modify fun s => { s with walker := { s.walker with options } }
    return none
  | .start limit root => do
    let summary ← start v limit root
    return some summary

abbrev Answer (ε : Type) := Except (Failure ε) (Option Summary)

def outcome : EStateM.Result (Failure ε) (Session ω) (Option Summary) → Answer ε × Session ω
  | .ok a s => (.ok a, s)
  | .error e s => (.error e, s)

def step (v : Visitor ω ε) (c : Call) (s : Session ω) : Answer ε × Session ω :=
  outcome ((make v c).run s)

def run (v : Visitor ω ε) : List Call → Session ω → List (Call × Answer ε) × Session ω
  | [], s => ([], s)
  | c :: calls, s =>
    let (answer, s) := step v c s
    let (more, s) := run v calls s
    ((c, answer) :: more, s)

end Session
end Fileset.Walk

import Fileset.Walk.Trace

namespace Fileset.Walk

structure Recorded (ε : Type u) (α : Type v) where
  trace : Trace
  result : Except ε α

namespace Recorded

def ok (a : α) : Recorded ε α := ⟨[], .ok a⟩
def stop (e : ε) : Recorded ε α := ⟨[], .error e⟩
def record (t : Trace) (r : Recorded ε α) : Recorded ε α := ⟨t ++ r.trace, r.result⟩

def andThen (r : Recorded ε α) (f : α → Recorded ε β) : Recorded ε β :=
  match r.result with
  | .ok a => (f a).record r.trace
  | .error e => ⟨r.trace, .error e⟩

end Recorded
end Fileset.Walk

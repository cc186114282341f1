import Ensemble.Membership.Registry

/-!
# The knockers

For every registered peer one task knocks at its door. `Knockers` remembers under which token the
task of an endpoint was started; the task is live until that token is cancelled. A cancelled task
clears its own note at some later time (`Knockers.reap`), and never the note of a task that was
started since.
-/

namespace Ensemble

/-- Under which token the task of each endpoint was started. -/
structure Knockers where
  started : List (Endpoint × Token)
  deriving DecidableEq, Repr

namespace Knockers

/-- No task was started. -/
def empty : Knockers := ⟨[]⟩

/-- The token of an endpoint's task. -/
def token? (k : Knockers) (e : Endpoint) : Option Token :=
  (k.started.find? (·.1 == e)).map (·.2)

/-- Whether the task of an endpoint is live. -/
def isLive (k : Knockers) (tokens : TokenPool) (e : Endpoint) : Bool :=
  match k.token? e with
  | some t => !tokens.isCancelled t
  | none => false

/-- How many tasks are live. -/
def count (k : Knockers) (tokens : TokenPool) : Nat :=
  k.started.countP fun entry => !tokens.isCancelled entry.2

/-- Note the token of an endpoint's task in place of an earlier one. -/
def note (k : Knockers) (e : Endpoint) (t : Token) : Knockers :=
  ⟨k.started.filter (·.1 != e) ++ [(e, t)]⟩

/-- Start a task that runs until `t` is cancelled, unless one is live or no scheduler is running.
The flag says whether it was started. -/
def start (k : Knockers) (tokens : TokenPool) (running : Bool) (e : Endpoint) (t : Token) :
    Knockers × Bool :=
  if tokens.isCancelled t || !running || k.isLive tokens e then (k, false)
  else (k.note e t, true)

/-- Start the task of an endpoint's entry, if there is an entry. -/
def ensure (k : Knockers) (r : Registry) (running : Bool) (e : Endpoint) : Knockers × Bool :=
  match r.token? e with
  | some t => k.start r.tokens running e t
  | none => (k, false)

/-- Cancel all tasks. -/
def stopAll (k : Knockers) (tokens : TokenPool) : Knockers × TokenPool :=
  (empty, tokens.cancelAll (k.started.map (·.2)))

/-- A cancelled task of an endpoint ends, and its note is cleared if it is of a cancelled task. -/
def reap (k : Knockers) (tokens : TokenPool) (e : Endpoint) : Knockers :=
  ⟨k.started.filter fun entry => !(entry.1 == e && tokens.isCancelled entry.2)⟩

end Knockers

end Ensemble

/-
# `SelectorStream.Session` — building relays and working with them

A session holds a relay of endpoints and the clocks they use.  It begins with a
plan, which is built from left to right: clocks come into use as recorders name
them, and the first tee that lacks a side ends the building.  Commands then send
events to places in the relay, describe endpoints, or rebuild the relay at its
root.  A command that does not apply says so and leaves the relay as it is.  It may
have put clocks into use by then, since `chain` makes use of its source before it
looks at the root; no reading changes.
-/
import SelectorStream.Endpoint
import SelectorStream.Relay

namespace SelectorStream

/-! ## Plans -/

inductive Plan where
  | sink
  | recorder (clock : String) (faults : List (Kind × Nat))
  | checker (limits : Limits)
  | tally (failsOn : Option Kind) (reason : String)
  /-- A tee, of which either side may be missing. -/
  | tee (primary secondary : Option Plan)

/-- Building puts clocks into use, and fails for lack of a side. -/
abbrev Build := ExceptT MissingSide (StateM Clocks)

mutual

def Plan.build : Plan → Build (Relay Endpoint)
  | .sink => return .leaf .sink
  | .recorder clock faults => do
    modify fun clocks => clocks.start clock
    return .leaf (.recorder (.withFaults clock faults))
  | .checker limits => return .leaf (.checker (.fresh limits))
  | .tally failsOn reason => return .leaf (.tally { failsOn, reason })
  | .tee primary secondary => do
    let left ← Plan.buildSide primary
    let right ← Plan.buildSide secondary
    liftExcept (Relay.pair? left right)

def Plan.buildSide : Option Plan → Build (Option (Relay Endpoint))
  | none => return none
  | some plan => some <$> plan.build

end

/-! ## Commands -/

/-- Where a rebuilt root gets its new receiver from. -/
inductive Source where
  | plan (plan : Plan)
  /-- A copy of the recorder at a path. -/
  | copy (path : String)

/-- What a session can be told to do.  Paths are texts, one letter for each
step from the root: `p` to the primary side and `s` to the secondary side. -/
inductive Command where
  | send (event : Event) (path : String)
  | replay (stream : List Event) (path : String)
  | tick (clock : String)
  | describe (path : String)
  /-- The root becomes the primary side of a new tee. -/
  | wrap (next : Source)
  /-- The same, for a root that is a tee. -/
  | chain (next : Source)
  /-- The root tee starts anew over the same sides. -/
  | renew
  | swap
  | keep (side : Side)

inductive Reply where
  | answer (answer : Answer Rejection)
  | stamp (stamp : Nat)
  | description (text : String)
  | missing (side : MissingSide)
  /-- The command does not apply here. -/
  | inapplicable

structure Session where
  root : Relay Endpoint
  clocks : Clocks

structure Step where
  reply : Reply
  notices : List Notice := []
  session : Session

def Side.path? (path : String) : Option (List Side) :=
  path.toList.mapM fun letter =>
    if letter = 'p' then some .primary else if letter = 's' then some .secondary else none

namespace Session

def start (plan : Plan) : Except MissingSide Session :=
  let (built, clocks) := plan.build.run {}
  built.map fun root => { root, clocks }

def locate? (session : Session) (path : String) : Option (List Side × Relay Endpoint) := do
  let sides ← Side.path? path
  let subtree ← session.root.get? sides
  return (sides, subtree)

def sendTo (session : Session) (path : String)
    (call : Relay Endpoint → Clocks → Outcome Rejection (Relay Endpoint) Clocks) : Step :=
  match session.locate? path with
  | none => { reply := .inapplicable, session }
  | some (sides, subtree) =>
    let outcome := call subtree session.clocks
    { reply := .answer outcome.answer
      notices := outcome.notices
      session := { root := session.root.set sides outcome.state, clocks := outcome.world } }

/-- What a source yields, and the clocks after that.  There is nothing when a
copy is asked for and no recorder stands at its path. -/
def fetch? (session : Session) : Source → Option (Except MissingSide (Relay Endpoint) × Clocks)
  | .plan plan => some (plan.build.run session.clocks)
  | .copy path =>
    match session.locate? path with
    | some (_, .leaf (.recorder r)) => some (.ok (.leaf (.recorder r)), session.clocks)
    | _ => none

/-- Makes the root the primary side of a new tee, with what a source yields as
the secondary side. -/
def wrap (session : Session) (next : Source) : Option Step :=
  (session.fetch? next).map fun
    | (.error side, clocks) => { reply := .missing side, session := { session with clocks } }
    | (.ok relay, clocks) =>
      { reply := .answer (.ok ()), session := { root := .pair session.root relay, clocks } }

/-- The same for a root that is a tee.  Another root stays as it is, but the
source is made use of before that is seen. -/
def chain (session : Session) (next : Source) : Option Step :=
  match session.root with
  | .tee .. => session.wrap next
  | .leaf _ =>
    (session.fetch? next).map fun
      | (.error side, clocks) => { reply := .missing side, session := { session with clocks } }
      | (.ok _, clocks) => { reply := .inapplicable, session := { session with clocks } }

def rearrange (session : Session)
    (arrange : Relay Endpoint → Relay Endpoint → Relay Endpoint) : Step :=
  match session.root.sides? with
  | none => { reply := .inapplicable, session }
  | some (primary, secondary) =>
    { reply := .answer (.ok ()), session := { session with root := arrange primary secondary } }

/-- Carries out a command.  There is no result when the command asks for a copy
of a recorder and none stands at its path. -/
def perform (session : Session) : Command → Option Step
  | .send e path => some (session.sendTo path (Relay.deliver e))
  | .replay stream path => some (session.sendTo path (Relay.replay stream))
  | .tick clock =>
    let (stamp, clocks) := session.clocks.tick clock
    some { reply := .stamp stamp, session := { session with clocks } }
  | .describe path =>
    let text := match session.locate? path with
      | some (_, .leaf endpoint) => endpoint.describe?
      | _ => none
    some { reply := (text.map Reply.description).getD .inapplicable, session }
  | .wrap next => session.wrap next
  | .chain next => session.chain next
  | .renew => some (session.rearrange .pair)
  | .swap => some (session.rearrange fun primary secondary => .pair secondary primary)
  | .keep .primary => some (session.rearrange fun primary _ => primary)
  | .keep .secondary => some (session.rearrange fun _ secondary => secondary)

def run (session : Session) : List Command → Option (List Step)
  | [] => some []
  | command :: rest => do
    let step ← session.perform command
    let steps ← step.session.run rest
    return step :: steps

def recorders (session : Session) : List Recorder :=
  session.root.leaves.filterMap Endpoint.recorder?

end Session

end SelectorStream

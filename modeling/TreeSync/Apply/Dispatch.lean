import TreeSync.Event.Basic
import TreeSync.Navigate.Find

/-!
# Events taken over by overrides

The path of an event is first probed without making anything.  If a record on
it exposes an override, the deepest such record receives the event.

Main definitions:

- `Schema.ask`: the override that a record exposes.
- `Schema.probe`: how deep the deepest override lies.
- `Schema.delegate`: handing the event over.
-/

namespace TreeSync

namespace SegmentCall

/-- The call for an event whose remaining path is `path`. -/
def ofEvent (e : Event) (path : List String) : SegmentCall :=
  match e.action with
  | .create => create path e.key e.tag e.value
  | .replace => replace path e.key e.tag e.value
  | .delete => delete path e.key

end SegmentCall

namespace PathCall

/-- The call for an event whose remaining path is `path`.  A member of a set is
passed as a value of the set's own path. -/
def ofEvent (e : Event) (path : List String) : PathCall :=
  let target :=
    Path.render (if e.isSetMember || e.key.isEmpty then path else path ++ [e.key])
  let value := if e.isSetMember then e.key else e.value
  match e.action with
  | .create => create target value
  | .replace => replace target value
  | .delete => delete target

end PathCall

namespace Override

variable {σ : Type}

/-- The outcome of an event that a record takes over. -/
def handle (override : Override σ) (e : Event) (path : List String) (record : Node σ) :
    Node σ × Except SyncError Unit :=
  match override with
  | segments h => h (.ofEvent e path) record
  | paths h => h (.ofEvent e path) record

end Override

namespace Schema

variable {σ : Type} (S : Schema σ) (o : Options)

/-- A node without layers after being asked for its override, and its answer. -/
def ask (c : Node σ) : Node σ × Option (Override σ) :=
  match c with
  | .record type fields state =>
      match S.find? type with
      | some d => (.record type fields (d.query state).1, (d.query state).2)
      | none => (c, none)
  | c => (c, none)

/-- The node after everything along a path was asked for overrides, and the
depth of the deepest override.  The probe ends where the path does not lead on. -/
def probe (n : Node σ) (path : List String) : Node σ × Option Nat :=
  let (n, answer) := n.putBack n.coreAddress (S.ask n.innermost)
  let here := answer.map fun _ => 0
  match path with
  | [] => (n, here)
  | key :: rest =>
      match S.find o n key (.ofKey o key) with
      | .error _ => (n, here)
      | .ok place =>
          let (n, deeper) := n.putBack place.address (probe place.node rest)
          (n, (deeper.map (· + 1)).or here)

/-- The node after handing an event to the override at a depth of a path. -/
def delegate (e : Event) (n : Node σ) (path : List String) (depth : Nat) :
    Node σ × Except SyncError Unit :=
  match path, depth with
  | key :: rest, depth + 1 =>
      match S.find o n key (.ofKey o key) with
      | .error err => (n, .error (.pathNotFound key err))
      | .ok place => n.putBack place.address (delegate e place.node rest depth)
  | path, _ =>
      match n.core with
      | .error t => (n, .error (.navigation (.unallocated t.name)))
      | .ok c =>
          n.putBack n.coreAddress <|
            match S.ask c with
            | (c, some override) => override.handle e path c
            | (c, none) => (c, .error (.rejected (c.ty.name ++ " stopped exposing an override")))

end Schema

end TreeSync

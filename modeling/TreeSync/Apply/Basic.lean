import TreeSync.Apply.Dispatch
import TreeSync.Navigate.Materialize
import TreeSync.Navigate.Remove

/-!
# Applying events

An event walks its path from the root, making what is missing unless it deletes,
and acts on the leaf key.  A record on the path may take the event over.  An
event at the root itself changes only scalar and dynamic roots.

Main definitions:

- `Schema.perform`: the action at the leaf.
- `Schema.walk`: the way to the leaf.
- `Schema.apply`: one event.
-/

namespace TreeSync

namespace Schema

variable {σ : Type} (S : Schema σ) (o : Options)

/-- A change of a node whose failure is one of navigation. -/
def ofNavigation (changed : Node σ × Except NavError Unit) : Node σ × Except SyncError Unit :=
  (changed.1, changed.2.mapError .navigation)

/-! ## The leaf -/

/-- The node after the action of an event on the child under its key. -/
def perform (e : Event) (n : Node σ) : Node σ × Except SyncError Unit :=
  let mode := Mode.ofKey o e.key
  ofNavigation <|
    match e.action, e.tag.shape? with
    | .delete, _ =>
        match S.remove o n e.key mode with
        | .ok m => (m, .ok ())
        | .error err => (n, .error err)
    | _, some shape => S.materialize o (S.promote n) e.key shape mode
    | _, none =>
        S.write o (S.promote n) e.key (.literal e.value (some (e.tag.document e.value))) mode

/-! ## The way -/

/-- The node after stepping along a path key, and the address of the child
reached.  Only deleting makes nothing on the way. -/
def enter (action : Action) (n : Node σ) (key : String) : Node σ × Except NavError Address :=
  match action with
  | .delete => (n, Place.address <$> S.find o n key (.ofKey o key))
  | _ => S.findOrCreate o (S.promote n) key (.ofKey o key)

/-- The node after walking a path and acting at its end.  A step that comes back
to the record it started from ends the walk. -/
def walk (e : Event) (n : Node σ) (path : List String) : Node σ × Except SyncError Unit :=
  match path with
  | [] => S.perform o e n
  | key :: rest =>
      match S.enter o e.action n key with
      | (m, .error err) => (m, .error (.pathNotFound key err))
      | (m, .ok address) =>
          match m.get? address with
          | none => (m, .error (.pathNotFound key (.entryNotFound key)))
          | some child =>
              if n.isAllocated ∧ address ++ child.coreAddress = m.coreAddress then
                (m, .error (.navigation (.cycle child.innermost.ty.name)))
              else m.putBack address (walk e child rest)

/-! ## Events -/

/-- The root after an event that addresses it.  Deletes, container tags and
container roots make no difference. -/
def applyRoot (e : Event) (n : Node σ) : Node σ × Except SyncError Unit :=
  match e.action, e.tag with
  | .create, .scalar tag | .replace, .scalar tag =>
      let n := S.allocate n
      match n.innermost with
      | .dynamic _ => (n.replaceAt n.coreAddress (.dynamic (tag.document e.value)), .ok ())
      | .scalar _ => ofNavigation (S.setLiteral n e.value)
      | _ => (n, .ok ())
  | _, _ => (n, .ok ())

/-- The target after an event. -/
def apply (e : Event) (target : Node σ) : Node σ × Except SyncError Unit :=
  if e.isRoot then S.applyRoot e target
  else
    match S.probe o target e.path with
    | (target, some depth) => S.delegate o e target e.path depth
    | (target, none) => S.walk o e target e.path

end Schema

end TreeSync

import TreeSync.Navigate.Write

/-!
# Removing children

Map entries are erased, and erasing an absent one is no failure; record fields
go back to the value of a new node; list elements are taken out.  A removal that
fails changes nothing, and nothing is allocated.

Main definition: `Schema.remove`.
-/

namespace TreeSync

namespace Schema

variable {σ : Type} (S : Schema σ) (o : Options)

/-- A map or list without layers without the child at a key. -/
def removeItem (c : Node σ) (key : String) (mode : Mode) : Except NavError (Node σ) :=
  match c.container with
  | .map kind _ _ => do
      Key.require key
      let k ← kind.decode key
      return c.eraseEntry k
  | .list elem items => do
      match ← S.locate o elem items key mode with
      | some i => return c.eraseItem i
      | none => .error (.entryNotFound key)
  | .record type _ => .error (.fieldNotFound "" type)
  | .fixed => .error (.unsupported c.ty.name)
  | .leaf => .error (.notContainer c.ty.name)

/-- The container without the child at a key. -/
def remove (n : Node σ) (key : String) (mode : Mode) : Except NavError (Node σ) :=
  match n.core with
  | .error t => .error (.unallocated t.name)
  | .ok c =>
      n.replaceAt n.coreAddress <$>
        match c.container with
        | .record type fields => do
            let (place, rest) ← writableField o c type fields key
            if rest.isEmpty then return c.replaceAt place.address (S.reset place.node)
            else
              match place.node.core with
              | .error t => .error (.unallocated t.name)
              | .ok d =>
                  let d ← S.removeItem o d rest .content
                  return c.replaceAt place.address
                    (place.node.replaceAt place.node.coreAddress d)
        | _ => S.removeItem o c key mode

end Schema

end TreeSync

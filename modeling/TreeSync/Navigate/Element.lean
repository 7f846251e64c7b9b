import TreeSync.Navigate.Field
import TreeSync.Node.Equality
import TreeSync.Path.KeyText
import TreeSync.Schema.Eager

/-!
# List elements by content

A structured key such as `Address[ip=10.0.0.1][prefix=24]` both builds a list
element, with every named field set from its literal, and finds one, with every
named field equal.  A plain key stands for a scalar element.

Main definitions:

- `Schema.build`: the element that a key describes.
- `Schema.matchIndex`: the first element of a list that matches a key.
-/

namespace TreeSync

namespace Key

/-- Take a token apart, as a step of navigation. -/
def decode (token : String) : Except NavError Key :=
  match parse token with
  | .ok key => .ok key
  | .error e => .error (.invalidKey e)

/-- The values of a key fit into its text side by side. -/
theorem weight_of_decode {token : String} {key : Key} (h : decode token = .ok key) :
    weight key.qualifiers ≤ token.length := by
  unfold decode at h
  cases hp : parse token with
  | error e => simp [hp] at h
  | ok k =>
      simp only [hp, Except.ok.injEq] at h
      exact weight_of_parse (h ▸ hp)

end Key

namespace Document

mutual

/-- The document that a key describes: a text, or a map of its qualifiers. -/
def build (literal : String) : Except NavError Document :=
  if Key.isStructured literal then
    match h : Key.decode literal with
    | .error e => .error e
    | .ok key =>
        have := Key.weight_of_decode h
        map <$> buildEntries [] key.qualifiers
  else .ok (text literal)
termination_by (literal.length, 1)
decreasing_by exact Prod.Lex.right' _ this (by decide)

/-- The entries that qualifiers describe, put among those already built. -/
def buildEntries (done : List (String × Document)) :
    List (String × String) → Except NavError (List (String × Document))
  | [] => .ok done
  | (field, value) :: rest =>
      match build value with
      | .error e => .error e
      | .ok d => buildEntries (Entries.put Json.nameBefore field d done) rest
termination_by qualifiers => (Key.weight qualifiers, 0)
decreasing_by
  all_goals
    simp only [Key.weight]
    refine Prod.Lex.left _ _ ?_
    omega

end

end Document

namespace Slot

/-- The slot with the value that a key describes: the first qualifier value, or
the key itself when it has none. -/
def build (slot : Slot) (literal : String) : Except NavError Slot :=
  let write (text : String) : Except NavError Slot :=
    match slot.setLiteral text with
    | .ok s => .ok s
    | .error e => .error (.conversion e)
  if Key.isStructured literal then do
    let key ← Key.decode literal
    match key.qualifiers with
    | (_, value) :: _ => write value
    | [] => write key.name
  else write literal

end Slot

namespace Schema

variable {σ : Type} (S : Schema σ) (o : Options)

/-- A node ready to be filled: allocated, and a record with its children
allocated too if the options ask for it. -/
def prepare (n : Node σ) : Node σ :=
  let n := S.allocate n
  if o.allocateChildren && n.innermost.kind == .record then
    n.replaceAt n.coreAddress (S.allocateChildren [] n.innermost)
  else n

mutual

/-- The node with the content that a key describes. -/
def fill (n : Node σ) (literal : String) : Except NavError (Node σ) :=
  let n := S.prepare o n
  n.replaceAt n.coreAddress <$>
    match n.innermost with
    | .record .. =>
        match h : Key.decode literal with
        | .error e => .error e
        | .ok key =>
            have := Key.weight_of_decode h
            fillFields n.innermost key.qualifiers
    | .dynamic _ => .dynamic <$> Document.build literal
    | .scalar slot => .scalar <$> slot.build literal
    | .array .. => .error (.unsupported n.innermost.ty.name)
    | .list .. | .map .. =>
        if literal.isEmpty then .ok n.innermost
        else .error (.keyNotAddressable literal (.notBuildable n.innermost.ty.name))
    | .absent _ | .present _ | .boxed _ | .enclosing _ =>
        .error (.notContainer n.innermost.ty.name)
termination_by (literal.length, 1)
decreasing_by exact Prod.Lex.right' _ this (by decide)

/-- The record with the content of its fields that qualifiers describe. -/
def fillFields (n : Node σ) : List (String × String) → Except NavError (Node σ)
  | [] => .ok n
  | (field, value) :: rest =>
      match n with
      | .record type fields _ =>
          match n.fieldPlace o true type fields field with
          | .error e => .error e
          | .ok place =>
              match fill place.node value with
              | .error e => .error e
              | .ok child => fillFields (n.replaceAt place.address child) rest
      | _ => .ok n
termination_by qualifiers => (Key.weight qualifiers, 0)
decreasing_by
  all_goals
    simp only [Key.weight]
    refine Prod.Lex.left _ _ ?_
    omega

end

/-- The element of a type that a key describes. -/
def build (elem : Ty) (key : String) : Except NavError (Node σ) :=
  S.fill o (S.zero elem) key

/-- The names of the fields that a key constrains; none for a plain key. -/
def constrained (key : String) : Except NavError (List String) :=
  if Key.isStructured key then (fun k => k.qualifiers.map Prod.fst) <$> Key.decode key
  else .ok []

/-- Whether an element agrees with a built one in the constrained fields, or in
everything if there are none. -/
def agrees (fields : List String) (built element : Node σ) : Bool :=
  if fields.isEmpty then element.same built
  else
    fields.all fun field =>
      match element.namedField? o field, built.namedField? o field with
      | some a, some b => a.same b
      | _, _ => false

/-- The position of the first element that matches a key. -/
def matchIndex (elem : Ty) (items : List (Node σ)) (key : String) :
    Except NavError (Option Nat) := do
  let built ← S.build o elem key
  let fields ← constrained key
  return items.findIdx? fun item => agrees o fields built item

end Schema

end TreeSync

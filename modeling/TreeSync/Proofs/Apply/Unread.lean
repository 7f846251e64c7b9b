import TreeSync.Proofs.Apply.Probe

/-!
# What events do not read

Whether the events of a batch are held back is a matter of the replica, and only
asking a record reads what its type answers.  New values, navigation and the walk of
an event are the same whatever these are; in particular a walk calls no override.

Main definitions and results:

- `Options.buffering`: the options with batches held back, or not.
- `Schema.answering` and `Schema.muted`: the schema with other answers, and with
  none.
- `Schema.walk_unread`: walking a path and acting at its end.
- `Schema.apply_buffering`: an event has the same effect and the same outcome
  whether or not batches are held back.
- `Schema.apply_muted`: an event where no record answers.
-/

namespace TreeSync

/-- The options with the events of a batch held back, or not. -/
def Options.buffering (o : Options) (held : Bool) : Options :=
  { o with bufferBatches := held }

namespace Schema

open Node

variable {σ : Type} (S : Schema σ) (o : Options) (held : Bool)
  (query : String → σ → σ × Option (Override σ))

/-- The schema whose records answer otherwise when they are asked for an override. -/
def answering : Schema σ :=
  { S with records := S.records.map fun d => { d with query := query d.name } }

/-- The schema whose records have no override. -/
def muted : Schema σ :=
  S.answering fun _ state => (state, none)

/-! ## New values -/

/-- A declaration is found under the same name, with the other answer. -/
theorem find?_answering (name : String) :
    (S.answering query).find? name =
      (S.find? name).map fun d => { d with query := query d.name } := by
  rw [find?, find?, answering, List.find?_map]
  rfl

/-- New values do not depend on what records answer, since nobody asks them. -/
@[simp]
theorem zero_unread (t : Ty) : (S.answering query).zero t = S.zero t := by
  induction t with
  | box t ih => rw [zero, zero, ih]
  | array t n ih => rw [zero, zero, ih]
  | record name =>
      rw [zero, zero, find?_answering]
      cases S.find? name <;> rfl
  | _ => rfl

@[simp]
theorem filled_unread (t : Ty) : (S.answering query).filled t = S.filled t := by
  induction t with
  | option t ih => rw [filled, filled, ih]
  | box t ih => rw [filled, filled, ih]
  | _ => simp only [filled, zero_unread]

/-- Allocating layers asks no record. -/
@[simp]
theorem allocate_unread (n : Node σ) : (S.answering query).allocate n = S.allocate n := by
  induction n using layers_induction with
  | absent t => rw [allocate, allocate, filled_unread]
  | present v ih => rw [allocate, allocate, ih]
  | boxed v ih => rw [allocate, allocate, ih]
  | bare n hn => rw [Schema.allocate_of_bare _ hn, Schema.allocate_of_bare _ hn]

mutual

/-- Eager allocation asks no record. The induction is on its own recursion, which goes through
the fields of new values. -/
@[simp]
theorem allocateChildren_unread (ancestors : List Ty) (n : Node σ) :
    (S.answering query).allocateChildren ancestors n = S.allocateChildren ancestors n := by
  rw [allocateChildren.eq_def, allocateChildren.eq_def]
  split
  · rfl
  · cases n with
    | record type fields state =>
        exact congrArg (Node.record type · state)
          (allocateFields_unread (.record type :: ancestors) fields)
    | present v =>
        exact congrArg Node.present (allocateChildren_unread (.option v.ty :: ancestors) v)
    | boxed v =>
        exact congrArg Node.boxed (allocateChildren_unread (.box v.ty :: ancestors) v)
    | absent t => simp only [eager_unread (.option t :: ancestors) t]
    | _ => rfl
termination_by (S.unseen ancestors, sizeOf n)
decreasing_by
  all_goals
    refine Prod.Lex.right' _ (S.unseen_cons_le _ _) ?_
    simp_wf
    try omega

@[simp]
theorem allocateFields_unread (ancestors : List Ty) (fields : List (Field × Node σ)) :
    (S.answering query).allocateFields ancestors fields = S.allocateFields ancestors fields := by
  match fields with
  | [] => rw [allocateFields, allocateFields]
  | (f, v) :: rest =>
      rw [allocateFields, allocateFields, allocateChildren_unread ancestors v,
        allocateFields_unread ancestors rest]
termination_by (S.unseen ancestors, sizeOf fields)

/-- The eager value of a type is the same. -/
@[simp]
theorem eager_unread (ancestors : List Ty) (t : Ty) :
    (S.answering query).eager ancestors t = S.eager ancestors t := by
  rw [eager, eager]
  split
  · exact zero_unread S query t
  · rename_i h
    cases t with
    | option u => simp only [eager_unread (.option u :: ancestors) u]
    | box u => exact congrArg Node.boxed (eager_unread (.box u :: ancestors) u)
    | record name =>
        simp only
        split
        · rename_i d' hd'
          rw [find?_answering] at hd'
          rcases Option.map_eq_some_iff.1 hd' with ⟨d, hd, rfl⟩
          have := S.unseen_cons_lt hd h
          split
          · rename_i c hc
            obtain rfl := Option.some.inj (hd.symm.trans hc)
            simp only [allocateFields_unread (.record name :: ancestors) d.fields]
          · rename_i hc
            simp [hd] at hc
        · rename_i hd'
          rw [find?_answering, Option.map_eq_none_iff] at hd'
          split
          · rename_i c hc
            simp [hd'] at hc
          · exact zero_unread S query _
    | _ => exact zero_unread S query _
termination_by (S.unseen ancestors, sizeOf t)
decreasing_by
  · exact Prod.Lex.right' _ (S.unseen_cons_le _ _) (by simp_wf; try omega)
  · exact Prod.Lex.right' _ (S.unseen_cons_le _ _) (by simp_wf; try omega)
  · exact Prod.Lex.left _ _ this

end

/-! ## Elements -/

/-- Looking a field up reads the options about names only. -/
@[simp]
theorem fieldPlace_buffering (write : Bool) (n : Node σ) (type : String)
    (fields : List (Field × Node σ)) (name : String) :
    n.fieldPlace (o.buffering held) write type fields name =
      n.fieldPlace o write type fields name :=
  rfl

/-- Comparing named fields reads the options about names only. -/
@[simp]
theorem agrees_buffering (fields : List String) (built element : Node σ) :
    agrees (o.buffering held) fields built element = agrees o fields built element :=
  rfl

/-- What an element starts from when it is built is the same. -/
@[simp]
theorem prepare_unread (n : Node σ) :
    (S.answering query).prepare (o.buffering held) n = S.prepare o n := by
  simp only [prepare, Options.buffering, allocate_unread, allocateChildren_unread]

mutual

/-- A literal is written into a new value without asking it. -/
@[simp]
theorem fill_unread (n : Node σ) (literal : String) :
    (S.answering query).fill (o.buffering held) n literal = S.fill o n literal := by
  rw [fill, fill, prepare_unread]
  congr 1
  split
  · split
    · rfl
    · rename_i key h
      have := Key.weight_of_decode h
      exact fillFields_unread _ key.qualifiers
  all_goals rfl
termination_by (literal.length, 1)
decreasing_by exact Prod.Lex.right' _ this (by decide)

/-- The qualifiers of a key are written without asking the element. A value that is itself
structured leads to the same fields again, hence the induction on the recursion. -/
@[simp]
theorem fillFields_unread (n : Node σ) (qualifiers : List (String × String)) :
    (S.answering query).fillFields (o.buffering held) n qualifiers =
      S.fillFields o n qualifiers := by
  cases qualifiers with
  | nil => rw [fillFields, fillFields]
  | cons q rest =>
      obtain ⟨field, value⟩ := q
      cases n with
      | record type fields state =>
          rw [fillFields, fillFields, fieldPlace_buffering]
          split
          · rfl
          · rename_i place _
            rw [fill_unread place.node value]
            split
            · rfl
            · exact fillFields_unread _ rest
      | _ => rw [fillFields, fillFields] <;> simp
termination_by (Key.weight qualifiers, 0)
decreasing_by
  all_goals
    simp only [Key.weight]
    refine Prod.Lex.left _ _ ?_
    omega

end

/-- A key builds the same element. -/
@[simp]
theorem build_unread (elem : Ty) (key : String) :
    (S.answering query).build (o.buffering held) elem key = S.build o elem key := by
  rw [build, build, fill_unread, zero_unread]

/-- A key matches the same element. -/
@[simp]
theorem matchIndex_unread (elem : Ty) (items : List (Node σ)) (key : String) :
    (S.answering query).matchIndex (o.buffering held) elem items key =
      S.matchIndex o elem items key := by
  simp only [matchIndex, build_unread, agrees_buffering]

/-- How a list key is read does not depend on whether batches are held back. -/
@[simp]
theorem ofKey_buffering (key : String) : Mode.ofKey (o.buffering held) key = Mode.ofKey o key :=
  rfl

/-- An element is located at the same position. -/
@[simp]
theorem locate_unread (elem : Ty) (items : List (Node σ)) (key : String) (mode : Mode) :
    (S.answering query).locate (o.buffering held) elem items key mode =
      S.locate o elem items key mode := by
  simp only [locate, matchIndex_unread]

/-! ## Steps -/

@[simp]
theorem findItem_unread (c : Node σ) (key : String) (mode : Mode) :
    (S.answering query).findItem (o.buffering held) c key mode = S.findItem o c key mode := by
  simp only [findItem, locate_unread]

/-- Finding a child asks no record. -/
@[simp]
theorem find_unread (n : Node σ) (key : String) (mode : Mode) :
    (S.answering query).find (o.buffering held) n key mode = S.find o n key mode := by
  simp only [find, findItem_unread, fieldPlace_buffering]

/-- The same element is located or appended. -/
@[simp]
theorem locateOrAppend_unread (c : Node σ) (elem : Ty) (items : List (Node σ)) (key : String)
    (mode : Mode) :
    (S.answering query).locateOrAppend (o.buffering held) c elem items key mode =
      S.locateOrAppend o c elem items key mode := by
  simp only [locateOrAppend, locate_unread, build_unread, zero_unread]

@[simp]
theorem createItem_unread (c : Node σ) (key : String) (mode : Mode) :
    (S.answering query).createItem (o.buffering held) c key mode = S.createItem o c key mode := by
  simp only [createItem, locateOrAppend_unread, zero_unread]

@[simp]
theorem createChild_unread (c : Node σ) (key : String) (mode : Mode) :
    (S.answering query).createChild (o.buffering held) c key mode = S.createChild o c key mode := by
  simp only [createChild, fieldPlace_buffering, createItem_unread, allocate_unread]

/-- Finding or making a child asks no record. -/
@[simp]
theorem findOrCreate_unread (n : Node σ) (key : String) (mode : Mode) :
    (S.answering query).findOrCreate (o.buffering held) n key mode =
      S.findOrCreate o n key mode := by
  simp only [findOrCreate, createChild_unread, allocate_unread]

/-- A dynamic leaf on the way becomes a map just the same. -/
@[simp]
theorem promote_unread (n : Node σ) : (S.answering query).promote n = S.promote n := by
  simp only [promote, allocate_unread]

/-- One step of a walk asks no record. -/
@[simp]
theorem enter_unread (action : Action) (n : Node σ) (key : String) :
    (S.answering query).enter (o.buffering held) action n key = S.enter o action n key := by
  simp only [enter, ofKey_buffering, find_unread, findOrCreate_unread, promote_unread]

/-! ## Leaves -/

/-- Whether a field may be written does not depend on whether batches are held back. -/
@[simp]
theorem writableField_buffering (c : Node σ) (type : String) (fields : List (Field × Node σ))
    (key : String) :
    writableField (o.buffering held) c type fields key = writableField o c type fields key :=
  rfl

/-- A slot is written without asking what is below it. -/
@[simp]
theorem setSlot_unread (n : Node σ) (payload : Payload σ) :
    (S.answering query).setSlot (o.buffering held) n payload = S.setSlot o n payload := by
  simp only [setSlot, assignLiteral, build_unread, allocate_unread]

@[simp]
theorem writeElement_unread (c : Node σ) (elem : Ty) (items : List (Node σ)) (key : String)
    (payload : Payload σ) (mode : Mode) :
    (S.answering query).writeElement (o.buffering held) c elem items key payload mode =
      S.writeElement o c elem items key payload mode := by
  simp only [writeElement, duplicate?, appendSlot, matchIndex_unread, build_unread,
    setSlot_unread, zero_unread]

/-- A write asks no record. -/
@[simp]
theorem write_unread (n : Node σ) (key : String) (payload : Payload σ) (mode : Mode) :
    (S.answering query).write (o.buffering held) n key payload mode =
      S.write o n key payload mode := by
  simp only [write, writeItem, writableField_buffering, allocate_unread, setSlot_unread,
    writeElement_unread, zero_unread]

@[simp]
theorem shapeSlot_unread (n : Node σ) (shape : Shape) :
    (S.answering query).shapeSlot n shape = S.shapeSlot n shape := by
  simp only [shapeSlot, allocate_unread]

/-- Making a container asks no record. -/
@[simp]
theorem materialize_unread (n : Node σ) (key : String) (shape : Shape) (mode : Mode) :
    (S.answering query).materialize (o.buffering held) n key shape mode =
      S.materialize o n key shape mode := by
  simp only [materialize, shapeItem, writableField_buffering, allocate_unread, shapeSlot_unread,
    locateOrAppend_unread, zero_unread]

/-- A removal asks no record, and resets a field to the same new value. -/
@[simp]
theorem remove_unread (n : Node σ) (key : String) (mode : Mode) :
    (S.answering query).remove (o.buffering held) n key mode = S.remove o n key mode := by
  simp only [remove, removeItem, reset, writableField_buffering, locate_unread, zero_unread]

/-- What happens at the end of a path calls no override. -/
@[simp]
theorem perform_unread (e : Event) (n : Node σ) :
    (S.answering query).perform (o.buffering held) e n = S.perform o e n := by
  simp only [perform, ofKey_buffering, remove_unread, materialize_unread, write_unread,
    promote_unread]

/-! ## Events -/

/-- Walking a path and acting at its end reads neither. -/
@[simp]
theorem walk_unread (e : Event) (n : Node σ) (path : List String) :
    (S.answering query).walk (o.buffering held) e n path = S.walk o e n path := by
  induction path generalizing n with
  | nil => exact S.perform_unread o held query e n
  | cons key rest ih => simp only [walk, enter_unread, ih]

/-! ## Holding events back -/

/-- Finding is the same whether or not batches are held back. The answers of the schema itself
are one case of other answers. -/
theorem find_buffering (n : Node σ) (key : String) (mode : Mode) :
    S.find (o.buffering held) n key mode = S.find o n key mode :=
  (S.find_unread (o.buffering held) held (fun _ s => (s, none)) n key mode).symm.trans
    (S.find_unread o held _ n key mode)

/-- A walk is the same whether or not batches are held back. -/
theorem walk_buffering (e : Event) (n : Node σ) (path : List String) :
    S.walk (o.buffering held) e n path = S.walk o e n path :=
  (S.walk_unread (o.buffering held) held (fun _ s => (s, none)) e n path).symm.trans
    (S.walk_unread o held _ e n path)

/-- Asking the records along a path finds the same override. -/
theorem probe_buffering (n : Node σ) (path : List String) :
    S.probe (o.buffering held) n path = S.probe o n path := by
  induction path generalizing n with
  | nil => rfl
  | cons key rest ih =>
      rw [probe, probe]
      simp only [ofKey_buffering, find_buffering, ih]

/-- An event is handed to the same override, with the same rest of its path. -/
theorem delegate_buffering (e : Event) (n : Node σ) (path : List String) (depth : Nat) :
    S.delegate (o.buffering held) e n path depth = S.delegate o e n path depth := by
  induction path generalizing n depth with
  | nil => rfl
  | cons key rest ih =>
      cases depth with
      | zero => rfl
      | succ depth => simp only [delegate, ofKey_buffering, find_buffering, ih]

/-- An event has the same effect and the same outcome whether or not the events
of a batch are held back. -/
@[simp]
theorem apply_buffering (e : Event) (target : Node σ) :
    S.apply (o.buffering held) e target = S.apply o e target := by
  simp only [apply, probe_buffering, delegate_buffering, walk_buffering]

/-! ## No overrides -/

theorem signature_answering (name : String) :
    (S.answering query).signature name = S.signature name := by
  rw [signature, signature, find?_answering]
  cases S.find? name <;> rfl

variable {S}

/-- A node is as well typed under other answers. -/
theorem Typed.answering {loops : Prop} {n : Node σ} (h : S.Typed loops n) :
    (S.answering query).Typed loops n := by
  induction h with
  | scalar slot => exact .scalar slot
  | absent t => exact .absent t
  | present _ ih => exact .present ih
  | boxed _ ih => exact .boxed ih
  | list types _ ih => exact .list types ih
  | map ascending admits types _ ih => exact .map ascending admits types ih
  | array types _ ih => exact .array types ih
  | dynamic h => exact .dynamic h
  | record types within _ ih =>
      exact .record (types.trans (S.signature_answering query _).symm) within ih
  | enclosing h => exact .enclosing h

/-- Muted records have nothing to answer. -/
theorem overrideFree_muted : S.muted.OverrideFree := by
  intro d hd state
  rcases List.mem_map.1 hd with ⟨c, -, rfl⟩
  rfl

/-- Where no record answers an event just walks its path. -/
theorem apply_muted {loops : Prop} {n : Node σ} (hn : S.Typed loops n) {e : Event}
    (he : e.isRoot = false) : S.muted.apply o e n = S.walk o e n e.path :=
  (apply_of_silent (hn.answering _) (overrideFree_muted.silent n) he).trans
    (S.walk_unread o o.bufferBatches _ e n e.path)

end Schema

end TreeSync

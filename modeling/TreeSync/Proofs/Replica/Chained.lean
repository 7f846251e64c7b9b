import TreeSync.Proofs.Apply.Documents
import TreeSync.Proofs.Apply.Keeping
import TreeSync.Proofs.Apply.Overrides
import TreeSync.Proofs.Path.Joining
import TreeSync.Proofs.Replica.History

/-!
# Chained replicas

A record may hand the path calls that it receives on to a replica of its own.  An
event for the record is then taken apart into a path text and a value, and the
replica behind it makes an event of these again.  Where every segment survives
being joined and cut, the event that arrives does what the first one says, so that
the replica follows the events as if they had been applied to its document.

Main definitions and results:

- `Schema.Forwards`: a record type that hands path calls on to a replica.
- `Event.arrived`: the event that a call by path becomes again.
- `Schema.applyEach`: events applied one after the other.
- `Schema.apply_forwarding`: one event for a record that hands on.
- `Schema.chained_applyEach`: a chained replica agrees with a direct one.
-/

namespace TreeSync

namespace Event

/-- The event that is left of an event with the default tag after a call by path. -/
def arrived (e : Event) : Event :=
  { e with value := if e.action = .delete then "" else e.value, parentTag := none }

/-- The event can be told by a path and a text: its value has the default tag and is no
member of a set, and its keys survive being joined to a path text. -/
structure Tellable (e : Event) : Prop where
  tag : e.tag = .default
  member : e.isSetMember = false
  keys : ∀ s ∈ e.path ++ [e.key], Path.WellFormed s

theorem Tellable.key_ne {e : Event} (h : e.Tellable) : e.key ≠ "" :=
  (Path.wellFormed_iff.1 (h.keys e.key (List.mem_append_right _ (List.mem_singleton_self _)))).1

theorem Tellable.isRoot_eq {e : Event} (h : e.Tellable) : e.isRoot = false :=
  isRoot_of_key_ne h.key_ne

/-- Joined and cut again, the path and the key are the same. -/
theorem Tellable.ofPath_eq {e : Event} (h : e.Tellable) (action : Action) (value : String) :
    ofPath action (Path.render (e.path ++ [e.key])) .default value =
      .ok ⟨action, e.path, e.key, .default, value, none⟩ := by
  rw [ofPath, Path.parse_render h.keys]
  simp only [bind, Except.bind, pure, Except.pure, List.dropLast_concat, List.getLast?_concat,
    Option.getD_some]

end Event

namespace Replica

variable {τ : Type} (S : Schema τ)

/-- A call by path carries out the event that it was made for. -/
theorem call_ofEvent (r : Replica τ) {e : Event} (h : e.Tellable) :
    r.call S (.ofEvent e e.path) = r.execute S e.arrived := by
  have hkey : e.key.isEmpty = false := by simpa using h.key_ne
  have harrived : e.arrived =
      ⟨e.action, e.path, e.key, .default, if e.action = .delete then "" else e.value, none⟩ := by
    rw [Event.arrived, h.tag]
  rw [harrived, PathCall.ofEvent, h.member, hkey]
  cases haction : e.action <;>
    simp [call, h.ofPath_eq]

/-- Carrying out events leaves one journal entry for each, numbered on, with the event
and the error of its result. -/
theorem exists_journal_forEach (r : Replica τ) (events : List Event) :
    ∃ added : Journal,
      (r.forEach (execute S) events).1.journal = r.journal ++ added ∧
      added.map Outcome.seq = List.range' (r.seq + 1) events.length ∧
      added.map Outcome.event = events ∧
      added.map Outcome.error = (r.forEach (execute S) events).2.map Outcome.failure? := by
  induction events generalizing r with
  | nil => exact ⟨[], (List.append_nil _).symm, rfl, rfl, rfl⟩
  | cons e rest ih =>
      obtain ⟨added, hjournal, hseqs, hevents, herrors⟩ := ih (r.execute S e).1
      have hfirst : (r.execute S e).1.journal =
          r.journal ++ [⟨r.seq + 1, e, Outcome.failure? (r.execute S e).2⟩] :=
        r.journal_perform S (.event e)
      refine ⟨⟨r.seq + 1, e, Outcome.failure? (r.execute S e).2⟩ :: added, ?_, ?_, ?_, ?_⟩
      · rw [forEach, ← List.singleton_append, ← List.append_assoc, ← hfirst]
        exact hjournal
      · rw [List.map_cons, hseqs, List.length_cons, List.range'_succ]
        rfl
      · rw [List.map_cons, hevents]
      · rw [List.map_cons, herrors, forEach]
        rfl

end Replica

namespace Schema

open Node

variable {σ τ : Type} {S : Schema σ} {o : Options}

/-! ## What arrives -/

/-- The parent tag makes no difference to a walk, and neither does the value of an event
that deletes. -/
theorem walk_arrived (e : Event) (n : Node σ) (path : List String) :
    S.walk o e.arrived n path = S.walk o e n path := by
  induction path generalizing n with
  | nil =>
      rw [walk, walk, perform, perform]
      cases haction : e.action <;> simp [Event.arrived, haction]
  | cons key rest ih =>
      rw [walk, walk]
      have haction : e.arrived.action = e.action := rfl
      simp only [haction, ih]

/-- Applied to a target without overrides, an event and what arrives of it do the same. -/
theorem apply_arrived {n : Node σ} {loops : Prop} (hn : S.Typed loops n) (hs : S.Silent n)
    {e : Event} (he : e.isRoot = false) : S.apply o e.arrived n = S.apply o e n := by
  have harrived : e.arrived.isRoot = false := he
  rw [apply_of_silent hn hs he, apply_of_silent hn hs harrived]
  exact walk_arrived e n e.path

/-! ## Handing on -/

/-- Records of a type hold a replica of a document in their state.  They expose a path
override that calls the replica and changes nothing else. -/
structure Forwards (S : Schema σ) (type : String) (hold : Replica τ → σ) (blank : τ)
    (handle : PathCall → Node σ → Node σ × Except SyncError Unit) : Prop where
  exposes (fields : List (Field × Node σ)) (r : Replica τ) :
    S.ask (.record type fields (hold r)) =
      (.record type fields (hold r), some (.paths handle))
  forwards (fields : List (Field × Node σ)) (r : Replica τ) (call : PathCall) :
    handle call (.record type fields (hold r)) =
      (.record type fields (hold (r.call (empty blank) call).1), (r.call (empty blank) call).2)

/-- A record that exposes an override, with fields that expose none, is where the probe
ends. -/
theorem probe_record {type : String} {fields : List (Field × Node σ)} {state : σ}
    (hn : S.Typed False (.record type fields state)) (hfields : ∀ f ∈ fields, S.Silent f.2)
    {override : Override σ}
    (hask : S.ask (.record type fields state) = (.record type fields state, some override))
    (path : List String) :
    S.probe o (.record type fields state) path = (.record type fields state, some 0) := by
  have hbare : (Node.record type fields state).Bare := Kind.noConfusion
  cases path with
  | nil =>
      rw [probe, innermost_of_bare hbare, hask, coreAddress_of_bare hbare]
      rfl
  | cons key rest =>
      rw [probe, innermost_of_bare hbare, hask, coreAddress_of_bare hbare]
      simp only [putBack, replaceAt, Option.map_some]
      cases hfind : S.find o (.record type fields state) key (.ofKey o key) with
      | error err => rfl
      | ok place =>
          have hget := get?_find hfind
          -- What is found is a field or stands below one.
          have hsilent : S.Silent place.node := by
            obtain ⟨s, below, haddress⟩ :=
              List.exists_cons_of_ne_nil (find_address_ne hn hbare hfind)
            rw [haddress] at hget
            obtain ⟨c, hc, hbelow⟩ := Option.bind_eq_some_iff.1 hget
            cases s with
            | field i =>
                obtain ⟨f, hf, rfl⟩ := Option.map_eq_some_iff.1 hc
                exact (hfields f (List.mem_of_getElem? hf)).get hbelow
            | _ => simp [child?] at hc
          simp only [probe_of_silent (hn.get hget) hsilent, hn.replaceAt_self hget]
          rfl

/-- An event for a record that hands on changes the replica behind it and nothing else,
and fails as it fails there. -/
theorem apply_forwarding {type : String} {hold : Replica τ → σ} {blank : τ}
    {handle : PathCall → Node σ → Node σ × Except SyncError Unit}
    (hforwards : S.Forwards type hold blank handle) {fields : List (Field × Node σ)}
    (hfields : ∀ f ∈ fields, S.Silent f.2) {r : Replica τ}
    (hn : S.Typed False (.record type fields (hold r))) {e : Event} (he : e.Tellable) :
    S.apply o e (.record type fields (hold r)) =
      (.record type fields (hold (r.execute (empty blank) e.arrived).1),
        (r.execute (empty blank) e.arrived).2) := by
  have hask := hforwards.exposes fields r
  have hbare : (Node.record type fields (hold r)).Bare := Kind.noConfusion
  have hanswer : (S.ask (Node.record type fields (hold r)).innermost).2 =
      some (.paths handle) := by
    rw [innermost_of_bare hbare, hask]
  have hprobe := probe_record (o := o) hn hfields hask e.path
  rw [apply, he.isRoot_eq]
  simp only [Bool.false_eq_true, if_false, hprobe]
  rw [delegate_zero hanswer, innermost_of_bare hbare, hask, coreAddress_of_bare hbare,
    ← r.call_ofEvent (empty blank) he]
  exact hforwards.forwards fields r _

/-- The target after every event in order, and the results. -/
def applyEach (S : Schema σ) (o : Options) (target : Node σ) :
    List Event → Node σ × List (Except SyncError Unit)
  | [] => (target, [])
  | e :: rest =>
      let (target, result) := S.apply o e target
      let (target, results) := applyEach S o target rest
      (target, result :: results)

/-- Events for a record that hands on are carried out by the replica behind it. -/
theorem applyEach_forwarding {type : String} {hold : Replica τ → σ} {blank : τ}
    {handle : PathCall → Node σ → Node σ × Except SyncError Unit}
    (hforwards : S.Forwards type hold blank handle) {fields : List (Field × Node σ)}
    (hfields : ∀ f ∈ fields, S.Silent f.2) (r : Replica τ)
    (hn : S.Typed False (.record type fields (hold r))) {events : List Event}
    (hevents : ∀ e ∈ events, e.Tellable) :
    S.applyEach o (.record type fields (hold r)) events =
      (.record type fields
          (hold (r.forEach (Replica.execute (empty blank)) (events.map Event.arrived)).1),
        (r.forEach (Replica.execute (empty blank)) (events.map Event.arrived)).2) := by
  induction events generalizing r with
  | nil => rfl
  | cons e rest ih =>
      have hnext (s : Replica τ) : S.Typed False (.record type fields (hold s)) := by
        cases hn with
        | record types within h => exact .record types within h
      rw [applyEach, apply_forwarding hforwards hfields hn (hevents e List.mem_cons_self),
        List.map_cons, Replica.forEach]
      simp only [ih _ (hnext _) fun d hd => hevents d (List.mem_cons_of_mem e hd)]

/-- A replica that carries out what arrives of some events treats its target as the events
themselves do. -/
theorem forEach_arrived {loops : Prop} (hS : S.Sound loops) (hfree : S.OverrideFree)
    (r : Replica σ) (hn : S.Typed loops r.target) {events : List Event}
    (hevents : ∀ e ∈ events, e.isRoot = false) :
    (r.forEach (Replica.execute S) (events.map Event.arrived)).1.target =
        (S.applyEach r.options r.target events).1 ∧
      (r.forEach (Replica.execute S) (events.map Event.arrived)).2 =
        (S.applyEach r.options r.target events).2 := by
  induction events generalizing r with
  | nil => exact ⟨rfl, rfl⟩
  | cons e rest ih =>
      have happly := apply_arrived (o := r.options) hn (hfree.silent _)
        (hevents e List.mem_cons_self)
      have htarget : (r.execute S e.arrived).1.target = (S.apply r.options e r.target).1 := by
        rw [Replica.execute, happly]
      have hresult : (r.execute S e.arrived).2 = (S.apply r.options e r.target).2 := by
        rw [Replica.execute, happly]
      have hoptions : (r.execute S e.arrived).1.options = r.options := rfl
      have hrest := ih (r.execute S e.arrived).1
        (htarget ▸ (keeps_apply hS hfree e hn).typed hn)
        fun d hd => hevents d (List.mem_cons_of_mem e hd)
      rw [htarget, hoptions] at hrest
      simp only [List.map_cons, Replica.forEach, applyEach, hresult, hrest, and_self]

/-- Events for a record that hands on to a new replica of the empty document give the same
results, one by one, as the same events for the document itself.  The document behind the
record ends up as the other one does, and the journal behind it has one entry for each
event. -/
theorem chained_applyEach {type : String} {hold : Replica τ → σ} {blank : τ}
    {handle : PathCall → Node σ → Node σ × Except SyncError Unit}
    (hforwards : S.Forwards type hold blank handle) {fields : List (Field × Node σ)}
    (hfields : ∀ f ∈ fields, S.Silent f.2)
    (hn : S.Typed False (.record type fields (hold { target := .dynamic .null })))
    {events : List Event} (hevents : ∀ e ∈ events, e.Tellable) :
    let outer := S.applyEach o (.record type fields (hold { target := .dynamic .null })) events
    let direct := (empty blank).applyEach {} (.dynamic .null) events
    outer.2 = direct.2 ∧
    ∃ inner : Replica τ,
      outer.1 = .record type fields (hold inner) ∧ inner.target = direct.1 ∧
      inner.journal.map Outcome.seq = List.range' 1 events.length ∧
      inner.journal.map Outcome.event = events.map Event.arrived ∧
      inner.journal.map Outcome.error = direct.2.map Outcome.failure? := by
  intro outer direct
  have houter := applyEach_forwarding (o := o) hforwards hfields _ hn hevents
  obtain ⟨htarget, hresults⟩ := forEach_arrived (sound_empty blank) (overrideFree_empty blank)
    { target := .dynamic .null } (.dynamic (.leaf rfl)) fun e he => (hevents e he).isRoot_eq
  obtain ⟨added, hjournal, hseqs, harrived, herrors⟩ :=
    Replica.exists_journal_forEach (empty blank) { target := .dynamic .null }
      (events.map Event.arrived)
  refine ⟨(congrArg Prod.snd houter).trans hresults, _, congrArg Prod.fst houter, htarget, ?_⟩
  rw [hjournal, List.nil_append]
  refine ⟨by simpa using hseqs, harrived, ?_⟩
  rw [herrors, hresults]

/-- Hand a call on to the replica that a record holds as its state. -/
def relay (call : PathCall) :
    Node (Replica Unit) → Node (Replica Unit) × Except SyncError Unit
  | .record type fields r =>
      (.record type fields (r.call (empty ()) call).1, (r.call (empty ()) call).2)
  | n => (n, .ok ())

/-- A record type without fields that mirrors a document. -/
def mirror : Schema (Replica Unit) :=
  (empty { target := .dynamic .null }).declare "Mirror" [] { target := .dynamic .null }
    fun r => (r, some (.paths relay))

theorem forwards_mirror : mirror.Forwards "Mirror" id () relay where
  exposes _ _ := rfl
  forwards _ _ _ := rfl

/-- A slash within a key, and a deletion of what is not there. -/
theorem chained_applyEach_mirror :
    let events : List Event :=
      [⟨.create, ["rack", "port[id=1/2]"], "mtu", .default, "1500", none⟩,
        ⟨.delete, ["rack"], "fan", .default, "", none⟩]
    (∀ e ∈ events, e.Tellable) ∧
    let outer := mirror.applyEach { findByContent := true } (mirror.zero (.record "Mirror")) events
    let direct := (empty ()).applyEach {} (.dynamic .null) events
    outer.2 = direct.2 ∧
    ∃ inner : Replica Unit,
      outer.1 = .record "Mirror" [] inner ∧ inner.target = direct.1 ∧
      inner.journal.map Outcome.seq = [1, 2] ∧
      inner.journal.map Outcome.event = events.map Event.arrived ∧
      inner.journal.map Outcome.error = direct.2.map Outcome.failure? := by
  intro events
  have hchecked : ∀ e ∈ events, e.tag = .default ∧ e.isSetMember = false ∧
      ∀ s ∈ e.path ++ [e.key], (Path.parse s).toOption = some [s] := by
    decide +kernel
  have hevents : ∀ e ∈ events, e.Tellable := fun e he =>
    ⟨(hchecked e he).1, (hchecked e he).2.1,
      fun s hs => eq_ok_of_toOption ((hchecked e he).2.2 s hs)⟩
  exact ⟨hevents, chained_applyEach forwards_mirror (fun _ h => absurd h List.not_mem_nil)
    (.record_of_tree rfl fun _ h => absurd h List.not_mem_nil) hevents⟩

end Schema

end TreeSync

import TreeSync.Proofs.Apply.Overrides
import TreeSync.Proofs.Path.Joining

/-!
# Addresses delivered as path texts

A path override receives the rest of an address as one text, in which slashes stand in front
of the segments.  The receiver cuts the text at its slashes again.  A segment that has none of
its own outside of brackets, and whose brackets close, comes out as it went in.  Slashes in a
segment cannot be protected, so a segment that has one is taken for several.

Main definitions and results:

- `Path.parse_render_flatMap`: segments side by side are cut as they are cut alone.
- `PathCall.path`, `Event.below`: what is delivered, and the address it stands for.
- `Schema.DeliveredTo`: an event that goes to a path override.
- `Schema.delivered_address`: the address that the receiver reads.
-/

namespace TreeSync

open Node

namespace Path

/-! ## Texts side by side -/

/-- Two texts with a slash between them have the pieces of both. -/
theorem Cuts.append {cs ds : List Char} {ps qs : List (List Char)} (h : Cuts [] cs ps)
    (h' : Cuts [] ds qs) : Cuts [] (cs ++ '/' :: ds) (ps ++ qs) := by
  induction ps generalizing cs with
  | nil => exact absurd rfl h.ne_nil
  | cons p ps ih =>
      obtain ⟨_, _, hfirst, hself, hrest⟩ := h.first
      obtain ⟨rfl, rfl⟩ := List.cons.inj hfirst
      rcases hrest with ⟨rfl, rfl⟩ | ⟨rest, rfl, hcuts⟩
      · exact hself.append_slash h'
      · rw [List.append_assoc, List.cons_append]
        exact hself.append_slash (ih hcuts)

/-- Segments with slashes between them have the pieces of each, of which all but the empty ones
are what the segments are cut into.  There is no slash in front, so that the induction can start
at the last segment. -/
theorem exists_cuts_flatMap {cut : String → List String} (s : String) (rest : List String)
    (h : ∀ t ∈ s :: rest, parse t = .ok (cut t)) :
    ∃ ps, Cuts [] (s.toList ++ rest.flatMap fun t => '/' :: t.toList) ps ∧
      (s :: rest).flatMap cut = (ps.filter fun p => !p.isEmpty).map String.ofList := by
  obtain ⟨ps, hps, hkept⟩ := parse_eq_ok.1 (h s List.mem_cons_self)
  induction rest generalizing s ps with
  | nil => exact ⟨ps, by simpa using hps, by simpa using hkept⟩
  | cons t rest ih =>
      have hrest : ∀ u ∈ t :: rest, parse u = .ok (cut u) := fun u hu =>
        h u (List.mem_cons_of_mem s hu)
      obtain ⟨ts, hts, hcut⟩ := parse_eq_ok.1 (hrest t List.mem_cons_self)
      obtain ⟨qs, hqs, hmore⟩ := ih t hrest ts hts hcut
      refine ⟨ps ++ qs, hps.append hqs, ?_⟩
      rw [List.flatMap_cons, hmore, hkept, List.filter_append, List.map_append]

/-- A path text is cut into what its segments are cut into one by one. -/
theorem parse_render_flatMap {cut : String → List String} {segments : List String}
    (h : ∀ s ∈ segments, parse s = .ok (cut s)) :
    parse (render segments) = .ok (segments.flatMap cut) := by
  cases segments with
  | nil => rfl
  | cons s rest =>
      obtain ⟨ps, hps, hkept⟩ := exists_cuts_flatMap s rest h
      have htext : (render (s :: rest)).toList =
          '/' :: (s.toList ++ rest.flatMap fun t => '/' :: t.toList) := by
        simp [render, List.flatMap_map]
      rw [parse_eq_ok, htext]
      exact ⟨[] :: ps, .slash hps, by simpa using hkept⟩

end Path

/-- The path text of a call. -/
def PathCall.path : PathCall → String
  | create path _ | replace path _ | delete path => path

/-- The address of an event below a depth of its path. -/
def Event.below (e : Event) (depth : Nat) : List String :=
  e.path.drop depth ++ [e.key]

/-- The call for an event under a key that is no member of a set has the joined address. -/
theorem PathCall.path_ofEvent {e : Event} (hkey : e.key ≠ "") (hmember : e.isSetMember = false)
    (depth : Nat) : (ofEvent e (e.path.drop depth)).path = Path.render (e.below depth) := by
  have hempty : e.key.isEmpty = false := by simpa using hkey
  rw [ofEvent, hmember, hempty]
  cases e.action <;> rfl

namespace Schema

variable {σ : Type} {S : Schema σ} {o : Options} {e : Event} {target asked : Node σ}
  {depth : Nat} {place : Place σ}
  {handle : PathCall → Node σ → Node σ × Except SyncError Unit}

variable (S o) in
/-- An event is delegated at a depth of its path: the probe leaves the target `asked` and finds
the override of the record at a place to be the deepest one, and it takes path texts. -/
structure DeliveredTo (e : Event) (target : Node σ) (depth : Nat) (asked : Node σ)
    (place : Place σ) (handle : PathCall → Node σ → Node σ × Except SyncError Unit) : Prop where
  isRoot_eq : e.isRoot = false
  probe_eq : S.probe o target e.path = (asked, some depth)
  place_eq : (S.reached o asked e.path)[depth]? = some place
  override_eq : (S.ask place.node.innermost).2 = some (.paths handle)

/-- The event becomes one call of the override, and nothing else happens. -/
theorem DeliveredTo.apply_eq (h : S.DeliveredTo o e target depth asked place handle) :
    S.apply o e target = asked.putBack (place.address ++ place.node.coreAddress)
      (handle (.ofEvent e (e.path.drop depth)) (S.ask place.node.innermost).1) := by
  rw [apply, h.isRoot_eq, h.probe_eq]
  exact delegate_eq h.place_eq h.override_eq

/-- A path override that receives an event reads its address back segment by segment.  It
reads the segments themselves exactly if each of them is a segment on its own.  Then the address
is not confused with that of any other event whose segments are. -/
theorem delivered_address (h : S.DeliveredTo o e target depth asked place handle)
    (hkey : e.key ≠ "") (hmember : e.isSetMember = false) :
    let call := PathCall.ofEvent e (e.path.drop depth)
    S.apply o e target = asked.putBack (place.address ++ place.node.coreAddress)
        (handle call (S.ask place.node.innermost).1) ∧
      (∀ cut : String → List String, (∀ s ∈ e.below depth, Path.parse s = .ok (cut s)) →
        Path.parse call.path = .ok ((e.below depth).flatMap cut)) ∧
      (Path.parse call.path = .ok (e.below depth) ↔ ∀ s ∈ e.below depth, Path.WellFormed s) ∧
      ∀ d other, d.key ≠ "" → d.isSetMember = false →
        (∀ s ∈ e.below depth, Path.WellFormed s) → (∀ s ∈ d.below other, Path.WellFormed s) →
          (PathCall.ofEvent d (d.path.drop other)).path = call.path →
            d.below other = e.below depth := by
  intro call
  have hcall : call.path = Path.render (e.below depth) := PathCall.path_ofEvent hkey hmember depth
  rw [hcall]
  refine ⟨h.apply_eq, fun cut => Path.parse_render_flatMap, ?_, ?_⟩
  · exact ⟨fun hread s hs => Path.wellFormed_of_parse hread hs, Path.parse_render⟩
  · intro d other hd hdmember hwell hdwell hsame
    rw [PathCall.path_ofEvent hd hdmember] at hsame
    have hread := Path.parse_render hdwell
    rw [hsame, Path.parse_render hwell] at hread
    exact (Except.ok.inj hread).symm

/-- An outlet answers every event with the path text that it received. -/
def outlets : Schema Unit :=
  (empty ()).declare "Outlet" [] () fun state =>
    (state, some (.paths fun call outlet => (outlet, .error (.rejected call.path))))

def outlet : Node Unit :=
  .record "Outlet" [] ()

/-- A slash inside brackets stays inside its segment. -/
theorem delivered_address_outlet :
    let e : Event := ⟨.create, ["lan"], "port[name=0/1]", .scalar .str, "up", none⟩
    outlets.apply {} e outlet = (outlet, .error (.rejected "/lan/port[name=0/1]")) ∧
      Path.parse "/lan/port[name=0/1]" = .ok ["lan", "port[name=0/1]"] := by
  intro e
  have hdelivered : outlets.DeliveredTo {} e outlet 0 outlet ⟨[], outlet⟩
      fun call outlet => (outlet, .error (.rejected call.path)) := ⟨rfl, rfl, rfl, rfl⟩
  obtain ⟨happly, -, hiff, -⟩ := delivered_address hdelivered (by decide) rfl
  refine ⟨happly, hiff.2 ?_⟩
  intro s hs
  rcases List.mem_cons.1 hs with rfl | hs
  · exact eq_ok_of_toOption (by decide +kernel)
  · obtain rfl := List.mem_singleton.1 hs
    exact eq_ok_of_toOption (by decide +kernel)

/-- A slash in a key is taken for a separator, and two addresses come to one. -/
theorem slash_separates :
    (¬∀ e : Event, (∀ s ∈ e.path, s ≠ "") → e.key ≠ "" → e.isSetMember = false →
      ∀ text, (outlets.apply {} e outlet).2 = .error (.rejected text) →
        Path.parse text = .ok (e.path ++ [e.key])) ∧
      outlets.apply {} ⟨.create, [], "a/b", .scalar .str, "x", none⟩ outlet =
        outlets.apply {} ⟨.create, ["a"], "b", .scalar .str, "x", none⟩ outlet := by
  refine ⟨fun hall => ?_, rfl⟩
  have hread := hall ⟨.create, [], "a/b", .scalar .str, "x", none⟩ (by simp) (by decide) rfl
    "/a/b" rfl
  have hcut : Path.parse "/a/b" = .ok ["a", "b"] := eq_ok_of_toOption (by decide +kernel)
  exact absurd (Except.ok.inj (hcut.symm.trans hread)) (by decide)

end Schema

end TreeSync

import TreeSync.Proofs.Document.Nested
import TreeSync.Proofs.Path.Bracketed
import TreeSync.Proofs.Schema.Building

/-!
# Nested keys

A key nests when the value of a qualifier is a key again.  The scanner of keys is
flat: it cuts a token at its outermost brackets and leaves what stands inside of
them to the next round.  Written out, a tree of qualifiers is taken apart level by
level into the same tree, and the document that its text describes is the tree as
a nested map.

Main definitions and results:

- `KeyTree`, `KeyTree.render` and `KeyTree.document`: a tree of qualifiers, its
  text and its nested map.
- `Key.Level`: a text that the scanner passes on one level.
- `KeyTree.decode_render`: one round of taking a written tree apart.
- `KeyTree.build_render`: a written tree describes its nested map.
-/

namespace TreeSync

/-- A tree of qualifiers: a text, or a name with a child for each field. -/
inductive KeyTree where
  /-- A text. -/
  | text (value : String)
  /-- A name and the fields with their children, in the order written. -/
  | tree (name : String) (branches : List (String × KeyTree))

namespace Key

/-- The character opens and closes nothing. -/
def Plain (c : Char) : Prop :=
  c ≠ '[' ∧ c ≠ ']' ∧ c ≠ '\x27' ∧ c ≠ '\x22'

end Key

namespace KeyTree

open Key (Plain)

/-! ## Trees, their texts and their documents -/

mutual

/-- The tree as a key. -/
def render : KeyTree → String
  | text value => value
  | tree name branches => name ++ renderBranches branches

/-- The fields and children as bracket groups. -/
def renderBranches : List (String × KeyTree) → String
  | [] => ""
  | (field, child) :: rest => "[" ++ field ++ "=" ++ child.render ++ "]" ++ renderBranches rest

end

mutual

/-- The tree as a nested map. -/
def document : KeyTree → Document
  | text value => .text value
  | tree _ branches => .map (entriesOnto [] branches)

/-- The entries for fields and children, put among those already there. -/
def entriesOnto (done : List (String × Document)) :
    List (String × KeyTree) → List (String × Document)
  | [] => done
  | (field, child) :: rest =>
      entriesOnto (Entries.put Json.nameBefore field child.document done) rest

end

mutual

/-- The tree can stand inside a bracket.  Its texts and names open and close nothing, no
text ends in a backslash, which would protect the bracket behind it, and every name has a
field. -/
def Nestable : KeyTree → Prop
  | text value => (∀ c ∈ value.toList, Plain c) ∧ value.toList.getLast? ≠ some '\\'
  | tree name branches => (∀ c ∈ name.toList, Plain c) ∧ branches ≠ [] ∧ NestableBranches branches

/-- The fields open and close nothing and have no equals sign, and their children can
stand inside a bracket. -/
def NestableBranches : List (String × KeyTree) → Prop
  | [] => True
  | (field, child) :: rest =>
      (∀ c ∈ field.toList, Plain c ∧ c ≠ '=') ∧ child.Nestable ∧ NestableBranches rest

end

/-- Of equal fields the last one counts. -/
theorem get?_entriesOnto (field : String) (done : List (String × Document))
    (branches : List (String × KeyTree)) :
    Entries.get? field (entriesOnto done branches) =
      ((Entries.get? field branches.reverse).map document).or (Entries.get? field done) := by
  induction branches generalizing done with
  | nil => rfl
  | cons b rest ih =>
      obtain ⟨name, child⟩ := b
      rw [entriesOnto, ih, List.reverse_cons, Entries.get?_append]
      cases Entries.get? field rest.reverse with
      | some t => rfl
      | none =>
          by_cases h : name = field
          · simp [h, Entries.get?]
          · simp [Entries.get?, h, Entries.get?_put_of_ne _ (Ne.symm h)]

end KeyTree

namespace OpenSpan

variable {top : OpenSpan} {outer : List OpenSpan} {offset : Nat} {c : Char}

/-- A character that opens and closes nothing leaves the open spans as they are. -/
theorem advance_of_plain (htop : top.delimiter = .bracket) (hc : Key.Plain c) :
    top.advance outer offset c = top :: outer := by
  simp [advance, htop, Delimiter.closer, Delimiter.opened?, hc.1, hc.2.1, hc.2.2.1, hc.2.2.2]

theorem advance_open (htop : top.delimiter = .bracket) :
    top.advance outer offset '[' = ⟨.bracket, offset⟩ :: top :: outer := by
  simp [advance, htop, Delimiter.closer, Delimiter.opened?]

end OpenSpan

namespace Key

/-! ## Texts on one level -/

/-- The scanner passes the text inside a bracket and is on the same level behind it.
Nothing in it is protected, and it does not start with a quote. -/
structure Level (text : List Char) : Prop where
  cut {top : OpenSpan} {outer : List OpenSpan} {offset : Nat} {rest : List Char}
    {r : List Char × Cut} (htop : top.delimiter = .bracket)
    (h : cutInside top outer offset rest = .ok r) (offset' : Nat) :
    cutInside top outer offset' (text ++ rest) = .ok (text ++ r.1, r.2)
  unprotect (rest : List Char) : unprotect (text ++ rest) = text ++ unprotect rest
  unquoted : ∀ c ∈ text.head?, c ≠ '\x27' ∧ c ≠ '\x22'

/-- One character that leaves brackets open. -/
theorem cutInside_cons {top inner : OpenSpan} {outer spans : List OpenSpan} {c : Char}
    {rest : List Char} {offset : Nat} (offset' : Nat) {r : List Char × Cut}
    (hprotects : top.protects c rest = false)
    (hadvance : top.advance outer offset' c = inner :: spans)
    (h : cutInside inner spans offset rest = .ok r) :
    cutInside top outer offset' (c :: rest) = .ok (c :: r.1, r.2) := by
  rw [cutInside.eq_def]
  simp only [hprotects, Bool.false_eq_true, if_false, hadvance]
  exact map_eq_ok.2 ⟨r, cutInside_offset rest rfl _ h, rfl⟩

theorem protects_of_ne {c : Char} (h : c ≠ '\\') (top : OpenSpan) (rest : List Char) :
    top.protects c rest = false := by
  simp [OpenSpan.protects, h]

theorem level_nil : Level [] where
  cut _ h offset' := cutInside_offset _ rfl offset' h
  unprotect _ := rfl
  unquoted := by simp

theorem Level.append {text more : List Char} (h : Level text) (hmore : Level more) :
    Level (text ++ more) where
  cut htop hcut offset' := by
    rw [List.append_assoc, List.append_assoc]
    exact h.cut htop (hmore.cut htop hcut 0) offset'
  unprotect rest := by
    rw [List.append_assoc, h.unprotect, hmore.unprotect, List.append_assoc]
  unquoted c hc := by
    cases text with
    | nil => exact hmore.unquoted c hc
    | cons d rest => exact h.unquoted c hc

/-- A character in front that opens, closes and protects nothing. -/
theorem Level.cons {c : Char} (hc : Plain c) {text : List Char} (h : Level text)
    (hnext : c = '\\' → ∃ d ∈ text.head?, d ≠ ']') : Level (c :: text) where
  cut {top outer offset rest r} htop hcut offset' := by
    have hprotects : top.protects c (text ++ rest) = false := by
      by_cases hslash : c = '\\'
      · obtain ⟨d, hd, hne⟩ := hnext hslash
        simp [OpenSpan.protects, List.head?_append, Option.mem_def.1 hd, hne]
      · exact protects_of_ne hslash top _
    exact cutInside_cons offset' hprotects (OpenSpan.advance_of_plain htop hc) (h.cut htop hcut 0)
  unprotect rest := by
    rw [List.cons_append, Key.unprotect, h.unprotect, List.cons_append]
    rintro behind rfl hbehind
    obtain ⟨d, hd, hne⟩ := hnext rfl
    rw [Option.mem_def, List.head?_eq_some_iff] at hd
    obtain ⟨ys, rfl⟩ := hd
    exact hne (List.cons.inj hbehind).1
  unquoted d hd := by
    obtain rfl := Option.some.inj hd
    exact hc.2.2

/-- Plain characters in front.  If a backslash is the last of them, something other than
a closing bracket follows. -/
theorem Level.plain_append {plain text : List Char} (hplain : ∀ c ∈ plain, Plain c)
    (h : Level text) (hnext : plain.getLast? = some '\\' → ∃ d ∈ text.head?, d ≠ ']') :
    Level (plain ++ text) := by
  induction plain with
  | nil => exact h
  | cons c rest ih =>
      have hrest : ∀ d ∈ rest, Plain d := fun d hd => hplain d (List.mem_cons_of_mem c hd)
      refine (ih hrest fun hlast => hnext ?_).cons (hplain c List.mem_cons_self) fun hslash => ?_
      · rw [List.getLast?_cons, hlast]
        rfl
      · cases rest with
        | nil => exact hnext (by rw [hslash]; rfl)
        | cons d rest => exact ⟨d, rfl, (hrest d List.mem_cons_self).2.1⟩

/-- A bracket group around a text of one level. -/
theorem Level.group {text : List Char} (h : Level text) : Level ('[' :: (text ++ [']'])) where
  cut {top outer offset rest r} htop hcut offset' := by
    have hclose : cutInside ⟨.bracket, offset'⟩ (top :: outer) 0 (']' :: rest) =
        .ok (']' :: r.1, r.2) :=
      cutInside_cons 0 (protects_of_ne (by decide) _ _) rfl hcut
    have hinside := cutInside_cons offset' (protects_of_ne (by decide) top _)
      (OpenSpan.advance_open htop) (h.cut rfl hclose 0)
    simpa using hinside
  unprotect rest := by
    simp [Key.unprotect, h.unprotect]
  unquoted c hc := by
    obtain rfl := Option.some.inj hc
    decide

/-! ## Qualifiers -/

/-- The first equals sign ends the field. -/
theorem splitEquals_append {field : List Char} (h : ∀ c ∈ field, c ≠ '=') (raw : List Char) :
    splitEquals (field ++ '=' :: raw) = some (field, raw) := by
  induction field with
  | nil => rfl
  | cons c rest ih =>
      rw [List.cons_append, splitEquals, if_neg (h c List.mem_cons_self),
        ih fun d hd => h d (List.mem_cons_of_mem c hd)]
      rfl

/-- A text of one level stands for itself. -/
theorem Level.cleanValue_eq {text : List Char} (h : Level text) : cleanValue text = text := by
  have hunquote : unquote text = text := by
    cases text with
    | nil => rfl
    | cons c rest =>
        have hc := h.unquoted c rfl
        exact if_neg fun hquote => hquote.1.elim hc.1 hc.2
  have hunprotect : Key.unprotect text = text := by simpa [Key.unprotect] using h.unprotect []
  rw [cleanValue, hunquote, hunprotect, ite_self]

/-- A bracket group in front is the first group. -/
theorem cutOutside_group {text : List Char} (h : Level text) {rest : List Char} {offset : Nat}
    {groups : List (List Char × List Char)} (hrest : cutOutside offset rest = .ok ⟨[], groups⟩)
    (offset' : Nat) :
    cutOutside offset' ('[' :: (text ++ ']' :: rest)) = .ok ⟨[], (text, []) :: groups⟩ := by
  have hclose : cutInside ⟨.bracket, offset'⟩ [] 0 (']' :: rest) = .ok ([], ⟨[], groups⟩) := by
    rw [cutInside.eq_def]
    exact map_eq_ok.2 ⟨_, cutOutside_offset rest _ hrest, rfl⟩
  rw [cutOutside, if_pos rfl, h.cut rfl hclose, List.append_nil]
  rfl

end Key

namespace KeyTree

open Key (Plain Level)

/-! ## Written trees -/

theorem toList_renderBranches_cons (field : String) (child : KeyTree)
    (rest : List (String × KeyTree)) :
    (renderBranches ((field, child) :: rest)).toList =
      '[' :: ((field.toList ++ '=' :: child.render.toList) ++
        ']' :: (renderBranches rest).toList) := by
  simp [renderBranches]

/-- A field and its child are written on one level. -/
theorem level_inside {field text : List Char} (hfield : ∀ c ∈ field, Plain c ∧ c ≠ '=')
    (h : Level text) : Level (field ++ '=' :: text) := by
  have hequals : Level ('=' :: text) :=
    h.cons (by unfold Plain; decide) fun hslash => absurd hslash (by decide)
  exact hequals.plain_append (fun c hc => (hfield c hc).1) fun _ => ⟨'=', rfl, by decide⟩

mutual

/-- A tree that can stand inside a bracket is written on one level. -/
theorem level_render (t : KeyTree) (h : t.Nestable) : Level t.render.toList := by
  match t, h with
  | .text value, h =>
      rw [Nestable] at h
      rw [render, ← List.append_nil value.toList]
      exact Key.level_nil.plain_append h.1 fun hlast => absurd hlast h.2
  | .tree name branches, h =>
      rw [Nestable] at h
      obtain ⟨hname, hne, hbranches⟩ := h
      rw [render, String.toList_append]
      refine (level_renderBranches branches hbranches).plain_append hname fun _ => ?_
      match branches, hne with
      | (field, child) :: rest, _ =>
          rw [toList_renderBranches_cons]
          exact ⟨'[', rfl, by decide⟩

theorem level_renderBranches (branches : List (String × KeyTree)) (h : NestableBranches branches) :
    Level (renderBranches branches).toList := by
  match branches, h with
  | [], _ => exact Key.level_nil
  | (field, child) :: rest, h =>
      rw [NestableBranches] at h
      obtain ⟨hfield, hchild, hrest⟩ := h
      have hgroup := (level_inside hfield (level_render child hchild)).group
      rw [toList_renderBranches_cons]
      simpa using hgroup.append (level_renderBranches rest hrest)

end

/-- Written branches are cut into one group each. -/
theorem cutOutside_renderBranches {branches : List (String × KeyTree)}
    (h : NestableBranches branches) (offset : Nat) :
    Key.cutOutside offset (renderBranches branches).toList =
      .ok ⟨[], branches.map fun b => (b.1.toList ++ '=' :: b.2.render.toList, [])⟩ := by
  induction branches with
  | nil => rfl
  | cons b rest ih =>
      obtain ⟨field, child⟩ := b
      rw [NestableBranches] at h
      obtain ⟨hfield, hchild, hrest⟩ := h
      rw [toList_renderBranches_cons,
        Key.cutOutside_group (level_inside hfield (level_render child hchild)) (ih hrest)]
      rfl

/-- Field and child are read back from their bracket group. -/
theorem qualifier_render {field : String} (hfield : ∀ c ∈ field.toList, c ≠ '=') {child : KeyTree}
    (hchild : child.Nestable) (token : String) :
    Key.qualifier token (field.toList ++ '=' :: child.render.toList) =
      .ok (field, child.render) := by
  rw [Key.qualifier, Key.splitEquals_append hfield]
  simp only [(level_render child hchild).cleanValue_eq, String.ofList_toList]

/-- A written tree is taken apart into its name and its branches, whose children stay
written. -/
theorem decode_render {name : String} (hname : ∀ c ∈ name.toList, c ≠ '[' ∧ c ≠ ']')
    {branches : List (String × KeyTree)} (h : NestableBranches branches) :
    Key.decode (tree name branches).render =
      .ok ⟨name, branches.map fun b => (b.1, b.2.render)⟩ := by
  have hcut : Key.cut (tree name branches).render = .ok ⟨name.toList,
      branches.map fun b => (b.1.toList ++ '=' :: b.2.render.toList, [])⟩ := by
    rw [Key.cut, render, String.toList_append,
      Key.cutOutside_append hname 0 (cutOutside_renderBranches h 0), List.append_nil]
  have hqualifiers (token : String) :
      (branches.map fun b => (b.1.toList ++ '=' :: b.2.render.toList, ([] : List Char))).mapM
        (fun g => Key.qualifier token g.1) = .ok (branches.map fun b => (b.1, b.2.render)) := by
    clear hcut
    induction branches with
    | nil => rfl
    | cons b rest ih =>
        obtain ⟨field, child⟩ := b
        rw [NestableBranches] at h
        obtain ⟨hfield, hchild, hrest⟩ := h
        simp only [List.map_cons, List.mapM_cons, ih hrest,
          qualifier_render (fun c hc => (hfield c hc).2) hchild]
        rfl
  have hparse : Key.parse (tree name branches).render =
      .ok ⟨name, branches.map fun b => (b.1, b.2.render)⟩ := by
    rw [Key.parse, hcut]
    simp only [bind, Except.bind, hqualifiers, String.ofList_toList]
    rfl
  rw [Key.decode, hparse]

/-! ## Described documents -/

/-- A text that opens no bracket describes itself. -/
theorem build_text {value : String} (h : ∀ c ∈ value.toList, Plain c) :
    Document.build value = .ok (.text value) := by
  have hplain : Key.isStructured value = false := by
    rw [Key.isStructured, ← Bool.not_eq_true, List.contains_iff_mem]
    exact fun hmem => (h _ hmem).1 rfl
  rw [Document.build, hplain]
  rfl

/-- A written tree describes a map of what its branches describe. -/
theorem build_tree {name : String} (hname : ∀ c ∈ name.toList, c ≠ '[' ∧ c ≠ ']')
    {branches : List (String × KeyTree)} (hne : branches ≠ []) (h : NestableBranches branches) :
    Document.build (tree name branches).render =
      .map <$> Document.buildEntries [] (branches.map fun b => (b.1, b.2.render)) := by
  have hstructured : Key.isStructured (tree name branches).render = true := by
    obtain ⟨⟨field, child⟩, rest, rfl⟩ := List.exists_cons_of_ne_nil hne
    rw [Key.isStructured, render, String.toList_append, toList_renderBranches_cons]
    simp
  have hdecode := decode_render hname h
  rw [Document.build, if_pos hstructured]
  split
  · rename_i e he
    rw [hdecode] at he
    simp at he
  · rename_i key hkey
    rw [hdecode] at hkey
    obtain rfl := Except.ok.inj hkey
    rfl

mutual

/-- A tree that can stand inside a bracket describes its nested map. -/
theorem build_nestable (t : KeyTree) (h : t.Nestable) :
    Document.build t.render = .ok t.document := by
  match t, h with
  | .text value, h =>
      rw [Nestable] at h
      exact build_text h.1
  | .tree name branches, h =>
      rw [Nestable] at h
      obtain ⟨hname, hne, hbranches⟩ := h
      rw [build_tree (fun c hc => ⟨(hname c hc).1, (hname c hc).2.1⟩) hne hbranches,
        buildEntries_render [] branches hbranches]
      rfl

/-- Written branches describe the entries of their nested map. -/
theorem buildEntries_render (done : List (String × Document)) (branches : List (String × KeyTree))
    (h : NestableBranches branches) :
    Document.buildEntries done (branches.map fun b => (b.1, b.2.render)) =
      .ok (entriesOnto done branches) := by
  match branches, h with
  | [], _ =>
      rw [List.map_nil, Document.buildEntries]
      rfl
  | (field, child) :: rest, h =>
      rw [NestableBranches] at h
      obtain ⟨-, hchild, hrest⟩ := h
      rw [List.map_cons, Document.buildEntries, build_nestable child hchild]
      exact buildEntries_render _ rest hrest

end

/-- A written tree with any name without brackets in front builds its nested map as a
dynamic element.  In the map of a tree, each field holds the document of its last child. -/
theorem build_render {σ : Type} (S : Schema σ) (o : Options) {name : String}
    (hname : ∀ c ∈ name.toList, c ≠ '[' ∧ c ≠ ']') {branches : List (String × KeyTree)}
    (hne : branches ≠ []) (h : NestableBranches branches) :
    S.build o .dynamic (tree name branches).render =
        .ok (.dynamic (tree name branches).document) ∧
      (tree name branches).document.Ordered ∧
      ∀ (label : String) (below : List (String × KeyTree)) (field : String),
        (tree label below).document.get? field =
          (Entries.get? field below.reverse).map document := by
  have hbuild : Document.build (tree name branches).render =
      .ok (tree name branches).document := by
    rw [build_tree hname hne h, buildEntries_render [] branches h]
    rfl
  refine ⟨?_, Schema.ordered_build _ hbuild, fun label below field => ?_⟩
  · rw [Schema.build_dynamic, hbuild]
    rfl
  · rw [document, Document.get?, get?_entriesOnto]
    exact Option.or_none

/-- The branches of a key with an empty text, a nested key and a field given twice. -/
def router : List (String × KeyTree) :=
  [("ip", .text "a"), ("geo", .tree "" [("city", .text "Bern"), ("zip", .text "")]),
    ("ip", .text "b")]

/-- The second address wins.  A quote does no harm in the name in front. -/
theorem build_render_router :
    (tree "it's" router).render = "it's[ip=a][geo=[city=Bern][zip=]][ip=b]" ∧
      (Schema.empty ()).build {} .dynamic (tree "it's" router).render =
        .ok (.dynamic (.map [("geo", .map [("city", .text "Bern"), ("zip", .text "")]),
          ("ip", .text "b")])) := by
  have hname : ∀ c ∈ "it's".toList, c ≠ '[' ∧ c ≠ ']' := by simp
  have hbranches : NestableBranches router := by
    simp [router, NestableBranches, Nestable, Plain]
  have hne : router ≠ [] := List.cons_ne_nil _ _
  refine ⟨by decide +kernel, ?_⟩
  rw [(build_render (Schema.empty ()) {} hname hne hbranches).1]
  rfl

end KeyTree

end TreeSync

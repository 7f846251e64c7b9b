import Mathlib.Data.List.Forall2
import TreeSync.Proofs.Path.Rereading

/-!
# The grammar of keys

A key is written as a name and bracket groups.  The inside of a group is in balance: a quote
lasts until the next one of its kind, brackets nest, and a backslash takes the closing bracket
behind it along.  The scanner keeps a stack of open spans and goes through a token once.  It
passes just these groups, and it lets text without brackets stand behind each of them, which
reading the key then drops.

Main definitions and results:

- `Key.Balanced`: the inside of a bracket group.
- `Key.Closes` and `Key.Closes.advance`: what a stack of open spans still asks of a text.
- `Key.cutOutside_eq_ok_iff`: a token is cut into the regular cut that spells it.
- `Key.Written`: a token that is a name and groups with an equals sign in each.
- `Key.written_iff`: the tokens that are read as keys, and what is dropped in reading.
-/

namespace TreeSync

namespace Delimiter

/-- A character that opens a span is a bracket, or a quote that closes the span as well. -/
theorem eq_of_opened? {c : Char} {d : Delimiter} (h : opened? c = some d) :
    (c = '[' ∧ d = .bracket) ∨ (c = d.closer ∧ d ≠ .bracket) := by
  unfold opened? at h
  split at h
  · rename_i hc
    exact .inl ⟨hc, (Option.some.inj h).symm⟩
  · split at h
    · rename_i hc
      obtain rfl := Option.some.inj h
      exact .inr ⟨hc, nofun⟩
    · split at h
      · rename_i hc
        obtain rfl := Option.some.inj h
        exact .inr ⟨hc, nofun⟩
      · simp at h

end Delimiter

namespace OpenSpan

variable {top : OpenSpan} {outer : List OpenSpan} {offset : Nat} {c : Char}

theorem advance_quote (htop : top.delimiter = .bracket) {d : Delimiter} (hd : d ≠ .bracket) :
    top.advance outer offset d.closer = ⟨d, offset⟩ :: top :: outer := by
  cases d with
  | bracket => exact absurd rfl hd
  | single => simp [advance, htop, Delimiter.closer, Delimiter.opened?]
  | double => simp [advance, htop, Delimiter.closer, Delimiter.opened?]

theorem protects_iff {rest : List Char} :
    top.protects c rest = true ↔
      (top.delimiter = .bracket ∧ c = '\\') ∧ rest.head? = some ']' := by
  simp [protects]

end OpenSpan

namespace Key

/-! ## Texts in balance -/

/-- A text that can stand between two brackets. -/
inductive Balanced : List Char → Prop
  | nil : Balanced []
  /-- A character that opens and closes nothing.  A backslash at the end would protect the
  bracket that closes the group. -/
  | plain {c : Char} {rest : List Char} (hc : Plain c) (hslash : c = '\\' → rest ≠ [])
      (h : Balanced rest) : Balanced (c :: rest)
  /-- A protected closing bracket. -/
  | escaped {rest : List Char} (h : Balanced rest) : Balanced ('\\' :: ']' :: rest)
  /-- Text between two quotes of one kind. -/
  | quoted {d : Delimiter} {text rest : List Char} (hd : d ≠ .bracket) (htext : d.closer ∉ text)
      (h : Balanced rest) : Balanced (d.closer :: (text ++ d.closer :: rest))
  /-- A group inside the group. -/
  | group {inner rest : List Char} (hinner : Balanced inner) (h : Balanced rest) :
      Balanced ('[' :: (inner ++ ']' :: rest))

namespace Balanced

variable {text : List Char}

/-- A text in balance does not start with a closing bracket. -/
theorem head?_ne (h : Balanced text) : text.head? ≠ some ']' := by
  cases h with
  | nil => simp
  | plain hc _ _ => simpa using hc.2.1
  | escaped _ => simp
  | @quoted d _ _ hd _ _ =>
      cases d with
      | bracket => exact absurd rfl hd
      | single => simp [Delimiter.closer]
      | double => simp [Delimiter.closer]
  | group _ _ => simp

/-- Plain text in front of a text in balance. -/
theorem plain_append {front : List Char} (hfront : ∀ c ∈ front, Plain c) (htext : text ≠ [])
    (h : Balanced text) : Balanced (front ++ text) := by
  induction front with
  | nil => exact h
  | cons c rest ih =>
      obtain ⟨hc, hrest⟩ := List.forall_mem_cons.1 hfront
      exact .plain hc (fun _ => List.append_ne_nil_of_right_ne_nil rest htext) (ih hrest)

/-- The scanner passes a text in balance and is on the same level behind it. -/
theorem cut (h : Balanced text) {top : OpenSpan} {outer : List OpenSpan} {offset : Nat}
    {rest : List Char} {r : List Char × Cut} (htop : top.delimiter = .bracket)
    (hcut : cutInside top outer offset rest = .ok r) (offset' : Nat) :
    cutInside top outer offset' (text ++ rest) = .ok (text ++ r.1, r.2) := by
  induction h generalizing top outer offset offset' rest r with
  | nil => exact cutInside_offset _ rfl offset' hcut
  | @plain c text hc hslash h ih =>
      have hprotects : top.protects c (text ++ rest) = false := by
        by_cases hc : c = '\\'
        · have hhead := h.head?_ne
          obtain ⟨d, more, rfl⟩ := List.exists_cons_of_ne_nil (hslash hc)
          exact Bool.eq_false_iff.2 fun hguard => hhead (OpenSpan.protects_iff.1 hguard).2
        · exact protects_of_ne hc top _
      exact cutInside_cons offset' hprotects (OpenSpan.advance_of_plain htop hc) (ih htop hcut 0)
  | @escaped text h ih =>
      have hprotects : top.protects '\\' (']' :: (text ++ rest)) = true :=
        OpenSpan.protects_iff.2 ⟨⟨htop, rfl⟩, rfl⟩
      rw [List.cons_append, List.cons_append, cutInside_guarded hprotects, ih htop hcut]
      rfl
  | @quoted d text more hd htext h ih =>
      have hbody := cutInside_quoted hd htext offset' 0 (ih htop hcut 0)
      have hprotects (behind : List Char) : top.protects d.closer behind = false := by
        cases d <;> exact protects_of_ne (by decide) top behind
      simpa using cutInside_cons offset' (hprotects _) (OpenSpan.advance_quote htop hd) hbody
  | @group inner more hinner h ihinner ih =>
      have hclose : cutInside ⟨.bracket, offset'⟩ (top :: outer) 0 (']' :: (more ++ rest)) =
          .ok (']' :: (more ++ r.1), r.2) :=
        cutInside_cons 0 (protects_of_ne (by decide) _ _) rfl (ih htop hcut 0)
      have hopen := cutInside_cons offset' (protects_of_ne (by decide) top _)
        (OpenSpan.advance_open htop) (ihinner rfl hclose 0)
      simpa using hopen

end Balanced

/-! ## What open spans ask of a text -/

/-- What may stand in a span before it is closed. -/
def Body : Delimiter → List Char → Prop
  | .bracket, text => Balanced text
  | d, text => d.closer ∉ text

theorem body_nil (d : Delimiter) : Body d [] := by
  cases d with
  | bracket => exact .nil
  | single => exact List.not_mem_nil
  | double => exact List.not_mem_nil

theorem body_of_quote {d : Delimiter} (hd : d ≠ .bracket) (text : List Char) :
    Body d text ↔ d.closer ∉ text := by
  cases d with
  | bracket => exact absurd rfl hd
  | single => rfl
  | double => rfl

/-- The text closes the open spans one after the other and ends with the last of them. -/
inductive Closes : List Delimiter → List Char → Prop
  | nil : Closes [] []
  | cons {d : Delimiter} {ds : List Delimiter} {body rest : List Char} (h : Body d body)
      (hrest : Closes ds rest) : Closes (d :: ds) (body ++ d.closer :: rest)

theorem Closes.exists_body {d : Delimiter} {ds : List Delimiter} {text : List Char}
    (h : Closes (d :: ds) text) :
    ∃ body rest, text = body ++ d.closer :: rest ∧ Body d body ∧ Closes ds rest := by
  cases h with
  | cons hbody hrest => exact ⟨_, _, rfl, hbody, hrest⟩

/-- A text that closes one bracket is a text in balance and a closing bracket. -/
theorem balanced_of_closes {text : List Char} (h : Closes [.bracket] (text ++ [']'])) :
    Balanced text := by
  obtain ⟨body, rest, htext, hbody, hrest⟩ := h.exists_body
  cases hrest
  rw [List.append_cancel_right htext]
  exact hbody

/-- What the spans open behind a character ask of a text, the spans in front of it ask of the
text with the character. -/
theorem Closes.advance {top : OpenSpan} {outer : List OpenSpan} {offset : Nat} {c : Char}
    {text : List Char} (h : Closes ((top.advance outer offset c).map OpenSpan.delimiter) text)
    (hguard : ¬top.protects c text = true) :
    Closes ((top :: outer).map OpenSpan.delimiter) (c :: text) := by
  obtain ⟨d, opened⟩ := top
  by_cases hclose : c = d.closer
  · rw [OpenSpan.advance, if_pos hclose] at h
    subst hclose
    exact .cons (body_nil d) h
  · rw [OpenSpan.advance, if_neg hclose] at h
    by_cases hd : d = .bracket
    · subst hd
      cases hopened : Delimiter.opened? c with
      | some d =>
          -- The new span ends inside the bracket around it.
          simp only [hopened, List.map_cons] at h
          obtain ⟨body, rest, rfl, hbody, hrest⟩ := h.exists_body
          obtain ⟨inner, rest, rfl, hinner, hrest⟩ := hrest.exists_body
          have hspan : Body .bracket (c :: (body ++ d.closer :: inner)) := by
            rcases Delimiter.eq_of_opened? hopened with ⟨rfl, rfl⟩ | ⟨rfl, hd⟩
            · exact Balanced.group hbody hinner
            · exact Balanced.quoted hd ((body_of_quote hd body).1 hbody) hinner
          simpa using Closes.cons hspan hrest
      | none =>
          simp only [hopened, List.map_cons] at h
          obtain ⟨body, rest, rfl, hbody, hrest⟩ := h.exists_body
          have hc : Plain c := by
            refine ⟨?_, hclose, ?_, ?_⟩ <;> rintro rfl <;> simp [Delimiter.opened?] at hopened
          have hslash : c = '\\' → body ≠ [] := by
            rintro rfl rfl
            exact hguard rfl
          exact Closes.cons (d := .bracket) (Balanced.plain hc hslash hbody) hrest
    · have hstay : Closes (d :: outer.map OpenSpan.delimiter) text := by
        cases d with
        | bracket => exact absurd rfl hd
        | single => exact h
        | double => exact h
      obtain ⟨body, rest, rfl, hbody, hrest⟩ := hstay.exists_body
      rw [body_of_quote hd] at hbody
      have hmore : Body d (c :: body) :=
        (body_of_quote hd _).2 (List.not_mem_cons_of_ne_of_not_mem (Ne.symm hclose) hbody)
      exact Closes.cons hmore hrest

/-! ## Regular cuts -/

/-- A text without brackets. -/
def Unbracketed (text : List Char) : Prop :=
  ∀ c ∈ text, c ≠ '[' ∧ c ≠ ']'

/-- A bracket group in balance and text without brackets behind it. -/
structure RegularGroup (g : List Char × List Char) : Prop where
  balanced : Balanced g.1
  unbracketed : Unbracketed g.2

/-- A name without brackets and regular groups. -/
structure Cut.Regular (c : Cut) : Prop where
  name : Unbracketed c.name
  groups : ∀ g ∈ c.groups, RegularGroup g

theorem Cut.Regular.cons {c : Char} (hopen : c ≠ '[') (hclose : c ≠ ']') {cut : Cut}
    (h : cut.Regular) : (cut.cons c).Regular where
  name := List.forall_mem_cons.2 ⟨⟨hopen, hclose⟩, h.name⟩
  groups := h.groups

theorem Cut.Regular.group {inside : List Char} (hinside : Balanced inside) {cut : Cut}
    (h : cut.Regular) : (Cut.group inside cut).Regular where
  name := List.forall_mem_nil _
  groups := List.forall_mem_cons.2 ⟨⟨hinside, h.name⟩, h.groups⟩

mutual

/-- What a text is cut into is regular. -/
theorem regular_of_cutOutside (cs : List Char) {offset : Nat} {cut : Cut}
    (h : cutOutside offset cs = .ok cut) : cut.Regular := by
  match cs with
  | [] =>
      obtain rfl := Except.ok.inj h
      exact ⟨List.forall_mem_nil _, List.forall_mem_nil _⟩
  | c :: rest =>
      rw [cutOutside] at h
      by_cases hopen : c = '['
      · rw [if_pos hopen] at h
        obtain ⟨⟨inside, behind⟩, hinside, rfl⟩ := map_eq_ok.1 h
        obtain ⟨hcloses, hbehind⟩ := closes_of_cutInside rest (by simp [Rooted]) hinside
        exact hbehind.group (balanced_of_closes hcloses)
      · rw [if_neg hopen] at h
        by_cases hclose : c = ']'
        · rw [if_pos hclose] at h
          simp at h
        · rw [if_neg hclose] at h
          obtain ⟨behind, hbehind, rfl⟩ := map_eq_ok.1 h
          exact (regular_of_cutOutside rest hbehind).cons hopen hclose

/-- What is cut inside open spans closes all of them, and a regular cut follows. -/
theorem closes_of_cutInside (cs : List Char) {top : OpenSpan} {outer : List OpenSpan}
    {offset : Nat} {inside : List Char} {cut : Cut} (hr : Rooted (top :: outer))
    (h : cutInside top outer offset cs = .ok (inside, cut)) :
    Closes ((top :: outer).map OpenSpan.delimiter) (inside ++ [']']) ∧ cut.Regular := by
  match cs with
  | [] => simp [cutInside] at h
  | c :: rest =>
      by_cases hguard : top.protects c rest = true
      · match rest with
        | [] => simp [OpenSpan.protects] at hguard
        | d :: rest =>
            rw [cutInside_guarded hguard] at h
            obtain ⟨⟨more, cut⟩, hmore, heq⟩ := map_eq_ok.1 h
            obtain ⟨rfl, rfl⟩ := Prod.mk.inj heq
            obtain ⟨hcloses, hcut⟩ := closes_of_cutInside rest hr hmore
            obtain ⟨⟨htop, rfl⟩, hd⟩ := OpenSpan.protects_iff.1 hguard
            obtain rfl := Option.some.inj hd
            rw [List.map_cons, htop] at hcloses ⊢
            obtain ⟨body, rest, htext, hbody, hrest⟩ := hcloses.exists_body
            refine ⟨?_, hcut⟩
            rw [List.cons_append, List.cons_append, htext]
            exact Closes.cons (d := .bracket) (Balanced.escaped hbody) hrest
      · cases hnext : top.advance outer offset c with
        | nil =>
            rw [cutInside_closing hguard hnext] at h
            obtain ⟨cut, hcut, heq⟩ := map_eq_ok.1 h
            obtain ⟨rfl, rfl⟩ := Prod.mk.inj heq
            obtain rfl := eq_of_advance_nil hr hnext
            have hempty : Closes ((top.advance outer offset ']').map OpenSpan.delimiter) [] := by
              rw [hnext]
              exact .nil
            exact ⟨hempty.advance (protects_closing top []), regular_of_cutOutside rest hcut⟩
        | cons inner spans =>
            rw [cutInside_inner hguard hnext] at h
            obtain ⟨⟨more, cut⟩, hmore, heq⟩ := map_eq_ok.1 h
            obtain ⟨rfl, rfl⟩ := Prod.mk.inj heq
            have hroot : Rooted (inner :: spans) := hnext ▸ hr.advance offset c
            obtain ⟨hcloses, hcut⟩ := closes_of_cutInside rest hroot hmore
            have hspelled := text_of_cutInside _ _ _ _ _ _ hroot hmore
            rw [← hspelled, protects_append] at hguard
            rw [← hnext] at hcloses
            exact ⟨hcloses.advance hguard, hcut⟩

end

/-- Regular groups are cut into themselves. -/
theorem cutOutside_groupsText {groups : List (List Char × List Char)}
    (h : ∀ g ∈ groups, RegularGroup g) (offset : Nat) :
    cutOutside offset (groupsText groups) = .ok ⟨[], groups⟩ := by
  induction groups generalizing offset with
  | nil => rfl
  | cons g rest ih =>
      obtain ⟨inside, behind⟩ := g
      obtain ⟨hg, hrest⟩ := List.forall_mem_cons.1 h
      have hbehind := cutOutside_append hg.unbracketed 0 (ih hrest 0)
      have hclose : cutInside ⟨.bracket, offset⟩ [] 0 (']' :: (behind ++ groupsText rest)) =
          .ok ([], ⟨behind, rest⟩) := by
        rw [cutInside_closing (protects_closing _ _) rfl, cutOutside_offset _ _ hbehind]
        simp
      rw [groupsText, cutOutside, if_pos rfl, hg.balanced.cut rfl hclose, List.append_nil]
      rfl

/-- A text is cut into the regular cut that spells it. -/
theorem cutOutside_eq_ok_iff {cs : List Char} {offset : Nat} {c : Cut} :
    cutOutside offset cs = .ok c ↔ c.text = cs ∧ c.Regular := by
  constructor
  · intro h
    exact ⟨text_of_cutOutside cs offset c h, regular_of_cutOutside cs h⟩
  · rintro ⟨rfl, hname, hgroups⟩
    rw [Cut.text, cutOutside_append hname offset (cutOutside_groupsText hgroups 0), List.append_nil]

/-! ## Reading the groups -/

/-- The inside of a group is read as a qualifier. -/
def Reads (inside : List Char) (q : String × String) : Prop :=
  ∃ raw, splitEquals inside = some (q.1.toList, raw) ∧ cleanValue raw = q.2.toList

/-- The groups of a cut are read one by one, and only their insides matter. -/
theorem mapM_qualifier_iff {token : String} {groups : List (List Char × List Char)}
    {qualifiers : List (String × String)} :
    groups.mapM (fun g => qualifier token g.1) = .ok qualifiers ↔
      List.Forall₂ Reads (groups.map Prod.fst) qualifiers := by
  induction groups generalizing qualifiers with
  | nil => simp [pure, Except.pure, eq_comm]
  | cons g rest ih =>
      simp only [List.mapM_cons, bind_eq_ok, ih, pure, Except.pure, qualifier_eq_ok]
      constructor
      · rintro ⟨q, hq, qs, hqs, heq⟩
        exact Except.ok.inj heq ▸ .cons hq hqs
      · intro h
        cases h with
        | cons hq hqs => exact ⟨_, hq, _, hqs, rfl⟩

/-- A key is the regular cut that spells the token, with its groups read. -/
theorem parse_eq_ok_iff {token : String} {key : Key} :
    parse token = .ok key ↔ ∃ c : Cut, c.text = token.toList ∧ c.Regular ∧
      c.name = key.name.toList ∧ List.Forall₂ Reads (c.groups.map Prod.fst) key.qualifiers := by
  rw [parse_eq_ok]
  simp only [cutOutside_eq_ok_iff, mapM_qualifier_iff]
  constructor
  · rintro ⟨c, ⟨htext, hregular⟩, hread, hname⟩
    exact ⟨c, htext, hregular, hname, hread⟩
  · rintro ⟨c, htext, hregular, hname, hread⟩
    exact ⟨c, ⟨htext, hregular⟩, hread, hname⟩

theorem splitEquals_isSome {text : List Char} : (splitEquals text).isSome ↔ '=' ∈ text := by
  induction text with
  | nil => simp [splitEquals]
  | cons c rest ih =>
      rw [splitEquals]
      by_cases hc : c = '='
      · simp [hc]
      · simp [hc, ih, Ne.symm hc]

/-- A text is read as a qualifier if it has an equals sign. -/
theorem exists_reads_iff {inside : List Char} : (∃ q, Reads inside q) ↔ '=' ∈ inside := by
  rw [← splitEquals_isSome, Option.isSome_iff_exists]
  constructor
  · rintro ⟨q, raw, hraw, -⟩
    exact ⟨_, hraw⟩
  · rintro ⟨⟨field, raw⟩, hraw⟩
    exact ⟨(String.ofList field, String.ofList (cleanValue raw)), raw, by simpa using hraw, by simp⟩

theorem exists_qualifiers_iff {insides : List (List Char)} :
    (∃ qualifiers, List.Forall₂ Reads insides qualifiers) ↔ ∀ t ∈ insides, '=' ∈ t := by
  induction insides with
  | nil => simp
  | cons t rest ih =>
      rw [List.forall_mem_cons, ← ih, ← exists_reads_iff]
      constructor
      · rintro ⟨_, h⟩
        cases h with
        | cons hq hqs => exact ⟨⟨_, hq⟩, _, hqs⟩
      · rintro ⟨⟨q, hq⟩, qs, hqs⟩
        exact ⟨_, .cons hq hqs⟩

/-! ## Written keys -/

/-- The text is a name and bracket groups in balance, with an equals sign in each of them. -/
def Written (token : String) : Prop :=
  ∃ (name : List Char) (groups : List (List Char)),
    token.toList = name ++ groups.flatMap (fun g => '[' :: (g ++ [']'])) ∧
    Unbracketed name ∧ ∀ g ∈ groups, Balanced g ∧ '=' ∈ g

/-- The cut without the text behind its groups. -/
def Cut.bare (c : Cut) : Cut :=
  { c with groups := c.groups.map fun g => (g.1, []) }

theorem Cut.bare_eq_self {c : Cut} : c.bare = c ↔ ∀ g ∈ c.groups, g.2 = [] := by
  obtain ⟨name, groups⟩ := c
  simp only [bare, mk.injEq, true_and]
  induction groups with
  | nil => simp
  | cons g rest ih =>
      obtain ⟨inside, behind⟩ := g
      rw [List.map_cons, List.cons.injEq, ih, List.forall_mem_cons]
      simp [eq_comm]

theorem Cut.Regular.bare {c : Cut} (h : c.Regular) : c.bare.Regular where
  name := h.name
  groups := by
    rintro _ hg
    obtain ⟨g, hmem, rfl⟩ := List.mem_map.1 hg
    exact ⟨(h.groups g hmem).balanced, List.forall_mem_nil _⟩

theorem Cut.fst_groups_bare (c : Cut) : c.bare.groups.map Prod.fst = c.groups.map Prod.fst := by
  simp [bare]

theorem groupsText_bare (insides : List (List Char)) :
    groupsText (insides.map (·, [])) = insides.flatMap fun g => '[' :: (g ++ [']']) := by
  induction insides with
  | nil => rfl
  | cons g rest ih => simp [groupsText, ih]

/-- A text is a written key if it is cut into groups with an equals sign in each and nothing
behind them. -/
theorem written_iff_exists_cut {token : String} :
    Written token ↔ ∃ c, cutOutside 0 token.toList = .ok c ∧ c.bare = c ∧
      ∀ t ∈ c.groups.map Prod.fst, '=' ∈ t := by
  constructor
  · rintro ⟨name, groups, htext, hname, hgroups⟩
    refine ⟨⟨name, groups.map (·, [])⟩, cutOutside_eq_ok_iff.2 ⟨?_, hname, ?_⟩, ?_, ?_⟩
    · rw [Cut.text, groupsText_bare, htext]
    · rintro _ hg
      obtain ⟨g, hmem, rfl⟩ := List.mem_map.1 hg
      exact ⟨(hgroups g hmem).1, List.forall_mem_nil _⟩
    · simp [Cut.bare]
    · intro t ht
      simp only [List.map_map, List.mem_map, Function.comp_apply] at ht
      obtain ⟨g, hmem, rfl⟩ := ht
      exact (hgroups g hmem).2
  · rintro ⟨c, hcut, hbare, hequals⟩
    obtain ⟨htext, hregular⟩ := cutOutside_eq_ok_iff.1 hcut
    refine ⟨c.name, c.groups.map Prod.fst, ?_, hregular.name, fun t ht => ⟨?_, hequals t ht⟩⟩
    · rw [← htext, ← hbare, Cut.text, ← groupsText_bare]
      simp [Cut.bare, Function.comp_def]
    · obtain ⟨g, hg, rfl⟩ := List.mem_map.1 ht
      exact (hregular.groups g hg).balanced

/-- A token is read as a key if a regular cut with an equals sign in each group spells it. -/
theorem exists_key_iff {token : String} :
    (∃ key, parse token = .ok key) ↔
      ∃ c : Cut, c.text = token.toList ∧ c.Regular ∧ ∀ g ∈ c.groups, '=' ∈ g.1 := by
  simp only [parse_eq_ok_iff]
  constructor
  · rintro ⟨key, c, htext, hregular, -, hread⟩
    have hequals := exists_qualifiers_iff.1 ⟨_, hread⟩
    exact ⟨c, htext, hregular, fun g hg => hequals _ (List.mem_map_of_mem hg)⟩
  · rintro ⟨c, htext, hregular, hequals⟩
    obtain ⟨qualifiers, hread⟩ := exists_qualifiers_iff.2 (List.forall_mem_map.2 hequals)
    exact ⟨⟨String.ofList c.name, qualifiers⟩, c, htext, hregular, by simp, hread⟩

/-- What is read is what the token without the text behind its groups is read as. -/
theorem parse_bare {token : String} {key : Key} (h : parse token = .ok key) :
    ∃ c, cut token = .ok c ∧ Written (String.ofList c.bare.text) ∧
      parse (String.ofList c.bare.text) = .ok key := by
  obtain ⟨c, htext, hregular, hname, hread⟩ := parse_eq_ok_iff.1 h
  have hequals := exists_qualifiers_iff.1 ⟨_, hread⟩
  rw [← c.fst_groups_bare] at hequals hread
  refine ⟨c, cut_eq_ok.2 (cutOutside_eq_ok_iff.2 ⟨htext, hregular⟩), ?_, ?_⟩
  · refine written_iff_exists_cut.2 ⟨c.bare, ?_, ?_, hequals⟩
    · exact cutOutside_eq_ok_iff.2 ⟨String.toList_ofList.symm, hregular.bare⟩
    · simp [Cut.bare]
  · exact parse_eq_ok_iff.2 ⟨c.bare, String.toList_ofList.symm, hregular.bare, hname, hread⟩

/-- A token is read as a key if a regular cut with an equals sign in each group spells it.  A
written key is read, and of the tokens that are read it is one with nothing behind its groups.
Any other one is read as the written key that is left without the text behind the groups. -/
theorem written_iff (token : String) :
    ((∃ key, parse token = .ok key) ↔
      ∃ c : Cut, c.text = token.toList ∧ c.Regular ∧ ∀ g ∈ c.groups, '=' ∈ g.1) ∧
    (Written token ↔ (∃ key, parse token = .ok key) ∧
      ∀ c, cut token = .ok c → ∀ g ∈ c.groups, g.2 = []) ∧
    ∀ key, parse token = .ok key → ∃ c, cut token = .ok c ∧
      Written (String.ofList c.bare.text) ∧ parse (String.ofList c.bare.text) = .ok key := by
  refine ⟨exists_key_iff, ?_, fun key h => parse_bare h⟩
  rw [exists_key_iff, written_iff_exists_cut]
  simp only [cut_eq_ok, ← Cut.bare_eq_self]
  constructor
  · rintro ⟨c, hcut, hbare, hequals⟩
    obtain ⟨htext, hregular⟩ := cutOutside_eq_ok_iff.1 hcut
    refine ⟨⟨c, htext, hregular, List.forall_mem_map.1 hequals⟩, fun c' hcut' => ?_⟩
    obtain rfl := Except.ok.inj (hcut.symm.trans hcut')
    exact hbare
  · rintro ⟨⟨c, htext, hregular, hequals⟩, hbare⟩
    have hcut : cutOutside 0 token.toList = .ok c := cutOutside_eq_ok_iff.2 ⟨htext, hregular⟩
    exact ⟨c, hcut, hbare c hcut, List.forall_mem_map.2 hequals⟩

/-- A token with text behind its last group is read as a key, though it is none. -/
theorem tail_dropped : ¬∀ token, (∃ key, parse token = .ok key) ↔ Written token := by
  intro hall
  have hparse : parse "port[id=3]up" = .ok ⟨"port", [("id", "3")]⟩ := by decide +kernel
  have hcut : cutOutside 0 "port[id=3]up".toList =
      .ok ⟨"port".toList, [("id=3".toList, "up".toList)]⟩ := by decide +kernel
  obtain ⟨c, hc, hbare, -⟩ := written_iff_exists_cut.1 ((hall "port[id=3]up").1 ⟨_, hparse⟩)
  obtain rfl := Except.ok.inj (hcut.symm.trans hc)
  simp [Cut.bare] at hbare

end Key

end TreeSync

import Mathlib.Control.Monad.Basic
import TreeSync.Proofs.Document.KeyTree

/-!
# Keys read back from their text

Reading a key takes quotes and backslashes off its values.  Writing it looks at what is left:
a value with a closing bracket gets single quotes, any other value stands as it is.  That
brings back the key just when every qualifier, as it is written, is the inside of one group
and stands for its value again.  A value that holds a quote of its own can fail in this.

Main definitions and results:

- `Key.Enclosed` and `Key.cutInside_closing_iff`: a text that is the inside of one group.
- `Key.Legible`: a qualifier that is read back from what it is written as.
- `Key.legible_of_plain`, `Key.legible_of_quoted` and `Key.legible_of_tree`: plain texts, texts
  with closing brackets and nested keys.
- `Key.reread_iff`: the keys that are read back from their text.
-/

namespace TreeSync

namespace Key

/-! ## Texts between brackets -/

/-- Between brackets the text is the inside of one group. -/
def Enclosed (text : List Char) : Prop :=
  cutInside ⟨.bracket, 0⟩ [] 1 (text ++ [']']) = .ok (text, ⟨[], []⟩)

/-- A closing bracket is never protected. -/
theorem protects_closing (top : OpenSpan) (rest : List Char) : ¬top.protects ']' rest = true := by
  simp [OpenSpan.protects]

theorem protects_append {top : OpenSpan} {c d : Char} (text rest : List Char) :
    top.protects c (text ++ d :: rest) = top.protects c (text ++ [d]) := by
  cases text with
  | nil => rfl
  | cons e more => rfl

/-- A closing bracket ends a group behind a text just when it does so at the end; what follows
is cut on its own. -/
theorem cutInside_closing_iff (text rest : List Char) {top : OpenSpan} {outer : List OpenSpan}
    {offset : Nat} {cut : Cut} :
    cutInside top outer offset (text ++ ']' :: rest) = .ok (text, cut) ↔
      cutInside top outer offset (text ++ [']']) = .ok (text, ⟨[], []⟩) ∧
        cutOutside 0 rest = .ok cut := by
  cases text with
  | nil =>
      have hoffset (offset : Nat) : cutOutside offset rest = .ok cut ↔
          cutOutside 0 rest = .ok cut :=
        ⟨cutOutside_offset rest 0, cutOutside_offset rest offset⟩
      rw [List.nil_append, List.nil_append]
      cases hnext : top.advance outer offset ']' with
      | nil =>
          rw [cutInside_closing (protects_closing top _) hnext,
            cutInside_closing (protects_closing top _) hnext, ← hoffset (offset + ']'.utf8Size)]
          simp [map_eq_ok, cutOutside]
      | cons inner spans =>
          rw [cutInside_inner (protects_closing top _) hnext,
            cutInside_inner (protects_closing top _) hnext]
          simp [map_eq_ok]
  | cons c more =>
      rw [List.cons_append, List.cons_append]
      by_cases hguard : top.protects c (more ++ [']']) = true
      · have hguard' := (protects_append more rest).trans hguard
        cases more with
        | nil =>
            rw [List.nil_append] at hguard hguard' ⊢
            rw [List.nil_append, cutInside_guarded hguard, cutInside_guarded hguard']
            simp [map_eq_ok]
        | cons d more =>
            rw [List.cons_append] at hguard hguard' ⊢
            rw [List.cons_append, cutInside_guarded hguard, cutInside_guarded hguard']
            simpa [map_eq_ok] using cutInside_closing_iff more rest
      · have hguard' : ¬top.protects c (more ++ ']' :: rest) = true := by
          rwa [protects_append]
        cases hnext : top.advance outer offset c with
        | nil =>
            rw [cutInside_closing hguard hnext, cutInside_closing hguard' hnext]
            simp [map_eq_ok]
        | cons inner spans =>
            rw [cutInside_inner hguard hnext, cutInside_inner hguard' hnext]
            simpa [map_eq_ok] using cutInside_closing_iff more rest
termination_by text.length

/-! ## Written qualifiers -/

/-- What a value is written as. -/
def written (value : List Char) : List Char :=
  if value.head? = some '[' ∨ ¬value.contains ']' then value
  else '\x27' :: (value ++ ['\x27'])

/-- The inside of the group that a qualifier is written as. -/
def inside (q : String × String) : List Char :=
  q.1.toList ++ '=' :: written q.2.toList

theorem toList_renderQualifier (q : String × String) :
    (renderQualifier q.1 q.2).toList = '[' :: (inside q ++ [']']) := by
  unfold renderQualifier inside written
  split
  · simp
  · simp

theorem toList_render (key : Key) :
    key.render.toList =
      key.name.toList ++ groupsText (key.qualifiers.map fun q => (inside q, [])) := by
  obtain ⟨name, qualifiers⟩ := key
  rw [render, String.toList_append]
  congr 1
  induction qualifiers with
  | nil => rfl
  | cons q rest ih =>
      rw [List.map_cons, List.map_cons, groupsText, String.join_cons, String.toList_append,
        toList_renderQualifier, ih]
      simp

/-- Taking quotes off what stands between two of them. -/
theorem unquote_quoted (text : List Char) : unquote ('\x27' :: (text ++ ['\x27'])) = text := by
  simp [unquote]

theorem count_unquote (raw : List Char) : (unquote raw).count ']' = raw.count ']' := by
  unfold unquote
  split
  · rfl
  · rename_i q rest
    split
    · rename_i hquote
      obtain ⟨hq, hlast⟩ := hquote
      obtain ⟨front, rfl⟩ := List.getLast?_eq_some_iff.1 hlast
      have hne : q ≠ ']' := by
        rcases hq with rfl | rfl <;> decide
      simp [hne]
    · rfl

theorem count_unprotect (raw : List Char) : (unprotect raw).count ']' = raw.count ']' := by
  induction raw using unprotect.induct with
  | case1 rest ih => simp [unprotect, ih]
  | case2 c rest h ih =>
      rw [unprotect, List.count_cons, List.count_cons, ih]
      exact h
  | case3 => rfl

/-- A value has as many closing brackets as what stands for it. -/
theorem count_cleanValue (raw : List Char) : (cleanValue raw).count ']' = raw.count ']' := by
  unfold cleanValue
  split
  · rfl
  · rw [count_unprotect, count_unquote]

theorem count_written (value : List Char) : (written value).count ']' = value.count ']' := by
  unfold written
  split
  · rfl
  · simp

/-- What stands around the first equals sign spells the text. -/
theorem eq_append_of_splitEquals {text field raw : List Char}
    (h : splitEquals text = some (field, raw)) :
    text = field ++ '=' :: raw ∧ ∀ c ∈ field, c ≠ '=' := by
  induction text generalizing field with
  | nil => simp [splitEquals] at h
  | cons c rest ih =>
      rw [splitEquals] at h
      split at h
      · rename_i hc
        obtain ⟨rfl, rfl⟩ := Prod.mk.inj (Option.some.inj h)
        exact ⟨by rw [hc]; rfl, by simp⟩
      · rename_i hc
        obtain ⟨r, hr, heq⟩ := Option.map_eq_some_iff.1 h
        obtain ⟨rfl, rfl⟩ := Prod.mk.inj heq
        obtain ⟨htext, hfield⟩ := ih hr
        refine ⟨by rw [htext]; rfl, fun d hd => ?_⟩
        rcases List.mem_cons.1 hd with rfl | hmem
        · exact hc
        · exact hfield d hmem

theorem qualifier_eq_ok {token : String} {text : List Char} {q : String × String} :
    qualifier token text = .ok q ↔
      ∃ raw, splitEquals text = some (q.1.toList, raw) ∧ cleanValue raw = q.2.toList := by
  obtain ⟨field, value⟩ := q
  unfold qualifier
  cases hsplit : splitEquals text with
  | none => simp
  | some r =>
      obtain ⟨front, raw⟩ := r
      simp only [Except.ok.injEq, Prod.mk.injEq, Option.some.injEq, ← String.toList_inj,
        String.toList_ofList]
      constructor
      · rintro ⟨hfield, hvalue⟩
        exact ⟨raw, ⟨hfield, rfl⟩, hvalue⟩
      · rintro ⟨_, ⟨hfield, rfl⟩, hvalue⟩
        exact ⟨hfield, hvalue⟩

/-- The same number of marks in front of a mark means the same text in front. -/
theorem eq_of_append_cons {a : Char} {s t s' t' : List Char} (h : s ++ a :: s' = t ++ a :: t')
    (hcount : s.count a = t.count a) : s = t := by
  induction s generalizing t with
  | nil =>
      cases t with
      | nil => rfl
      | cons d t =>
          obtain ⟨rfl, -⟩ := List.cons.inj h
          simp at hcount
  | cons c s ih =>
      cases t with
      | nil =>
          obtain ⟨rfl, -⟩ := List.cons.inj h
          simp at hcount
      | cons d t =>
          obtain ⟨rfl, hrest⟩ := List.cons.inj h
          rw [List.count_cons, List.count_cons, Nat.add_right_cancel_iff] at hcount
          rw [ih hrest hcount]

/-! ## Legible keys -/

/-- The qualifier is read back from what it is written as. -/
structure Legible (q : String × String) : Prop where
  enclosed : Enclosed (inside q)
  cleanValue_eq : cleanValue (written q.2.toList) = q.2.toList

/-- The written groups are read as these qualifiers just when each qualifier is legible. -/
theorem reads_iff (token : String) {qualifiers : List (String × String)}
    (hfields : ∀ q ∈ qualifiers, ∀ c ∈ q.1.toList, c ≠ '=') :
    (∃ cut, cutOutside 0 (groupsText (qualifiers.map fun q => (inside q, []))) = .ok cut ∧
        cut.groups.mapM (fun g => qualifier token g.1) = .ok qualifiers) ↔
      ∀ q ∈ qualifiers, Legible q := by
  induction qualifiers with
  | nil => simp [groupsText, cutOutside, pure, Except.pure]
  | cons q rest ih =>
      have ih := ih fun q hq => hfields q (List.mem_cons_of_mem _ hq)
      have hfield := hfields q List.mem_cons_self
      have hwritten : qualifier token (inside q) = .ok q ↔
          cleanValue (written q.2.toList) = q.2.toList := by
        rw [qualifier_eq_ok, inside, splitEquals_append hfield]
        simp
      rw [List.forall_mem_cons, ← ih]
      rw [List.map_cons, groupsText, List.nil_append, cutOutside, if_pos rfl]
      constructor
      · rintro ⟨cut, hcut, hread⟩
        obtain ⟨⟨text, behind⟩, hinside, rfl⟩ := map_eq_ok.1 hcut
        simp only [Cut.group, List.mapM_cons, bind_eq_ok] at hread
        obtain ⟨q', hq', qs, hqs, heq⟩ := hread
        obtain ⟨rfl, rfl⟩ := List.cons.inj (Except.ok.inj heq)
        -- The text of the group is the written one: the closing bracket behind it has as many
        -- closing brackets in front of it in both.
        have hspelled := text_of_cutInside _ _ _ _ _ _ (by simp [Rooted]) hinside
        obtain ⟨raw, hraw, hvalue⟩ := qualifier_eq_ok.1 hq'
        obtain ⟨htext, -⟩ := eq_append_of_splitEquals hraw
        have hcount : text.count ']' = (inside q').count ']' := by
          rw [htext, inside, List.count_append, List.count_append, List.count_cons,
            List.count_cons, count_written, ← hvalue, count_cleanValue]
        obtain rfl := eq_of_append_cons hspelled hcount
        obtain ⟨henclosed, hbehind⟩ := (cutInside_closing_iff _ _).1 hinside
        exact ⟨⟨henclosed, hwritten.1 hq'⟩, behind, hbehind, hqs⟩
      · rintro ⟨⟨henclosed, hvalue⟩, behind, hbehind, hqs⟩
        have hinside := (cutInside_closing_iff _ _).2 ⟨henclosed, hbehind⟩
        refine ⟨_, map_eq_ok.2 ⟨_, hinside, rfl⟩, ?_⟩
        simp only [Cut.group, List.mapM_cons, hwritten.2 hvalue, hqs]
        rfl

/-! ## Values that are legible -/

/-- Text on one level is the inside of a group. -/
theorem enclosed_of_level {text : List Char} (h : Level text) : Enclosed text := by
  have hclose : cutInside ⟨.bracket, 0⟩ [] 1 [']'] = .ok ([], ⟨[], []⟩) := rfl
  simpa [Enclosed] using h.cut rfl hclose 1

section Classes

variable {field value : String}

/-- A value on one level is legible if it is a nested key or has no closing bracket. -/
theorem legible_of_level (hfield : ∀ c ∈ field.toList, Plain c ∧ c ≠ '=')
    (hvalue : Level value.toList) (hbare : value.toList.head? = some '[' ∨ ']' ∉ value.toList) :
    Legible (field, value) := by
  have hwritten : written value.toList = value.toList := by
    rw [written, if_pos (by simpa using hbare)]
  constructor
  · rw [inside, hwritten]
    exact enclosed_of_level (KeyTree.level_inside hfield hvalue)
  · rw [hwritten]
    exact hvalue.cleanValue_eq

/-- A text is legible if it opens and closes nothing and does not end in a backslash. -/
theorem legible_of_plain (hfield : ∀ c ∈ field.toList, Plain c ∧ c ≠ '=')
    (hvalue : ∀ c ∈ value.toList, Plain c) (hslash : value.toList.getLast? ≠ some '\\') :
    Legible (field, value) := by
  have hlevel : Level value.toList := by
    have h := level_nil.plain_append hvalue fun hlast => absurd hlast hslash
    rwa [List.append_nil] at h
  exact legible_of_level hfield hlevel (.inr fun hmem => (hvalue _ hmem).2.1 rfl)

/-- A nested key is legible. -/
theorem legible_of_tree (hfield : ∀ c ∈ field.toList, Plain c ∧ c ≠ '=')
    {branches : List (String × KeyTree)} (h : (KeyTree.tree "" branches).Nestable) :
    Legible (field, (KeyTree.tree "" branches).render) := by
  have hhead : (KeyTree.tree "" branches).render.toList.head? = some '[' := by
    obtain ⟨⟨name, child⟩, rest, rfl⟩ := List.exists_cons_of_ne_nil h.2.1
    rw [KeyTree.render, String.toList_append, KeyTree.toList_renderBranches_cons]
    rfl
  exact legible_of_level hfield (KeyTree.level_render _ h) (.inl hhead)

/-- Text without its closing quote between two quotes of one kind. -/
theorem cutInside_quoted {d : Delimiter} (hd : d ≠ .bracket) {text : List Char}
    (htext : d.closer ∉ text) {top : OpenSpan} {outer : List OpenSpan} {rest : List Char}
    {r : List Char × Cut} (opened offset : Nat) (h : cutInside top outer 0 rest = .ok r) :
    cutInside ⟨d, opened⟩ (top :: outer) offset (text ++ d.closer :: rest) =
      .ok (text ++ d.closer :: r.1, r.2) := by
  have hunguarded (c : Char) (behind : List Char) :
      OpenSpan.protects ⟨d, opened⟩ c behind = false := by
    simp [OpenSpan.protects, hd]
  induction text generalizing offset with
  | nil => exact cutInside_cons offset (hunguarded _ _) (if_pos rfl) h
  | cons c text ih =>
      obtain ⟨hc, htext⟩ := List.ne_and_not_mem_of_not_mem_cons htext
      have hstay : OpenSpan.advance ⟨d, opened⟩ (top :: outer) offset c =
          ⟨d, opened⟩ :: top :: outer := by
        cases d with
        | bracket => exact absurd rfl hd
        | single => exact if_neg (Ne.symm hc)
        | double => exact if_neg (Ne.symm hc)
      exact cutInside_cons offset (hunguarded _ _) hstay (ih htext 0)

theorem unprotect_eq_self {text : List Char} (h : ¬['\\', ']'] <:+: text) :
    unprotect text = text := by
  induction text using unprotect.induct with
  | case1 rest _ => exact absurd ⟨[], rest, rfl⟩ h
  | case2 c rest hne ih =>
      rw [unprotect, ih fun hrest => h (hrest.trans (List.suffix_cons c rest).isInfix)]
      exact hne
  | case3 => rfl

/-- A value with a closing bracket is legible if it has no single quote and no backslash in
front of a closing bracket. -/
theorem legible_of_quoted (hfield : ∀ c ∈ field.toList, Plain c ∧ c ≠ '=')
    (hclosing : ']' ∈ value.toList) (hhead : value.toList.head? ≠ some '[')
    (hquote : ∀ c ∈ value.toList, c ≠ '\x27') (hslash : ¬['\\', ']'] <:+: value.toList) :
    Legible (field, value) := by
  have hwritten : written value.toList = '\x27' :: (value.toList ++ ['\x27']) := by
    rw [written, if_neg (by simpa [hhead] using hclosing)]
  constructor
  · have hclose : cutInside ⟨.bracket, 0⟩ [] 0 [']'] = .ok ([], ⟨[], []⟩) := rfl
    have hsingle : Delimiter.single.closer ∉ value.toList := fun hmem => hquote _ hmem rfl
    have hvalue : cutInside ⟨.bracket, 0⟩ [] 0 ('\x27' :: (value.toList ++ ['\x27', ']'])) =
        .ok ('\x27' :: (value.toList ++ ['\x27']), ⟨[], []⟩) :=
      cutInside_cons 0 rfl rfl (cutInside_quoted (d := .single) nofun hsingle 0 0 hclose)
    have hinside := (KeyTree.level_inside hfield level_nil).cut rfl hvalue 1
    simpa [Enclosed, inside, hwritten] using hinside
  · rw [hwritten, cleanValue, if_neg (by simp), unquote_quoted, unprotect_eq_self hslash]

end Classes

/-! ## Keys read back -/

/-- The name in front of the groups has no brackets. -/
theorem name_of_cutOutside {cs : List Char} {offset : Nat} {cut : Cut}
    (h : cutOutside offset cs = .ok cut) : ∀ c ∈ cut.name, c ≠ '[' ∧ c ≠ ']' := by
  induction cs generalizing offset cut with
  | nil =>
      obtain rfl := Except.ok.inj h
      simp
  | cons c rest ih =>
      rw [cutOutside] at h
      by_cases hopen : c = '['
      · rw [if_pos hopen] at h
        obtain ⟨r, -, rfl⟩ := map_eq_ok.1 h
        simp [Cut.group]
      · rw [if_neg hopen] at h
        by_cases hclose : c = ']'
        · rw [if_pos hclose] at h
          simp at h
        · rw [if_neg hclose] at h
          obtain ⟨behind, hbehind, rfl⟩ := map_eq_ok.1 h
          exact List.forall_mem_cons.2 ⟨⟨hopen, hclose⟩, ih hbehind⟩

theorem cut_eq_ok {token : String} {c : Cut} :
    cut token = .ok c ↔ cutOutside 0 token.toList = .ok c := by
  rw [cut]
  cases cutOutside 0 token.toList <;> simp

/-- A key is the name of the cut with a qualifier for each group. -/
theorem parse_eq_ok {token : String} {key : Key} :
    parse token = .ok key ↔ ∃ c, cutOutside 0 token.toList = .ok c ∧
      c.groups.mapM (fun g => qualifier token g.1) = .ok key.qualifiers ∧
        c.name = key.name.toList := by
  obtain ⟨name, qualifiers⟩ := key
  simp only [parse, bind_eq_ok, cut_eq_ok, pure, Except.pure, Except.ok.injEq, mk.injEq]
  refine exists_congr fun c => and_congr_right fun _ => ?_
  constructor
  · rintro ⟨qs, hqs, rfl, rfl⟩
    exact ⟨hqs, String.toList_ofList.symm⟩
  · rintro ⟨hqs, hname⟩
    exact ⟨qualifiers, hqs, by rw [hname, String.ofList_toList], rfl⟩

/-- Nothing stands in front of written groups. -/
theorem name_of_groupsText {groups : List (List Char × List Char)} {offset : Nat} {c : Cut}
    (h : cutOutside offset (groupsText groups) = .ok c) : c.name = [] := by
  cases groups with
  | nil =>
      obtain rfl := Except.ok.inj h
      rfl
  | cons g rest =>
      obtain ⟨text, behind⟩ := g
      rw [groupsText, cutOutside, if_pos rfl] at h
      obtain ⟨r, -, rfl⟩ := map_eq_ok.1 h
      rfl

/-- A name in front of a text becomes part of the name of its cut. -/
theorem cutOutside_append_iff {name : List Char} (hname : ∀ c ∈ name, c ≠ '[' ∧ c ≠ ']')
    (cs : List Char) (offset : Nat) {c : Cut} :
    cutOutside offset (name ++ cs) = .ok c ↔
      ∃ c', cutOutside 0 cs = .ok c' ∧ c = { c' with name := name ++ c'.name } := by
  constructor
  · intro h
    induction name generalizing offset c with
    | nil => exact ⟨c, cutOutside_offset cs 0 h, rfl⟩
    | cons d rest ih =>
        obtain ⟨⟨hopen, hclose⟩, hrest⟩ := List.forall_mem_cons.1 hname
        rw [List.cons_append, cutOutside, if_neg hopen, if_neg hclose] at h
        obtain ⟨behind, hbehind, rfl⟩ := map_eq_ok.1 h
        obtain ⟨c', hc', rfl⟩ := ih hrest _ hbehind
        exact ⟨c', hc', rfl⟩
  · rintro ⟨c', hc', rfl⟩
    exact cutOutside_append hname offset hc'

/-- The parts of a key that was read. -/
theorem parts_of_parse {token : String} {key : Key} (h : parse token = .ok key) :
    (∀ c ∈ key.name.toList, c ≠ '[' ∧ c ≠ ']') ∧
      ∀ q ∈ key.qualifiers, ∀ c ∈ q.1.toList, c ≠ '=' := by
  obtain ⟨cut, hcut, hread, hname⟩ := parse_eq_ok.1 h
  refine ⟨hname ▸ name_of_cutOutside hcut, ?_⟩
  generalize key.qualifiers = qualifiers at hread
  generalize cut.groups = groups at hread
  induction groups generalizing qualifiers with
  | nil =>
      obtain rfl := Except.ok.inj hread
      simp
  | cons g rest ih =>
      simp only [List.mapM_cons, bind_eq_ok] at hread
      obtain ⟨q, hq, qs, hqs, heq⟩ := hread
      obtain rfl := Except.ok.inj heq
      obtain ⟨raw, hraw, -⟩ := qualifier_eq_ok.1 hq
      exact List.forall_mem_cons.2 ⟨(eq_append_of_splitEquals hraw).2, ih qs hqs⟩

/-- A key that was read is read back from its own text just when all of its qualifiers are
legible. -/
theorem reread_iff {token : String} {key : Key} (h : parse token = .ok key) :
    parse key.render = .ok key ↔ ∀ q ∈ key.qualifiers, Legible q := by
  obtain ⟨hname, hfields⟩ := parts_of_parse h
  rw [← reads_iff key.render hfields, parse_eq_ok, toList_render]
  simp only [cutOutside_append_iff hname]
  constructor
  · rintro ⟨_, ⟨c, hc, rfl⟩, hread, -⟩
    exact ⟨c, hc, hread⟩
  · rintro ⟨c, hc, hread⟩
    refine ⟨_, ⟨c, hc, rfl⟩, hread, ?_⟩
    simp [name_of_groupsText hc]

/-- A key with an escaped, a quoted and a nested value and text between its groups is read
back from the form that it is written in. -/
theorem reread_iff_shelf :
    parse "x[a=\"1\"][b=p\\]q]/[c=[d=e]]" =
        .ok ⟨"x", [("a", "1"), ("b", "p]q"), ("c", "[d=e]")]⟩ ∧
      parse "x[a=1][b='p]q'][c=[d=e]]" =
        .ok ⟨"x", [("a", "1"), ("b", "p]q"), ("c", "[d=e]")]⟩ := by
  have hparse : parse "x[a=\"1\"][b=p\\]q]/[c=[d=e]]" =
      .ok ⟨"x", [("a", "1"), ("b", "p]q"), ("c", "[d=e]")]⟩ := by decide +kernel
  have hplain : Legible ("a", "1") :=
    legible_of_plain (by simp [Plain]) (by simp [Plain]) (by decide)
  have hquoted : Legible ("b", "p]q") :=
    legible_of_quoted (by simp [Plain]) (by simp) (by simp) (by simp) (by decide)
  have hnested : Legible ("c", "[d=e]") := by
    have h : (KeyTree.tree "" [("d", .text "e")]).Nestable := by
      simp [KeyTree.Nestable, KeyTree.NestableBranches, Plain]
    have hrender : (KeyTree.tree "" [("d", .text "e")]).render = "[d=e]" := by decide +kernel
    exact hrender ▸ legible_of_tree (by simp [Plain]) h
  refine ⟨hparse, (reread_iff hparse).2 ?_⟩
  simp only [List.forall_mem_cons]
  exact ⟨hplain, hquoted, hnested, by simp⟩

/-- A quote that a value was given in other quotes for is written bare. -/
theorem quote_not_reread :
    ¬∀ token key, parse token = .ok key → parse key.render = .ok key := by
  intro hall
  have hparse : parse "x[a=\"\x27\"]" = .ok ⟨"x", [("a", "\x27")]⟩ := by decide +kernel
  have hrefused : parse (render ⟨"x", [("a", "\x27")]⟩) = .error (.unbalanced "x[a=\x27]" 4) := by
    decide +kernel
  rw [hall _ _ hparse] at hrefused
  simp at hrefused

end Key

end TreeSync

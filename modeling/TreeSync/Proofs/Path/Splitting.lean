import TreeSync.Proofs.Path.Grammar

/-!
# Qualifiers handed down

A search takes the name off a token and hands the text of its groups to the next level, which
takes that text for a token in turn.  There it is cut into the same groups, so no qualifier is
lost, gained or read in another way.

Main definitions and results:

- `Key.handed`: groups with nothing behind the last one.
- `Key.split_eq_ok_iff`: splitting takes the name and the text of these groups.
- `Key.exists_parse_iff`: the qualifiers of a token are read from the insides of its groups.
- `Key.split_hands_down`: what the text that is handed down has in common with its token.
-/

namespace TreeSync

namespace Key

variable {groups : List (List Char × List Char)} {token name rest : String}

/-! ## The text of the groups -/

/-- The groups with nothing behind the last one. -/
def handed : List (List Char × List Char) → List (List Char × List Char)
  | [] => []
  | [(inside, _)] => [(inside, [])]
  | g :: next :: rest => g :: handed (next :: rest)

/-- The qualifier text is the text of the groups that are handed down. -/
theorem qualifierText_eq (groups : List (List Char × List Char)) :
    qualifierText groups = groupsText (handed groups) := by
  induction groups using handed.induct with
  | case1 => rfl
  | case2 inside behind => rfl
  | case3 g next rest ih =>
      rw [handed, groupsText, ← ih]
      rfl

/-- The groups that are handed down have the texts that they had. -/
theorem fst_handed (groups : List (List Char × List Char)) :
    (handed groups).map Prod.fst = groups.map Prod.fst := by
  induction groups using handed.induct with
  | case1 => rfl
  | case2 inside behind => rfl
  | case3 g next rest ih =>
      rw [handed, List.map_cons, ih]
      rfl

/-- What is handed down is the beginning of what follows the name. -/
theorem prefix_groupsText_handed (groups : List (List Char × List Char)) :
    groupsText (handed groups) <+: groupsText groups := by
  induction groups using handed.induct with
  | case1 => exact List.prefix_refl _
  | case2 inside behind => exact ⟨behind, by simp [handed, groupsText]⟩
  | case3 g next rest ih =>
      obtain ⟨more, hmore⟩ := ih
      exact ⟨more, by rw [handed, groupsText, groupsText, ← hmore]; simp⟩

/-- Regular groups are handed down as regular groups. -/
theorem regular_handed (h : ∀ g ∈ groups, RegularGroup g) : ∀ g ∈ handed groups, RegularGroup g := by
  induction groups using handed.induct with
  | case1 => exact h
  | case2 inside behind =>
      have hinside := (h _ List.mem_cons_self).balanced
      exact List.forall_mem_singleton.2 ⟨hinside, List.forall_mem_nil _⟩
  | case3 g next rest ih =>
      obtain ⟨hg, hrest⟩ := List.forall_mem_cons.1 h
      exact List.forall_mem_cons.2 ⟨hg, ih hrest⟩

theorem head?_handed (hne : groups ≠ []) : (groupsText (handed groups)).head? = some '[' := by
  induction groups using handed.induct with
  | case1 => exact absurd rfl hne
  | case2 inside behind => rfl
  | case3 g next rest => rfl

theorem getLast?_handed (hne : groups ≠ []) :
    (groupsText (handed groups)).getLast? = some ']' := by
  rw [List.getLast?_eq_some_iff]
  induction groups using handed.induct with
  | case1 => exact absurd rfl hne
  | case2 inside behind => exact ⟨'[' :: inside, rfl⟩
  | case3 g next rest ih =>
      obtain ⟨front, hfront⟩ := ih (List.cons_ne_nil _ _)
      exact ⟨'[' :: (g.1 ++ ']' :: (g.2 ++ front)), by rw [handed, groupsText, hfront]; simp⟩

/-- What was handed down is handed down again as it is. -/
theorem handed_handed (groups : List (List Char × List Char)) :
    handed (handed groups) = handed groups := by
  induction groups using handed.induct with
  | case1 => rfl
  | case2 inside behind => rfl
  | case3 g next rest ih =>
      obtain ⟨first, more, hcons⟩ : ∃ first more, handed (next :: rest) = first :: more := by
        cases rest <;> exact ⟨_, _, rfl⟩
      rw [handed, hcons, handed, ← hcons, ih]

/-! ## Splitting and reading a regular cut -/

/-- A token is split where a regular cut of it is: behind the name. -/
theorem split_eq_ok_iff :
    split token = .ok (name, rest) ↔ ∃ c : Cut, c.text = token.toList ∧ c.Regular ∧
      c.name = name.toList ∧ groupsText (handed c.groups) = rest.toList := by
  simp only [split, bind_eq_ok, cut_eq_ok, cutOutside_eq_ok_iff, pure, Except.pure,
    Except.ok.injEq, Prod.mk.injEq, ← qualifierText_eq, and_assoc]
  refine exists_congr fun c => and_congr_right fun _ => and_congr_right fun _ => ?_
  rw [← String.toList_inj, ← String.toList_inj, String.toList_ofList, String.toList_ofList]

/-- The qualifiers of a token are read from the insides of its groups. -/
theorem exists_parse_iff {c : Cut} (htext : c.text = token.toList) (hregular : c.Regular)
    {qualifiers : List (String × String)} :
    (∃ key, parse token = .ok key ∧ key.qualifiers = qualifiers) ↔
      List.Forall₂ Reads (c.groups.map Prod.fst) qualifiers := by
  constructor
  · rintro ⟨key, hparse, rfl⟩
    obtain ⟨c', htext', hregular', -, hread⟩ := parse_eq_ok_iff.1 hparse
    have hcut : cutOutside 0 token.toList = .ok c := cutOutside_eq_ok_iff.2 ⟨htext, hregular⟩
    have hcut' : cutOutside 0 token.toList = .ok c' := cutOutside_eq_ok_iff.2 ⟨htext', hregular'⟩
    obtain rfl := Except.ok.inj (hcut.symm.trans hcut')
    exact hread
  · intro hread
    exact ⟨⟨String.ofList c.name, qualifiers⟩,
      parse_eq_ok_iff.2 ⟨c, htext, hregular, String.toList_ofList.symm, hread⟩, rfl⟩

/-- A token without an opening bracket has no groups. -/
theorem groups_eq_nil_iff {c : Cut} (hregular : c.Regular) : c.groups = [] ↔ '[' ∉ c.text := by
  obtain ⟨name, groups⟩ := c
  cases groups with
  | nil =>
      refine iff_of_true rfl fun hmem => ?_
      rw [Cut.text, groupsText, List.append_nil] at hmem
      exact (hregular.name _ hmem).1 rfl
  | cons g rest => simp [Cut.text, groupsText]

/-! ## What is handed down -/

/-- A token is split into a name without brackets and a text that starts and ends with a bracket,
if there is any.  The two are what the token begins with.  Split again, the text stays as it is,
and it is read as a key just when the token is, with the same qualifiers. -/
theorem split_hands_down (h : split token = .ok (name, rest)) :
    (∀ c ∈ name.toList, c ≠ '[' ∧ c ≠ ']') ∧ (name ++ rest).toList <+: token.toList ∧
    (rest = "" ↔ '[' ∉ token.toList) ∧
    (rest ≠ "" → rest.toList.head? = some '[' ∧ rest.toList.getLast? = some ']' ∧
      split rest = .ok ("", rest)) ∧
    ∀ qualifiers, (∃ key, parse token = .ok key ∧ key.qualifiers = qualifiers) ↔
      ∃ key, parse rest = .ok key ∧ key.qualifiers = qualifiers := by
  obtain ⟨c, htext, hregular, hname, hrest⟩ := split_eq_ok_iff.1 h
  have hhanded : Cut.Regular ⟨[], handed c.groups⟩ :=
    ⟨List.forall_mem_nil _, regular_handed hregular.groups⟩
  have hspelled : Cut.text ⟨[], handed c.groups⟩ = rest.toList := hrest
  have hempty : rest = "" ↔ c.groups = [] := by
    rw [← String.toList_inj, ← hrest]
    cases hgroups : c.groups with
    | nil => simp [handed, groupsText]
    | cons g more => cases more <;> simp [handed, groupsText]
  refine ⟨hname ▸ hregular.name, ?_, ?_, fun hne => ⟨?_, ?_, ?_⟩, fun qualifiers => ?_⟩
  · rw [String.toList_append, ← hname, ← hrest, ← htext]
    exact (List.prefix_append_right_inj c.name).2 (prefix_groupsText_handed c.groups)
  · rw [hempty, groups_eq_nil_iff hregular, htext]
  · rw [← hrest]
    exact head?_handed fun hgroups => hne (hempty.2 hgroups)
  · rw [← hrest]
    exact getLast?_handed fun hgroups => hne (hempty.2 hgroups)
  · exact split_eq_ok_iff.2 ⟨_, hspelled, hhanded, rfl, by rw [handed_handed, hrest]⟩
  · rw [exists_parse_iff htext hregular, exists_parse_iff hspelled hhanded, fst_handed]

/-- A token with a nested key, quotes, and text between and behind its groups. -/
theorem split_hands_down_switch :
    split "é[a=[b=']']]-[c=\\]\"[\"]x" = .ok ("é", "[a=[b=']']]-[c=\\]\"[\"]") ∧
      split "[a=[b=']']]-[c=\\]\"[\"]" = .ok ("", "[a=[b=']']]-[c=\\]\"[\"]") ∧
      ∃ key, parse "[a=[b=']']]-[c=\\]\"[\"]" = .ok key ∧
        key.qualifiers = [("a", "[b=']']"), ("c", "]\"[\"")] := by
  have hsplit : split "é[a=[b=']']]-[c=\\]\"[\"]x" = .ok ("é", "[a=[b=']']]-[c=\\]\"[\"]") := by
    decide +kernel
  have hparse : parse "é[a=[b=']']]-[c=\\]\"[\"]x" =
      .ok ⟨"é", [("a", "[b=']']"), ("c", "]\"[\"")]⟩ := by decide +kernel
  obtain ⟨-, -, -, hagain, hread⟩ := split_hands_down hsplit
  exact ⟨hsplit, (hagain (by decide)).2.2, (hread _).1 ⟨_, hparse, rfl⟩⟩

end Key

end TreeSync

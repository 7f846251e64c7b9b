import TreeSync.Navigate.Field
import TreeSync.Path.KeyText
import TreeSync.Proofs.Outcome

/-!
# Names in front of bracket groups

Byte offsets only show where a token is out of balance.  So what a balanced text
is cut into does not depend on what stands in front of it, and a field name
followed by bracket groups splits into just these two.

Main definitions and results:

- `Key.Bracketed`: a text that is nothing but bracket groups.
- `Key.cutOutside_offset`: cutting a balanced text at another offset.
- `Key.splitField_append`: a name in front of bracket groups.
-/

namespace TreeSync

namespace OpenSpan

/-- Which spans are open after a character depends on the delimiters alone. -/
theorem delimiters_advance {top top' : OpenSpan} {outer outer' : List OpenSpan}
    (h : (top :: outer).map delimiter = (top' :: outer').map delimiter) (offset offset' : Nat)
    (c : Char) :
    (top.advance outer offset c).map delimiter = (top'.advance outer' offset' c).map delimiter := by
  obtain ⟨htop, houter⟩ := List.cons.inj h
  rw [advance, advance, htop]
  split
  · exact houter
  · split
    · split
      · simp only [List.map_cons, htop, houter]
      · exact h
    · exact h

end OpenSpan

namespace Key

/-! ## One character inside a bracket -/

section Inside

variable {top inner : OpenSpan} {outer spans : List OpenSpan} {c : Char} {rest : List Char}
  {offset : Nat}

/-- A protected closing bracket stays inside, behind its backslash. -/
theorem cutInside_guarded {d : Char} (h : top.protects c (d :: rest) = true) :
    cutInside top outer offset (c :: d :: rest) =
      (fun r => (c :: d :: r.1, r.2)) <$>
        cutInside top outer (offset + c.utf8Size + d.utf8Size) rest := by
  rw [cutInside.eq_def]
  exact if_pos h

/-- A character that closes the last open span ends the group. -/
theorem cutInside_closing (h : ¬top.protects c rest = true)
    (hnext : top.advance outer offset c = []) :
    cutInside top outer offset (c :: rest) =
      (fun cut => ([], cut)) <$> cutOutside (offset + c.utf8Size) rest := by
  rw [cutInside.eq_def]
  simp only [if_neg h, hnext]

/-- Any other character stays inside. -/
theorem cutInside_inner (h : ¬top.protects c rest = true)
    (hnext : top.advance outer offset c = inner :: spans) :
    cutInside top outer offset (c :: rest) =
      (fun r => (c :: r.1, r.2)) <$> cutInside inner spans (offset + c.utf8Size) rest := by
  rw [cutInside.eq_def]
  simp only [if_neg h, hnext]

end Inside

/-! ## Offsets -/

mutual

/-- A balanced text is cut into the same groups at every offset. -/
theorem cutOutside_offset (cs : List Char) {offset : Nat} (offset' : Nat) {cut : Cut}
    (h : cutOutside offset cs = .ok cut) : cutOutside offset' cs = .ok cut := by
  match cs with
  | [] => exact h
  | c :: rest =>
      rw [cutOutside] at h ⊢
      by_cases hopen : c = '['
      · rw [if_pos hopen] at h ⊢
        rcases map_eq_ok.1 h with ⟨r, hr, rfl⟩
        have hspans : [OpenSpan.mk .bracket offset].map OpenSpan.delimiter =
            [OpenSpan.mk .bracket offset'].map OpenSpan.delimiter := rfl
        exact map_eq_ok.2 ⟨r, cutInside_offset rest hspans _ hr, rfl⟩
      · rw [if_neg hopen] at h ⊢
        by_cases hclose : c = ']'
        · rw [if_pos hclose] at h
          simp at h
        · rw [if_neg hclose] at h ⊢
          rcases map_eq_ok.1 h with ⟨r, hr, rfl⟩
          exact map_eq_ok.2 ⟨r, cutOutside_offset rest _ hr, rfl⟩

/-- The rest of a group is cut in the same way at every offset, inside spans of
the same delimiters. -/
theorem cutInside_offset (cs : List Char) {top top' : OpenSpan} {outer outer' : List OpenSpan}
    (hspans : (top :: outer).map OpenSpan.delimiter = (top' :: outer').map OpenSpan.delimiter)
    {offset : Nat} (offset' : Nat) {r : List Char × Cut}
    (h : cutInside top outer offset cs = .ok r) : cutInside top' outer' offset' cs = .ok r := by
  match cs with
  | [] => simp [cutInside] at h
  | c :: rest =>
      have hprotects : top'.protects c rest = top.protects c rest := by
        rw [OpenSpan.protects, OpenSpan.protects, (List.cons.inj hspans).1]
      have hadvance := OpenSpan.delimiters_advance hspans offset offset' c
      unfold cutInside at h ⊢
      rw [hprotects]
      by_cases hprotected : top.protects c rest = true
      · rw [if_pos hprotected] at h ⊢
        match rest with
        | [] => simp at h
        | d :: rest =>
            rcases map_eq_ok.1 h with ⟨r, hr, rfl⟩
            exact map_eq_ok.2 ⟨r, cutInside_offset rest hspans _ hr, rfl⟩
      · rw [if_neg hprotected] at h ⊢
        cases hnext : top.advance outer offset c with
        | nil =>
            rw [hnext] at h hadvance
            rw [List.map_eq_nil_iff.1 hadvance.symm]
            rcases map_eq_ok.1 h with ⟨r, hr, rfl⟩
            exact map_eq_ok.2 ⟨r, cutOutside_offset rest _ hr, rfl⟩
        | cons inner spans =>
            rw [hnext] at h hadvance
            rcases map_eq_ok.1 h with ⟨r, hr, rfl⟩
            cases hnext' : top'.advance outer' offset' c with
            | nil => simp [hnext'] at hadvance
            | cons inner' spans' =>
                rw [hnext'] at hadvance
                exact map_eq_ok.2 ⟨r, cutInside_offset rest hadvance _ hr, rfl⟩

end

/-! ## A name in front -/

/-- A text without brackets in front becomes part of the name. -/
theorem cutOutside_append {name : List Char} (hname : ∀ c ∈ name, c ≠ '[' ∧ c ≠ ']')
    {cs : List Char} {offset : Nat} (offset' : Nat) {cut : Cut}
    (h : cutOutside offset cs = .ok cut) :
    cutOutside offset' (name ++ cs) = .ok { cut with name := name ++ cut.name } := by
  induction name generalizing offset' with
  | nil => exact cutOutside_offset cs offset' h
  | cons c rest ih =>
      have hc := hname c List.mem_cons_self
      have hrest := ih (fun d hd => hname d (List.mem_cons_of_mem c hd)) (offset' + c.utf8Size)
      rw [List.cons_append, cutOutside, if_neg hc.1, if_neg hc.2, hrest]
      rfl

/-- The text is one or more balanced bracket groups with nothing between or
around them. -/
def Bracketed (text : String) : Prop :=
  ∃ groups, groups ≠ [] ∧ cut text = .ok ⟨[], groups⟩ ∧ ∀ g ∈ groups, g.2 = []

/-- Groups with nothing behind them are their own qualifier text. -/
theorem qualifierText_eq_groupsText {groups : List (List Char × List Char)}
    (h : ∀ g ∈ groups, g.2 = []) : qualifierText groups = groupsText groups := by
  induction groups with
  | nil => rfl
  | cons g rest ih =>
      obtain ⟨inside, behind⟩ := g
      obtain rfl : behind = [] := h _ List.mem_cons_self
      have hrest := ih fun g hg => h g (List.mem_cons_of_mem _ hg)
      cases rest with
      | nil => rfl
      | cons next rest =>
          rw [qualifierText, groupsText, hrest]
          simp

/-- What a bracketed text is cut into spells it. -/
theorem Bracketed.exists_cut {text : String} (h : Bracketed text) :
    ∃ groups, groups ≠ [] ∧ cutOutside 0 text.toList = .ok ⟨[], groups⟩ ∧
      qualifierText groups = text.toList := by
  rcases h with ⟨groups, hne, hcut, hbehind⟩
  rw [cut] at hcut
  cases hout : cutOutside 0 text.toList with
  | error offset => simp [hout] at hcut
  | ok c =>
      rw [hout] at hcut
      obtain rfl := Except.ok.inj hcut
      refine ⟨groups, hne, rfl, ?_⟩
      rw [qualifierText_eq_groupsText hbehind]
      exact text_of_cutOutside _ _ _ hout

/-- A bracketed text starts with a bracket. -/
theorem Bracketed.isStructured {text : String} (h : Bracketed text) : isStructured text = true := by
  rcases h.exists_cut with ⟨groups, hne, -, htext⟩
  rw [Key.isStructured, ← htext]
  cases groups with
  | nil => exact absurd rfl hne
  | cons g rest =>
      cases rest with
      | nil => simp [qualifierText]
      | cons next rest => simp [qualifierText]

theorem Bracketed.isEmpty_eq {text : String} (h : Bracketed text) : text.isEmpty = false := by
  have hstructured := h.isStructured
  by_cases hempty : text = ""
  · rw [hempty] at hstructured
    exact absurd hstructured (by decide)
  · simpa using hempty

/-- A name in front of bracket groups is what a record is asked for, and the groups
go to what the field holds. -/
theorem splitField_append {name text : String} (hname : ∀ c ∈ name.toList, c ≠ '[' ∧ c ≠ ']')
    (h : Bracketed text) : splitField (name ++ text) = .ok (name, text) := by
  rcases h.exists_cut with ⟨groups, -, hcut, htext⟩
  have hstructured : Key.isStructured (name ++ text) = true := by
    have hmem := h.isStructured
    rw [Key.isStructured] at hmem ⊢
    rw [String.toList_append]
    simp only [List.contains_iff_mem, List.mem_append] at hmem ⊢
    exact Or.inr hmem
  have hsplit : split (name ++ text) = .ok (name, text) := by
    rw [split, cut, String.toList_append, cutOutside_append hname 0 hcut]
    simp [bind, Except.bind, pure, Except.pure, htext]
  rw [splitField, if_pos hstructured, hsplit]

end Key

end TreeSync

import TreeSync.Path.Key

/-!
# What a cut holds

Cutting a token loses nothing: the name and the bracket groups, written one
after the other, are the token.  So the values of a key are shorter than its
text, and taking nested keys apart comes to an end.

Main results:

- `Key.text_of_cutOutside`: the cut of a text spells that text.
- `Key.weight_of_parse`: the values of a key fit into its text side by side.
-/

namespace TreeSync

namespace Key

/-! ## The text of a cut -/

/-- The text of the bracket groups with what follows each of them. -/
def groupsText : List (List Char × List Char) → List Char
  | [] => []
  | (inside, behind) :: rest => '[' :: (inside ++ ']' :: (behind ++ groupsText rest))

/-- The text that a cut was made of. -/
def Cut.text (cut : Cut) : List Char :=
  cut.name ++ groupsText cut.groups

@[simp] theorem Cut.text_cons (c : Char) (cut : Cut) : (cut.cons c).text = c :: cut.text := rfl

@[simp] theorem Cut.text_group (inside : List Char) (cut : Cut) :
    (Cut.group inside cut).text = '[' :: (inside ++ ']' :: cut.text) := rfl

/-- The outermost of the open spans is a bracket. -/
def Rooted (spans : List OpenSpan) : Prop :=
  ∀ s ∈ spans.getLast?, s.delimiter = .bracket

/-- Advancing inside a bracket stays inside it or closes it. -/
theorem Rooted.advance {top : OpenSpan} {outer : List OpenSpan} (h : Rooted (top :: outer))
    (offset : Nat) (c : Char) : Rooted (top.advance outer offset c) := by
  have tail : Rooted outer := by
    cases outer with
    | nil => simp [Rooted]
    | cons s rest => simpa [Rooted] using h
  unfold OpenSpan.advance
  split
  · exact tail
  · split
    · split
      · simpa [Rooted] using h
      · exact h
    · exact h

/-- Only a closing bracket closes the outermost bracket. -/
theorem eq_of_advance_nil {top : OpenSpan} {outer : List OpenSpan} (h : Rooted (top :: outer))
    {offset : Nat} {c : Char} (ha : top.advance outer offset c = []) : c = ']' := by
  unfold OpenSpan.advance at ha
  split at ha
  · rename_i hc
    subst ha
    have hb : top.delimiter = .bracket := by simpa [Rooted] using h
    simpa [hb, Delimiter.closer] using hc
  · split at ha
    · split at ha <;> simp at ha
    · simp at ha

mutual

/-- The cut of a text spells that text. -/
theorem text_of_cutOutside (cs : List Char) (offset : Nat) (cut : Cut)
    (h : cutOutside offset cs = .ok cut) : cut.text = cs := by
  match cs with
  | [] =>
      simp only [cutOutside, Except.ok.injEq] at h
      subst h
      rfl
  | c :: rest =>
      simp only [cutOutside] at h
      split at h
      · rename_i hc
        cases hi : cutInside ⟨.bracket, offset⟩ [] (offset + c.utf8Size) rest with
        | error e => simp [hi, Functor.map, Except.map] at h
        | ok r =>
            simp only [hi, Functor.map, Except.map, Except.ok.injEq] at h
            subst h
            have := text_of_cutInside rest _ _ _ r.1 r.2 (by simp [Rooted]) hi
            simp [this, hc]
      · split at h
        · simp at h
        · cases ho : cutOutside (offset + c.utf8Size) rest with
          | error e => simp [ho, Functor.map, Except.map] at h
          | ok r =>
              simp only [ho, Functor.map, Except.map, Except.ok.injEq] at h
              subst h
              simp [text_of_cutOutside rest _ r ho]

/-- What is cut inside a bracket group spells the rest of the group and the text
behind it. -/
theorem text_of_cutInside (cs : List Char) (top : OpenSpan) (outer : List OpenSpan) (offset : Nat)
    (inside : List Char) (cut : Cut) (hr : Rooted (top :: outer))
    (h : cutInside top outer offset cs = .ok (inside, cut)) : inside ++ ']' :: cut.text = cs := by
  match cs with
  | [] => simp [cutInside] at h
  | c :: rest =>
      unfold cutInside at h
      split at h
      · match rest with
        | [] => simp at h
        | d :: rest =>
            simp only at h
            cases hi : cutInside top outer (offset + c.utf8Size + d.utf8Size) rest with
            | error e => simp [hi, Functor.map, Except.map] at h
            | ok r =>
                simp only [hi, Functor.map, Except.map, Except.ok.injEq, Prod.mk.injEq] at h
                obtain ⟨rfl, rfl⟩ := h
                simp [text_of_cutInside rest _ _ _ r.1 r.2 hr hi]
      · split at h
        · rename_i ha
          cases ho : cutOutside (offset + c.utf8Size) rest with
          | error e => simp [ho, Functor.map, Except.map] at h
          | ok r =>
              simp only [ho, Functor.map, Except.map, Except.ok.injEq, Prod.mk.injEq] at h
              obtain ⟨rfl, rfl⟩ := h
              simp [text_of_cutOutside rest _ r ho, eq_of_advance_nil hr ha]
        · rename_i top' outer' ha
          cases hi : cutInside top' outer' (offset + c.utf8Size) rest with
          | error e => simp [hi, Functor.map, Except.map] at h
          | ok r =>
              simp only [hi, Functor.map, Except.map, Except.ok.injEq, Prod.mk.injEq] at h
              obtain ⟨rfl, rfl⟩ := h
              simp [text_of_cutInside rest _ _ _ r.1 r.2 (ha ▸ hr.advance offset c) hi]

end

/-! ## The weight of a key -/

/-- The length of all values, with one more for each of them. -/
def weight : List (String × String) → Nat
  | [] => 0
  | (_, value) :: rest => value.length + 1 + weight rest

/-- An equals sign separates what it is in the middle of. -/
theorem length_splitEquals {text field raw : List Char} (h : splitEquals text = some (field, raw)) :
    field.length + 1 + raw.length = text.length := by
  induction text generalizing field with
  | nil => simp [splitEquals] at h
  | cons c rest ih =>
      unfold splitEquals at h
      split at h
      · simp only [Option.some.injEq, Prod.mk.injEq] at h
        obtain ⟨rfl, rfl⟩ := h
        simp; omega
      · cases hs : splitEquals rest with
        | none => simp [hs] at h
        | some r =>
            simp only [hs, Option.map_some, Option.some.injEq, Prod.mk.injEq] at h
            obtain ⟨rfl, rfl⟩ := h
            have := ih hs
            simp; omega

/-- Dropping backslashes makes no text longer. -/
theorem length_unprotect_le (raw : List Char) : (unprotect raw).length ≤ raw.length := by
  induction raw using unprotect.induct with
  | case1 rest ih => simp [unprotect]; omega
  | case2 c rest h ih =>
      rw [unprotect]
      · simp; omega
      · exact h
  | case3 => simp [unprotect]

/-- Removing quotes makes no text longer. -/
theorem length_unquote_le (raw : List Char) : (unquote raw).length ≤ raw.length := by
  unfold unquote
  split
  · simp
  · split <;> simp
    omega

/-- A value is no longer than the text it is written as. -/
theorem length_cleanValue_le (raw : List Char) : (cleanValue raw).length ≤ raw.length := by
  unfold cleanValue
  split
  · exact Nat.le_refl _
  · exact Nat.le_trans (length_unprotect_le _) (length_unquote_le _)

/-- The values of bracket groups fit into the text of the groups. -/
theorem weight_of_mapM {token : String} {groups : List (List Char × List Char)}
    {qualifiers : List (String × String)}
    (h : groups.mapM (fun g => qualifier token g.1) = .ok qualifiers) :
    weight qualifiers ≤ (groupsText groups).length := by
  induction groups generalizing qualifiers with
  | nil =>
      simp only [List.mapM_nil, pure, Except.pure, Except.ok.injEq] at h
      subst h
      simp [weight]
  | cons g rest ih =>
      obtain ⟨inside, behind⟩ := g
      simp only [List.mapM_cons, bind, Except.bind, pure, Except.pure] at h
      cases hq : qualifier token inside with
      | error e => simp [hq] at h
      | ok q =>
          cases hr : rest.mapM (fun g => qualifier token g.1) with
          | error e => simp [hq, hr] at h
          | ok qs =>
              simp only [hq, hr, Except.ok.injEq] at h
              subst h
              have htail := ih hr
              have hhead : q.2.length ≤ inside.length := by
                unfold qualifier at hq
                cases hs : splitEquals inside with
                | none => simp [hs] at hq
                | some r =>
                    simp only [hs, Except.ok.injEq] at hq
                    subst hq
                    have := length_splitEquals hs
                    have := length_cleanValue_le r.2
                    simp only [String.length_ofList]
                    omega
              obtain ⟨field, value⟩ := q
              simp only [weight, groupsText, List.length_cons, List.length_append]
              simp only at hhead
              omega

/-- The values of a key fit into its text side by side. -/
theorem weight_of_parse {token : String} {key : Key} (h : parse token = .ok key) :
    weight key.qualifiers ≤ token.length := by
  simp only [parse, bind, Except.bind, pure, Except.pure] at h
  cases hc : cut token with
  | error e => simp [hc] at h
  | ok c =>
      simp only [hc] at h
      cases hm : c.groups.mapM (fun g => qualifier token g.1) with
      | error e => simp [hm] at h
      | ok qs =>
          simp only [hm, Except.ok.injEq] at h
          subst h
          unfold cut at hc
          cases ho : cutOutside 0 token.toList with
          | error e => simp [ho] at hc
          | ok c' =>
              simp only [ho, Except.ok.injEq] at hc
              subst hc
              have htext := text_of_cutOutside _ _ _ ho
              have := weight_of_mapM hm
              have hlen := congrArg List.length htext
              simp only [Cut.text, List.length_append, String.length_toList] at hlen
              simp only
              omega

end Key

end TreeSync

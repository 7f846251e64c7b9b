import TreeSync.Proofs.Path.Scanning
import TreeSync.Proofs.Path.Slicing
import TreeSync.Proofs.Path.Splitting

/-!
# Where the spans of a key are

The scan by bytes keeps the offset at which a bracket was opened until the bracket is closed.  It
goes through a token with the same spans open as the cut does, so what it notes is where the
groups of the cut stand.  A group stands between two brackets with nothing open around them, and
so every slice that is taken at these offsets is a piece of the token.

Main definitions and results:

- `Key.spansFrom` and `Key.scan_eq`: the spans that are noted are those of the cut.
- `Key.Settled`: a text behind which nothing is open.
- `Key.Span.Placed` and `Key.WellPlaced`: where spans may be in a token.
- `Key.parseSpans?_eq` and `Key.splitSpans?_eq`: reading a key by its spans never fails.
- `Key.spans_wellPlaced`: all of this for every token.
-/

namespace TreeSync

namespace OpenSpan

variable {top inner : OpenSpan} {outer spans : List OpenSpan} {offset : Nat} {c : Char}

/-- The outermost open span stays the same until it is closed. -/
theorem getLast?_advance (h : top.advance outer offset c = inner :: spans) :
    (inner :: spans).getLast? = (top :: outer).getLast? := by
  rw [← h]
  unfold advance at h ⊢
  split
  · rename_i hc
    rw [if_pos hc] at h
    rw [h, List.getLast?_cons_cons]
  · split
    · split
      · rw [List.getLast?_cons_cons]
      · rfl
    · rfl

/-- Only the last open span can leave nothing open. -/
theorem outer_eq_nil (h : top.advance outer offset c = []) : outer = [] := by
  unfold advance at h
  split at h
  · exact h
  · split at h
    · split at h <;> simp at h
    · simp at h

/-- Whether a backslash protects a bracket is told by the character behind it. -/
theorem protects_append_of_ne_nil {text : List Char} (h : text ≠ []) (rest : List Char) :
    top.protects c (text ++ rest) = top.protects c text := by
  cases text with
  | nil => exact absurd rfl h
  | cons d text => rfl

/-- What closes a span is no backslash. -/
theorem protects_of_advance_nil (h : top.advance outer offset c = []) (rest : List Char) :
    ¬top.protects c rest = true := by
  intro hprotects
  obtain ⟨⟨hbracket, rfl⟩, -⟩ := protects_iff.1 hprotects
  have hstay : top.advance outer offset '\\' = top :: outer := by
    simp [advance, hbracket, Delimiter.closer, Delimiter.opened?]
  rw [h] at hstay
  exact List.cons_ne_nil _ _ hstay.symm

end OpenSpan

namespace Key

open String (utf8Len)

theorem add_utf8Len_cons (offset : Nat) (c : Char) (rest : List Char) :
    offset + utf8Len (c :: rest) = offset + c.utf8Size + utf8Len rest := by
  rw [String.utf8Len_cons]
  omega

/-! ## One character of the scan -/

section Scan

variable {noted noted' : Noted} {top inner : OpenSpan} {outer spans : List OpenSpan} {c : Char}
  {text rest : List Char} {offset : Nat}

theorem scanFrom_guarded {d : Char} (h : top.protects c (d :: rest) = true) :
    scanFrom noted (top :: outer) offset (c :: d :: rest) =
      scanFrom noted (top :: outer) (offset + c.utf8Size + d.utf8Size) rest := by
  rw [scanFrom.eq_def]
  exact if_pos h

theorem scanFrom_closing (h : ¬top.protects c rest = true)
    (hnext : top.advance outer offset c = []) :
    scanFrom noted (top :: outer) offset (c :: rest) =
      scanFrom (noted.close top offset) [] (offset + c.utf8Size) rest := by
  rw [scanFrom.eq_def]
  simp only [if_neg h, hnext]

theorem scanFrom_inner (h : ¬top.protects c rest = true)
    (hnext : top.advance outer offset c = inner :: spans) :
    scanFrom noted (top :: outer) offset (c :: rest) =
      scanFrom noted (inner :: spans) (offset + c.utf8Size) rest := by
  rw [scanFrom.eq_def]
  simp only [if_neg h, hnext]

/-- A scan that would end behind a text goes on behind it with nothing open. -/
theorem scanFrom_append (h : scanFrom noted spans offset text = .ok noted') (rest : List Char) :
    scanFrom noted spans offset (text ++ rest) =
      scanFrom noted' [] (offset + utf8Len text) rest := by
  fun_induction scanFrom noted spans offset text with
  | case1 noted offset =>
      obtain rfl := Except.ok.inj h
      rfl
  | case2 noted top outer offset => exact absurd h error_ne_ok
  | case3 noted offset more ih =>
      rw [List.cons_append, scanFrom, if_pos rfl, ih h, add_utf8Len_cons]
  | case4 noted offset more _ => exact absurd h error_ne_ok
  | case5 noted offset c more hopen hclose ih =>
      rw [List.cons_append, scanFrom, if_neg hopen, if_neg hclose, ih h, add_utf8Len_cons]
  | case6 noted top outer offset c _ => exact absurd h error_ne_ok
  | case7 noted top outer offset c d more hguard ih =>
      have hguard : top.protects c (d :: (more ++ rest)) = true := hguard
      rw [List.cons_append, List.cons_append, scanFrom_guarded hguard, ih h, add_utf8Len_cons,
        add_utf8Len_cons]
  | case8 noted top outer offset c more _ hnext ih =>
      have hguard := OpenSpan.protects_of_advance_nil hnext (more ++ rest)
      rw [List.cons_append, scanFrom_closing hguard hnext, ih h, add_utf8Len_cons]
  | case9 noted top outer offset c more hguard inner spans hnext ih =>
      -- A text that ends with a span open is not scanned to its end.
      have hmore : more ≠ [] := by
        rintro rfl
        exact error_ne_ok h
      rw [← OpenSpan.protects_append_of_ne_nil hmore rest] at hguard
      rw [List.cons_append, scanFrom_inner hguard hnext, ih h, add_utf8Len_cons]

end Scan

/-! ## The spans of a cut -/

/-- The insides of groups whose text starts at byte `offset`. -/
def spansFrom (offset : Nat) : List (List Char × List Char) → List Span
  | [] => []
  | (inside, behind) :: rest =>
      ⟨offset + 1, offset + 1 + utf8Len inside⟩ ::
        spansFrom (offset + 1 + utf8Len inside + 1 + utf8Len behind) rest

namespace Noted

/-- What is noted behind a text that is cut at byte `offset`. -/
def behind (noted : Noted) (offset : Nat) (cut : Cut) : Noted where
  nameEnd := noted.nameEnd.or (cut.groups.head?.map fun _ => offset + utf8Len cut.name)
  spans := noted.spans ++ spansFrom (offset + utf8Len cut.name) cut.groups

theorem behind_nil (noted : Noted) (offset : Nat) : noted.behind offset ⟨[], []⟩ = noted := by
  simp [behind, spansFrom]

theorem behind_cons (noted : Noted) (offset : Nat) (c : Char) (cut : Cut) :
    noted.behind offset (cut.cons c) = noted.behind (offset + c.utf8Size) cut := by
  simp only [behind, Cut.cons, add_utf8Len_cons]

/-- A group is met at its bracket and closed behind its inside. -/
theorem behind_group (noted : Noted) (offset : Nat) (inside : List Char) (cut : Cut) :
    noted.behind offset (Cut.group inside cut) =
      ((noted.meet offset).close ⟨.bracket, offset⟩ (offset + 1 + utf8Len inside)).behind
        (offset + 1 + utf8Len inside + 1) cut := by
  cases hname : noted.nameEnd <;> simp [behind, Cut.group, close, meet, spansFrom, hname]

end Noted

mutual

/-- Outside of all groups the scan notes what the cut finds. -/
theorem scanFrom_outside (cs : List Char) (noted : Noted) (offset : Nat) :
    scanFrom noted [] offset cs = noted.behind offset <$> cutOutside offset cs := by
  match cs with
  | [] =>
      rw [scanFrom, cutOutside]
      exact congrArg Except.ok (noted.behind_nil offset).symm
  | c :: rest =>
      rw [scanFrom, cutOutside]
      by_cases hopen : c = '['
      · subst hopen
        rw [if_pos rfl, if_pos rfl, Functor.map_map,
          scanFrom_inside rest (noted.meet offset) ⟨.bracket, offset⟩ [] _ offset rfl]
        exact congrArg (· <$> _) (funext fun r => (noted.behind_group offset r.1 r.2).symm)
      · rw [if_neg hopen, if_neg hopen]
        by_cases hclose : c = ']'
        · rw [if_pos hclose, if_pos hclose]
          rfl
        · rw [if_neg hclose, if_neg hclose, Functor.map_map, scanFrom_outside rest]
          exact congrArg (· <$> _) (funext fun cut => (noted.behind_cons offset c cut).symm)

/-- Inside of a group it closes the bracket that was opened at byte `root` first. -/
theorem scanFrom_inside (cs : List Char) (noted : Noted) (top : OpenSpan) (outer : List OpenSpan)
    (offset root : Nat) (hroot : (top :: outer).getLast? = some ⟨.bracket, root⟩) :
    scanFrom noted (top :: outer) offset cs =
      (fun r => (noted.close ⟨.bracket, root⟩ (offset + utf8Len r.1)).behind
        (offset + utf8Len r.1 + 1) r.2) <$> cutInside top outer offset cs := by
  match cs with
  | [] => rfl
  | c :: rest =>
      by_cases hguard : top.protects c rest = true
      · match rest with
        | [] => simp [OpenSpan.protects] at hguard
        | d :: rest =>
            rw [scanFrom_guarded hguard, cutInside_guarded hguard, Functor.map_map,
              scanFrom_inside rest noted top outer _ root hroot]
            simp only [add_utf8Len_cons]
      · cases hnext : top.advance outer offset c with
        | nil =>
            obtain rfl := OpenSpan.outer_eq_nil hnext
            obtain rfl : top = ⟨.bracket, root⟩ := Option.some.inj hroot
            obtain rfl := eq_of_advance_nil (by simp [Rooted]) hnext
            rw [scanFrom_closing hguard hnext, cutInside_closing hguard hnext, Functor.map_map,
              scanFrom_outside rest]
            rfl
        | cons inner spans =>
            rw [scanFrom_inner hguard hnext, cutInside_inner hguard hnext, Functor.map_map,
              scanFrom_inside rest noted inner spans _ root
                ((OpenSpan.getLast?_advance hnext).trans hroot)]
            simp only [add_utf8Len_cons]

end

section Token

variable {token : String} {c : Cut}

/-- A token is the text of its cut, so a name in front of no group is all of it. -/
theorem utf8ByteSize_of_groups_eq_nil (htext : c.text = token.toList) (hgroups : c.groups = []) :
    token.utf8ByteSize = utf8Len c.name := by
  rw [← String.utf8Len_toList, ← htext, Cut.text, hgroups, groupsText, List.append_nil]

/-- The scan of a token notes the end of the name and the groups of its cut. -/
theorem scan_eq (token : String) :
    scan token =
      (fun c => (utf8Len c.name, spansFrom (utf8Len c.name) c.groups)) <$> cut token := by
  rw [scan, cut, scanFrom_outside]
  cases hcut : cutOutside 0 token.toList with
  | error offset => rfl
  | ok c =>
      have htext := text_of_cutOutside _ _ _ hcut
      refine congrArg Except.ok (Prod.ext ?_ ?_)
      · cases hgroups : c.groups with
        | nil =>
            simpa [Noted.behind, Noted.empty, hgroups] using
              utf8ByteSize_of_groups_eq_nil htext hgroups
        | cons g rest => simp [Noted.behind, Noted.empty, hgroups]
      · simp [Noted.behind, Noted.empty]

/-- What is scanned is the regular cut that spells the token. -/
theorem scan_eq_ok_iff {nameEnd : Nat} {spans : List Span} :
    scan token = .ok (nameEnd, spans) ↔ ∃ c : Cut, c.text = token.toList ∧ c.Regular ∧
      utf8Len c.name = nameEnd ∧ spansFrom (utf8Len c.name) c.groups = spans := by
  rw [scan_eq, map_eq_ok]
  simp only [cut_eq_ok, cutOutside_eq_ok_iff, Prod.mk.injEq, and_assoc]

end Token

/-! ## Where the spans are -/

/-- A scan that has gone through the text has nothing open, whatever stands behind it. -/
def Settled (text : List Char) : Prop :=
  ∃ noted, ∀ rest, scanFrom .empty [] 0 (text ++ rest) = scanFrom noted [] (utf8Len text) rest

/-- These are the texts that can be cut. -/
theorem settled_iff {text : List Char} : Settled text ↔ ∃ c : Cut, c.text = text ∧ c.Regular := by
  constructor
  · rintro ⟨noted, h⟩
    have hend : scanFrom .empty [] 0 text = .ok noted := by
      have hnil := h []
      rwa [List.append_nil, scanFrom] at hnil
    rw [scanFrom_outside] at hend
    obtain ⟨c, hcut, -⟩ := map_eq_ok.1 hend
    exact ⟨c, cutOutside_eq_ok_iff.1 hcut⟩
  · rintro ⟨c, hspelled⟩
    have hend : scanFrom .empty [] 0 text = .ok (Noted.empty.behind 0 c) := by
      rw [scanFrom_outside, cutOutside_eq_ok_iff.2 hspelled]
      rfl
    refine ⟨Noted.empty.behind 0 c, fun rest => ?_⟩
    rw [scanFrom_append hend rest, Nat.zero_add]

theorem groupsText_append (groups more : List (List Char × List Char)) :
    groupsText (groups ++ more) = groupsText groups ++ groupsText more := by
  induction groups with
  | nil => rfl
  | cons g rest ih =>
      rw [List.cons_append, groupsText, groupsText, ih]
      simp

/-- A group closes all that it opens. -/
theorem Settled.group {before inside behind : List Char} (h : Settled before)
    (hg : RegularGroup (inside, behind)) :
    Settled (before ++ '[' :: (inside ++ ']' :: behind)) := by
  obtain ⟨c, rfl, hregular⟩ := settled_iff.1 h
  refine settled_iff.2 ⟨⟨c.name, c.groups ++ [(inside, behind)]⟩, ?_, hregular.name, ?_⟩
  · simp [Cut.text, groupsText_append, groupsText]
  · exact List.forall_mem_append.2 ⟨hregular.groups, List.forall_mem_singleton.2 hg⟩

/-- The place of a span in its token. -/
structure Span.Placed (token : String) (span : Span) : Prop where
  /-- The span is in the token, and so are a byte in front of it and one behind. -/
  inside : 1 ≤ span.start ∧ span.start ≤ span.stop ∧ span.stop + 1 ≤ token.utf8ByteSize
  /-- These are a bracket and its partner.  Nothing is open in front of the first and behind the
  second. -/
  bracketed : ∃ before text after, token.toList = before ++ '[' :: (text ++ ']' :: after) ∧
    utf8Len before + 1 = span.start ∧ span.start + utf8Len text = span.stop ∧
    Settled before ∧ Balanced text ∧ Settled (before ++ '[' :: (text ++ [']']))
  /-- A character starts or ends at the ends of the span and at those of its brackets. -/
  boundaries : ∀ offset ∈ [span.start - 1, span.start, span.stop, span.stop + 1],
    String.Pos.Raw.IsValid token ⟨offset⟩

/-- A group is the place of a span. -/
theorem placed_of_group {token : String} {before inside after : List Char}
    (htoken : token.toList = before ++ '[' :: (inside ++ ']' :: after)) (hbefore : Settled before)
    (hinside : Balanced inside) :
    Span.Placed token ⟨utf8Len before + 1, utf8Len before + 1 + utf8Len inside⟩ := by
  have hopen : '['.utf8Size = 1 := rfl
  have hclose : ']'.utf8Size = 1 := rfl
  refine ⟨?_, ?_, ?_⟩
  · have hsize := congrArg utf8Len htoken
    simp only [String.utf8Len_toList, String.utf8Len_append, String.utf8Len_cons, hopen,
      hclose] at hsize
    simp only
    omega
  · have hgroup : RegularGroup (inside, []) := ⟨hinside, List.forall_mem_nil _⟩
    exact ⟨before, inside, after, htoken, rfl, rfl, hbefore, hinside, hbefore.group hgroup⟩
  · -- The four offsets are the lengths of longer and longer parts of the group.
    have hstart : token.toList = (before ++ ['[']) ++ (inside ++ ']' :: after) := by simp [htoken]
    have hstop : token.toList = (before ++ '[' :: inside) ++ ']' :: after := by simp [htoken]
    have hbehind : token.toList = (before ++ '[' :: (inside ++ [']'])) ++ after := by simp [htoken]
    simp only [List.forall_mem_cons, List.not_mem_nil, false_implies, implies_true, and_true]
    refine ⟨isValid_of_append htoken rfl, isValid_of_append hstart ?_,
      isValid_of_append hstop ?_, isValid_of_append hbehind ?_⟩ <;>
      simp only [String.utf8Len_append, String.utf8Len_cons, String.utf8Len_nil, hopen, hclose] <;>
      omega

/-- The scan of a token is well placed. -/
structure WellPlaced (token : String) (nameEnd : Nat) (spans : List Span) : Prop where
  /-- Every span stands between brackets of its own. -/
  placed : ∀ span ∈ spans, span.Placed token
  /-- The spans ascend, and their brackets do not meet. -/
  ascending : spans.Pairwise fun a b => a.stop + 1 < b.start
  /-- The name ends in front of the first bracket of the token, or with the token. -/
  name : ∃ name rest, token.toList = name ++ rest ∧ utf8Len name = nameEnd ∧ '[' ∉ name ∧
    (spans = [] ∧ rest = [] ∨ rest.head? = some '[')
  /-- That is one byte in front of the first span, or the length of the token. -/
  nameEnd_eq : (∃ first ∈ spans.head?, nameEnd + 1 = first.start) ∨
    spans = [] ∧ nameEnd = token.utf8ByteSize
  boundary : String.Pos.Raw.IsValid token ⟨nameEnd⟩

section Groups

variable {token : String} {before : List Char} {groups : List (List Char × List Char)}

/-- One byte in front of a group there is a bracket, and one behind it. -/
theorem utf8Len_group (inside behind : List Char) :
    utf8Len ('[' :: (inside ++ ']' :: behind)) = 1 + utf8Len inside + 1 + utf8Len behind := by
  have hopen : '['.utf8Size = 1 := rfl
  have hclose : ']'.utf8Size = 1 := rfl
  simp only [String.utf8Len_append, String.utf8Len_cons, hopen, hclose]
  omega

/-- The groups behind a group are behind a text that is longer by it. -/
theorem append_groupsText_cons (before inside behind : List Char)
    (rest : List (List Char × List Char)) :
    before ++ groupsText ((inside, behind) :: rest) =
      (before ++ '[' :: (inside ++ ']' :: behind)) ++ groupsText rest := by
  simp [groupsText]

/-- So are their spans. -/
theorem spansFrom_cons (before inside behind : List Char)
    (rest : List (List Char × List Char)) :
    spansFrom (utf8Len before) ((inside, behind) :: rest) =
      ⟨utf8Len before + 1, utf8Len before + 1 + utf8Len inside⟩ ::
        spansFrom (utf8Len (before ++ '[' :: (inside ++ ']' :: behind))) rest := by
  rw [spansFrom, String.utf8Len_append, utf8Len_group]
  simp only [Nat.add_assoc]

/-- Groups behind a text with nothing open are the places of spans. -/
theorem placed_spansFrom (htoken : token.toList = before ++ groupsText groups)
    (hbefore : Settled before) (hgroups : ∀ g ∈ groups, RegularGroup g) :
    ∀ span ∈ spansFrom (utf8Len before) groups, span.Placed token := by
  induction groups generalizing before with
  | nil => exact List.forall_mem_nil _
  | cons g rest ih =>
      obtain ⟨inside, behind⟩ := g
      obtain ⟨hg, hrest⟩ := List.forall_mem_cons.1 hgroups
      have hnext := htoken.trans (append_groupsText_cons before inside behind rest)
      rw [spansFrom_cons]
      exact List.forall_mem_cons.2 ⟨placed_of_group htoken hbefore hg.balanced,
        ih hnext (hbefore.group hg) hrest⟩

theorem lt_start_of_mem {offset : Nat} {span : Span} (h : span ∈ spansFrom offset groups) :
    offset < span.start := by
  induction groups generalizing offset with
  | nil => exact absurd h List.not_mem_nil
  | cons g rest ih =>
      rcases List.mem_cons.1 h with rfl | hrest
      · exact Nat.lt_succ_self offset
      · have := ih hrest
        omega

theorem ascending_spansFrom (groups : List (List Char × List Char)) (offset : Nat) :
    (spansFrom offset groups).Pairwise fun a b => a.stop + 1 < b.start := by
  induction groups generalizing offset with
  | nil => exact List.Pairwise.nil
  | cons g rest ih =>
      refine List.pairwise_cons.2 ⟨fun span hspan => ?_, ih _⟩
      have := lt_start_of_mem hspan
      simp only
      omega

end Groups

/-- What is scanned is well placed. -/
theorem wellPlaced_of_scan {token : String} {nameEnd : Nat} {spans : List Span}
    (h : scan token = .ok (nameEnd, spans)) : WellPlaced token nameEnd spans := by
  obtain ⟨c, htext, hregular, rfl, rfl⟩ := scan_eq_ok_iff.1 h
  have htoken : token.toList = c.name ++ groupsText c.groups := htext.symm
  have hname : Settled c.name :=
    settled_iff.2 ⟨⟨c.name, []⟩, List.append_nil _, hregular.name, List.forall_mem_nil _⟩
  have hopen : '[' ∉ c.name := fun hmem => (hregular.name _ hmem).1 rfl
  refine ⟨placed_spansFrom htoken hname hregular.groups, ascending_spansFrom _ _,
    ⟨c.name, groupsText c.groups, htoken, rfl, hopen, ?_⟩, ?_, isValid_of_append htoken rfl⟩
  · cases c.groups with
    | nil => exact .inl ⟨rfl, rfl⟩
    | cons g rest => exact .inr rfl
  · cases hgroups : c.groups with
    | nil => exact .inr ⟨rfl, (utf8ByteSize_of_groups_eq_nil htext hgroups).symm⟩
    | cons g rest => exact .inl ⟨_, rfl, rfl⟩

/-! ## Reading by spans -/

section Slices

variable {token : String} {before : List Char} {groups : List (List Char × List Char)}

/-- The qualifiers at the spans of groups are those of the groups. -/
theorem qualifiersAt?_spansFrom (htoken : token.toList = before ++ groupsText groups) :
    qualifiersAt? token (spansFrom (utf8Len before) groups) =
      some (groups.mapM fun g => qualifier token g.1) := by
  induction groups generalizing before with
  | nil => rfl
  | cons g rest ih =>
      obtain ⟨inside, behind⟩ := g
      have hinside : token.toList =
          (before ++ ['[']) ++ (inside ++ ']' :: (behind ++ groupsText rest)) := by
        simp [htoken, groupsText]
      have hslice : slice? token (utf8Len before + 1) (utf8Len before + 1 + utf8Len inside) =
          some (String.ofList inside) :=
        slice?_append hinside (String.utf8Len_append _ _) rfl
      have hrest := ih (htoken.trans (append_groupsText_cons before inside behind rest))
      rw [spansFrom_cons, qualifiersAt?, hslice, List.mapM_cons, qualifier]
      simp only [bind, Option.bind, String.toList_ofList]
      cases splitEquals inside with
      | none => rfl
      | some r =>
          obtain ⟨field, raw⟩ := r
          simp only [cleanSliced?_eq, String.toList_ofList, hrest]
          cases rest.mapM fun g => qualifier token g.1 with
          | error e => rfl
          | ok qualifiers => rfl

/-- The last span ends with the qualifier text, but for the bracket behind it. -/
theorem getLast?_spansFrom (hne : groups ≠ []) (offset : Nat) :
    ∃ last ∈ (spansFrom offset groups).getLast?,
      last.stop + 1 = offset + utf8Len (qualifierText groups) := by
  induction groups using handed.induct generalizing offset with
  | case1 => exact absurd rfl hne
  | case2 inside behind =>
      refine ⟨⟨offset + 1, offset + 1 + utf8Len inside⟩, rfl, ?_⟩
      rw [qualifierText, utf8Len_group, String.utf8Len_nil]
      simp only
      omega
  | case3 g next rest ih =>
      obtain ⟨inside, behind⟩ := g
      obtain ⟨last, hlast, hstop⟩ :=
        ih (List.cons_ne_nil _ _) (offset + 1 + utf8Len inside + 1 + utf8Len behind)
      refine ⟨last, ?_, ?_⟩
      · rw [spansFrom, spansFrom, List.getLast?_cons_cons]
        exact hlast
      · have htext : qualifierText ((inside, behind) :: next :: rest) =
            '[' :: (inside ++ ']' :: (behind ++ qualifierText (next :: rest))) := rfl
        rw [htext, utf8Len_group, String.utf8Len_append, hstop]
        omega

/-- The slice from the first bracket to the last is the qualifier text. -/
theorem qualifierSlice?_spansFrom (htoken : token.toList = before ++ groupsText groups) :
    qualifierSlice? token (spansFrom (utf8Len before) groups) =
      some (String.ofList (qualifierText groups)) := by
  cases groups with
  | nil => rfl
  | cons g rest =>
      obtain ⟨last, hlast, hstop⟩ :=
        getLast?_spansFrom (List.cons_ne_nil g rest) (utf8Len before)
      obtain ⟨after, hafter⟩ := prefix_groupsText_handed (g :: rest)
      rw [← qualifierText_eq] at hafter
      rw [← hafter] at htoken
      have hfirst : (spansFrom (utf8Len before) (g :: rest)).head? =
          some ⟨utf8Len before + 1, utf8Len before + 1 + utf8Len g.1⟩ := rfl
      rw [qualifierSlice?, hfirst, Option.mem_def.1 hlast]
      exact slice?_append htoken rfl hstop.symm

end Slices

section Token

variable {token : String} {c : Cut}

theorem toList_of_cut (h : cut token = .ok c) : token.toList = c.name ++ groupsText c.groups :=
  (text_of_cutOutside _ _ _ (cut_eq_ok.1 h)).symm

/-- The slice up to the end of the name is the name. -/
theorem slice?_name (h : cut token = .ok c) :
    slice? token 0 (utf8Len c.name) = some (String.ofList c.name) := by
  have htoken : token.toList = [] ++ (c.name ++ groupsText c.groups) := toList_of_cut h
  exact slice?_append htoken rfl (Nat.zero_add _)

end Token

/-- Reading a key by its spans never fails. -/
theorem parseSpans?_eq (token : String) : parseSpans? token = some (parse token) := by
  rw [parseSpans?, scan_eq, parse]
  cases hcut : cut token with
  | error e => rfl
  | ok c =>
      have hqualifiers := qualifiersAt?_spansFrom (toList_of_cut hcut)
      simp only [bind, Functor.map, Except.map, Except.bind, Option.bind, hqualifiers,
        slice?_name hcut]
      cases c.groups.mapM fun g => qualifier token g.1 with
      | error e => rfl
      | ok qualifiers => rfl

/-- Splitting a key by its spans never fails. -/
theorem splitSpans?_eq (token : String) : splitSpans? token = some (split token) := by
  rw [splitSpans?, scan_eq, split]
  cases hcut : cut token with
  | error e => rfl
  | ok c =>
      have hrest := qualifierSlice?_spansFrom (toList_of_cut hcut)
      simp only [bind, Functor.map, Except.map, Except.bind, Option.bind, hrest, slice?_name hcut]
      rfl

/-- The spans that are scanned in a token are well placed.  So no step at their offsets fails: read
and split by them, a token is read and split as it is by its cut, and a value that is cleaned by its
bytes is cleaned as it is by its characters. -/
theorem spans_wellPlaced (text : String) :
    (∀ nameEnd spans, scan text = .ok (nameEnd, spans) → WellPlaced text nameEnd spans) ∧
      parseSpans? text = some (parse text) ∧ splitSpans? text = some (split text) ∧
      cleanSliced? text = some (String.ofList (cleanValue text.toList)) :=
  ⟨fun _ _ h => wellPlaced_of_scan h, parseSpans?_eq text, splitSpans?_eq text,
    cleanSliced?_eq text⟩

/-- Wide characters, a nested group, a quoted bracket, a protected one, and text between groups. -/
theorem spans_wellPlaced_wide :
    scan "é[a=[b=']']]-[ü=\\]\"[\"]x" = .ok (2, [⟨3, 12⟩, ⟨15, 23⟩]) ∧
      WellPlaced "é[a=[b=']']]-[ü=\\]\"[\"]x" 2 [⟨3, 12⟩, ⟨15, 23⟩] := by
  have hscan : scan "é[a=[b=']']]-[ü=\\]\"[\"]x" = .ok (2, [⟨3, 12⟩, ⟨15, 23⟩]) := by
    decide +kernel
  exact ⟨hscan, (spans_wellPlaced _).1 _ _ hscan⟩

end Key

end TreeSync

import TreeSync.Path.Segments
import TreeSync.Proofs.Outcome

/-!
# Cutting paths and joining segments

A path text is cut where a slash stands outside of all brackets.  Each piece is
balanced on its own, and cutting it again gives that one piece; so pieces behind
slashes are cut at these slashes and nowhere else.  Segments that are cut into
themselves are exactly those which survive being joined to a path text.

Which pieces a text has is independent of offsets.  `Path.Cuts` says it by the
characters of the text alone, and the proofs here are by induction on it.

Main definitions and results:

- `Path.WellFormed`: a text that is its own only segment.
- `Path.marks`, `Path.withoutSeparators`: a text and its separating slashes.
- `Path.Cuts`, `Path.pieces_eq_ok`: what a text is cut into.
- `Path.Cuts.first`, `Path.Cuts.join`: taking off the first piece, and putting
  pieces side by side.
- `Path.parse_render_iff`: what joining and cutting undo of one another.
-/

namespace TreeSync

namespace Delimiter

/-- The delimiters open after `c` inside `d`, with `outer` around it. -/
def after (d : Delimiter) (outer : List Delimiter) (c : Char) : List Delimiter :=
  if c = d.closer then outer
  else if d = bracket then (opened? c).toList ++ d :: outer
  else d :: outer

end Delimiter

namespace OpenSpan

theorem map_delimiter_advance (top : OpenSpan) (outer : List OpenSpan) (offset : Nat) (c : Char) :
    (top.advance outer offset c).map delimiter =
      top.delimiter.after (outer.map delimiter) c := by
  rw [advance, Delimiter.after]
  split
  · rfl
  · cases htop : top.delimiter with
    | bracket => cases Delimiter.opened? c <;> simp [htop]
    | single => simp [htop]
    | double => simp [htop]

end OpenSpan

namespace Path

/-! ## Well-formed segments and separators -/

/-- The text is its own only segment. -/
def WellFormed (segment : String) : Prop :=
  parse segment = .ok [segment]

/-- The characters of a text that starts inside these delimiters, each with whether it
stands outside of all brackets. -/
def marks : List Delimiter → List Char → List (Char × Bool)
  | _, [] => []
  | [], c :: rest => (c, true) :: marks (if c = '[' then [.bracket] else []) rest
  | .bracket :: outer, '\\' :: ']' :: rest =>
      ('\\', false) :: (']', false) :: marks (.bracket :: outer) rest
  | d :: outer, c :: rest => (c, false) :: marks (d.after outer c) rest

/-- The characters that are no slash outside of all brackets. -/
def unseparated (marked : List (Char × Bool)) : List Char :=
  (marked.filter fun m => m ≠ ('/', true)).map Prod.fst

/-- The text without the slashes that stand outside of all brackets. -/
def withoutSeparators (text : String) : String :=
  String.ofList (unseparated (marks [] text.toList))

@[simp]
theorem unseparated_inside (c : Char) (marked : List (Char × Bool)) :
    unseparated ((c, false) :: marked) = c :: unseparated marked := by
  simp [unseparated]

@[simp]
theorem unseparated_slash (marked : List (Char × Bool)) :
    unseparated (('/', true) :: marked) = unseparated marked := by
  simp [unseparated]

theorem unseparated_outside {c : Char} (h : c ≠ '/') (marked : List (Char × Bool)) :
    unseparated ((c, true) :: marked) = c :: unseparated marked := by
  simp [unseparated, h]

/-! ## What a text is cut into -/

/-- Inside the open delimiters, the text is cut into the pieces. -/
inductive Cuts : List Delimiter → List Char → List (List Char) → Prop
  /-- The text ends outside of all brackets. -/
  | done : Cuts [] [] [[]]
  /-- A slash separates. -/
  | slash {rest : List Char} {ps : List (List Char)} (h : Cuts [] rest ps) :
      Cuts [] ('/' :: rest) ([] :: ps)
  /-- An opening bracket. -/
  | opening {rest p : List Char} {ps : List (List Char)} (h : Cuts [.bracket] rest (p :: ps)) :
      Cuts [] ('[' :: rest) (('[' :: p) :: ps)
  /-- Any other character outside of all brackets. -/
  | plain {c : Char} {rest p : List Char} {ps : List (List Char)}
      (hc : c ≠ '/' ∧ c ≠ ']' ∧ c ≠ '[') (h : Cuts [] rest (p :: ps)) :
      Cuts [] (c :: rest) ((c :: p) :: ps)
  /-- A closing bracket behind a backslash closes nothing. -/
  | guarded {outer : List Delimiter} {rest p : List Char} {ps : List (List Char)}
      (h : Cuts (.bracket :: outer) rest (p :: ps)) :
      Cuts (.bracket :: outer) ('\\' :: ']' :: rest) (('\\' :: ']' :: p) :: ps)
  /-- Any other character inside a bracket. -/
  | inside {d : Delimiter} {outer : List Delimiter} {c : Char} {rest p : List Char}
      {ps : List (List Char)} (hc : ¬(d = .bracket ∧ c = '\\' ∧ rest.head? = some ']'))
      (h : Cuts (d.after outer c) rest (p :: ps)) : Cuts (d :: outer) (c :: rest) ((c :: p) :: ps)

/-- Inside a bracket, a backslash in front of a closing bracket stays with it. -/
theorem pieces_guarded {top : OpenSpan} {outer : List OpenSpan} {c d : Char} {rest : List Char}
    (h : top.protects c (d :: rest) = true) (offset : Nat) :
    pieces (top :: outer) offset (c :: d :: rest) =
      prepend [c, d] <$> pieces (top :: outer) (offset + c.utf8Size + d.utf8Size) rest := by
  rw [pieces.eq_def]
  exact if_pos h

/-- Inside a bracket, any other character goes to the first piece. -/
theorem pieces_inside {top : OpenSpan} {outer : List OpenSpan} {c : Char} {rest : List Char}
    (h : ¬top.protects c rest = true) (offset : Nat) :
    pieces (top :: outer) offset (c :: rest) =
      prepend [c] <$> pieces (top.advance outer offset c) (offset + c.utf8Size) rest := by
  rw [pieces.eq_def]
  exact if_neg h

/-- There is always a first piece. -/
theorem Cuts.ne_nil {ds : List Delimiter} {cs : List Char} {ps : List (List Char)}
    (h : Cuts ds cs ps) : ps ≠ [] := by
  cases h <;> simp

/-- A success behind some characters is a success of the rest, whose first piece these
characters are put in front of. -/
theorem exists_of_prepend_eq_ok {text : List Char} {x : Except Nat (List (List Char))}
    {ds : List Delimiter} {cs : List Char} {ps : List (List Char)}
    (h : prepend text <$> x = .ok ps) (ih : ∀ {qs}, x = .ok qs → Cuts ds cs qs) :
    ∃ p qs, ps = (text ++ p) :: qs ∧ Cuts ds cs (p :: qs) := by
  obtain ⟨qs, hqs, rfl⟩ := map_eq_ok.1 h
  have hcuts := ih hqs
  obtain ⟨p, qs, rfl⟩ := List.exists_cons_of_ne_nil hcuts.ne_nil
  exact ⟨p, qs, rfl, hcuts⟩

/-- Pieces are what the open delimiters say. -/
theorem cuts_of_pieces (spans : List OpenSpan) (offset : Nat) (cs : List Char)
    {ps : List (List Char)} (h : pieces spans offset cs = .ok ps) :
    Cuts (spans.map OpenSpan.delimiter) cs ps := by
  induction spans, offset, cs using pieces.induct generalizing ps with
  | case1 offset =>
      obtain rfl := Except.ok.inj h
      exact .done
  | case2 offset top outer => simp [pieces] at h
  | case3 offset rest ih =>
      rw [pieces, if_pos rfl] at h
      obtain ⟨qs, hqs, rfl⟩ := map_eq_ok.1 h
      exact .slash (ih hqs)
  | case4 offset rest hslash => simp [pieces] at h
  | case5 offset rest hslash hclose ih =>
      rw [pieces, if_neg hslash, if_neg hclose, if_pos rfl] at h
      obtain ⟨p, qs, rfl, hcuts⟩ := exists_of_prepend_eq_ok h ih
      exact .opening hcuts
  | case6 offset c rest hslash hclose hopen ih =>
      rw [pieces, if_neg hslash, if_neg hclose, if_neg hopen] at h
      obtain ⟨p, qs, rfl, hcuts⟩ := exists_of_prepend_eq_ok h ih
      exact .plain ⟨hslash, hclose, hopen⟩ hcuts
  | case7 offset c top outer hguard => simp [OpenSpan.protects] at hguard
  | case8 offset c top outer d rest hguard ih =>
      rw [pieces_guarded hguard] at h
      obtain ⟨p, qs, rfl, hcuts⟩ := exists_of_prepend_eq_ok h ih
      obtain ⟨⟨htop, rfl⟩, rfl⟩ : (top.delimiter = .bracket ∧ c = '\\') ∧ d = ']' := by
        simpa [OpenSpan.protects] using hguard
      rw [List.map_cons, htop] at hcuts ⊢
      exact .guarded hcuts
  | case9 offset c rest top outer hguard ih =>
      rw [pieces_inside hguard] at h
      obtain ⟨p, qs, rfl, hcuts⟩ := exists_of_prepend_eq_ok h ih
      rw [OpenSpan.map_delimiter_advance] at hcuts
      exact .inside (by simpa [OpenSpan.protects] using hguard) hcuts

/-- What a text is cut into does not depend on where its brackets were opened. -/
theorem pieces_of_cuts {ds : List Delimiter} {cs : List Char} {ps : List (List Char)}
    (h : Cuts ds cs ps) {spans : List OpenSpan} (hspans : spans.map OpenSpan.delimiter = ds)
    (offset : Nat) : pieces spans offset cs = .ok ps := by
  induction h generalizing spans offset with
  | done =>
      obtain rfl := List.map_eq_nil_iff.1 hspans
      rfl
  | slash h ih =>
      obtain rfl := List.map_eq_nil_iff.1 hspans
      rw [pieces, if_pos rfl]
      exact map_eq_ok.2 ⟨_, ih rfl _, rfl⟩
  | opening h ih =>
      obtain rfl := List.map_eq_nil_iff.1 hspans
      rw [pieces, if_neg (by decide), if_neg (by decide), if_pos rfl]
      exact map_eq_ok.2 ⟨_, ih rfl _, rfl⟩
  | plain hc h ih =>
      obtain rfl := List.map_eq_nil_iff.1 hspans
      rw [pieces, if_neg hc.1, if_neg hc.2.1, if_neg hc.2.2]
      exact map_eq_ok.2 ⟨_, ih rfl _, rfl⟩
  | guarded h ih =>
      obtain ⟨top, outer, rfl, htop, -⟩ := List.map_eq_cons_iff.1 hspans
      rw [pieces_guarded (by simp [OpenSpan.protects, htop])]
      exact map_eq_ok.2 ⟨_, ih hspans _, rfl⟩
  | @inside d ds c rest p ps hc h ih =>
      obtain ⟨top, outer, rfl, htop, rfl⟩ := List.map_eq_cons_iff.1 hspans
      have hadvance : (top.advance outer offset c).map OpenSpan.delimiter =
          d.after (outer.map OpenSpan.delimiter) c := by
        rw [OpenSpan.map_delimiter_advance, htop]
      rw [pieces_inside (by simpa [OpenSpan.protects, htop] using hc)]
      exact map_eq_ok.2 ⟨_, ih hadvance _, rfl⟩

/-- A text outside of all brackets and its pieces. -/
theorem pieces_eq_ok {text : List Char} {ps : List (List Char)} :
    pieces [] 0 text = .ok ps ↔ Cuts [] text ps :=
  ⟨fun h => cuts_of_pieces [] 0 text h, fun h => pieces_of_cuts h rfl 0⟩

namespace Cuts

variable {ds : List Delimiter} {cs p : List Char} {ps : List (List Char)}

/-! ## First pieces -/

/-- The first piece is cut into itself.  It is the whole text, or a slash stands behind
it and the other pieces are those of the rest. -/
theorem first (h : Cuts ds cs ps) :
    ∃ p qs, ps = p :: qs ∧ Cuts ds p [p] ∧
      (cs = p ∧ qs = [] ∨ ∃ rest, cs = p ++ '/' :: rest ∧ Cuts [] rest qs) := by
  induction h with
  | done => exact ⟨[], [], rfl, .done, .inl ⟨rfl, rfl⟩⟩
  | slash h => exact ⟨[], _, rfl, .done, .inr ⟨_, rfl, h⟩⟩
  | opening _ ih =>
      obtain ⟨p, qs, hps, hp, hrest⟩ := ih
      obtain ⟨rfl, rfl⟩ := List.cons.inj hps
      refine ⟨_, _, rfl, .opening hp, ?_⟩
      simpa using hrest
  | plain hc _ ih =>
      obtain ⟨p, qs, hps, hp, hrest⟩ := ih
      obtain ⟨rfl, rfl⟩ := List.cons.inj hps
      refine ⟨_, _, rfl, .plain hc hp, ?_⟩
      simpa using hrest
  | guarded _ ih =>
      obtain ⟨p, qs, hps, hp, hrest⟩ := ih
      obtain ⟨rfl, rfl⟩ := List.cons.inj hps
      refine ⟨_, _, rfl, .guarded hp, ?_⟩
      simpa using hrest
  | @inside d outer c rest p qs hc _ ih =>
      obtain ⟨p, qs, hps, hp, hrest⟩ := ih
      obtain ⟨rfl, rfl⟩ := List.cons.inj hps
      -- A closing bracket next in the piece is next in the text.
      have hnext : p.head? = some ']' → rest.head? = some ']' := by
        intro hp
        rcases hrest with ⟨rfl, -⟩ | ⟨behind, rfl, -⟩
        · exact hp
        · rw [List.head?_append, hp, Option.some_or]
      refine ⟨_, _, rfl, .inside (fun hguard => hc ⟨hguard.1, hguard.2.1, hnext hguard.2.2⟩) hp, ?_⟩
      simpa using hrest

/-- A text that is cut into itself is the first piece in front of a slash. -/
theorem append_slash (hp : Cuts ds p [p]) (h : Cuts [] cs ps) :
    Cuts ds (p ++ '/' :: cs) (p :: ps) := by
  generalize hwhole : [p] = whole at hp
  induction hp with
  | done => exact .slash h
  | slash => simp at hwhole
  | opening hrest ih =>
      obtain ⟨heq, rfl⟩ := List.cons.inj hwhole
      obtain rfl := (List.cons.inj heq).2
      exact .opening (ih rfl)
  | plain hc hrest ih =>
      obtain ⟨heq, rfl⟩ := List.cons.inj hwhole
      obtain rfl := (List.cons.inj heq).2
      exact .plain hc (ih rfl)
  | guarded hrest ih =>
      obtain ⟨heq, rfl⟩ := List.cons.inj hwhole
      obtain rfl := (List.cons.inj (List.cons.inj heq).2).2
      exact .guarded (ih rfl)
  | @inside d outer c rest q qs hc hrest ih =>
      obtain ⟨heq, rfl⟩ := List.cons.inj hwhole
      obtain rfl := (List.cons.inj heq).2
      refine .inside ?_ (ih rfl)
      -- What follows is a slash, so that no closing bracket comes to stand next.
      cases rest with
      | nil => simp
      | cons next rest => simpa using hc

/-! ## All pieces -/

/-- Texts that are cut into themselves are the pieces of the text that they make with
slashes between them. -/
theorem join (hp : Cuts ds p [p]) (hps : ∀ q ∈ ps, Cuts [] q [q]) :
    Cuts ds (p ++ ps.flatMap ('/' :: ·)) (p :: ps) := by
  induction ps generalizing ds p with
  | nil => simpa using hp
  | cons q qs ih =>
      rw [List.flatMap_cons, List.cons_append]
      exact hp.append_slash
        (ih (hps q List.mem_cons_self) fun r hr => hps r (List.mem_cons_of_mem q hr))

/-- Every piece is cut into itself. -/
theorem of_mem (h : Cuts [] cs ps) (hp : p ∈ ps) : Cuts [] p [p] := by
  induction ps generalizing cs with
  | nil => simp at hp
  | cons q qs ih =>
      obtain ⟨_, _, hfirst, hself, hrest⟩ := h.first
      obtain ⟨rfl, rfl⟩ := List.cons.inj hfirst
      rcases List.mem_cons.1 hp with rfl | hmem
      · exact hself
      · rcases hrest with ⟨-, rfl⟩ | ⟨rest, -, hcuts⟩
        · simp at hmem
        · exact ih hcuts hmem

/-- No piece is longer than the text. -/
theorem length_le_of_mem (h : Cuts ds cs ps) (hp : p ∈ ps) : p.length ≤ cs.length := by
  induction ps generalizing ds cs with
  | nil => simp at hp
  | cons q qs ih =>
      obtain ⟨_, _, hfirst, -, hrest⟩ := h.first
      obtain ⟨rfl, rfl⟩ := List.cons.inj hfirst
      rcases hrest with ⟨rfl, rfl⟩ | ⟨rest, rfl, hcuts⟩
      · exact Nat.le_of_eq (congrArg List.length (List.mem_singleton.1 hp))
      · rw [List.length_append, List.length_cons]
        rcases List.mem_cons.1 hp with rfl | hmem
        · omega
        · have := ih hcuts hmem
          omega

/-- The pieces hold everything but the separating slashes. -/
theorem flatten_eq (h : Cuts ds cs ps) : ps.flatten = unseparated (marks ds cs) := by
  induction h with
  | done => rfl
  | slash h ih => simpa [marks] using ih
  | opening h ih =>
      rw [marks, if_pos rfl, unseparated_outside (by decide), ← ih]
      rfl
  | plain hc h ih =>
      rw [marks, if_neg hc.2.2, unseparated_outside hc.1, ← ih]
      rfl
  | guarded h ih =>
      rw [marks, unseparated_inside, unseparated_inside, ← ih]
      rfl
  | @inside d outer c rest p qs hc h ih =>
      rw [marks, unseparated_inside, ← ih]
      · rfl
      · rintro rest rfl rfl rfl
        exact hc ⟨rfl, rfl, rfl⟩

end Cuts

/-! ## Segments -/

/-- Segments are the pieces that are not empty. -/
theorem parse_eq_ok {text : String} {segments : List String} :
    parse text = .ok segments ↔ ∃ ps, Cuts [] text.toList ps ∧
      segments = (ps.filter fun p => !p.isEmpty).map String.ofList := by
  rw [parse]
  constructor
  · intro h
    split at h
    · simp at h
    · rename_i ps hps
      exact ⟨ps, pieces_eq_ok.1 hps, (Except.ok.inj h).symm⟩
  · rintro ⟨ps, hps, rfl⟩
    rw [pieces_eq_ok.2 hps]

/-- A segment is well-formed when it is not empty and has one piece. -/
theorem wellFormed_iff {segment : String} :
    WellFormed segment ↔ segment ≠ "" ∧ Cuts [] segment.toList [segment.toList] := by
  rw [WellFormed, parse_eq_ok]
  constructor
  · rintro ⟨ps, hps, hsegment⟩
    have hmem : segment.toList ∈ ps ∧ segment.toList ≠ [] := by
      have : segment ∈ (ps.filter fun p => !p.isEmpty).map String.ofList :=
        hsegment ▸ List.mem_singleton_self segment
      obtain ⟨p, hp, rfl⟩ := List.mem_map.1 this
      simpa using List.mem_filter.1 hp
    obtain ⟨p, qs, rfl, hp, ⟨htext, rfl⟩ | ⟨rest, htext, hrest⟩⟩ := hps.first
    · exact ⟨fun h => hmem.2 (by rw [h]; rfl), by rwa [htext]⟩
    · -- Behind a separator the pieces are too short to be the whole text.
      exfalso
      have hlength := congrArg List.length htext
      rw [List.length_append, List.length_cons] at hlength
      rcases List.mem_cons.1 hmem.1 with heq | hin
      · rw [heq] at hlength
        omega
      · have := hrest.length_le_of_mem hin
        omega
  · rintro ⟨hne, hcuts⟩
    have hkept : segment.toList.isEmpty = false := by simpa using hne
    exact ⟨_, hcuts, by simp [hkept]⟩

/-- What a path text is cut into is well-formed. -/
theorem wellFormed_of_parse {text : String} {segments : List String}
    (h : parse text = .ok segments) {s : String} (hs : s ∈ segments) : WellFormed s := by
  obtain ⟨ps, hps, rfl⟩ := parse_eq_ok.1 h
  obtain ⟨p, hp, rfl⟩ := List.mem_map.1 hs
  obtain ⟨hmem, hne⟩ := List.mem_filter.1 hp
  rw [wellFormed_iff, String.toList_ofList]
  refine ⟨fun hempty => ?_, hps.of_mem hmem⟩
  obtain rfl : p = [] := by simpa using congrArg String.toList hempty
  simp at hne

/-- Cutting undoes joining of well-formed segments. -/
theorem parse_render {segments : List String} (h : ∀ s ∈ segments, WellFormed s) :
    parse (render segments) = .ok segments := by
  have hcuts : ∀ q ∈ segments.map String.toList, Cuts [] q [q] := by
    intro q hq
    obtain ⟨s, hs, rfl⟩ := List.mem_map.1 hq
    exact (wellFormed_iff.1 (h s hs)).2
  have hjoin := Cuts.done.join hcuts
  cases segments with
  | nil => rfl
  | cons s rest =>
      have htext : (render (s :: rest)).toList =
          [] ++ ((s :: rest).map String.toList).flatMap ('/' :: ·) := by
        simp [render, List.flatMap_map]
      have hkept : ((s :: rest).map String.toList).filter (fun p => !p.isEmpty) =
          (s :: rest).map String.toList := by
        refine List.filter_eq_self.2 fun p hp => ?_
        obtain ⟨t, ht, rfl⟩ := List.mem_map.1 hp
        simpa using (wellFormed_iff.1 (h t ht)).1
      refine parse_eq_ok.2 ⟨_, htext ▸ hjoin, ?_⟩
      rw [List.filter_cons_of_neg (by simp), hkept, List.map_map]
      simp

/-- The segments of a path text side by side are the text without its separators. -/
theorem join_of_parse {text : String} {segments : List String}
    (h : parse text = .ok segments) : String.join segments = withoutSeparators text := by
  obtain ⟨ps, hps, rfl⟩ := parse_eq_ok.1 h
  rw [← String.toList_inj, withoutSeparators, ← hps.flatten_eq, String.toList_ofList,
    String.toList_join, List.flatMap_map]
  simp [List.flatMap_id', List.flatten_filter_not_isEmpty]

/-- Exactly the lists of well-formed segments are read back from the path text that they
are joined to.  A path text is cut into well-formed segments, which side by side are the
text without the slashes outside of all brackets; so joining them again changes nothing
that cutting sees. -/
theorem parse_render_iff :
    (∀ segments, parse (render segments) = .ok segments ↔ ∀ s ∈ segments, WellFormed s) ∧
    ∀ text segments, parse text = .ok segments →
      (∀ s ∈ segments, WellFormed s) ∧ String.join segments = withoutSeparators text ∧
        parse (render segments) = .ok segments :=
  ⟨fun _ => ⟨fun h _ => wellFormed_of_parse h, parse_render⟩,
    fun _ _ h => ⟨fun _ => wellFormed_of_parse h, join_of_parse h,
      parse_render fun _ => wellFormed_of_parse h⟩⟩

/-- Slashes inside qualifiers and quotes neither separate nor get lost. -/
theorem parse_render_nested :
    parse "/l/e[s=[I=1][J='/]']]//v" = .ok ["l", "e[s=[I=1][J='/]']]", "v"] ∧
      (∀ s ∈ ["l", "e[s=[I=1][J='/]']]", "v"], WellFormed s) ∧
      String.join ["l", "e[s=[I=1][J='/]']]", "v"] =
        withoutSeparators "/l/e[s=[I=1][J='/]']]//v" ∧
      parse (render ["l", "e[s=[I=1][J='/]']]", "v"]) = .ok ["l", "e[s=[I=1][J='/]']]", "v"] :=
  have hparse : parse "/l/e[s=[I=1][J='/]']]//v" = .ok ["l", "e[s=[I=1][J='/]']]", "v"] :=
    eq_ok_of_toOption (by decide +kernel)
  ⟨hparse, parse_render_iff.2 _ _ hparse⟩

end Path

end TreeSync

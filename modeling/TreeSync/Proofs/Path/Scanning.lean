import Mathlib.Control.Monad.Basic
import TreeSync.Proofs.Path.Bracketed
import TreeSync.Proofs.Path.Joining

/-!
# Two scanners of one language

A path is cut at its slashes, a key at its outermost brackets, and each scanner keeps
books of its own.  What they refuse is the same: both have the same spans open at every
character, so they stop at the same delimiter without a partner.  A text that they pass
can still miss an equals sign as a key, and nothing else can be wrong with it.

Main definitions and results:

- `Path.verdict_pieces`: both scanners stop at the same place, or neither does.
- `Path.Delimits`: a byte offset at which a bracket or a quote stands.
- `Path.delimits_of_pieces`: where a scanner stops, a delimiter stands.
- `Key.Scannable`: a text that can be split as a key.
- `Path.scanners_agree`: reading a path, splitting a key and reading a key.
-/

namespace TreeSync

namespace Delimiter

/-- The character opens or closes a span inside a bracket. -/
def IsMark (c : Char) : Prop :=
  c = '[' ∨ c = ']' ∨ c = '\x27' ∨ c = '\x22'

theorem isMark_of_opened {c : Char} {d : Delimiter} (h : opened? c = some d) : IsMark c := by
  unfold opened? at h
  split at h
  · rename_i hopen
    exact .inl hopen
  · split at h
    · rename_i hsingle
      exact .inr (.inr (.inl hsingle))
    · split at h
      · rename_i hdouble
        exact .inr (.inr (.inr hdouble))
      · simp at h

end Delimiter

namespace OpenSpan

/-- A span that is open behind a character was open before, or the character opened it. -/
theorem mem_advance {top s : OpenSpan} {outer : List OpenSpan} {offset : Nat} {c : Char}
    (h : s ∈ top.advance outer offset c) :
    s ∈ top :: outer ∨ s.offset = offset ∧ Delimiter.IsMark c := by
  unfold advance at h
  split at h
  · exact .inl (List.mem_cons_of_mem top h)
  · split at h
    · split at h
      · rename_i d hd
        rcases List.mem_cons.1 h with rfl | hmem
        · exact .inr ⟨rfl, Delimiter.isMark_of_opened hd⟩
        · exact .inl hmem
      · exact .inl h
    · exact .inl h

end OpenSpan

namespace Path

open Delimiter (IsMark)

/-! ## The same verdict -/

/-- What a scan says about its text: that it is in balance, or where it is not. -/
def verdict {α : Type} (outcome : Except Nat α) : Except Nat Unit :=
  (fun _ => ()) <$> outcome

@[simp]
theorem verdict_map {α β : Type} (f : α → β) (outcome : Except Nat α) :
    verdict (f <$> outcome) = verdict outcome := by
  cases outcome <;> rfl

theorem verdict_eq_error {α : Type} {outcome : Except Nat α} {offset : Nat} :
    verdict outcome = .error offset ↔ outcome = .error offset :=
  map_eq_error

mutual

/-- Outside of all brackets both scanners come to the same verdict.  A slash is one more
character to the scanner of keys. -/
theorem verdict_pieces (cs : List Char) (offset : Nat) :
    verdict (pieces [] offset cs) = verdict (Key.cutOutside offset cs) := by
  match cs with
  | [] => rfl
  | c :: rest =>
      have hrest := verdict_pieces rest (offset + c.utf8Size)
      rw [pieces, Key.cutOutside]
      by_cases hopen : c = '['
      · subst hopen
        simpa using verdict_pieces_inside rest ⟨.bracket, offset⟩ [] _
      · by_cases hclose : c = ']'
        · subst hclose
          rfl
        · simp only [if_neg hopen, if_neg hclose, verdict_map]
          split
          · rw [verdict_map, hrest]
          · rw [verdict_map, hrest]

/-- So they do inside of the same open spans. -/
theorem verdict_pieces_inside (cs : List Char) (top : OpenSpan) (outer : List OpenSpan)
    (offset : Nat) :
    verdict (pieces (top :: outer) offset cs) =
      verdict (Key.cutInside top outer offset cs) := by
  match cs with
  | [] => rfl
  | c :: rest =>
      by_cases hguard : top.protects c rest = true
      · match rest with
        | [] => simp [OpenSpan.protects] at hguard
        | d :: rest =>
            rw [pieces_guarded hguard, Key.cutInside_guarded hguard, verdict_map, verdict_map,
              verdict_pieces_inside rest]
      · rw [pieces_inside hguard, verdict_map]
        cases hnext : top.advance outer offset c with
        | nil => rw [Key.cutInside_closing hguard hnext, verdict_map, verdict_pieces rest]
        | cons inner spans =>
            rw [Key.cutInside_inner hguard hnext, verdict_map, verdict_pieces_inside rest]

end

/-! ## Where a scan stops -/

/-- A bracket or a quote of the text stands at a byte offset. -/
def Delimits (text : String) (offset : Nat) : Prop :=
  ∃ before c after, text.toList = before ++ c :: after ∧
    (String.ofList before).utf8ByteSize = offset ∧ IsMark c

section Offsets

variable {text : String} {before rest : List Char} {offset : Nat} {c : Char}

theorem delimits_of_isMark (htext : text.toList = before ++ c :: rest)
    (hoffset : (String.ofList before).utf8ByteSize = offset) (hc : IsMark c) :
    Delimits text offset :=
  ⟨before, c, rest, htext, hoffset, hc⟩

/-- Behind one more character the text in front is longer by it. -/
theorem behind_next (htext : text.toList = before ++ c :: rest)
    (hoffset : (String.ofList before).utf8ByteSize = offset) :
    text.toList = (before ++ [c]) ++ rest ∧
      (String.ofList (before ++ [c])).utf8ByteSize = offset + c.utf8Size := by
  simp [htext, hoffset]

/-- A scan stops at a delimiter, if the spans open at its start were opened by one. -/
theorem delimits_of_pieces {spans : List OpenSpan} {stop : Nat}
    (htext : text.toList = before ++ rest) (hoffset : (String.ofList before).utf8ByteSize = offset)
    (hspans : ∀ s ∈ spans, Delimits text s.offset)
    (h : pieces spans offset rest = .error stop) : Delimits text stop := by
  induction spans, offset, rest using pieces.induct generalizing before with
  | case1 offset => simp [pieces] at h
  | case2 offset top outer =>
      obtain rfl := Except.error.inj h
      exact hspans top List.mem_cons_self
  | case3 offset rest ih =>
      obtain ⟨hbehind, hnext⟩ := behind_next htext hoffset
      rw [pieces, if_pos rfl] at h
      exact ih hbehind hnext hspans (map_eq_error.1 h)
  | case4 offset rest hslash =>
      obtain rfl := Except.error.inj h
      exact delimits_of_isMark htext hoffset (.inr (.inl rfl))
  | case5 offset rest hslash hclose ih =>
      obtain ⟨hbehind, hnext⟩ := behind_next htext hoffset
      rw [pieces, if_neg hslash, if_neg hclose, if_pos rfl] at h
      refine ih hbehind hnext (fun s hs => ?_) (map_eq_error.1 h)
      obtain rfl := List.mem_singleton.1 hs
      exact delimits_of_isMark htext hoffset (.inl rfl)
  | case6 offset c rest hslash hclose hopen ih =>
      obtain ⟨hbehind, hnext⟩ := behind_next htext hoffset
      rw [pieces, if_neg hslash, if_neg hclose, if_neg hopen] at h
      exact ih hbehind hnext hspans (map_eq_error.1 h)
  | case7 offset c top outer hguard => simp [OpenSpan.protects] at hguard
  | case8 offset c top outer d rest hguard ih =>
      obtain ⟨hbehind, hnext⟩ := behind_next htext hoffset
      obtain ⟨hbehind, hnext⟩ := behind_next hbehind hnext
      rw [pieces_guarded hguard] at h
      exact ih hbehind hnext hspans (map_eq_error.1 h)
  | case9 offset c rest top outer hguard ih =>
      obtain ⟨hbehind, hnext⟩ := behind_next htext hoffset
      rw [pieces_inside hguard] at h
      refine ih hbehind hnext (fun s hs => ?_) (map_eq_error.1 h)
      rcases OpenSpan.mem_advance hs with hold | ⟨hhere, hmark⟩
      · exact hspans s hold
      · exact delimits_of_isMark htext (hoffset.trans hhere.symm) hmark

end Offsets

/-- A text is no path when the scan for its pieces stops. -/
theorem parse_eq_error {text : String} {e : PathError} :
    parse text = .error e ↔
      ∃ offset, pieces [] 0 text.toList = .error offset ∧ e = .unbalanced text offset := by
  rw [parse]
  cases pieces [] 0 text.toList with
  | error offset => simp [eq_comm]
  | ok ps => simp

/-- A text that is refused as a path is refused at a delimiter. -/
theorem delimits_of_parse {text : String} {e : PathError} (h : parse text = .error e) :
    ∃ offset, e = .unbalanced text offset ∧ Delimits text offset := by
  obtain ⟨offset, hpieces, rfl⟩ := parse_eq_error.1 h
  have htext : text.toList = [] ++ text.toList := rfl
  exact ⟨offset, rfl, delimits_of_pieces htext rfl (List.forall_mem_nil _) hpieces⟩

end Path

namespace Key

/-! ## Keys -/

variable {text : String} {e : PathError}

/-- A text is not cut into groups exactly when it is no path. -/
theorem cut_eq_error : cut text = .error e ↔ Path.parse text = .error e := by
  have hverdict (offset : Nat) : Path.pieces [] 0 text.toList = .error offset ↔
      cutOutside 0 text.toList = .error offset := by
    rw [← Path.verdict_eq_error, Path.verdict_pieces, Path.verdict_eq_error]
  rw [Path.parse_eq_error, cut]
  simp only [hverdict]
  cases cutOutside 0 text.toList with
  | error offset => simp [eq_comm]
  | ok c => simp

/-- Splitting a key fails with its scan alone. -/
theorem split_eq_error : split text = .error e ↔ cut text = .error e := by
  rw [split]
  cases cut text with
  | error e => simp [bind, Except.bind]
  | ok c => simp [bind, Except.bind, pure, Except.pure]

/-- Groups that are not all read as qualifiers lack an equals sign. -/
theorem missingEquals_of_mapM {groups : List (List Char × List Char)}
    (h : groups.mapM (fun g => qualifier text g.1) = .error e) :
    ∃ inside, e = .missingEquals text inside := by
  induction groups with
  | nil => simp [pure, Except.pure] at h
  | cons g rest ih =>
      simp only [List.mapM_cons, bind, Except.bind] at h
      split at h
      · rename_i err herr
        obtain rfl := Except.error.inj h
        rw [qualifier] at herr
        split at herr
        · exact ⟨_, (Except.error.inj herr).symm⟩
        · simp at herr
      · split at h
        · rename_i err herr
          obtain rfl := Except.error.inj h
          exact ih herr
        · simp [pure, Except.pure] at h

/-- Reading a key fails with its scan, or for want of an equals sign. -/
theorem cut_or_missingEquals_of_parse (h : parse text = .error e) :
    cut text = .error e ∨ ∃ inside, e = .missingEquals text inside := by
  rw [parse] at h
  cases hcut : cut text with
  | error err =>
      rw [hcut] at h
      exact .inl (congrArg Except.error (Except.error.inj h))
  | ok c =>
      rw [hcut] at h
      simp only [bind, Except.bind] at h
      split at h
      · rename_i err herr
        obtain rfl := Except.error.inj h
        exact .inr (missingEquals_of_mapM herr)
      · simp [pure, Except.pure] at h

theorem parse_of_cut_eq_error (h : cut text = .error e) : parse text = .error e := by
  rw [parse, h]
  rfl

/-- A text that can be split as a key.  To be read as one it lacks at most an equals
sign. -/
structure Scannable (text : String) : Prop where
  exists_split : ∃ parts, split text = .ok parts
  missingEquals : ∀ e, parse text = .error e → ∃ inside, e = .missingEquals text inside

/-- A text that is cut as a path can be scanned as a key. -/
theorem scannable_of_path {segments : List String} (h : Path.parse text = .ok segments) :
    Scannable text := by
  have hcut : ∀ e, cut text ≠ .error e := by
    intro e he
    rw [cut_eq_error.1 he] at h
    simp at h
  constructor
  · cases hsplit : split text with
    | error e => exact absurd (split_eq_error.1 hsplit) (hcut e)
    | ok parts => exact ⟨parts, rfl⟩
  · intro e he
    exact (cut_or_missingEquals_of_parse he).resolve_left (hcut e)

end Key

namespace Path

/-! ## All three readings -/

/-- Paths are cut, keys split and keys read in one language of brackets.  A text is refused
by all three or by none; if it is, then at the same byte, where a bracket or a quote stands.
What is cut as a path can be scanned as a key, and so can each of its segments. -/
theorem scanners_agree (text : String) :
    ((∃ e, parse text = .error e) ↔ ∃ e, Key.split text = .error e) ∧
    ((∃ e, Key.split text = .error e) ↔
      ∃ e, Key.parse text = .error e ∧ e.isUnbalanced = true) ∧
    (∀ e, parse text = .error e → Key.split text = .error e ∧ Key.parse text = .error e ∧
      ∃ offset, e = .unbalanced text offset ∧ Delimits text offset) ∧
    ∀ segments, parse text = .ok segments →
      Key.Scannable text ∧ ∀ s ∈ segments, Key.Scannable s := by
  have hall : ∀ e, parse text = .error e →
      Key.split text = .error e ∧ Key.parse text = .error e := by
    intro e he
    have hcut := Key.cut_eq_error.2 he
    exact ⟨Key.split_eq_error.2 hcut, Key.parse_of_cut_eq_error hcut⟩
  have hsplit : ∀ e, Key.split text = .error e → parse text = .error e := by
    intro e he
    exact Key.cut_eq_error.1 (Key.split_eq_error.1 he)
  refine ⟨⟨?_, ?_⟩, ⟨?_, ?_⟩, ?_, ?_⟩
  · rintro ⟨e, he⟩
    exact ⟨e, (hall e he).1⟩
  · rintro ⟨e, he⟩
    exact ⟨e, hsplit e he⟩
  · rintro ⟨e, he⟩
    have hparse := hsplit e he
    obtain ⟨offset, rfl, -⟩ := delimits_of_parse hparse
    exact ⟨_, (hall _ hparse).2, rfl⟩
  · rintro ⟨e, he, hunbalanced⟩
    rcases Key.cut_or_missingEquals_of_parse he with hcut | ⟨inside, rfl⟩
    · exact ⟨e, Key.split_eq_error.2 hcut⟩
    · simp [PathError.isUnbalanced] at hunbalanced
  · intro e he
    exact ⟨(hall e he).1, (hall e he).2, delimits_of_parse he⟩
  · intro segments hsegments
    refine ⟨Key.scannable_of_path hsegments, fun s hs => ?_⟩
    have hself : parse s = .ok [s] := wellFormed_of_parse hsegments hs
    exact Key.scannable_of_path hself

/-- A quote that nothing closes is where all three stop, behind two bytes for one letter.
A path in balance has segments that can be scanned, even without an equals sign. -/
theorem scanners_agree_quote :
    (parse "/é[k='x]" = .error (.unbalanced "/é[k='x]" 6) ∧
      Key.split "/é[k='x]" = .error (.unbalanced "/é[k='x]" 6) ∧
      Key.parse "/é[k='x]" = .error (.unbalanced "/é[k='x]" 6)) ∧
    parse "/é[k]/[a=[/]]" = .ok ["é[k]", "[a=[/]]"] ∧
      Key.Scannable "é[k]" ∧ Key.parse "é[k]" = .error (.missingEquals "é[k]" "k") := by
  have hrefused : parse "/é[k='x]" = .error (.unbalanced "/é[k='x]" 6) := by decide +kernel
  have hparse : parse "/é[k]/[a=[/]]" = .ok ["é[k]", "[a=[/]]"] := by decide +kernel
  have hmissing : Key.parse "é[k]" = .error (.missingEquals "é[k]" "k") := by decide +kernel
  have hall := (scanners_agree "/é[k='x]").2.2.1 _ hrefused
  have hsegments := (scanners_agree "/é[k]/[a=[/]]").2.2.2 _ hparse
  exact ⟨⟨hrefused, hall.1, hall.2.1⟩, hparse, hsegments.2 _ List.mem_cons_self, hmissing⟩

end Path

end TreeSync

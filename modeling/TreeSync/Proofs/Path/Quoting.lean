import TreeSync.Proofs.Path.Grammar

/-!
# Values in quotes

Between single quotes the scanner passes every other character, so any text without a single
quote can be given as a value.  What comes back is that text without the backslashes in front of
its closing brackets: they are taken off quoted values as they are off plain ones.

Main results:

- `Key.unprotect_eq_self_iff`: the texts that taking backslashes off leaves alone.
- `Key.parse_quoted`: what a key with a value in single quotes is read as.
- `Key.backslash_lost`: a quoted text that does not come back.
-/

namespace TreeSync

namespace Key

/-- Taking backslashes off changes every text that has one in front of a closing bracket. -/
theorem unprotect_eq_self_iff {text : List Char} :
    unprotect text = text ↔ ¬['\\', ']'] <:+: text := by
  refine ⟨fun h => ?_, unprotect_eq_self⟩
  induction text using unprotect.induct with
  | case1 rest _ => simp [unprotect] at h
  | case2 c rest hne ih =>
      rw [unprotect] at h
      · rw [List.infix_cons_iff]
        rintro (hfront | hrest)
        · obtain ⟨more, hmore⟩ := hfront
          obtain ⟨rfl, rfl⟩ := List.cons.inj hmore
          exact hne _ rfl rfl
        · exact ih (List.cons.inj h).2 hrest
      · exact hne
  | case3 => simp

/-! ## Groups with a quoted value -/

/-- The inside of a group whose value is in single quotes. -/
def quotedInside (field value : String) : List Char :=
  field.toList ++ '=' :: '\x27' :: (value.toList ++ ['\x27'])

variable {name field value : String}

theorem balanced_quotedInside (hfield : ∀ c ∈ field.toList, Plain c)
    (hvalue : '\x27' ∉ value.toList) : Balanced (quotedInside field value) := by
  have hquoted : Balanced ('\x27' :: (value.toList ++ ['\x27'])) :=
    Balanced.quoted (d := .single) nofun hvalue .nil
  have hequals : Balanced ('=' :: '\x27' :: (value.toList ++ ['\x27'])) :=
    .plain (by unfold Plain; decide) nofun hquoted
  exact hequals.plain_append hfield (List.cons_ne_nil _ _)

theorem reads_quotedInside (hfield : ∀ c ∈ field.toList, c ≠ '=') :
    Reads (quotedInside field value) (field, String.ofList (unprotect value.toList)) := by
  refine ⟨_, splitEquals_append hfield _, ?_⟩
  rw [cleanValue, if_neg (by simp), unquote_quoted, String.toList_ofList]

/-- A key with a value in single quotes binds its field to the value without the backslashes in
front of closing brackets.  So it binds the field to the value itself just when there are none. -/
theorem parse_quoted (hname : ∀ c ∈ name.toList, c ≠ '[' ∧ c ≠ ']')
    (hfield : ∀ c ∈ field.toList, Plain c ∧ c ≠ '=') (hvalue : '\x27' ∉ value.toList) :
    ∃ key, parse (name ++ "[" ++ field ++ "='" ++ value ++ "']") = .ok key ∧ key.name = name ∧
      key.qualifiers = [(field, String.ofList (unprotect value.toList))] ∧
      (key.get? field = some value ↔ ¬['\\', ']'] <:+: value.toList) := by
  refine ⟨⟨name, [(field, String.ofList (unprotect value.toList))]⟩, ?_, rfl, rfl, ?_⟩
  · have hgroup : RegularGroup (quotedInside field value, []) :=
      ⟨balanced_quotedInside (fun c hc => (hfield c hc).1) hvalue, List.forall_mem_nil _⟩
    have hread : Reads (quotedInside field value)
        (field, String.ofList (unprotect value.toList)) :=
      reads_quotedInside fun c hc => (hfield c hc).2
    refine parse_eq_ok_iff.2 ⟨⟨name.toList, [(quotedInside field value, [])]⟩, ?_, ?_, rfl, ?_⟩
    · simp [Cut.text, groupsText, quotedInside]
    · exact ⟨hname, List.forall_mem_singleton.2 hgroup⟩
    · exact .cons hread .nil
  · rw [← unprotect_eq_self_iff]
    simp [get?, String.ext_iff]

/-- Brackets, double quotes, equals signs, slashes and backslashes in a quoted value. -/
theorem parse_quoted_label :
    ∃ key, parse "port[label='a/]\\\\[=\"b\\']" = .ok key ∧
      key.get? "label" = some "a/]\\\\[=\"b\\" := by
  have hname : ∀ c ∈ "port".toList, c ≠ '[' ∧ c ≠ ']' := by simp
  have hfield : ∀ c ∈ "label".toList, Plain c ∧ c ≠ '=' := by simp [Plain]
  have hvalue : '\x27' ∉ "a/]\\\\[=\"b\\".toList := by simp
  have hslash : ¬['\\', ']'] <:+: "a/]\\\\[=\"b\\".toList := by decide +kernel
  have htoken : "port" ++ "[" ++ "label" ++ "='" ++ "a/]\\\\[=\"b\\" ++ "']" =
      "port[label='a/]\\\\[=\"b\\']" := by decide +kernel
  obtain ⟨key, hkey, -, -, hget⟩ := parse_quoted hname hfield hvalue
  rw [htoken] at hkey
  exact ⟨key, hkey, hget.2 hslash⟩

/-- A backslash in front of a closing bracket is taken off a quoted value. -/
theorem backslash_lost :
    ¬∀ name field value : String, (∀ c ∈ name.toList, c ≠ '[' ∧ c ≠ ']') →
      (∀ c ∈ field.toList, Plain c ∧ c ≠ '=') → '\x27' ∉ value.toList →
      ∃ key, parse (name ++ "[" ++ field ++ "='" ++ value ++ "']") = .ok key ∧
        key.get? field = some value := by
  intro hall
  obtain ⟨key, hkey, hget⟩ := hall "x" "a" "\\]" (by simp) (by simp [Plain]) (by simp)
  have hparse : parse ("x" ++ "[" ++ "a" ++ "='" ++ "\\]" ++ "']") = .ok ⟨"x", [("a", "]")]⟩ := by
    decide +kernel
  obtain rfl := Except.ok.inj (hparse.symm.trans hkey)
  simp [get?] at hget

end Key

end TreeSync

import Mathlib.Data.List.Perm.Basic
import TreeSync.Proofs.Apply.Looping
import TreeSync.Proofs.Navigate.Scalars

/-!
# Finding after removing

What is removed under a key is gone for finding.  A map has lost one entry, whatever literal
spells its key.  A list has lost the element that the key led to and no other, so a key that
describes its element leads on to the next one that matches, if there is one.  A record keeps
all its fields: the one under the key is as in a new record, and it is found unless the new
value is missing.

Main definitions and results:

- `Schema.matchCount`: how many elements of a list match a key.
- `Schema.Removed`: what finding makes of a container after a removal.
- `Schema.remove_map`, `Schema.remove_list`, `Schema.remove_record`: one kind of container each.
- `Schema.removed_of_remove`: every removal that succeeds.
-/

namespace TreeSync

/-- Without an element that has a property, a list has one less of them. -/
theorem countP_eraseIdx {α : Type} {p : α → Bool} {items : List α} {i : Nat}
    (hi : i < items.length) (hp : p items[i] = true) :
    items.countP p = (items.eraseIdx i).countP p + 1 := by
  rw [← (List.getElem_cons_eraseIdx_perm hi).countP_eq p, List.countP_cons_of_pos hp]

namespace Schema

open Node

variable {σ : Type} {S : Schema σ} {o : Options} {loops : Prop} {n m c d : Node σ}
  {type key : String} {mode : Mode}

/-- How many elements of a list match a key. -/
def matchCount (S : Schema σ) (o : Options) (elem : Ty) (items : List (Node σ)) (key : String) :
    Except NavError Nat := do
  let built ← S.build o elem key
  let fields ← constrained key
  return items.countP (agrees o fields built)

variable (S) in
/-- What finding makes of a container after the child under a key was removed from it. -/
inductive Removed (o : Options) (key : String) (mode : Mode) (n m : Node σ) : Prop where
  /-- No literal leads to the entry any more, and all others are as they were. -/
  | entry {kind : KeyKind} {elem : Ty} {entries others : List (MapKey × Node σ)} {k : MapKey}
      (before : n.innermost.container = .map kind elem entries)
      (after : m.innermost.container = .map kind elem others)
      (key : kind.readKey key = .ok k)
      (missing : ∀ literal mode, literal ≠ "" → kind.readKey literal = .ok k →
        S.find o m literal mode = .error (.entryNotFound literal))
      (others : ∀ l, l ≠ k → Entries.get? l others = Entries.get? l entries)
  /-- The element that was found is gone, and the others keep their order.  One element less
  matches a key that describes it, which leads nowhere if that was the only one. -/
  | element {elem : Ty} {items : List (Node σ)} {i : Nat} {v : Node σ}
      (before : n.innermost.container = .list elem items)
      (found : S.find o n key mode = .ok ⟨n.coreAddress ++ [.element i], v⟩)
      (after : m.innermost.container = .list elem (items.eraseIdx i))
      (matching : mode = .content → ∃ k, S.matchCount o elem items key = .ok (k + 1) ∧
        S.matchCount o elem (items.eraseIdx i) key = .ok k ∧
          (S.find o m key mode = .error (.entryNotFound key) ↔ k = 0))
  /-- The field has the value of a new record, and is found if that value is there. -/
  | field {type : String} {fields : List (Field × Node σ)} {place : Place σ}
      (before : n.innermost.container = .record type fields)
      (named : n.innermost.fieldPlace o false type fields key = .ok place)
      (after : m.get? (n.coreAddress ++ place.address) = some (S.zero place.node.ty))
      (finds : ∀ mode, S.find o m key mode =
        if (S.zero place.node.ty).isAllocated then
          .ok ⟨n.coreAddress ++ place.address, S.zero place.node.ty⟩
        else .error (.unallocated place.node.ty.name))

/-! ## Maps -/

/-- A literal that spells the key of an erased entry leads nowhere. -/
theorem findItem_eraseEntry {kind : KeyKind} {elem : Ty} {entries : List (MapKey × Node σ)}
    {k : MapKey} {literal : String} (hmap : c.container = .map kind elem entries)
    (hne : literal ≠ "") (hread : kind.readKey literal = .ok k) (mode : Mode) :
    S.findItem o (c.eraseEntry k) literal mode = .error (.entryNotFound literal) := by
  rcases container_alterEntry hmap k none with ⟨others, hothers⟩
  have hafter : (c.eraseEntry k).container = .map kind elem others := hothers
  rw [findItem_of_map hafter, entryKey_eq_ok.2 ⟨hne, hread⟩]
  simp only [bind, Except.bind, child?_eraseEntry hmap k]

theorem remove_map {kind : KeyKind} {elem : Ty} {entries : List (MapKey × Node σ)}
    (hmap : n.innermost.container = .map kind elem entries)
    (h : S.removeItem o n.innermost key mode = .ok d) : S.Removed o key mode n (n.withCore d) := by
  rw [removeItem_of_map hmap] at h
  rcases bind_eq_ok.1 h with ⟨k, hk, hd⟩
  obtain rfl : n.innermost.eraseEntry k = d := Except.ok.inj hd
  rcases container_alterEntry hmap k none with ⟨others, hothers⟩
  have hafter : (n.innermost.eraseEntry k).container = .map kind elem others := hothers
  have hbare := bare_of_container hafter
  refine .entry hmap ((congrArg container (innermost_withCore n hbare)).trans hafter)
    (entryKey_eq_ok.1 hk).2 (fun literal mode hne hread => ?_) fun l hl => ?_
  · rw [find_withCore hbare, find_item hbare (by simp [hafter]),
      findItem_eraseEntry hmap hne hread]
    rfl
  · rw [← child?_entry hafter, ← child?_entry hmap]
    exact child?_alterEntry_of_ne hmap hl none

/-! ## Lists -/

section List

variable {elem : Ty} {items : List (Node σ)} {i : Nat}

/-- A key that describes an element matches one less after the element is gone. -/
theorem exists_matchCount (hmatch : S.matchIndex o elem items key = .ok (some i)) :
    ∃ k found, S.matchCount o elem items key = .ok (k + 1) ∧
      S.matchCount o elem (items.eraseIdx i) key = .ok k ∧
        S.matchIndex o elem (items.eraseIdx i) key = .ok found ∧ (found = none ↔ k = 0) := by
  rcases bind_eq_ok.1 hmatch with ⟨built, hbuild, hfound⟩
  rcases bind_eq_ok.1 hfound with ⟨names, hnames, hfound⟩
  rcases List.findIdx?_eq_some_iff_getElem.1 (Except.ok.inj hfound) with ⟨hi, hagrees, -⟩
  have hcount := countP_eraseIdx hi hagrees
  have hcounted : ∀ others, S.matchCount o elem others key =
      .ok (others.countP (agrees o names built)) := by
    intro others
    rw [matchCount, hbuild, hnames]
    rfl
  refine ⟨_, _, (hcounted items).trans (congrArg Except.ok hcount), hcounted _,
    matchIndex_build hbuild hnames _, ?_⟩
  rw [List.findIdx?_eq_none_iff, List.countP_eq_zero]
  simp only [Bool.not_eq_true]

/-- A list finds what a key describes unless nothing matches. -/
theorem findItem_content (hlist : c.container = .list elem items) (hne : key ≠ "")
    {found : Option Nat} (hmatch : S.matchIndex o elem items key = .ok found) :
    S.findItem o c key .content = .error (.entryNotFound key) ↔ found = none := by
  have hlocate : S.locate o elem items key .content = .ok found := by
    rw [locate, require_of_ne hne, hmatch]
    rfl
  rw [findItem, hlist]
  simp only [hlocate, bind, Except.bind]
  cases found with
  | none => simp
  | some i =>
      rcases exists_of_locate hlocate with ⟨v, hv⟩
      simp [hv]

theorem remove_list (hlist : n.innermost.container = .list elem items)
    (hbare : n.innermost.Bare)
    (h : S.removeItem o n.innermost key mode = .ok d) : S.Removed o key mode n (n.withCore d) := by
  rw [removeItem, hlist] at h
  rcases bind_eq_ok.1 h with ⟨position, hlocate, hd⟩
  cases position with
  | none => simp at hd
  | some i =>
      obtain rfl : n.innermost.eraseItem i = d := Except.ok.inj hd
      rcases exists_of_locate hlocate with ⟨v, hv⟩
      have hafter := container_eraseItem hlist i
      have hcore := hbare.of_ty_eq hafter.2
      have hfind : S.find o n.innermost key mode = .ok ⟨[.element i], v⟩ := by
        rw [find_item hbare (by simp [hlist]), findItem, hlist]
        simp only [hlocate, bind, Except.bind, hv]
      have hfound : S.find o n key mode = .ok ⟨n.coreAddress ++ [.element i], v⟩ := by
        rw [← n.withCore_innermost, find_withCore hbare, hfind, withCore_innermost]
        rfl
      have hshrunk := (congrArg container (innermost_withCore n hcore)).trans hafter.1
      refine .element hlist hfound hshrunk fun hmode => ?_
      subst hmode
      rcases bind_eq_ok.1 hlocate with ⟨u, hrequire, hmatch⟩
      have hne : key ≠ "" := by
        rintro rfl
        simp [Key.require] at hrequire
      rcases exists_matchCount hmatch with ⟨k, found, hbefore, hnow, hnext, hnone⟩
      refine ⟨k, hbefore, hnow, ?_⟩
      rw [← hnone, ← findItem_content hafter.1 hne hnext, find_withCore hcore,
        find_item hcore (by simp [hafter.1])]
      exact map_eq_error

end List

/-! ## Records -/

section Record

variable {fields : List (Field × Node σ)}

/-- A plain key resets the field that it names, or the whole record if the field stands for
it. -/
theorem exists_field_of_remove (hc : S.Typed loops c) (hrecord : c.container = .record type fields)
    (hplain : Key.isStructured key = false) (h : S.remove o c key mode = .ok d) :
    ∃ i v, S.slotOf? o false type key = .ok (i, "") ∧ c.child? (.field i) = some v ∧
      c.fieldPlace o false type fields key =
        .ok (if v.isEnclosing then ⟨[], c⟩ else ⟨[.field i], v⟩) ∧
      d = if v.isEnclosing then S.zero c.ty else c.putChild (.field i) (S.zero v.ty) := by
  have hbare := (ready_of_record hrecord).bare
  rw [remove, core_of_bare hbare] at h
  simp only [hrecord, coreAddress_of_bare hbare] at h
  rcases map_eq_ok.1 h with ⟨r, hr, rfl⟩
  rcases bind_eq_ok.1 hr with ⟨⟨place, text⟩, hwritable, hreset⟩
  rcases bind_eq_ok.1 hwritable with ⟨u, hrequire, hkey⟩
  have hsplit : Key.splitField key = .ok (key, "") := by
    rw [Key.splitField, hplain]
    rfl
  rcases bind_eq_ok.1 hkey with ⟨parts, hparts, hname⟩
  obtain rfl := Except.ok.inj (hsplit.symm.trans hparts)
  rcases bind_eq_ok.1 hname with ⟨field, hfield, heq⟩
  obtain ⟨rfl, rfl⟩ := Prod.mk.inj (Except.ok.inj heq)
  obtain rfl : c.replaceAt field.address (S.reset field.node) = r := Except.ok.inj hreset
  have hplace := fieldPlace_record hc hrecord o true key
  split at hplace
  · rw [hplace] at hfield
    simp at hfield
  · rename_i i hi
    rcases hplace with ⟨v, hv, hplace⟩
    have hread := fieldOf_read hi
    have hshown := fieldPlace_record hc hrecord o false key
    rw [hread] at hshown
    rcases hshown with ⟨w, hw, hshown⟩
    obtain rfl := Option.some.inj (hv.symm.trans hw)
    have hslot : S.slotOf? o false type key = .ok (i, "") := by
      rw [slotOf?, hrequire, hsplit]
      simp only [bind, Except.bind, hread]
      rfl
    refine ⟨i, v, hslot, hv, hshown, ?_⟩
    obtain rfl := Except.ok.inj (hplace.symm.trans hfield)
    cases v.isEnclosing with
    | true => rfl
    | false => simp [replaceAt, hv, reset]

theorem remove_record (hS : S.Sound loops) (hloops : S.LoopedDefaults) (hn : S.Typed loops n)
    (hrecord : n.innermost.container = .record type fields) (hplain : Key.isStructured key = false)
    (h : S.remove o n.innermost key mode = .ok d) : S.Removed o key mode n (n.withCore d) := by
  have hc := hn.innermost
  have hkeeps := keeps_remove hS h
  rcases record_of_keeps hkeeps hc hrecord with ⟨hd, others, hothers⟩
  have hbare := (ready_of_record hothers).bare
  rcases exists_field_of_remove hc hrecord hplain h with ⟨i, v, hslot, hv, hnamed, heq⟩
  cases hself : v.isEnclosing with
  | true =>
      rw [if_pos hself] at hnamed heq
      subst heq
      have hfind := find_record hd hothers o key mode
      rw [hslot] at hfind
      rcases hfind with ⟨w, hw, -⟩
      have hitself := itself_of_isEnclosing hc hrecord hv hself
      have hstays := looped_zero hloops _ type others hothers i w hitself hw
      refine .field hrecord hnamed ?_ fun mode => ?_
      · rw [get?_withCore_append]
        rfl
      · rw [find_withCore hbare, find_enclosing hd hothers hslot hw hstays,
          if_pos (isAllocated_of_bare hbare)]
        rfl
  | false =>
      rw [if_neg (Bool.eq_false_iff.1 hself)] at hnamed heq
      subst heq
      have hchild := child?_putChild hv (S.ty_zero v.ty)
      refine .field hrecord hnamed ?_ fun mode => ?_
      · rw [get?_withCore_append]
        exact (Option.bind_eq_some_iff.2 ⟨_, hchild, rfl⟩)
      · have hfind := find_slot hd hothers hslot hchild (S.isEnclosing_zero v.ty) mode
        have htext : "".isEmpty = true := rfl
        rw [if_pos htext, S.ty_zero] at hfind
        rw [find_withCore hbare, hfind]
        simp only
        split <;> rfl

end Record

/-! ## All containers -/

/-- What was removed from a container is gone, and nothing else is.  A key of a record is the
name of a field. -/
theorem removed_of_remove (hS : S.Sound loops) (hloops : S.LoopedDefaults) (hn : S.Typed loops n)
    (hplain : ∀ type fields, n.innermost.container = .record type fields →
      Key.isStructured key = false)
    (h : S.remove o n key mode = .ok m) : S.Removed o key mode n m := by
  have halloc : n.isAllocated = true := by
    rw [remove] at h
    split at h
    · simp at h
    · rename_i c hcore
      exact isAllocated_of_core hcore
  have hbare := bare_innermost halloc
  rw [← n.withCore_innermost, remove_withCore hbare] at h
  rcases map_eq_ok.1 h with ⟨d, hd, rfl⟩
  cases hcontainer : n.innermost.container with
  | record type fields => exact remove_record hS hloops hn hcontainer (hplain _ _ hcontainer) hd
  | map kind elem entries =>
      rw [remove_item hbare (by simp [hcontainer])] at hd
      exact remove_map hcontainer hd
  | list elem items =>
      rw [remove_item hbare (by simp [hcontainer])] at hd
      exact remove_list hcontainer hbare hd
  | fixed =>
      rw [remove_item hbare (by simp [hcontainer]), removeItem, hcontainer] at hd
      simp at hd
  | leaf =>
      rw [remove_item hbare (by simp [hcontainer]), removeItem, hcontainer] at hd
      simp at hd

/-- Of two equal names the first one is removed, and the other one is found then. -/
theorem removed_of_remove_names :
    (empty ()).remove {} (names ["eth0", "lo", "eth0"]) "eth0" .content =
        .ok (names ["lo", "eth0"]) ∧
      (empty ()).Removed {} "eth0" .content (names ["eth0", "lo", "eth0"])
        (names ["lo", "eth0"]) := by
  have hlooped : (empty ()).LoopedDefaults := fun d hd => absurd hd List.not_mem_nil
  have htyped : (empty ()).Typed False (names ["eth0", "lo", "eth0"]) := by
    refine .list (fun v hv => ?_) fun v hv => ?_
    · rcases List.mem_map.1 hv with ⟨text, -, rfl⟩
      rfl
    · rcases List.mem_map.1 hv with ⟨text, -, rfl⟩
      exact .scalar _
  have hmatch : (empty ()).matchIndex {} (.scalar .string)
      (["eth0", "lo", "eth0"].map fun text => (.scalar (.text text) : Node Unit)) "eth0" =
        .ok (some 0) := by
    have hsame : (Node.scalar (.text "eth0") : Node Unit).same (.scalar (.text "eth0")) = true := by
      rw [Node.same]
      exact beq_self_eq_true _
    rw [matchIndex_of_plain (by decide) build_name, List.map_cons, List.findIdx?_cons, hsame]
    rfl
  have hremove : (empty ()).remove {} (names ["eth0", "lo", "eth0"]) "eth0" .content =
      .ok (names ["lo", "eth0"]) := remove_content rfl rfl (by decide) hmatch
  refine ⟨hremove, ?_⟩
  exact removed_of_remove (sound_empty ()) hlooped htyped (fun _ _ _ => by decide) hremove

end Schema

end TreeSync

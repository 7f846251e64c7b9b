import TreeSync.Entries

/-!
# Entries with ascending keys

As long as the keys of a list of entries ascend, the list is known by what it
stores: two such lists with equal look-ups are equal.  So the laws of finite maps
hold as equations between lists.

Main results:

- `Entries.ext_of_ascending`: equal look-ups, equal entries.
- `Entries.alter_comm`: changes of different keys commute.
- `Entries.put_of_get?_eq_some`: writing what is already there changes nothing.
-/

namespace TreeSync

namespace Entries

variable {α β : Type}

/-- A strict order of keys that decides between any two different keys of a
kind. -/
structure Orders (before : α → α → Bool) (admits : α → Prop) : Prop where
  irrefl : ∀ a, before a a = false
  trans : ∀ a b c, before a b = true → before b c = true → before a c = true
  total : ∀ a b, admits a → admits b → a ≠ b → before a b = true ∨ before b a = true

/-- The keys ascend strictly. -/
def Ascending (before : α → α → Bool) (entries : List (α × β)) : Prop :=
  entries.Pairwise fun a b => before a.1 b.1 = true

section Order

variable {before : α → α → Bool} {admits : α → Prop}

theorem Orders.asymm (ho : Orders before admits) {a b : α} (h : before a b = true) :
    before b a = false := by
  cases hb : before b a with
  | false => rfl
  | true => exact absurd (ho.trans a b a h hb) (by simp [ho.irrefl])

theorem Orders.ne (ho : Orders before admits) {a b : α} (h : before a b = true) : a ≠ b := by
  rintro rfl
  simp [ho.irrefl] at h

theorem Ascending.tail {e : α × β} {rest : List (α × β)} (h : Ascending before (e :: rest)) :
    Ascending before rest :=
  (List.pairwise_cons.1 h).2

end Order

variable [DecidableEq α]

/-- Writing or erasing the value under a key. -/
def alter (before : α → α → Bool) (key : α) : Option β → List (α × β) → List (α × β)
  | some value => put before key value
  | none => erase key

section Membership

variable (before : α → α → Bool)

theorem mem_of_get?_eq_some {key : α} {value : β} {entries : List (α × β)}
    (h : get? key entries = some value) : (key, value) ∈ entries := by
  induction entries with
  | nil => simp [get?] at h
  | cons e rest ih =>
      obtain ⟨k, v⟩ := e
      rw [get?] at h
      split at h
      · rename_i hk
        obtain rfl := Option.some.inj h
        rw [hk]
        exact List.mem_cons_self
      · exact List.mem_cons_of_mem _ (ih h)

theorem get?_eq_none_of_forall_ne {key : α} {entries : List (α × β)}
    (h : ∀ e ∈ entries, e.1 ≠ key) : get? key entries = none := by
  induction entries with
  | nil => rfl
  | cons e rest ih =>
      obtain ⟨k, v⟩ := e
      rw [get?, if_neg (h (k, v) List.mem_cons_self)]
      exact ih fun e he => h e (List.mem_cons_of_mem _ he)

/-- Entries in front come first. -/
theorem get?_append (key : α) (front back : List (α × β)) :
    get? key (front ++ back) = (get? key front).or (get? key back) := by
  induction front with
  | nil => rfl
  | cons e rest ih =>
      obtain ⟨k, v⟩ := e
      by_cases hk : k = key
      · simp [get?, hk]
      · simpa [get?, hk] using ih

/-- An entry after a write is the written one or an old one. -/
theorem mem_put {key : α} {value : β} {entries : List (α × β)} {e : α × β}
    (h : e ∈ put before key value entries) : e = (key, value) ∨ e ∈ entries := by
  induction entries with
  | nil => exact Or.inl (List.mem_singleton.1 h)
  | cons d rest ih =>
      obtain ⟨k, v⟩ := d
      rw [put] at h
      split at h
      · rcases List.mem_cons.1 h with h | h
        · exact Or.inl h
        · exact Or.inr (List.mem_cons_of_mem _ h)
      · split at h
        · exact List.mem_cons.1 h
        · rcases List.mem_cons.1 h with h | h
          · exact Or.inr (h ▸ List.mem_cons_self)
          · rcases ih h with h | h
            · exact Or.inl h
            · exact Or.inr (List.mem_cons_of_mem _ h)

/-- Erasing keeps some of the entries in their order. -/
theorem erase_sublist (key : α) (entries : List (α × β)) :
    (erase key entries).Sublist entries := by
  induction entries with
  | nil => exact List.Sublist.refl _
  | cons e rest ih =>
      obtain ⟨k, v⟩ := e
      rw [erase]
      split
      · exact ih.cons _
      · exact ih.cons_cons _

/-- Erasing a key that is absent changes nothing. -/
theorem erase_of_get?_eq_none {key : α} {entries : List (α × β)} (h : get? key entries = none) :
    erase key entries = entries := by
  induction entries with
  | nil => rfl
  | cons e rest ih =>
      obtain ⟨k, v⟩ := e
      rw [get?] at h
      split at h
      · simp at h
      · rename_i hk
        rw [erase, if_neg hk, ih h]

/-- The look-ups after a change of one key. -/
theorem get?_alter (key other : α) (value : Option β) (entries : List (α × β)) :
    get? other (alter before key value entries) =
      if other = key then value else get? other entries := by
  by_cases h : other = key
  · subst h
    cases value <;> simp [alter]
  · rw [if_neg h]
    cases value with
    | none => exact get?_erase_of_ne h entries
    | some v => exact get?_put_of_ne before h v entries

/-- Of two writes under one key the last one counts. -/
theorem put_put (key : α) (first second : β) (entries : List (α × β)) :
    put before key second (put before key first entries) = put before key second entries := by
  induction entries with
  | nil => simp [put]
  | cons e rest ih =>
      obtain ⟨k, v⟩ := e
      by_cases hk : k = key
      · simp [put, hk]
      · by_cases hb : before key k = true
        · simp [put, hk, hb]
        · simp [put, hk, hb, ih]

/-- An erased key leaves no trace of what was written under it. -/
theorem erase_put (key : α) (value : β) (entries : List (α × β)) :
    erase key (put before key value entries) = erase key entries := by
  induction entries with
  | nil => simp [put, erase]
  | cons e rest ih =>
      obtain ⟨k, v⟩ := e
      by_cases hk : k = key
      · simp [put, erase, hk]
      · by_cases hb : before key k = true
        · simp [put, erase, hk, hb]
        · simp [put, erase, hk, hb, ih]

end Membership

section Equations

variable {before : α → α → Bool} {admits : α → Prop}

/-- The first key of ascending entries does not occur again. -/
theorem Ascending.get?_tail (ho : Orders before admits) {key : α} {value : β}
    {rest : List (α × β)} (h : Ascending before ((key, value) :: rest)) :
    get? key rest = none := by
  refine get?_eq_none_of_forall_ne fun e he hkey => ?_
  have hlt : before key e.1 = true := (List.pairwise_cons.1 h).1 e he
  exact ho.ne hlt hkey.symm

/-- Ascending entries hold no two values under one key. -/
theorem get?_eq_some_of_mem (ho : Orders before admits) {entries : List (α × β)}
    (h : Ascending before entries) {key : α} {value : β} (hmem : (key, value) ∈ entries) :
    get? key entries = some value := by
  induction entries with
  | nil => simp at hmem
  | cons e rest ih =>
      obtain ⟨k, v⟩ := e
      rcases List.mem_cons.1 hmem with heq | hmem
      · obtain ⟨rfl, rfl⟩ := Prod.mk.inj heq
        rw [get?, if_pos rfl]
      · have hlt : before k key = true := (List.pairwise_cons.1 h).1 _ hmem
        rw [get?, if_neg (ho.ne hlt)]
        exact ih h.tail hmem

/-- Ascending entries with equal look-ups are equal. -/
theorem ext_of_ascending (ho : Orders before admits) {left right : List (α × β)}
    (hl : Ascending before left) (hr : Ascending before right)
    (h : ∀ key, get? key left = get? key right) : left = right := by
  induction left generalizing right with
  | nil =>
      cases right with
      | nil => rfl
      | cons e rest => simpa [get?] using h e.1
  | cons d left ih =>
      obtain ⟨a, x⟩ := d
      cases right with
      | nil => simpa [get?] using h a
      | cons e right =>
          obtain ⟨b, y⟩ := e
          -- The first keys agree, for each of them occurs on the other side too.
          have hab : a = b := by
            have ha := mem_of_get?_eq_some ((h a).symm.trans (by rw [get?, if_pos rfl]))
            have hb := mem_of_get?_eq_some ((h b).trans (by rw [get?, if_pos rfl]))
            rcases List.mem_cons.1 ha with ha | ha
            · exact (Prod.mk.inj ha).1
            · rcases List.mem_cons.1 hb with hb | hb
              · exact (Prod.mk.inj hb).1.symm
              · have hlt : before b a = true := (List.pairwise_cons.1 hr).1 _ ha
                have hgt : before a b = true := (List.pairwise_cons.1 hl).1 _ hb
                simp [ho.asymm hlt] at hgt
          subst hab
          have hxy : x = y := by simpa [get?] using h a
          subst hxy
          rw [ih hl.tail hr.tail]
          intro key
          by_cases hkey : a = key
          · subst hkey
            rw [hl.get?_tail ho, hr.get?_tail ho]
          · simpa [get?, hkey] using h key

/-- A write keeps the keys ascending. -/
theorem Ascending.put (ho : Orders before admits) {key : α} (hkey : admits key) (value : β)
    {entries : List (α × β)} (hadmits : ∀ e ∈ entries, admits e.1)
    (h : Ascending before entries) : Ascending before (Entries.put before key value entries) := by
  induction entries with
  | nil => exact List.pairwise_singleton _ _
  | cons e rest ih =>
      obtain ⟨k, v⟩ := e
      obtain ⟨hhead, htail⟩ := List.pairwise_cons.1 h
      rw [Entries.put]
      split
      · rename_i hk
        subst hk
        exact List.pairwise_cons.2 ⟨hhead, htail⟩
      · rename_i hk
        split
        · rename_i hb
          refine List.pairwise_cons.2 ⟨fun d hd => ?_, h⟩
          rcases List.mem_cons.1 hd with rfl | hd
          · exact hb
          · exact ho.trans _ _ _ hb (hhead d hd)
        · rename_i hb
          have hkb : before k key = true := by
            rcases ho.total k key (hadmits _ List.mem_cons_self) hkey hk with hlt | hlt
            · exact hlt
            · exact absurd hlt hb
          refine List.pairwise_cons.2 ⟨fun d hd => ?_, ?_⟩
          · rcases mem_put before hd with rfl | hd
            · exact hkb
            · exact hhead d hd
          · exact ih (fun d hd => hadmits d (List.mem_cons_of_mem _ hd)) htail

theorem Ascending.erase (key : α) {entries : List (α × β)} (h : Ascending before entries) :
    Ascending before (Entries.erase key entries) :=
  h.sublist (erase_sublist key entries)

theorem Ascending.alter (ho : Orders before admits) {key : α} (hkey : admits key)
    (value : Option β) {entries : List (α × β)} (hadmits : ∀ e ∈ entries, admits e.1)
    (h : Ascending before entries) : Ascending before (Entries.alter before key value entries) := by
  cases value with
  | none => exact h.erase key
  | some v => exact h.put ho hkey v hadmits

theorem admits_of_mem_alter {key : α} (hkey : admits key) {value : Option β}
    {entries : List (α × β)} (hadmits : ∀ e ∈ entries, admits e.1) {e : α × β}
    (he : e ∈ alter before key value entries) : admits e.1 := by
  cases value with
  | none => exact hadmits e ((erase_sublist key entries).mem he)
  | some v =>
      rcases mem_put before he with rfl | he
      · exact hkey
      · exact hadmits e he

/-- Writing what is already there changes nothing. -/
theorem put_of_get?_eq_some (ho : Orders before admits) {key : α} {value : β}
    {entries : List (α × β)} (h : Ascending before entries)
    (hget : get? key entries = some value) : put before key value entries = entries := by
  induction entries with
  | nil => simp [get?] at hget
  | cons e rest ih =>
      obtain ⟨k, v⟩ := e
      rw [get?] at hget
      rw [put]
      split at hget
      · rename_i hk
        obtain rfl := Option.some.inj hget
        rw [if_pos hk, hk]
      · rename_i hk
        have hlt : before k key = true :=
          (List.pairwise_cons.1 h).1 _ (mem_of_get?_eq_some hget)
        rw [if_neg hk, if_neg (by simp [ho.asymm hlt]), ih h.tail hget]

/-- Changes of different keys commute. -/
theorem alter_comm (ho : Orders before admits) {left right : α} (hleft : admits left)
    (hright : admits right) (hne : left ≠ right) (x y : Option β) {entries : List (α × β)}
    (hadmits : ∀ e ∈ entries, admits e.1) (h : Ascending before entries) :
    alter before left x (alter before right y entries) =
      alter before right y (alter before left x entries) := by
  have hx := h.alter ho hleft x hadmits
  have hy := h.alter ho hright y hadmits
  refine ext_of_ascending ho
    (hy.alter ho hleft x fun e he => admits_of_mem_alter hright hadmits he)
    (hx.alter ho hright y fun e he => admits_of_mem_alter hleft hadmits he) fun key => ?_
  simp only [get?_alter]
  by_cases h1 : key = left
  · rw [if_pos h1, if_neg fun h2 => hne (h1.symm.trans h2), if_pos h1]
  · rw [if_neg h1, if_neg h1]

end Equations

end Entries

end TreeSync

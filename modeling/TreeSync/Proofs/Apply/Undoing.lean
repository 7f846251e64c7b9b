import TreeSync.Proofs.Apply.Repeating
import TreeSync.Proofs.Navigate.Scalars

/-!
# Creating and deleting again

An event that creates an entry which a map lacks, or an element which a list lacks and
which the key describes, is taken back by the event that deletes under the same path and
key.  The two walk differently: one makes what is missing, the other makes nothing.  On a
path that is there both go through the same nodes, and what the first one changed is found
again as long as the path enters no list.

An event at the root itself is another matter: it replaces a document as a whole, and
deleting there does nothing.

Main definitions and results:

- `Undoes`: a change that takes another one back.
- `Schema.Describable`, `Schema.MakesNew`: keys of something that is not there.
- `Schema.undoes_entry`, `Schema.undoes_element`: the leaf.
- `Schema.walk_undoes`: the induction along the path.
- `Schema.apply_undoes`: create, then delete.
-/

namespace TreeSync

open Node

variable {σ ε : Type}

/-- Where the change `make` succeeds, the change `drop` takes it back. -/
def Undoes (make drop : Node σ → Node σ × Except ε Unit) (n : Node σ) : Prop :=
  ∀ m, make n = (m, .ok ()) → drop m = (n, .ok ())

namespace Schema

variable {S : Schema σ} {o : Options} {n c m : Node σ} {elem : Ty} {items : List (Node σ)}
  {key : String} {rest path : List String} {make drop e : Event} {place : Place σ}

/-! ## What is not there -/

/-- A key describes elements of a type that match it: records and documents under a key in
brackets, and scalars under a plain one.  No fixed array may stand in a field that the key
names. -/
inductive Describable (S : Schema σ) (o : Options) (elem : Ty) (key : String) : Prop
  | record {type : String} (core : elem.core = .record type)
      (structured : Key.isStructured key = true)
      (arrays : ∀ built, S.build o elem key = .ok built → NamedFields o key built ArrayFree)
  | document (core : elem.core = .dynamic) (structured : Key.isStructured key = true)
  | scalar {kind : ScalarKind} (core : elem.core = .scalar kind)
      (plain : Key.isStructured key = false) (content : Mode.ofKey o key = .content)

/-- A key of something that is not in a node: of an entry that a map lacks, or of an element
that a list lacks and the key describes. -/
inductive MakesNew (S : Schema σ) (o : Options) (n : Node σ) (key : String) : Prop
  | entry {kind : KeyKind} {elem : Ty} {entries : List (MapKey × Node σ)}
      (map : n.innermost.container = .map kind elem entries)
      (missing : n.innermost.entry? key = none)
  | element {elem : Ty} {items : List (Node σ)}
      (list : n.innermost.container = .list elem items) (describes : S.Describable o elem key)
      (missing : ∀ i, S.matchIndex o elem items key ≠ .ok (some i))

theorem ne_empty_of_content (h : Mode.ofKey o key = .content) : key ≠ "" := by
  rintro rfl
  exact Mode.noConfusion (show Mode.last = .content from h)

theorem ofKey_structured (o : Options) (hkey : Key.isStructured key = true) :
    Mode.ofKey o key = .content := by
  have hempty : key.isEmpty = false := by
    rw [Bool.eq_false_iff]
    intro hempty
    obtain rfl := String.isEmpty_iff.1 hempty
    exact absurd hkey (by decide)
  rw [Mode.ofKey, hempty, hkey]
  rfl

theorem Describable.ofKey_eq (h : S.Describable o elem key) : Mode.ofKey o key = .content := by
  cases h with
  | record _ hkey _ => exact ofKey_structured o hkey
  | document _ hkey => exact ofKey_structured o hkey
  | scalar _ _ hcontent => exact hcontent

/-- A new element matches the key that describes it. -/
theorem Describable.agrees (hS : S.Sound False) (h : S.Describable o elem key) {built : Node σ}
    (hbuild : S.build o elem key = .ok built) :
    ∃ names, constrained key = .ok names ∧ agrees o names built built = true := by
  cases h with
  | record hcore hkey harrays =>
      have hfree := harrays built hbuild
      rcases agrees_described hS (.inr ⟨_, hcore⟩) hkey hbuild hfree False.elim with
        ⟨names, hnames, -, hself⟩
      exact ⟨names, hnames, hself⟩
  | document hcore hkey =>
      have hfree := namedFields_document hS hcore hbuild
      rcases agrees_described hS (.inl hcore) hkey hbuild hfree False.elim with
        ⟨names, hnames, -, hself⟩
      exact ⟨names, hnames, hself⟩
  | scalar hcore hplain _ => exact ⟨[], agrees_plain hS hcore hplain hbuild⟩

/-! ## Leaves -/

/-- An entry that was not there is erased again. -/
theorem undoes_entry (hS : S.Sound False) (hc : S.Typed False c)
    (hmake : make.action ≠ .delete) (hdrop : drop.action = .delete) (hkey : drop.key = make.key)
    {kind : KeyKind} {entries : List (MapKey × Node σ)}
    (hmap : c.container = .map kind elem entries) (hmissing : c.entry? make.key = none) :
    Undoes (S.perform o make) (S.perform o drop) c := by
  intro d hd
  have hrecord : ∀ type fields, c.container ≠ .record type fields := by
    intro type fields
    rw [hmap]
    simp
  rw [perform_item hmake (ready_of_map hmap) hrecord] at hd
  have hput := ofNavigation_eq_ok hd
  rw [putItem_of_map hmap] at hput
  cases hk : entryKey kind make.key with
  | error err => simp [hk] at hput
  | ok k =>
      have hnone : c.child? (.entry k) = none := by
        rw [ entry?, hmap] at hmissing
        simp only [(entryKey_eq_ok.1 hk).2] at hmissing
        rw [child?_entry hmap, hmissing]
      simp only [hk] at hput
      rcases exists_changeEntry hc hmap (fun v => (keeps_put hS v).ty_eq) hput with
        ⟨v, w, -, hw, rfl⟩
      rcases container_putEntry hmap k w with ⟨others, hothers⟩
      have hperform := perform_entry (S := S) (o := o) (e := drop) hothers
      rw [hkey, hk] at hperform
      rw [hperform, changeEntry, performEntry, if_pos hdrop]
      exact Prod.ext (eraseEntry_putEntry hmap hnone hw) rfl

/-- An element that was not there is removed again. -/
theorem undoes_element (hS : S.Sound False) (halloc : n.isAllocated = true)
    (hmake : make.action ≠ .delete) (htag : make.tag.shape? = none)
    (hdrop : drop.action = .delete) (hkey : drop.key = make.key)
    (hlist : n.innermost.container = .list elem items)
    (hdescribes : S.Describable o elem make.key)
    (hmissing : ∀ i, S.matchIndex o elem items make.key ≠ .ok (some i)) :
    Undoes (S.perform o make) (S.perform o drop) n := by
  intro m hm
  have hne := ne_empty_of_content hdescribes.ofKey_eq
  have hpromote : S.promote n = n := by
    have hpromote := promote_withCore (S := S) (ready_of_list hlist) n
    rwa [withCore_innermost] at hpromote
  have hopen : S.allocate n = n := S.allocate_of_isAllocated halloc
  have hlist' : (S.allocate n).innermost.container = .list elem items := by rwa [hopen]
  rw [perform_of_literal hmake htag, hpromote, hdescribes.ofKey_eq] at hm
  rcases exists_built_of_write hlist' hne hmissing (ofNavigation_eq_ok hm) with
    ⟨built, hbuild, hmatch, rfl⟩
  have hty := (typed_build hS hbuild).1
  have happend := container_append hlist hty
  have hbare : (n.innermost.append built).Bare := (bare_innermost halloc).of_ty_eq happend.2
  have hinner := innermost_withCore n hbare
  rcases hdescribes.agrees hS hbuild with ⟨names, hnames, hself⟩
  have hnow := matchIndex_append hbuild hnames hself hmatch
  rw [hopen, perform_of_delete hdrop, hkey, hdescribes.ofKey_eq,
    remove_content (isAllocated_withCore n hbare) (hinner.symm ▸ happend.1) hne hnow,
    Option.elim_some, hinner, eraseItem_append hlist hty, withCore_withCore n hbare,
    withCore_innermost]

/-- What was not there is deleted again. -/
theorem undoes_perform (hS : S.Sound False) (hn : S.Typed False n)
    (halloc : n.isAllocated = true) (hmake : make.action ≠ .delete)
    (htag : make.tag.shape? = none) (hdrop : drop.action = .delete) (hkey : drop.key = make.key)
    (hnew : S.MakesNew o n make.key) : Undoes (S.perform o make) (S.perform o drop) n := by
  cases hnew with
  | element hlist hdescribes hmissing =>
      exact undoes_element hS halloc hmake htag hdrop hkey hlist hdescribes hmissing
  | entry hmap hmissing =>
      -- Both events work below the layers.
      intro m hm
      have hready := ready_of_map hmap
      have hbelow := undoes_entry (o := o) hS hn.innermost hmake hdrop hkey hmap hmissing
      have hkeeps := keeps_perform hS (o := o) make n.innermost
      rw [← n.withCore_innermost, perform_withCore hready.bare (fun _ => hready)] at hm
      obtain ⟨rfl, hok⟩ := Prod.mk.inj hm
      have hafter : (S.perform o make n.innermost).1.Bare := hready.bare.of_ty_eq hkeeps.ty_eq
      rw [perform_withCore hafter (fun haction => absurd hdrop haction),
        hbelow _ (Prod.ext rfl hok), withCore_innermost]

/-! ## The way -/

/-- A walk goes on in the child that its first key finds. -/
theorem walk_of_find (hS : S.Sound False) (hn : S.Typed False n)
    (h : S.find o n key (.ofKey o key) = .ok place) (halloc : place.node.isAllocated = true)
    (e : Event) (rest : List String) :
    S.walk o e n (key :: rest) = n.putBack place.address (S.walk o e place.node rest) := by
  have hget := get?_find h
  by_cases haction : e.action = .delete
  · rw [walk_cons hS hn, haction, enter_delete, h]
    simp only [Functor.map, Except.map, hget]
  · have hopened : S.walk o e place.node rest = _ := walk_innermost hS halloc haction rest
    have hbelow : n.get? (place.address ++ place.node.coreAddress) = some place.node.innermost := by
      rw [get?_append, hget]
      exact get?_coreAddress place.node
    rw [walk_cons hS hn, enter_of_find hn haction h, S.allocate_of_isAllocated halloc,
      hn.replaceAt_self hget]
    simp only [hbelow]
    rw [hopened]
    exact Prod.ext (replaceAt_append hget _) rfl

/-- What is undone in the child that a key finds is undone in the node. -/
theorem undoes_step (hS : S.Sound False) (hn : S.Typed False n) (hmake : make.action ≠ .delete)
    (h : S.find o n key (.ofKey o key) = .ok place) (hlist : ∀ i, Step.element i ∉ place.address)
    (halloc : place.node.isAllocated = true)
    (hbelow : Undoes (S.walk o make · rest) (S.walk o drop · rest) place.node) :
    Undoes (S.walk o make · (key :: rest)) (S.walk o drop · (key :: rest)) n := by
  intro m hm
  have hget := get?_find h
  have hkeeps := keeps_walk hS (o := o) make place.node rest
  simp only [walk_of_find hS hn h halloc] at hm ⊢
  obtain ⟨rfl, hok⟩ := Prod.mk.inj hm
  have hthere : (S.walk o make place.node rest).1.isAllocated = true := by
    have hinner := keeps_walk hS (o := o) make place.node.innermost rest
    rw [walk_innermost hS halloc hmake]
    exact isAllocated_withCore _ ((bare_innermost halloc).of_ty_eq hinner.ty_eq)
  have hafter := (Keeps.replaceAt hget hkeeps).typed hn
  have hundone : S.walk o drop (S.walk o make place.node rest).1 rest = (place.node, .ok ()) :=
    hbelow _ (Prod.ext rfl hok)
  have hback := replaceAt_replaceAt_append (b := []) hget hkeeps.ty_eq (w := place.node) rfl
  rw [List.append_nil] at hback
  have hfound := find_replaceAt hS hn h hlist hkeeps hthere
  refine (walk_of_find hS hafter hfound hthere drop rest).trans ?_
  rw [hundone]
  exact Prod.ext (hback.trans (hn.replaceAt_self hget)) rfl

/-- Where a path leads to a node that has a value, all nodes on the way have one. -/
theorem isAllocated_of_reached_last (h : (S.reached o n path)[path.length]? = some place)
    (halloc : place.node.isAllocated = true) : n.isAllocated = true := by
  cases path with
  | nil =>
      obtain rfl := Option.some.inj h
      exact halloc
  | cons key rest =>
      cases hfind : S.find o n key (.ofKey o key) with
      | error err => simp [reached_of_error hfind] at h
      | ok child => exact isAllocated_of_find hfind

/-- Along a path that is there, and enters no list, what is undone at its end is undone in
every node above. -/
theorem walk_undoes (hS : S.Sound False) (hn : S.Typed False n) (hmake : make.action ≠ .delete)
    (h : (S.reached o n path)[path.length]? = some place)
    (hlists : ∀ i, Step.element i ∉ place.address) (halloc : place.node.isAllocated = true)
    (hleaf : Undoes (S.perform o make) (S.perform o drop) place.node) :
    Undoes (S.walk o make · path) (S.walk o drop · path) n := by
  induction path generalizing n place with
  | nil =>
      obtain rfl := Option.some.inj h
      exact hleaf
  | cons key rest ih =>
      cases hfind : S.find o n key (.ofKey o key) with
      | error err => simp [reached_of_error hfind] at h
      | ok child =>
          rw [reached_of_ok hfind, List.length_cons, List.getElem?_cons_succ,
            List.getElem?_map] at h
          rcases Option.map_eq_some_iff.1 h with ⟨below, hbelow, rfl⟩
          simp only [Place.under, List.mem_append, not_or] at hlists halloc hleaf
          have hchild := hn.get (get?_find hfind)
          exact undoes_step hS hn hmake hfind (fun i => (hlists i).1)
            (isAllocated_of_reached_last hbelow halloc)
            (ih hchild hbelow (fun i => (hlists i).2) halloc hleaf)

/-! ## The event -/

/-- At a typed map an event at the root changes nothing. -/
theorem applyRoot_of_map (haction : e.action ≠ .delete) {tag : ScalarTag}
    (htag : e.tag = .scalar tag) (halloc : n.isAllocated = true) {kind : KeyKind}
    {entries : List (MapKey × Node σ)} (hmap : n.innermost.container = .map kind elem entries)
    (hroot : ∀ d, n.innermost ≠ .dynamic d) : S.applyRoot e n = (n, .ok ()) := by
  have hopen : S.allocate n = n := S.allocate_of_isAllocated halloc
  have hcontainer : (S.allocate n).innermost.container ≠ .leaf := by
    rw [hopen, hmap]
    simp
  rw [applyRoot_typed ⟨haction, tag, htag⟩ hcontainer (hopen.symm ▸ hroot), hopen]

theorem applyRoot_delete (haction : e.action = .delete) (n : Node σ) :
    S.applyRoot e n = (n, .ok ()) :=
  applyRoot_idle (fun h => h.1 haction) n

/-- An event that creates a scalar under a key of something that is not there is taken back
by the event that deletes it.  Only a document must not be addressed as the root: it is
replaced as a whole, and not deleted. -/
theorem apply_undoes (hS : S.Sound False) (hfree : S.OverrideFree) {target : Node σ}
    (htarget : S.Typed False target) (hmake : make.action ≠ .delete) {tag : ScalarTag}
    (htag : make.tag = .scalar tag) (hdrop : drop.action = .delete)
    (hpath : drop.path = make.path) (hkey : drop.key = make.key)
    (hplace : (S.reached o target make.path)[make.path.length]? = some place)
    (hlists : ∀ i, Step.element i ∉ place.address) (halloc : place.node.isAllocated = true)
    (hnew : S.MakesNew o place.node make.key)
    (hroot : make.isRoot = true → ∀ d, target.innermost ≠ .dynamic d)
    (h : S.apply o make target = (m, .ok ())) : S.apply o drop m = (target, .ok ()) := by
  have hsame : drop.isRoot = make.isRoot := by rw [Event.isRoot, Event.isRoot, hpath, hkey]
  cases hrooted : make.isRoot with
  | true =>
      rw [hrooted] at hsame
      obtain ⟨hnil, hempty⟩ : make.path = [] ∧ make.key = "" := by
        simpa [Event.isRoot] using hrooted
      rw [hnil] at hplace
      obtain rfl := Option.some.inj hplace
      cases hnew with
      | element _ hdescribes _ => exact absurd hempty (ne_empty_of_content hdescribes.ofKey_eq)
      | entry hmap _ =>
          rw [apply, if_pos hrooted, applyRoot_of_map hmake htag halloc hmap (hroot hrooted)] at h
          obtain ⟨rfl, -⟩ := Prod.mk.inj h
          rw [apply, if_pos hsame, applyRoot_delete hdrop]
  | false =>
      rw [hrooted] at hsame
      have hchild := htarget.get (get?_of_mem_reached (List.mem_of_getElem? hplace))
      have hleaf := undoes_perform hS hchild halloc hmake (by rw [htag]; rfl) hdrop hkey hnew
      have hwalk := walk_undoes hS htarget hmake hplace hlists halloc hleaf
      have hkeeps := keeps_walk hS (o := o) make target make.path
      rw [apply_of_silent htarget (hfree.silent target) hrooted] at h
      rw [h] at hkeeps
      rw [apply_of_silent (hkeeps.typed htarget) (hfree.silent m) hsame, hpath]
      exact hwalk m h

/-- A switch with a list of ports. -/
def switchWith (ports : List (Node Unit)) : Node Unit :=
  (switch.zero (.record "Switch")).putChild (.field 0) (.present (.list (.record "Port") ports))

theorem typed_switchWith : switch.Typed False (switchWith []) := by
  have hchild : (switch.zero (.record "Switch")).child? (.field 0) =
    some (.absent (.list (.record "Port"))) := by rfl
  have hports : switch.Typed False (.present (.list (.record "Port") [])) :=
    .present (.list (List.forall_mem_nil _) (List.forall_mem_nil _))
  have hkeeps : switch.Keeps False (.absent (.list (.record "Port")))
    (.present (.list (.record "Port") [])) := .of_typed rfl hports rfl
  exact (Keeps.putChild hchild hkeeps).typed (typed_zero sound_switch (.record "Switch"))

/-- The port that is made in a switch without ports is removed again. -/
theorem apply_undoes_switch :
    let make : Event := ⟨.create, ["ports"], "[name=eth0]", .scalar .str, "", none⟩
    let drop : Event := ⟨.delete, ["ports"], "[name=eth0]", .scalar .null, "", none⟩
    switch.apply {} make (switchWith []) = (switchWith [port "eth0"], .ok ()) ∧
    switch.apply {} drop (switchWith [port "eth0"]) = (switchWith [], .ok ()) := by
  intro make drop
  let ports : Node Unit := .present (.list (.record "Port") [])
  have hnone : switch.matchIndex {} (.record "Port") [] "[name=eth0]" = .ok none :=
    matchIndex_build build_eth0 (constrained_of_decode (by decide) decode_eth0) []
  have hfind : switch.find {} (switchWith []) "ports" (.ofKey {} "ports") =
      .ok ⟨[.field 0], ports⟩ := by rfl
  have hmade : switch.apply {} make (switchWith []) = (switchWith [port "eth0"], .ok ()) := by
    have hwrite : switch.write {} ports "[name=eth0]"
        (.literal "" (some (ScalarTag.str.document ""))) .content =
        (.present (.list (.record "Port") [port "eth0"]), .ok ()) :=
      write_missing rfl (by decide) hnone build_eth0
    have hperform : switch.perform {} make ports =
        (.present (.list (.record "Port") [port "eth0"]), .ok ()) := by
      have hpromote : switch.promote ports = ports := by rfl
      rw [perform_of_literal (by decide) rfl, hpromote, ofKey_structured {} (by decide)]
      exact congrArg ofNavigation hwrite
    rw [apply_of_silent typed_switchWith (overrideFree_switch.silent _) rfl]
    refine (walk_of_find sound_switch typed_switchWith hfind rfl make []).trans ?_
    rw [walk, hperform]
    rfl
  have hnew : switch.MakesNew {} ports "[name=eth0]" := by
    refine .element rfl (.record rfl (by decide) fun built hbuild parsed hparsed => ?_) ?_
    · obtain rfl := Except.ok.inj (build_eth0.symm.trans hbuild)
      obtain rfl := Except.ok.inj (decode_eth0.symm.trans hparsed)
      exact describes_eth0.arrayFree
    · intro i hi
      exact absurd (hnone.symm.trans hi) (by simp)
  have hplace : (switch.reached {} (switchWith []) make.path)[make.path.length]? =
      some ⟨[.field 0], ports⟩ := by rfl
  have hroot : make.isRoot = true → ∀ d, (switchWith []).innermost ≠ .dynamic d :=
    fun h => absurd h (by decide)
  refine ⟨hmade, ?_⟩
  exact apply_undoes sound_switch overrideFree_switch typed_switchWith (by decide) (by rfl)
    (by rfl) (by rfl) (by rfl) hplace (by simp) rfl hnew hroot hmade

/-- A document that is addressed as the root is replaced by the scalar, and deleting there
does not bring it back. -/
theorem root_not_undone :
    let target : Node Unit := .dynamic (.map [("a", .int 1)])
    let make : Event := ⟨.create, [], "", .scalar .str, "x", none⟩
    let drop : Event := ⟨.delete, [], "", .scalar .null, "", none⟩
    (empty ()).OverrideFree ∧ (empty ()).Typed False target ∧
    (∃ place, ((empty ()).reached {} target make.path)[make.path.length]? = some place ∧
      (∀ i, Step.element i ∉ place.address) ∧ place.node.isAllocated = true ∧
      (empty ()).MakesNew {} place.node make.key) ∧
    (empty ()).apply {} make target = (.dynamic (.text "x"), .ok ()) ∧
    (empty ()).apply {} drop (.dynamic (.text "x")) = (.dynamic (.text "x"), .ok ()) ∧
    target ≠ .dynamic (.text "x") := by
  intro target make drop
  refine ⟨?_, ?_, ⟨⟨[], target⟩, rfl, ?_, rfl, ?_⟩, rfl, rfl, ?_⟩
  · exact fun d hd => absurd hd List.not_mem_nil
  · refine .dynamic (.map (by simp [Entries.Ascending]) fun f hf => ?_)
    obtain rfl := List.mem_singleton.1 hf
    exact .leaf rfl
  · simp
  · exact .entry rfl (by rfl)
  · simp [target]

end Schema

end TreeSync

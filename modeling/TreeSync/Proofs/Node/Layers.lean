import TreeSync.Node.Container
import TreeSync.Schema.Basic

/-!
# Layers around a core

Optional and boxed slots stand around the part of a node that events address.
A node without such layers is bare.  Replacing the bare part below the layers
leaves the layers alone.

Main definitions and results:

- `Node.Bare` and `Node.withCore`.
- `Node.innermost_withCore`, `Node.withCore_withCore`: the bare part is replaced
  and nothing else.
- `Node.core_eq_ok_innermost`: the core of an allocated node.
-/

namespace TreeSync

namespace Node

variable {σ : Type}

/-- The node has no optional or boxed layer. -/
def Bare (n : Node σ) : Prop :=
  n.kind ≠ .pointer

/-- The node with another part below its layers. -/
def withCore (n c : Node σ) : Node σ :=
  n.replaceAt n.coreAddress c

/-! ## Bare nodes -/

/-- Induction over the layers of a node, down to a missing layer or a bare node. -/
@[elab_as_elim]
theorem layers_induction {motive : Node σ → Prop} (n : Node σ)
    (absent : ∀ t, motive (absent t)) (present : ∀ v, motive v → motive (present v))
    (boxed : ∀ v, motive v → motive (boxed v)) (bare : ∀ n, n.Bare → motive n) : motive n := by
  induction n using innermost.induct with
  | case1 v ih => exact present v ih
  | case2 v ih => exact boxed v ih
  | case3 n h1 h2 =>
      cases n with
      | absent t => exact absent t
      | present v => exact absurd rfl (h1 v)
      | boxed v => exact absurd rfl (h2 v)
      | _ => exact bare _ Kind.noConfusion

/-- A node without layers is its own core. -/
theorem core_of_bare {n : Node σ} (h : n.Bare) : n.core = .ok n := by
  cases n <;> first | rfl | exact absurd rfl h

/-- Nothing stands below a node without layers. -/
theorem innermost_of_bare {n : Node σ} (h : n.Bare) : n.innermost = n := by
  cases n <;> first | rfl | exact absurd rfl h

theorem coreAddress_of_bare {n : Node σ} (h : n.Bare) : n.coreAddress = [] := by
  cases n <;> first | rfl | exact absurd rfl h

/-- Replacing the core of a node without layers replaces the node. -/
theorem withCore_of_bare {n : Node σ} (h : n.Bare) (c : Node σ) : n.withCore c = c := by
  rw [withCore, coreAddress_of_bare h, replaceAt]

/-- A node without layers misses none. -/
theorem isAllocated_of_bare {n : Node σ} (h : n.Bare) : n.isAllocated = true := by
  rw [isAllocated, core?, core_of_bare h]
  rfl

/-- Whether a node is bare shows in its type. -/
theorem Bare.of_ty_eq {n m : Node σ} (h : n.Bare) (hty : m.ty = n.ty) : m.Bare := by
  cases m with
  | absent t => cases n <;> first | exact absurd rfl h | simp [ty] at hty
  | present v => cases n <;> first | exact absurd rfl h | simp [ty] at hty
  | boxed v => cases n <;> first | exact absurd rfl h | simp [ty] at hty
  | _ => exact Kind.noConfusion

/-- What has the type of documents is a document. -/
theorem eq_dynamic_of_ty {n : Node σ} (h : n.ty = .dynamic) : ∃ d, n = dynamic d := by
  cases n <;> simp [ty] at h
  exact ⟨_, rfl⟩

/-- What has the type of a scalar is a slot. -/
theorem eq_scalar_of_ty {n : Node σ} {kind : ScalarKind} (h : n.ty = .scalar kind) :
    ∃ slot, n = scalar slot := by
  cases n with
  | scalar slot => exact ⟨slot, rfl⟩
  | _ => simp [ty] at h

/-! ## The core -/

/-- The node below the layers of an allocated node is its core. -/
theorem core_eq_ok_innermost {n : Node σ} (h : n.isAllocated = true) :
    n.core = .ok n.innermost := by
  induction n using layers_induction with
  | absent t => simp [isAllocated, core?, core, Except.toOption] at h
  | present v ih => exact ih h
  | boxed v ih => exact ih h
  | bare n hn => rw [core_of_bare hn, innermost_of_bare hn]

/-- A core has no layers. -/
theorem bare_of_core {n c : Node σ} (h : n.core = .ok c) : c.Bare := by
  induction n using layers_induction with
  | absent t => simp [core] at h
  | present v ih => exact ih h
  | boxed v ih => exact ih h
  | bare n hn =>
      rw [core_of_bare hn] at h
      exact Except.ok.inj h ▸ hn

theorem bare_innermost {n : Node σ} (h : n.isAllocated = true) : n.innermost.Bare :=
  bare_of_core (core_eq_ok_innermost h)

/-- A node with a missing layer has no core. -/
theorem exists_core_eq_error {n : Node σ} (h : n.isAllocated = false) :
    ∃ t, n.core = .error t := by
  cases hc : n.core with
  | error t => exact ⟨t, rfl⟩
  | ok c => simp [isAllocated, core?, hc, Except.toOption] at h

/-- A node with a core misses no layer. -/
theorem isAllocated_of_core {n c : Node σ} (h : n.core = .ok c) : n.isAllocated = true := by
  simp [isAllocated, core?, h, Except.toOption]

/-- The core of a node is what stands below its layers. -/
theorem innermost_of_core {n c : Node σ} (h : n.core = .ok c) : n.innermost = c :=
  Except.ok.inj ((core_eq_ok_innermost (isAllocated_of_core h)).symm.trans h)

/-- Of allocated nodes of one type the layers are the same. -/
theorem coreAddress_of_ty {n m : Node σ} (hn : n.isAllocated = true) (hm : m.isAllocated = true)
    (hty : m.ty = n.ty) : m.coreAddress = n.coreAddress := by
  induction n using layers_induction generalizing m with
  | absent t => simp [isAllocated, core?, core, Except.toOption] at hn
  | present v ih =>
      cases m with
      | present w => exact congrArg (Step.pointee :: ·) (ih hn hm (Ty.option.inj hty))
      | absent t => simp [isAllocated, core?, core, Except.toOption] at hm
      | _ => simp [ty] at hty
  | boxed v ih =>
      cases m with
      | boxed w => exact congrArg (Step.pointee :: ·) (ih hn hm (Ty.box.inj hty))
      | _ => simp [ty] at hty
  | bare n hbare =>
      rw [coreAddress_of_bare hbare, coreAddress_of_bare (hbare.of_ty_eq hty)]

/-- What is bare does not stand behind an empty layer. -/
theorem isAllocated_of_get {n v : Node σ} {a : Address} (hv : n.get? a = some v) (hbare : v.Bare) :
    n.isAllocated = true := by
  induction n using layers_induction generalizing a with
  | absent t =>
      cases a with
      | nil =>
          obtain rfl := Option.some.inj hv
          exact absurd rfl hbare
      | cons s rest => simp [get?, child?] at hv
  | present n ih =>
      cases a with
      | nil =>
          obtain rfl := Option.some.inj hv
          exact absurd rfl hbare
      | cons s rest =>
          cases s with
          | pointee => exact ih hv
          | _ => simp [get?, child?] at hv
  | boxed n ih =>
      cases a with
      | nil =>
          obtain rfl := Option.some.inj hv
          exact absurd rfl hbare
      | cons s rest =>
          cases s with
          | pointee => exact ih hv
          | _ => simp [get?, child?] at hv
  | bare n hn => exact isAllocated_of_bare hn

/-! ## Replacing the core -/

@[simp]
theorem withCore_present (v c : Node σ) : (present v).withCore c = present (v.withCore c) :=
  rfl

@[simp]
theorem withCore_boxed (v c : Node σ) : (boxed v).withCore c = boxed (v.withCore c) :=
  rfl

/-- The core put back changes nothing. -/
@[simp]
theorem withCore_innermost (n : Node σ) : n.withCore n.innermost = n := by
  induction n using layers_induction with
  | present v ih => rw [withCore_present, innermost, ih]
  | boxed v ih => rw [withCore_boxed, innermost, ih]
  | absent t => rfl
  | bare n hn => rw [innermost_of_bare hn, withCore_of_bare hn]

/-- The new core is what stands below the layers. -/
theorem innermost_withCore (n : Node σ) {c : Node σ} (hc : c.Bare) :
    (n.withCore c).innermost = c := by
  induction n using layers_induction with
  | present v ih => rwa [withCore_present, innermost]
  | boxed v ih => rwa [withCore_boxed, innermost]
  | absent t => exact innermost_of_bare hc
  | bare n hn => rwa [withCore_of_bare hn, innermost_of_bare]

/-- The layers stay, and with them the address of the core. -/
theorem coreAddress_withCore (n : Node σ) {c : Node σ} (hc : c.Bare) :
    (n.withCore c).coreAddress = n.coreAddress := by
  induction n using layers_induction with
  | present v ih => rw [withCore_present, coreAddress, coreAddress, ih]
  | boxed v ih => rw [withCore_boxed, coreAddress, coreAddress, ih]
  | absent t => exact coreAddress_of_bare hc
  | bare n hn => rw [withCore_of_bare hn, coreAddress_of_bare hn, coreAddress_of_bare hc]

/-- Of two cores the last one stays. -/
theorem withCore_withCore (n : Node σ) {c : Node σ} (hc : c.Bare) (d : Node σ) :
    (n.withCore c).withCore d = n.withCore d := by
  induction n using layers_induction with
  | present v ih => rw [withCore_present, withCore_present, withCore_present, ih]
  | boxed v ih => rw [withCore_boxed, withCore_boxed, withCore_boxed, ih]
  | absent t => exact withCore_of_bare hc d
  | bare n hn => rw [withCore_of_bare hn, withCore_of_bare hn, withCore_of_bare hc]

/-- A node misses no layer once a core is put below them. -/
theorem isAllocated_withCore (n : Node σ) {c : Node σ} (hc : c.Bare) :
    (n.withCore c).isAllocated = true := by
  induction n using layers_induction with
  | present v ih => exact ih
  | boxed v ih => exact ih
  | absent t => exact isAllocated_of_bare hc
  | bare n hn => rw [withCore_of_bare hn, isAllocated_of_bare hc]

/-- The layers of a node lead to what replaced the part below them. -/
theorem get?_withCore_append (n c : Node σ) (a : Address) :
    (n.withCore c).get? (n.coreAddress ++ a) = c.get? a := by
  induction n using layers_induction with
  | present v ih => exact ih
  | boxed v ih => exact ih
  | absent t => rfl
  | bare n hn => rw [withCore_of_bare hn, coreAddress_of_bare hn, List.nil_append]

/-- Replacing below the layers is replacing in the part below them. -/
theorem withCore_replaceAt_append (n c : Node σ) (a : Address) (v : Node σ) :
    (n.withCore c).replaceAt (n.coreAddress ++ a) v = n.withCore (c.replaceAt a v) := by
  induction n using layers_induction with
  | present n ih => exact congrArg present ih
  | boxed n ih => exact congrArg boxed ih
  | absent t => rfl
  | bare n hn =>
      rw [withCore_of_bare hn, withCore_of_bare hn, coreAddress_of_bare hn, List.nil_append]

end Node

namespace Schema

variable {σ : Type} (S : Schema σ)

open Node

/-- There are no layers to fill around a node without layers. -/
theorem allocate_of_bare {n : Node σ} (h : n.Bare) : S.allocate n = n :=
  S.allocate_of_isAllocated (isAllocated_of_bare h)

theorem bare_innermost_allocate (n : Node σ) : (S.allocate n).innermost.Bare :=
  bare_innermost (S.isAllocated_allocate n)

end Schema

end TreeSync

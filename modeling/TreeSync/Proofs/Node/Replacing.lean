import TreeSync.Proofs.Entries.Ascending
import TreeSync.Proofs.Node.Layers

/-!
# Replacing twice

What was put at an address is found there and can be replaced again, as long as
every replacement has the type of what it replaces.

Main results:

- `Node.get?_replaceAt_append`: looking below a replacement.
- `Node.replaceAt_replaceAt_append`: replacing below a replacement.
-/

namespace TreeSync

namespace Node

variable {σ : Type} {n c v w : Node σ} {s : Step}

/-! ## One step -/

theorem child?_putChild (h : n.child? s = some c) (hv : v.ty = c.ty) :
    (n.putChild s v).child? s = some v := by
  refine child?_putChild_self h v fun d hd => ?_
  subst hd
  rcases child?_dynamic h with ⟨e, rfl⟩
  exact eq_dynamic_of_ty hv

theorem ty_putChild (h : n.child? s = some c) (hv : v.ty = c.ty) :
    (n.putChild s v).ty = n.ty := by
  unfold child? at h
  split at h
  · rw [← Option.some.inj h] at hv
    exact congrArg Ty.option hv
  · rw [← Option.some.inj h] at hv
    exact congrArg Ty.box hv
  · rfl
  · rfl
  · rfl
  · obtain ⟨d, -, rfl⟩ := Option.map_eq_some_iff.1 h
    rcases eq_dynamic_of_ty hv with ⟨e, rfl⟩
    rfl
  · obtain ⟨d, -, rfl⟩ := Option.map_eq_some_iff.1 h
    rcases eq_dynamic_of_ty hv with ⟨e, rfl⟩
    rfl
  · simp at h

/-- Of two replacements of one child the last one counts. -/
theorem putChild_putChild (h : n.child? s = some c) (hv : v.ty = c.ty) (hw : w.ty = c.ty) :
    (n.putChild s v).putChild s w = n.putChild s w := by
  unfold child? at h
  split at h
  · rfl
  · rfl
  · rename_i type fields state i
    rw [putChild, putChild, putChild, List.modify_modify_eq]
    rfl
  · rw [putChild, putChild, putChild, Entries.put_put]
  · rw [putChild, putChild, putChild, List.set_set]
  · obtain ⟨d, -, rfl⟩ := Option.map_eq_some_iff.1 h
    rcases eq_dynamic_of_ty hv with ⟨x, rfl⟩
    rcases eq_dynamic_of_ty hw with ⟨y, rfl⟩
    rw [putChild, putChild, putChild, Entries.put_put]
  · obtain ⟨d, -, rfl⟩ := Option.map_eq_some_iff.1 h
    rcases eq_dynamic_of_ty hv with ⟨x, rfl⟩
    rcases eq_dynamic_of_ty hw with ⟨y, rfl⟩
    rw [putChild, putChild, putChild, List.set_set]
  · simp at h

/-! ## Many steps -/

/-- Replacing along `a ++ b` is replacing along `b` in what `a` leads to. -/
theorem replaceAt_append {a b : Address} (h : n.get? a = some c) (v : Node σ) :
    n.replaceAt (a ++ b) v = n.replaceAt a (c.replaceAt b v) := by
  induction a generalizing n with
  | nil =>
      obtain rfl := Option.some.inj h
      rfl
  | cons s rest ih =>
      rcases Option.bind_eq_some_iff.1 h with ⟨d, hd, hrest⟩
      simp only [replaceAt, hd, List.cons_append]
      rw [ih hrest]

theorem ty_replaceAt {a : Address} (h : n.get? a = some c) (hv : v.ty = c.ty) :
    (n.replaceAt a v).ty = n.ty := by
  induction a generalizing n with
  | nil =>
      obtain rfl := Option.some.inj h
      exact hv
  | cons s rest ih =>
      rcases Option.bind_eq_some_iff.1 h with ⟨d, hd, hrest⟩
      simp only [replaceAt, hd]
      exact ty_putChild hd (ih hrest)

/-- Below a replacement stands what stands below the replacing node. -/
theorem get?_replaceAt_append {a : Address} (h : n.get? a = some c) (hv : v.ty = c.ty)
    (b : Address) : (n.replaceAt a v).get? (a ++ b) = v.get? b := by
  induction a generalizing n with
  | nil => rfl
  | cons s rest ih =>
      rcases Option.bind_eq_some_iff.1 h with ⟨d, hd, hrest⟩
      simp only [replaceAt, hd, List.cons_append, get?]
      rw [child?_putChild hd (ty_replaceAt hrest hv)]
      exact ih hrest

/-- Replacing below a replacement is one replacement. -/
theorem replaceAt_replaceAt_append {a b : Address} (h : n.get? a = some c) (hv : v.ty = c.ty)
    (hw : (v.replaceAt b w).ty = c.ty) :
    (n.replaceAt a v).replaceAt (a ++ b) w = n.replaceAt a (v.replaceAt b w) := by
  induction a generalizing n with
  | nil => rfl
  | cons s rest ih =>
      rcases Option.bind_eq_some_iff.1 h with ⟨d, hd, hrest⟩
      have hty := ty_replaceAt hrest hv
      simp only [replaceAt, hd, List.cons_append]
      rw [child?_putChild hd hty]
      simp only
      rw [ih hrest, putChild_putChild hd hty (ty_replaceAt hrest hw)]

end Node

end TreeSync

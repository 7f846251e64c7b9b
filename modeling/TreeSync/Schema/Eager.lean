import TreeSync.Schema.Basic

/-!
# Eager allocation

Filling every optional slot below a record, however deep.  A slot whose value
would be of a type that already encloses the slot stays empty, so the process
ends for recursive record types too.

Main definition: `Schema.allocateChildren`.
-/

namespace TreeSync

namespace Schema

variable {σ : Type} (S : Schema σ)

/-- The number of declared record types that are not among the ancestors. -/
def unseen (ancestors : List Ty) : Nat :=
  S.records.countP fun d => !ancestors.contains (.record d.name)

/-- One more ancestor leaves no more types unseen. -/
theorem unseen_cons_le (t : Ty) (ancestors : List Ty) :
    S.unseen (t :: ancestors) ≤ S.unseen ancestors := by
  refine List.countP_mono_left ?_
  intro d _ h
  simp_all

/-- A declared record type that becomes an ancestor is no longer unseen. -/
theorem unseen_cons_lt {name : String} {d : RecordDef σ} {ancestors : List Ty}
    (hd : S.find? name = some d) (h : Ty.record name ∉ ancestors) :
    S.unseen (.record name :: ancestors) < S.unseen ancestors := by
  have hname := S.name_of_find? hd
  have hmem : d ∈ S.records := List.mem_of_find?_eq_some hd
  unfold unseen
  generalize S.records = records at hmem
  induction records with
  | nil => simp at hmem
  | cons e rest ih =>
      have hkept : ∀ e : RecordDef σ,
          (!(Ty.record name :: ancestors).contains (.record e.name)) = true →
            (!ancestors.contains (.record e.name)) = true := by
        intro e he
        simp only [List.contains_cons, Bool.not_eq_true', Bool.or_eq_false_iff] at he
        rw [he.2]
        rfl
      have hrest : rest.countP (fun d => !(Ty.record name :: ancestors).contains (.record d.name))
          ≤ rest.countP (fun d => !ancestors.contains (.record d.name)) :=
        List.countP_mono_left fun e _ he => hkept e he
      rcases List.mem_cons.1 hmem with rfl | hmem
      · have hold : (!ancestors.contains (Ty.record d.name)) = true := by
          rw [hname, Bool.not_eq_true', ← Bool.not_eq_true, List.contains_iff_mem]
          exact h
        have hnew : ¬ (!(Ty.record name :: ancestors).contains (Ty.record d.name)) = true := by
          rw [hname, List.contains_cons, BEq.rfl, Bool.true_or]
          exact Bool.false_ne_true
        rw [List.countP_cons, List.countP_cons, if_pos hold, if_neg hnew]
        exact Nat.lt_succ_of_le hrest
      · have hless := ih hmem
        rw [List.countP_cons, List.countP_cons]
        by_cases he : (!(Ty.record name :: ancestors).contains (Ty.record e.name)) = true
        · rw [if_pos he, if_pos (hkept e he)]
          exact Nat.succ_lt_succ hless
        · rw [if_neg he]
          exact Nat.lt_add_right _ hless

mutual

/-- The node with every optional slot below it filled, inside `ancestors`. -/
def allocateChildren (ancestors : List Ty) (n : Node σ) : Node σ :=
  if n.ty ∈ ancestors then n
  else
    match n with
    | .record type fields state =>
        .record type (allocateFields (.record type :: ancestors) fields) state
    | .present v => .present (allocateChildren (.option v.ty :: ancestors) v)
    | .boxed v => .boxed (allocateChildren (.box v.ty :: ancestors) v)
    | .absent t =>
        if t.freshTarget?.any fun u => u ∈ Ty.option t :: ancestors then .absent t
        else .present (eager (.option t :: ancestors) t)
    | n => n
termination_by (S.unseen ancestors, sizeOf n)
decreasing_by
  all_goals
    refine Prod.Lex.right' _ (S.unseen_cons_le _ _) ?_
    simp_wf
    try omega

/-- Every field with the optional slots below it filled. -/
def allocateFields (ancestors : List Ty) : List (Field × Node σ) → List (Field × Node σ)
  | [] => []
  | (f, v) :: rest => (f, allocateChildren ancestors v) :: allocateFields ancestors rest
termination_by fields => (S.unseen ancestors, sizeOf fields)

/-- A new node of a type with every optional slot below it filled. -/
def eager (ancestors : List Ty) (t : Ty) : Node σ :=
  if h : t ∈ ancestors then S.zero t
  else
    match t with
    | .option u =>
        if u.freshTarget?.any fun v => v ∈ Ty.option u :: ancestors then .absent u
        else .present (eager (.option u :: ancestors) u)
    | .box u => .boxed (eager (.box u :: ancestors) u)
    | .record name =>
        match hd : S.find? name with
        | some d =>
            have := S.unseen_cons_lt hd h
            .record d.name (allocateFields (.record name :: ancestors) d.fields) d.state
        | none => S.zero (.record name)
    | t => S.zero t
termination_by (S.unseen ancestors, sizeOf t)
decreasing_by
  · exact Prod.Lex.right' _ (S.unseen_cons_le _ _) (by simp_wf; try omega)
  · exact Prod.Lex.right' _ (S.unseen_cons_le _ _) (by simp_wf; try omega)
  · exact Prod.Lex.left _ _ this

end

end Schema

end TreeSync

import TreeSync.Proofs.Apply.Unread
import TreeSync.Replica.Basic

/-!
# Batches held back or applied at once

A replica that holds back the events of a batch runs behind one that applies
them at once.  Where it stands once its queue is through is a function of its
state, and every call commutes with that function.  So the two replicas meet
again whenever no batch is open.

Main results:

- `Replica.step_direct`: every call commutes with catching up.
- `Replica.run_buffering_agree`: the two schedules of one stream agree wherever
  no batch is open.
-/

namespace TreeSync

/-- A call from the source of the events. -/
inductive Call where
  /-- A batch starts. -/
  | start
  /-- An event. -/
  | event (e : Event)
  /-- The batch finishes. -/
  | finish
  deriving DecidableEq

namespace Call

/-- The event that a call hands over. -/
def event? : Call → Option Event
  | event e => some e
  | _ => none

end Call

namespace Replica

variable {σ : Type} (S : Schema σ)

/-! ## Streams of calls -/

/-- The replica after a call, and the answer: the number that the end of a batch
returns, zero for the other calls. -/
def step (r : Replica σ) : Call → Replica σ × Except SyncError Nat
  | .start => ((r.beginBatch S).1, (r.beginBatch S).2.map fun _ => 0)
  | .event e => ((r.apply S e).1, (r.apply S e).2.map fun _ => 0)
  | .finish => r.endBatch S

/-- The replica after a stream of calls. -/
def run (r : Replica σ) (calls : List Call) : Replica σ :=
  calls.foldl (fun r c => (r.step S c).1) r

/-- Calls in a row are made one stream after the other. -/
theorem run_append (r : Replica σ) (before after : List Call) :
    r.run S (before ++ after) = (r.run S before).run S after := by
  simp only [run, List.foldl_append]

/-! ## Executing a queue -/

/-- The replica with other options as to batches. -/
def buffering (r : Replica σ) (held : Bool) : Replica σ :=
  { r with options := r.options.buffering held }

/-- The replica with another batch. -/
def withBatch (r : Replica σ) (batch : Option (List Event)) : Replica σ :=
  { r with batch := batch }

/-- The replica after every event of a queue. -/
def executeAll (r : Replica σ) (queue : List Event) : Replica σ :=
  (forEach (execute S) r queue).1

theorem withBatch_of_batch {r : Replica σ} {batch : Option (List Event)} (h : r.batch = batch) :
    r.withBatch batch = r := by
  subst h
  rfl

/-- Executing an event does not look at whether batches are held back. -/
theorem execute_buffering (r : Replica σ) (held : Bool) (e : Event) :
    (r.buffering held).execute S e = ((r.execute S e).1.buffering held, (r.execute S e).2) := by
  simp only [execute, buffering, Schema.apply_buffering]

/-- Executing an event does not look at the queue. -/
theorem execute_withBatch (r : Replica σ) (batch : Option (List Event)) (e : Event) :
    (r.withBatch batch).execute S e = ((r.execute S e).1.withBatch batch, (r.execute S e).2) :=
  rfl

/-- Executing an event leaves the queue alone. -/
@[simp]
theorem batch_execute (r : Replica σ) (e : Event) : (r.execute S e).1.batch = r.batch :=
  rfl

/-- Executing an event leaves the options alone. -/
@[simp]
theorem options_execute (r : Replica σ) (e : Event) : (r.execute S e).1.options = r.options :=
  rfl

/-- A change of the replica that every event commutes with commutes with a queue. -/
theorem forEach_execute_comm (change : Replica σ → Replica σ)
    (h : ∀ r e, (change r).execute S e = (change (r.execute S e).1, (r.execute S e).2))
    (r : Replica σ) (queue : List Event) :
    forEach (execute S) (change r) queue =
      (change (forEach (execute S) r queue).1, (forEach (execute S) r queue).2) := by
  induction queue generalizing r with
  | nil => rfl
  | cons e rest ih => simp only [forEach, h, ih]

theorem executeAll_withBatch (r : Replica σ) (batch : Option (List Event)) (queue : List Event) :
    (r.withBatch batch).executeAll S queue = (r.executeAll S queue).withBatch batch := by
  rw [executeAll, executeAll,
    forEach_execute_comm S (·.withBatch batch) (fun r e => r.execute_withBatch S batch e)]

/-- The last event of a queue is executed last. -/
theorem executeAll_concat (r : Replica σ) (queue : List Event) (e : Event) :
    r.executeAll S (queue ++ [e]) = ((r.executeAll S queue).execute S e).1 := by
  induction queue generalizing r with
  | nil => rfl
  | cons d rest ih => exact ih (r.execute S d).1

/-- An event leaves one journal entry, which tells whether the event failed. -/
theorem exists_journal_execute (r : Replica σ) (e : Event) :
    ∃ outcome : Outcome,
      (r.execute S e).1.journal = r.journal ++ [outcome] ∧ outcome.event = e ∧
        outcome.succeeded = (r.execute S e).2.toBool := by
  unfold execute
  obtain ⟨target, result⟩ := S.apply r.options e r.target
  refine ⟨_, rfl, rfl, ?_⟩
  cases result <;> rfl

/-- A queue leaves a journal entry for each of its events, and as many of them
are failures as there are errors among the results. -/
theorem exists_journal_executeAll (r : Replica σ) (queue : List Event) :
    ∃ added : Journal,
      (r.executeAll S queue).journal = r.journal ++ added ∧
      added.map Outcome.event = queue ∧
      countFailures (forEach (execute S) r queue).2 = added.failures.length := by
  induction queue generalizing r with
  | nil => exact ⟨[], (List.append_nil _).symm, rfl, rfl⟩
  | cons e rest ih =>
      obtain ⟨outcome, hfirst, hevent, hresult⟩ := r.exists_journal_execute S e
      obtain ⟨added, hjournal, hevents, hcount⟩ := ih (r.execute S e).1
      refine ⟨outcome :: added, ?_, ?_, ?_⟩
      · have h : (r.executeAll S (e :: rest)).journal =
            ((r.execute S e).1.executeAll S rest).journal := rfl
        rw [h, hjournal, hfirst, List.append_assoc, List.singleton_append]
      · rw [List.map_cons, hevent, hevents]
      · simp only [forEach, countFailures, Journal.failures, List.countP_cons,
          List.filter_cons, hresult] at hcount ⊢
        rw [hcount]
        cases (r.execute S e).2 <;> simp [Except.toBool]

/-! ## Catching up -/

/-- The replica that a replica which holds events back has to catch up with: one
that applied the open batch at once. -/
def direct (r : Replica σ) : Replica σ :=
  match r.batch with
  | none => r.buffering false
  | some queue =>
      (((r.withBatch (some [])).notifyStart S).executeAll S queue).buffering false

/-- Without an open batch there is nothing to catch up with. -/
theorem direct_of_batch_none {r : Replica σ} (h : r.batch = none) :
    r.direct S = r.buffering false := by
  rw [direct, h]

/-- With an open batch the target is told of its start, and the queue is executed. -/
theorem direct_of_batch_some {r : Replica σ} {queue : List Event} (h : r.batch = some queue) :
    r.direct S =
      (((r.withBatch (some [])).notifyStart S).executeAll S queue).buffering false := by
  rw [direct, h]

/-- Telling the target of a start changes the target only. -/
@[simp]
theorem batch_notifyStart (r : Replica σ) : (r.notifyStart S).batch = r.batch := by
  unfold notifyStart
  split <;> rfl

@[simp]
theorem options_notifyStart (r : Replica σ) : (r.notifyStart S).options = r.options := by
  unfold notifyStart
  split <;> rfl

/-- Telling the target of an end changes the target only. -/
@[simp]
theorem batch_notifyFinish (r : Replica σ) : (r.notifyFinish S).batch = r.batch := by
  unfold notifyFinish
  split <;> rfl

@[simp]
theorem journal_notifyFinish (r : Replica σ) : (r.notifyFinish S).journal = r.journal := by
  unfold notifyFinish
  split <;> rfl

@[simp]
theorem options_notifyFinish (r : Replica σ) : (r.notifyFinish S).options = r.options := by
  unfold notifyFinish
  split <;> rfl

@[simp]
theorem journal_notifyStart (r : Replica σ) : (r.notifyStart S).journal = r.journal := by
  unfold notifyStart
  split <;> rfl

/-- The target is told of a start whatever is in the queue. -/
theorem notifyStart_withBatch (r : Replica σ) (batch : Option (List Event)) :
    (r.withBatch batch).notifyStart S = (r.notifyStart S).withBatch batch := by
  unfold notifyStart
  split <;> simp_all [withBatch]

/-- The target is told of a start whether or not batches are held back. -/
theorem notifyStart_buffering (r : Replica σ) (held : Bool) :
    (r.buffering held).notifyStart S = (r.notifyStart S).buffering held := by
  unfold notifyStart
  split <;> simp_all [buffering]

theorem notifyFinish_buffering (r : Replica σ) (held : Bool) :
    (r.buffering held).notifyFinish S = (r.notifyFinish S).buffering held := by
  unfold notifyFinish
  split <;> simp_all [buffering]

/-- Executing a queue leaves the queue of the replica alone. -/
@[simp]
theorem batch_executeAll (r : Replica σ) (queue : List Event) :
    (r.executeAll S queue).batch = r.batch := by
  induction queue generalizing r with
  | nil => rfl
  | cons e rest ih => exact ih (r.execute S e).1

@[simp]
theorem options_executeAll (r : Replica σ) (queue : List Event) :
    (r.executeAll S queue).options = r.options := by
  induction queue generalizing r with
  | nil => rfl
  | cons e rest ih => exact ih (r.execute S e).1

@[simp]
theorem batch_buffering (r : Replica σ) (held : Bool) : (r.buffering held).batch = r.batch :=
  rfl

/-- A batch is open in the direct replica when it is open in the other one, with nothing in its
queue. -/
@[simp]
theorem batch_direct (r : Replica σ) : (r.direct S).batch = r.batch.map fun _ => [] := by
  cases h : r.batch with
  | none => simp [direct_of_batch_none S h, h]
  | some queue => simp [direct_of_batch_some S h, withBatch]

/-- The direct replica holds nothing back. -/
@[simp]
theorem bufferBatches_direct (r : Replica σ) : (r.direct S).options.bufferBatches = false := by
  cases h : r.batch with
  | none => rw [direct_of_batch_none S h]; rfl
  | some queue => rw [direct_of_batch_some S h]; rfl

/-! ## One call -/

/-- A replica that holds nothing back executes an event at once. -/
theorem apply_of_direct {r : Replica σ} (h : r.options.bufferBatches = false) (e : Event) :
    r.apply S e = r.execute S e := by
  simp only [apply, h]

/-- Outside of batches every replica does. -/
theorem apply_of_batch_none {r : Replica σ} (h : r.batch = none) (e : Event) :
    r.apply S e = r.execute S e := by
  cases hr : r.options.bufferBatches <;> simp only [apply, hr, h]

/-- Inside a batch that is held back the event is queued, and that succeeds. -/
theorem apply_of_batch_some {r : Replica σ} {queue : List Event}
    (hr : r.options.bufferBatches = true) (h : r.batch = some queue) (e : Event) :
    r.apply S e = (r.withBatch (some (queue ++ [e])), .ok ()) := by
  simp only [apply, hr, h, withBatch]

/-- The end of a batch held back: its events between start and finish. -/
theorem endBatch_of_batch_some {r : Replica σ} {queue : List Event}
    (hr : r.options.bufferBatches = true) (h : r.batch = some queue) :
    r.endBatch S =
      ((((r.withBatch none).notifyStart S).executeAll S queue).notifyFinish S,
        .ok (countFailures (forEach (execute S) ((r.withBatch none).notifyStart S) queue).2)) := by
  simp only [endBatch, h, hr, if_true, executeAll, withBatch]

/-- The end of a batch applied at once. -/
theorem endBatch_of_direct {r : Replica σ} {queue : List Event}
    (hr : r.options.bufferBatches = false) (h : r.batch = some queue) :
    r.endBatch S = ((r.withBatch none).notifyFinish S, .ok 0) := by
  simp [endBatch, h, hr, withBatch]

/-- Every call commutes with catching up. -/
theorem step_direct {r : Replica σ} (hr : r.options.bufferBatches = true) (c : Call) :
    ((r.direct S).step S c).1 = ((r.step S c).1).direct S := by
  cases c with
  | start =>
      cases h : r.batch with
      | none =>
          have hd := direct_of_batch_none S h
          have hnew : (r.step S .start).1 = r.withBatch (some []) := by
            simp [step, beginBatch, h, hr, withBatch]
          have hold : ((r.direct S).step S .start).1 =
              ((r.buffering false).withBatch (some [])).notifyStart S := by
            rw [hd]
            simp [step, beginBatch, h, buffering, Options.buffering, withBatch]
          rw [hnew, hold, direct_of_batch_some S rfl]
          exact notifyStart_buffering S (r.withBatch (some [])) false
      | some queue =>
          have hd : (r.direct S).batch = some [] := by rw [batch_direct, h]; rfl
          simp only [step, beginBatch, h, hd]
  | event e =>
      have hold := apply_of_direct S (r.bufferBatches_direct S) e
      cases h : r.batch with
      | none =>
          simp only [step, hold, apply_of_batch_none S h]
          rw [direct_of_batch_none S h, direct_of_batch_none S (by rw [batch_execute, h]),
            execute_buffering]
      | some queue =>
          simp only [step, hold, apply_of_batch_some S hr h]
          rw [direct_of_batch_some S h, direct_of_batch_some S rfl, execute_buffering,
            executeAll_concat]
          rfl
  | finish =>
      cases h : r.batch with
      | none =>
          have hd : (r.direct S).batch = none := by rw [batch_direct, h]; rfl
          simp only [step, endBatch, h, hd]
      | some queue =>
          have hd : (r.direct S).batch = some [] := by rw [batch_direct, h]; rfl
          simp only [step, endBatch_of_direct S (r.bufferBatches_direct S) hd,
            endBatch_of_batch_some S hr h]
          have hclosed : (((r.withBatch none).notifyStart S).executeAll S queue).batch = none := by
            rw [batch_executeAll, batch_notifyStart]
            rfl
          rw [direct_of_batch_none S ((batch_notifyFinish S _).trans hclosed),
            direct_of_batch_some S h,
            ← notifyFinish_buffering]
          have hopen : (r.withBatch (some [])).notifyStart S =
              ((r.withBatch none).notifyStart S).withBatch (some []) :=
            notifyStart_withBatch S (r.withBatch none) (some [])
          rw [hopen, executeAll_withBatch]
          exact congrArg (fun q => (q.buffering false).notifyFinish S) (withBatch_of_batch hclosed)

/-- A call for the bounds of a batch succeeds on both sides or on neither. -/
theorem isOk_step_direct {r : Replica σ} {c : Call} (hc : c.event? = none) :
    ((r.direct S).step S c).2.isOk = (r.step S c).2.isOk := by
  cases c with
  | event e => simp [Call.event?] at hc
  | start =>
      simp only [step, beginBatch, batch_direct]
      cases r.batch <;> rfl
  | finish =>
      simp only [step, endBatch, batch_direct]
      cases r.batch with
      | none => rfl
      | some queue =>
          simp only [Option.map_some]
          split <;> split <;> rfl

/-! ## Streams -/

/-- No call changes the options. -/
@[simp]
theorem options_step (r : Replica σ) (c : Call) : (r.step S c).1.options = r.options := by
  cases c with
  | start =>
      simp only [step, beginBatch]
      split
      · rfl
      · split
        · rfl
        · exact options_notifyStart S _
  | event e =>
      simp only [step, apply]
      split <;> rfl
  | finish =>
      simp only [step, endBatch]
      split
      · rfl
      · split
        · rw [options_notifyFinish]
          exact (options_executeAll S _ _).trans (options_notifyStart S _)
        · exact options_notifyFinish S _

theorem options_run (r : Replica σ) (calls : List Call) : (r.run S calls).options = r.options := by
  induction calls generalizing r with
  | nil => rfl
  | cons c rest ih => exact (ih (r.step S c).1).trans (r.options_step S c)

/-- A stream of calls commutes with catching up. -/
theorem run_direct {r : Replica σ} (hr : r.options.bufferBatches = true) (calls : List Call) :
    (r.direct S).run S calls = (r.run S calls).direct S := by
  induction calls generalizing r with
  | nil => rfl
  | cons c rest ih =>
      have hnext : (r.step S c).1.options.bufferBatches = true := by
        rw [options_step, hr]
      calc
        (r.direct S).run S (c :: rest) = ((r.direct S).step S c).1.run S rest := rfl
        _ = ((r.step S c).1.direct S).run S rest := by rw [step_direct S hr]
        _ = (r.run S (c :: rest)).direct S := ih hnext

/-- While a batch held back is open, calls only lengthen its queue. -/
theorem run_of_batch_some {r : Replica σ} {queue : List Event}
    (hr : r.options.bufferBatches = true) (h : r.batch = some queue) {calls : List Call}
    (hcalls : Call.finish ∉ calls) :
    r.run S calls = r.withBatch (some (queue ++ calls.filterMap Call.event?)) := by
  induction calls generalizing r queue with
  | nil => rw [List.filterMap_nil, List.append_nil, withBatch_of_batch h]; rfl
  | cons c rest ih =>
      rw [List.mem_cons, not_or] at hcalls
      obtain ⟨hc, hrest⟩ := hcalls
      have hrun : r.run S (c :: rest) = (r.step S c).1.run S rest := rfl
      rw [hrun]
      cases c with
      | start =>
          have hstep : (r.step S .start).1 = r := by simp only [step, beginBatch, h]
          rw [hstep, ih hr h hrest]
          rfl
      | event e =>
          have hstep : (r.step S (.event e)).1 = r.withBatch (some (queue ++ [e])) := by
            simp only [step, apply_of_batch_some S hr h]
          have hnext : (r.withBatch (some (queue ++ [e]))).options.bufferBatches = true := hr
          rw [hstep, ih hnext rfl hrest]
          simp [withBatch, Call.event?]
      | finish => exact absurd rfl hc

/-- The end of a batch held back enters the events of the batch into the
journal, and returns how many of these entries are failures. -/
theorem exists_journal_finish {r : Replica σ} {batch : List Call}
    (hr : r.options.bufferBatches = true) (h : r.batch = none) (hbatch : Call.finish ∉ batch) :
    ∃ added : Journal,
      ((r.run S (.start :: batch)).step S .finish).1.journal = r.journal ++ added ∧
      added.map Outcome.event = batch.filterMap Call.event? ∧
      ((r.run S (.start :: batch)).step S .finish).2 = .ok added.failures.length := by
  have hstart : (r.step S .start).1 = r.withBatch (some []) := by
    simp [step, beginBatch, h, hr, withBatch]
  have hopen : r.run S (.start :: batch) =
      r.withBatch (some (batch.filterMap Call.event?)) := by
    have hrun : r.run S (.start :: batch) = (r.step S .start).1.run S batch := rfl
    have hnext : (r.withBatch (some [])).options.bufferBatches = true := hr
    rw [hrun, hstart, run_of_batch_some S hnext rfl hbatch]
    rfl
  have hheld : (r.withBatch (some (batch.filterMap Call.event?))).options.bufferBatches = true :=
    hr
  obtain ⟨added, hjournal, hevents, hcount⟩ :=
    ((r.withBatch none).notifyStart S).exists_journal_executeAll S (batch.filterMap Call.event?)
  refine ⟨added, ?_, hevents, ?_⟩
  · rw [hopen, step, endBatch_of_batch_some S hheld rfl, journal_notifyFinish]
    exact hjournal.trans (by rw [journal_notifyStart]; rfl)
  · rw [hopen, step, endBatch_of_batch_some S hheld rfl]
    exact congrArg Except.ok hcount

/-- Two replicas that differ only in whether they hold batches back take the
same stream of calls.  Wherever no batch is open they have equal targets and
journals; they answer the bounds of batches alike; and the end of a batch held
back returns the number of failures that the batch adds to the journal. -/
theorem run_buffering_agree (target : Node σ) (o : Options) (journal : Journal) (seq : Nat)
    (calls : List Call) :
    let start (held : Bool) : Replica σ :=
      { target := target, options := o.buffering held, journal := journal, seq := seq }
    let held := (start true).run S calls
    let direct := (start false).run S calls
    held.inBatch = direct.inBatch ∧
    (held.inBatch = false →
      held.target = direct.target ∧ held.journal = direct.journal ∧ held.seq = direct.seq) ∧
    (∀ c : Call, c.event? = none → (held.step S c).2.isOk = (direct.step S c).2.isOk) ∧
    (∀ before batch : List Call, calls = before ++ .start :: batch →
      ((start true).run S before).inBatch = false → Call.finish ∉ batch →
      ∃ added : Journal,
        (held.step S .finish).1.journal = ((start true).run S before).journal ++ added ∧
        added.map Outcome.event = batch.filterMap Call.event? ∧
        (held.step S .finish).2 = .ok added.failures.length) := by
  intro start held direct
  have hheld : held.options.bufferBatches = true := by
    rw [options_run]
    rfl
  have hdirect : direct = held.direct S := run_direct S (r := start true) rfl calls
  refine ⟨?_, ?_, ?_, ?_⟩
  · rw [hdirect, inBatch, inBatch, batch_direct, Option.isSome_map]
  · intro hclosed
    rw [hdirect, direct_of_batch_none S (by simpa [inBatch] using hclosed)]
    exact ⟨rfl, rfl, rfl⟩
  · intro c hc
    rw [hdirect, isOk_step_direct S hc]
  · intro before batch hcalls hclosed hbatch
    have hopts : ((start true).run S before).options.bufferBatches = true := by
      rw [options_run]
      rfl
    have hrun : held = ((start true).run S before).run S (.start :: batch) := by
      rw [← run_append, ← hcalls]
    rw [hrun]
    exact exists_journal_finish S hopts (by simpa [inBatch] using hclosed) hbatch

/-- A record type that notes the bounds of batches in its state. -/
def gauge : Schema (List String) where
  records :=
    [{ name := "Gauge"
       fields := [(⟨"level", some "reading", true, by decide, by decide⟩, .scalar (.zero (.int .u8)))]
       state := []
       bounds := some ⟨note "start", note "finish"⟩ }]
  blank := []
where
  /-- The record with one more note. -/
  note (text : String) : Node (List String) → Node (List String)
    | .record type fields notes => .record type fields (notes ++ [text])
    | n => n

/-- A batch of a write that fits and one that does not, in the middle of a
misused second start: both schedules agree, and one failure is counted. -/
theorem run_buffering_agree_gauge :
    let calls : List Call :=
      [.start, .event ⟨.replace, [], "level", .scalar .int, "7", none⟩, .start,
        .event ⟨.replace, [], "level", .scalar .int, "300", none⟩, .finish]
    let start (held : Bool) : Replica (List String) :=
      { target := gauge.zero (.record "Gauge"), options := Options.buffering {} held }
    ((start true).run gauge calls).inBatch = false ∧
    ((start true).run gauge calls).target = ((start false).run gauge calls).target ∧
    ((start true).run gauge calls).journal = ((start false).run gauge calls).journal ∧
    ∃ added : Journal, added.map Outcome.event = (calls.filterMap Call.event?) ∧
      (((start true).run gauge (calls.take 4)).step gauge .finish).2 =
        .ok added.failures.length := by
  intro calls start
  have hclosed : ((start true).run gauge calls).inBatch = false := by decide +kernel
  obtain ⟨-, hmeet, -, -⟩ :=
    run_buffering_agree gauge (gauge.zero (.record "Gauge")) {} [] 0 calls
  obtain ⟨-, -, -, hcount⟩ :=
    run_buffering_agree gauge (gauge.zero (.record "Gauge")) {} [] 0 (calls.take 4)
  obtain ⟨added, -, hevents, hresult⟩ :=
    hcount [] [calls[1], calls[2], calls[3]] rfl rfl (by decide)
  exact ⟨hclosed, (hmeet hclosed).1, (hmeet hclosed).2.1, added, hevents, hresult⟩

end Replica

end TreeSync

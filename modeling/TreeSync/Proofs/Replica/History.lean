import TreeSync.Proofs.Replica.Batches

/-!
# What a replica has done

Events reach a replica by two ways: handed over as they are, and as calls by
path.  Only the first way honours an open batch.  The history of a replica lists
what happened to its target: the events applied, and the batch bounds it was told
of.  Target, counter, queue and journal are read off this history.

Main definitions:

- `Request`, `Replica.serve` and `Replica.serveAll`: what a replica is asked for.
- `Deed` and `Replica.history`: what it does to its target.
- `Replica.Recorded`: the books of a replica agree with a history.

Main results:

- `Replica.serve_eq_foldl`: a request is its deeds, apart from the batch.
- `Replica.books_serveAll`: no event is lost, applied twice or misnumbered.
- `Replica.journal_in_order`: the journal has the order in which the events came
  in, as long as no call by path overtakes an event held back.
-/

namespace TreeSync

/-- The event that a call by path stands for. -/
def PathCall.event : PathCall → Except PathError Event
  | create path value => Event.ofPath .create path .default value
  | replace path value => Event.ofPath .replace path .default value
  | delete path => Event.ofPath .delete path .default ""

/-- A request to a replica. -/
inductive Replica.Request where
  /-- A call from the source of the events. -/
  | call (c : Call)
  /-- A call by path. -/
  | path (c : PathCall)
  /-- The journal is emptied. -/
  | clear
  deriving DecidableEq

namespace Replica.Request

/-- The event that a request hands over.  A path that cannot be read hands over
nothing. -/
def event? : Request → Option Event
  | call c => c.event?
  | path c => c.event.toOption
  | clear => none

/-- The events that a list of requests hands over, in order. -/
def handed (requests : List Request) : List Event :=
  requests.filterMap event?

/-- The events of requests, from the first request on. -/
theorem handed_cons (q : Request) (rest : List Request) :
    handed (q :: rest) = q.event?.toList ++ handed rest := by
  cases h : q.event? <;> simp [handed, h]

end Replica.Request

/-- Something that happens to the target of a replica. -/
inductive Deed where
  /-- The target is told that a batch starts. -/
  | start
  /-- An event is applied. -/
  | event (e : Event)
  /-- The target is told that a batch finishes. -/
  | finish
  deriving DecidableEq

namespace Deed

/-- The event that is applied. -/
def event? : Deed → Option Event
  | event e => some e
  | _ => none

/-- The events applied, in order. -/
def events (done : List Deed) : List Event :=
  done.filterMap event?

@[simp]
theorem events_nil : events [] = [] :=
  rfl

/-- The events of deeds, one list of deeds after the other. -/
@[simp]
theorem events_append (before after : List Deed) :
    events (before ++ after) = events before ++ events after :=
  List.filterMap_append

/-- The executions of events have these events. -/
@[simp]
theorem events_map_event (queue : List Event) : events (queue.map event) = queue := by
  induction queue with
  | nil => rfl
  | cons e rest ih => exact congrArg (e :: ·) ih

@[simp]
theorem events_start : events [start] = [] :=
  rfl

@[simp]
theorem events_event (e : Event) : events [event e] = [e] :=
  rfl

@[simp]
theorem events_finish : events [finish] = [] :=
  rfl

end Deed

namespace Outcome

/-- The error of a result. -/
def failure? : Except SyncError Unit → Option SyncError
  | .ok () => none
  | .error err => some err

end Outcome

namespace Replica

variable {σ : Type} (S : Schema σ)

/-! ## Requests -/

/-- The events held back. -/
def queue (r : Replica σ) : List Event :=
  r.batch.getD []

/-- The replica after a request. -/
def serve (r : Replica σ) : Request → Replica σ
  | .call c => (r.step S c).1
  | .path c => (r.call S c).1
  | .clear => r.clearJournal

/-- The replica after a list of requests. -/
def serveAll (r : Replica σ) (requests : List Request) : Replica σ :=
  requests.foldl (serve S) r

/-- Requests are served from the first one on. -/
theorem serveAll_cons (r : Replica σ) (q : Request) (rest : List Request) :
    r.serveAll S (q :: rest) = (r.serve S q).serveAll S rest :=
  rfl

/-- Handing over events one by one serves one request for each of them. -/
theorem applyAll_eq_serveAll (r : Replica σ) (events : List Event) :
    (r.applyAll S events).1 = r.serveAll S (events.map fun e => .call (.event e)) := by
  have hforEach : ∀ r : Replica σ, (forEach (apply S) r events).1 =
      r.serveAll S (events.map fun e => .call (.event e)) := by
    induction events with
    | nil => exact fun r => rfl
    | cons e rest ih => exact fun r => ih (r.apply S e).1
  exact hforEach r

/-- A call with a readable path is executed at once. -/
theorem call_of_event {c : PathCall} {e : Event} (h : c.event = .ok e) (r : Replica σ) :
    r.call S c = r.execute S e := by
  cases c <;> simp only [PathCall.event] at h <;> simp only [call, h]

/-- A call with an unreadable path changes nothing. -/
theorem call_of_error {c : PathCall} {err : PathError} (h : c.event = .error err)
    (r : Replica σ) : r.call S c = (r, .error (.path err)) := by
  cases c <;> simp only [PathCall.event] at h <;> simp only [call, h]

/-- A batch inside a batch is refused, and nothing changes. -/
theorem beginBatch_of_batch_some {r : Replica σ} {queue : List Event} (h : r.batch = some queue) :
    (r.beginBatch S).1 = r := by
  simp only [beginBatch, h]

/-- A batch that is held back opens with an empty queue. The target is told later. -/
theorem beginBatch_of_buffering {r : Replica σ} (hr : r.options.bufferBatches = true)
    (h : r.batch = none) : (r.beginBatch S).1 = r.withBatch (some []) := by
  simp only [beginBatch, h, hr, if_true, withBatch]

/-- A batch that is not held back tells the target at once. -/
theorem beginBatch_of_direct {r : Replica σ} (hr : r.options.bufferBatches = false)
    (h : r.batch = none) : (r.beginBatch S).1 = (r.withBatch (some [])).notifyStart S := by
  simp [beginBatch, h, hr, withBatch]

/-- An end without a start is refused, and nothing changes. -/
theorem endBatch_of_batch_none {r : Replica σ} (h : r.batch = none) : (r.endBatch S).1 = r := by
  simp only [endBatch, h]

/-- No request changes the options. -/
@[simp]
theorem options_serve (r : Replica σ) (q : Request) : (r.serve S q).options = r.options := by
  cases q with
  | call c => exact options_step S r c
  | path c =>
      cases h : c.event with
      | error err => simp only [serve, call_of_error S h]
      | ok e => simp only [serve, call_of_event S h, options_execute]
  | clear => rfl

/-! ## Deeds -/

/-- What a request makes happen to the target. -/
def deeds (r : Replica σ) : Request → List Deed
  | .call .start =>
      match r.options.bufferBatches, r.batch with
      | false, none => [.start]
      | _, _ => []
  | .call (.event e) =>
      match r.options.bufferBatches, r.batch with
      | true, some _ => []
      | _, _ => [.event e]
  | .call .finish =>
      match r.options.bufferBatches, r.batch with
      | _, none => []
      | true, some queue => .start :: queue.map .event ++ [.finish]
      | false, some _ => [.finish]
  | .path c => c.event.toOption.toList.map .event
  | .clear => []

/-- What a list of requests makes happen to the target. -/
def history (r : Replica σ) : List Request → List Deed
  | [] => []
  | q :: rest => r.deeds q ++ (r.serve S q).history rest

/-- The replica after something happened to its target. -/
def perform (r : Replica σ) : Deed → Replica σ
  | .start => r.notifyStart S
  | .event e => (r.execute S e).1
  | .finish => r.notifyFinish S

theorem notifyFinish_withBatch (r : Replica σ) (batch : Option (List Event)) :
    (r.withBatch batch).notifyFinish S = (r.notifyFinish S).withBatch batch := by
  unfold notifyFinish
  split <;> simp_all [withBatch]

/-- Deeds do not look at the queue. -/
theorem perform_withBatch (r : Replica σ) (batch : Option (List Event)) (deed : Deed) :
    (r.withBatch batch).perform S deed = (r.perform S deed).withBatch batch := by
  cases deed with
  | start => exact r.notifyStart_withBatch S batch
  | event e => rfl
  | finish => exact r.notifyFinish_withBatch S batch

/-- Neither do deeds in a row. -/
theorem foldl_perform_withBatch (r : Replica σ) (batch : Option (List Event))
    (done : List Deed) :
    done.foldl (perform S) (r.withBatch batch) = (done.foldl (perform S) r).withBatch batch := by
  induction done generalizing r with
  | nil => rfl
  | cons deed rest ih => rw [List.foldl_cons, perform_withBatch, ih, List.foldl_cons]

/-- Executing a queue is a row of deeds. -/
theorem executeAll_eq_foldl (r : Replica σ) (queue : List Event) :
    r.executeAll S queue = (queue.map Deed.event).foldl (perform S) r := by
  induction queue generalizing r with
  | nil => rfl
  | cons e rest ih => exact ih (r.execute S e).1

/-- No deed changes the options. -/
@[simp]
theorem options_perform (r : Replica σ) (deed : Deed) :
    (r.perform S deed).options = r.options := by
  cases deed with
  | start => exact r.options_notifyStart S
  | event e => rfl
  | finish => exact r.options_notifyFinish S

/-- A request is its deeds, apart from the batch. -/
theorem serve_eq_foldl (r : Replica σ) {q : Request} (hq : q ≠ .clear) :
    ∃ batch, r.serve S q = ((r.deeds q).foldl (perform S) r).withBatch batch := by
  have same {r' : Replica σ} : ∃ batch, r' = r'.withBatch batch :=
    ⟨r'.batch, (withBatch_of_batch rfl).symm⟩
  cases q with
  | clear => exact absurd rfl hq
  | path c =>
      cases hc : c.event with
      | error err =>
          simp only [serve, call_of_error S hc, deeds, hc, Except.toOption]
          exact same
      | ok e =>
          simp only [serve, call_of_event S hc, deeds, hc, Except.toOption]
          exact same
  | call c =>
      cases hr : r.options.bufferBatches <;> cases hb : r.batch <;> cases c <;>
        simp only [serve, step, deeds, hr, hb]
      case false.none.start =>
        rw [beginBatch_of_direct S hr hb]
        exact ⟨some [], r.notifyStart_withBatch S (some [])⟩
      case true.none.start => exact ⟨some [], beginBatch_of_buffering S hr hb⟩
      case false.some.start | true.some.start =>
        rw [beginBatch_of_batch_some S hb]
        exact same
      case false.none.event | true.none.event =>
        rw [apply_of_batch_none S hb]
        exact same
      case false.some.event =>
        rw [apply_of_direct S hr]
        exact same
      case true.some.event queue e => exact ⟨_, congrArg Prod.fst (apply_of_batch_some S hr hb e)⟩
      case false.none.finish | true.none.finish =>
        rw [endBatch_of_batch_none S hb]
        exact same
      case false.some.finish =>
        rw [endBatch_of_direct S hr hb]
        exact ⟨none, r.notifyFinish_withBatch S none⟩
      case true.some.finish queue =>
        refine ⟨none, ?_⟩
        rw [endBatch_of_batch_some S hr hb, executeAll_eq_foldl, notifyStart_withBatch,
          foldl_perform_withBatch, notifyFinish_withBatch, List.cons_append, List.foldl_cons,
          List.foldl_append]
        rfl

/-! ## The queue -/

/-- A replica that applies batches at once holds nothing back. -/
def Prompt (r : Replica σ) : Prop :=
  r.options.bufferBatches = false → r.queue = []

theorem queue_of_batch {r : Replica σ} {batch : Option (List Event)} (h : r.batch = batch) :
    r.queue = batch.getD [] := by
  rw [queue, h]

/-- A call by path touches no queue. -/
theorem queue_call (r : Replica σ) (c : PathCall) : (r.call S c).1.queue = r.queue := by
  cases hc : c.event with
  | error err => rw [call_of_error S hc]
  | ok e => rw [call_of_event S hc, queue, batch_execute, queue]

/-- The events that a call has applied and the events held back after it are, in
order, those held back before and the one handed over. -/
theorem queue_step {r : Replica σ} (h : r.Prompt) (c : Call) :
    Deed.events (r.deeds (.call c)) ++ (r.step S c).1.queue = r.queue ++ c.event?.toList := by
  cases hb : r.batch with
  | none =>
      cases hr : r.options.bufferBatches <;> cases c <;>
        simp [step, deeds, queue, Call.event?, hr, hb, beginBatch_of_direct S, withBatch,
          beginBatch_of_buffering S, apply_of_batch_none S, endBatch_of_batch_none S]
  | some queue =>
      cases hr : r.options.bufferBatches with
      | false =>
          -- here the end of the batch would drop what was held back
          have hempty : queue = [] := by simpa [Replica.queue, hb] using h hr
          subst hempty
          cases c <;>
            simp [step, deeds, Replica.queue, Call.event?, hr, hb, beginBatch_of_batch_some S hb,
              apply_of_direct S hr, endBatch_of_direct S hr hb, withBatch]
      | true =>
          cases c with
          | start =>
              simp [step, deeds, Replica.queue, Call.event?, hr, hb, beginBatch_of_batch_some S hb]
          | event e =>
              simp [step, deeds, Replica.queue, Call.event?, hr, hb, apply_of_batch_some S hr hb,
                withBatch]
          | finish =>
              have hevents :
                  Deed.events (.start :: (queue.map Deed.event ++ [.finish])) = queue := by
                rw [← List.singleton_append, Deed.events_append, Deed.events_append,
                  Deed.events_map_event]
                exact List.append_nil queue
              simp [step, deeds, Replica.queue, Call.event?, hr, hb, hevents,
                endBatch_of_batch_some S hr hb, withBatch]

/-- A request that does not overtake keeps the order of the events. -/
theorem queue_serve {r : Replica σ} (h : r.Prompt) {q : Request}
    (hpath : ∀ c, q = .path c → q.event? ≠ none → r.queue = []) :
    Deed.events (r.deeds q) ++ (r.serve S q).queue = r.queue ++ q.event?.toList := by
  cases q with
  | call c => exact queue_step S h c
  | clear => exact (List.append_nil _).symm
  | path c =>
      rw [serve, queue_call, deeds, Deed.events_map_event]
      show c.event.toOption.toList ++ r.queue = r.queue ++ c.event.toOption.toList
      cases hc : c.event.toOption with
      | none => exact (List.append_nil _).symm
      | some e =>
          have hempty : r.queue = [] := hpath c rfl (by simp [Request.event?, hc])
          rw [hempty, List.append_nil, List.nil_append]

/-- No request loses an event or makes a second one of it. -/
theorem perm_serve {r : Replica σ} (h : r.Prompt) (q : Request) :
    (Deed.events (r.deeds q) ++ (r.serve S q).queue).Perm (r.queue ++ q.event?.toList) := by
  cases q with
  | call c => exact .of_eq (queue_step S h c)
  | clear => exact .of_eq (List.append_nil _).symm
  | path c =>
      rw [serve, queue_call, deeds, Deed.events_map_event]
      exact List.perm_append_comm

/-- A replica that holds nothing back stays without a queue. -/
theorem prompt_serve {r : Replica σ} (h : r.Prompt) (q : Request) : (r.serve S q).Prompt := by
  intro hdirect
  have hr : r.options.bufferBatches = false := by rwa [options_serve] at hdirect
  have hq : r.queue = [] := h hr
  cases q with
  | clear => exact hq
  | path c => rw [serve, queue_call, hq]
  | call c =>
      have hkept := queue_step S h c
      rw [hq, List.nil_append] at hkept
      cases c with
      | start | finish => exact (List.append_eq_nil_iff.1 hkept).2
      | event e =>
          have hnow : Deed.events (r.deeds (.call (.event e))) = [e] := by
            simp only [deeds, hr, Deed.events_event]
          rw [hnow] at hkept
          exact List.append_cancel_left (hkept.trans (List.append_nil _).symm)

/-! ## The books -/

/-- The target after something happened to it. -/
def enact (o : Options) (target : Node σ) : Deed → Node σ
  | .start =>
      match bounds? S target with
      | some b => b.start target
      | none => target
  | .event e => (S.apply o e target).1
  | .finish =>
      match bounds? S target with
      | some b => b.finish target
      | none => target

/-- What a deed makes of the target depends on the target only. -/
theorem target_perform (r : Replica σ) (deed : Deed) :
    (r.perform S deed).target = enact S r.options r.target deed := by
  cases deed with
  | start => cases h : bounds? S r.target <;> simp only [perform, notifyStart, enact, h]
  | event e => rfl
  | finish => cases h : bounds? S r.target <;> simp only [perform, notifyFinish, enact, h]

/-- The entries that a deed leaves in the journal. -/
def entries (r : Replica σ) : Deed → Journal
  | .event e => [⟨r.seq + 1, e, Outcome.failure? (S.apply r.options e r.target).2⟩]
  | _ => []

/-- A deed adds its own outcome to the journal, if it has one. -/
theorem journal_perform (r : Replica σ) (deed : Deed) :
    (r.perform S deed).journal = r.journal ++ r.entries S deed := by
  cases deed with
  | start => exact (r.journal_notifyStart S).trans (List.append_nil _).symm
  | event e => rfl
  | finish => exact (r.journal_notifyFinish S).trans (List.append_nil _).symm

/-- A deed counts the event that it executes. -/
theorem seq_perform (r : Replica σ) (deed : Deed) :
    (r.perform S deed).seq = r.seq + (Deed.events [deed]).length := by
  cases deed with
  | start => cases h : bounds? S r.target <;> simp only [perform, notifyStart, h] <;> rfl
  | event e => rfl
  | finish => cases h : bounds? S r.target <;> simp only [perform, notifyFinish, h] <;> rfl

/-- An outcome reports an event of a history: its number among the events, and
the error of applying it to the target as everything before left it. -/
def Reports (o : Options) (first : Node σ) (done : List Deed) (outcome : Outcome) : Prop :=
  ∃ before after : List Deed,
    done = before ++ .event outcome.event :: after ∧
    outcome.seq = (Deed.events before).length + 1 ∧
    outcome.error =
      Outcome.failure? (S.apply o outcome.event (before.foldl (enact S o) first)).2

/-- The books of a replica agree with a history.  The journal lacks as many
entries as were cleared. -/
structure Recorded (first : Node σ) (cleared : Nat) (done : List Deed) (r : Replica σ) :
    Prop where
  target : r.target = done.foldl (enact S r.options) first
  count : (Deed.events done).length = r.seq
  length : cleared + r.journal.length = r.seq
  numbered : r.journal.map Outcome.seq = List.range' (cleared + 1) r.journal.length
  reports : ∀ outcome ∈ r.journal, Reports S r.options first done outcome

variable {S}

/-- An outcome stays a report of what was done before more is done. -/
theorem Reports.append {o : Options} {first : Node σ} {done : List Deed} {outcome : Outcome}
    (h : Reports S o first done outcome) (more : List Deed) :
    Reports S o first (done ++ more) outcome := by
  obtain ⟨before, after, hdone, hseq, herror⟩ := h
  exact ⟨before, after ++ more, by rw [hdone, List.append_assoc, List.cons_append], hseq, herror⟩

namespace Recorded

variable {first : Node σ} {cleared : Nat} {done : List Deed} {r : Replica σ}

theorem withBatch (h : Recorded S first cleared done r) (batch : Option (List Event)) :
    Recorded S first cleared done (r.withBatch batch) :=
  ⟨h.target, h.count, h.length, h.numbered, h.reports⟩

/-- One deed more, and the books agree with the longer history. -/
theorem perform (h : Recorded S first cleared done r) (deed : Deed) :
    Recorded S first cleared (done ++ [deed]) (r.perform S deed) := by
  have hlength := h.length
  refine ⟨?_, ?_, ?_, ?_, ?_⟩
  · rw [target_perform, options_perform, List.foldl_append, ← h.target]
    rfl
  · rw [seq_perform, Deed.events_append, List.length_append, h.count]
  · rw [seq_perform, journal_perform, List.length_append]
    cases deed <;> simp only [entries, Deed.events_event, Deed.events_start, Deed.events_finish,
      List.length_nil, List.length_singleton] <;> omega
  · cases deed with
    | start | finish => simpa only [journal_perform, entries, List.append_nil] using h.numbered
    | event e =>
        have hnext : r.seq + 1 = cleared + 1 + 1 * r.journal.length := by omega
        rw [journal_perform, entries, List.map_append, List.length_append, h.numbered,
          List.length_singleton, List.range'_concat, ← hnext]
        rfl
  · intro outcome hmem
    rw [journal_perform, List.mem_append] at hmem
    rw [options_perform]
    rcases hmem with hold | hnew
    · exact (h.reports outcome hold).append [deed]
    · cases deed with
      | start | finish => exact absurd hnew List.not_mem_nil
      | event e =>
          rw [entries, List.mem_singleton] at hnew
          subst hnew
          exact ⟨done, [], rfl, by rw [h.count], by rw [← h.target]⟩

/-- The books stay in order over deeds in a row. -/
theorem foldl (h : Recorded S first cleared done r) (more : List Deed) :
    Recorded S first cleared (done ++ more) (more.foldl (Replica.perform S) r) := by
  induction more generalizing done r with
  | nil =>
      rw [List.append_nil]
      exact h
  | cons deed rest ih =>
      rw [List.append_cons]
      exact ih (h.perform deed)

/-- A request keeps the books right, and only clearing changes where the journal
begins. -/
theorem serve (h : Recorded S first cleared done r) (q : Request) :
    ∃ cleared', Recorded S first cleared' (done ++ r.deeds q) (r.serve S q) ∧
      (q ≠ .clear → cleared' = cleared) := by
  by_cases hq : q = .clear
  · subst hq
    refine ⟨r.seq, ?_, fun hne => absurd rfl hne⟩
    rw [deeds, List.append_nil]
    exact ⟨h.target, h.count, rfl, rfl, fun _ hmem => absurd hmem List.not_mem_nil⟩
  · obtain ⟨batch, hserve⟩ := serve_eq_foldl S r hq
    rw [hserve]
    exact ⟨cleared, (h.foldl (r.deeds q)).withBatch batch, fun _ => rfl⟩

/-- The books stay in order over requests in a row. Without a request to clear them nothing is
taken out. -/
theorem serveAll (h : Recorded S first cleared done r) (requests : List Request) :
    ∃ cleared', Recorded S first cleared' (done ++ r.history S requests) (r.serveAll S requests) ∧
      (.clear ∉ requests → cleared' = cleared) := by
  induction requests generalizing cleared done r with
  | nil =>
      refine ⟨cleared, ?_, fun _ => rfl⟩
      rw [history, List.append_nil]
      exact h
  | cons q rest ih =>
      obtain ⟨middle, hmiddle, hfirst⟩ := h.serve q
      obtain ⟨cleared', hrest, hlast⟩ := ih hmiddle
      refine ⟨cleared', ?_, fun hclear => ?_⟩
      · rw [history, ← List.append_assoc, serveAll_cons]
        exact hrest
      · rw [List.mem_cons, not_or] at hclear
        exact (hlast hclear.2).trans (hfirst (Ne.symm hclear.1))

end Recorded

variable (S)

/-! ## Requests in a row -/

/-- No request in a row changes the options. -/
@[simp]
theorem options_serveAll (r : Replica σ) (requests : List Request) :
    (r.serveAll S requests).options = r.options := by
  induction requests generalizing r with
  | nil => rfl
  | cons q rest ih => exact (ih (r.serve S q)).trans (r.options_serve S q)

/-- Without held batches no request in a row leaves a queue. -/
theorem prompt_serveAll {r : Replica σ} (h : r.Prompt) (requests : List Request) :
    (r.serveAll S requests).Prompt := by
  induction requests generalizing r with
  | nil => exact h
  | cons q rest ih => exact ih (prompt_serve S h q)

/-- The events applied and those still held back are those that were held back
before and those handed over. -/
theorem perm_serveAll {r : Replica σ} (h : r.Prompt) (requests : List Request) :
    (Deed.events (r.history S requests) ++ (r.serveAll S requests).queue).Perm
      (r.queue ++ Request.handed requests) := by
  induction requests generalizing r with
  | nil => exact .of_eq (List.append_nil _).symm
  | cons q rest ih =>
      let next := r.serve S q
      rw [history, Deed.events_append, serveAll_cons, Request.handed_cons, List.append_assoc]
      calc
        List.Perm
            (Deed.events (r.deeds q) ++ (Deed.events (next.history S rest) ++
              (next.serveAll S rest).queue))
            (Deed.events (r.deeds q) ++ (next.queue ++ Request.handed rest)) :=
          (ih (prompt_serve S h q)).append_left _
        _ = Deed.events (r.deeds q) ++ next.queue ++ Request.handed rest :=
          (List.append_assoc _ _ _).symm
        List.Perm _ (r.queue ++ q.event?.toList ++ Request.handed rest) :=
          (perm_serve S h q).append_right _
        _ = r.queue ++ (q.event?.toList ++ Request.handed rest) := List.append_assoc _ _ _

/-- No call by path comes while events are held back. -/
def NoneOvertakes (r : Replica σ) (requests : List Request) : Prop :=
  ∀ (before after : List Request) (c : PathCall), requests = before ++ .path c :: after →
    (Request.path c).event? ≠ none → (r.serveAll S before).queue = []

/-- Where no call by path overtakes, the events applied followed by those still
held back are in the order in which they came in. -/
theorem ordered_serveAll {r : Replica σ} (h : r.Prompt) {requests : List Request}
    (hpaths : r.NoneOvertakes S requests) :
    Deed.events (r.history S requests) ++ (r.serveAll S requests).queue =
      r.queue ++ Request.handed requests := by
  induction requests generalizing r with
  | nil => exact (List.append_nil _).symm
  | cons q rest ih =>
      have hfirst : ∀ c, q = .path c → q.event? ≠ none → r.queue = [] := by
        rintro c rfl hc
        exact hpaths [] rest c rfl hc
      have hrest : (r.serve S q).NoneOvertakes S rest := by
        rintro before after c rfl hc
        exact hpaths (q :: before) after c rfl hc
      rw [history, Deed.events_append, serveAll_cons, Request.handed_cons, List.append_assoc,
        ih (prompt_serve S h q) hrest, ← List.append_assoc, queue_serve S h hfirst,
        List.append_assoc]

/-- The journal lists the events of the deeds in order. -/
theorem events_journal_foldl (r : Replica σ) (done : List Deed) :
    (done.foldl (perform S) r).journal.map Outcome.event =
      r.journal.map Outcome.event ++ Deed.events done := by
  induction done generalizing r with
  | nil => exact (List.append_nil _).symm
  | cons deed rest ih =>
      have hentries : (r.entries S deed).map Outcome.event = Deed.events [deed] := by
        cases deed <;> rfl
      rw [List.foldl_cons, ih, journal_perform, List.map_append, hentries, List.append_assoc,
        ← Deed.events_append, List.singleton_append]

/-- Until it is cleared, the journal lists the events of the history. -/
theorem events_journal_serveAll (r : Replica σ) {requests : List Request}
    (hclear : .clear ∉ requests) :
    (r.serveAll S requests).journal.map Outcome.event =
      r.journal.map Outcome.event ++ Deed.events (r.history S requests) := by
  induction requests generalizing r with
  | nil => exact (List.append_nil _).symm
  | cons q rest ih =>
      rw [List.mem_cons, not_or] at hclear
      obtain ⟨batch, hserve⟩ := serve_eq_foldl S r (Ne.symm hclear.1)
      have hfirst : (r.serve S q).journal.map Outcome.event =
          r.journal.map Outcome.event ++ Deed.events (r.deeds q) := by
        rw [hserve]
        exact events_journal_foldl S r (r.deeds q)
      rw [serveAll_cons, ih (r.serve S q) hclear.2, hfirst, history, Deed.events_append,
        List.append_assoc]

/-- No event is lost, applied twice or misnumbered, whatever a replica is asked
for.  Every event handed over is counted or still held back.  The journal numbers
its entries up to the counter, and each of them has the error that its event has
on the target as everything before left it.  The target is the one that the events
and the batch bounds of the history make of the first, failures included. -/
theorem books_serveAll (first : Node σ) (o : Options) (requests : List Request) :
    let fresh : Replica σ := { target := first, options := o }
    let r := fresh.serveAll S requests
    let done := fresh.history S requests
    let handed := Request.handed requests
    handed.length = r.seq + r.queue.length ∧
    (Deed.events done ++ r.queue).Perm handed ∧
    (∃ cleared,
      cleared + r.journal.length = r.seq ∧
      r.journal.map Outcome.seq = List.range' (cleared + 1) r.journal.length ∧
      (.clear ∉ requests → cleared = 0)) ∧
    (∀ outcome ∈ r.journal, Reports S o first done outcome) ∧
    r.target = done.foldl (enact S o) first ∧
    (r.batch = none ∨ o.bufferBatches = false → r.queue = []) := by
  intro fresh r done handed
  have hfresh : fresh.Prompt := fun _ => rfl
  have hperm : (Deed.events done ++ r.queue).Perm handed := perm_serveAll S hfresh requests
  have hblank : Recorded S first 0 [] fresh :=
    ⟨rfl, rfl, rfl, rfl, fun _ hmem => absurd hmem List.not_mem_nil⟩
  obtain ⟨cleared, hbooks, hcleared⟩ := hblank.serveAll requests
  have hopts : r.options = o := options_serveAll S fresh requests
  have htarget := hbooks.target
  have hreports := hbooks.reports
  rw [List.nil_append, hopts] at htarget hreports
  refine ⟨?_, hperm, ⟨cleared, hbooks.length, hbooks.numbered, hcleared⟩, hreports, htarget, ?_⟩
  · calc
      handed.length = (Deed.events done ++ r.queue).length := hperm.length_eq.symm
      _ = r.seq + r.queue.length := by rw [List.length_append]; exact congrArg (· + _) hbooks.count
  · rintro (hclosed | hdirect)
    · exact queue_of_batch hclosed
    · exact prompt_serveAll S hfresh requests (by rw [hopts]; exact hdirect)

/-- A replica that holds events back writes them into its journal in the order in
which they came in, as long as no call by path comes while events are held back. -/
theorem journal_in_order {r : Replica σ} (hr : r.options.bufferBatches = true)
    (h : r.batch = none) {requests : List Request} (hclear : .clear ∉ requests)
    (hpaths : r.NoneOvertakes S requests) (hclosed : (r.serveAll S requests).batch = none) :
    (r.serveAll S requests).journal.map Outcome.event =
      r.journal.map Outcome.event ++ Request.handed requests := by
  have hprompt : r.Prompt := fun hdirect => absurd (hr.symm.trans hdirect) (by decide)
  have hordered := ordered_serveAll S hprompt hpaths
  rw [queue_of_batch h, queue_of_batch hclosed] at hordered
  rw [events_journal_serveAll S r hclear, ← hordered.trans (List.nil_append _)]
  exact congrArg _ (List.append_nil _).symm

/-- A call by path after the batch of an earlier event. -/
theorem journal_in_order_gauge :
    let start : Replica (List String) :=
      { target := gauge.zero (.record "Gauge"), options := Options.buffering {} true }
    let early : Event := ⟨.replace, [], "level", .scalar .int, "7", none⟩
    let requests : List Request :=
      [.call .start, .call (.event early), .call .finish, .path (.replace "/level" "9")]
    start.options.bufferBatches = true ∧ start.batch = none ∧ .clear ∉ requests ∧
    start.NoneOvertakes gauge requests ∧ (start.serveAll gauge requests).batch = none ∧
    (start.serveAll gauge requests).journal.map Outcome.event = Request.handed requests := by
  intro start early requests
  have hpaths : start.NoneOvertakes gauge requests := by
    intro before after c hsplit _
    have hbefore : before = requests.take 3 := by
      rcases before with _ | ⟨_, _ | ⟨_, _ | ⟨_, _ | ⟨_, _⟩⟩⟩⟩ <;> simp_all [requests]
    subst hbefore
    decide +kernel
  have hclosed : (start.serveAll gauge requests).batch = none := by decide +kernel
  exact ⟨rfl, rfl, by decide, hpaths, hclosed,
    journal_in_order gauge (r := start) rfl rfl (by decide) hpaths hclosed⟩

/-- A call by path overtakes an event that was handed over before it. -/
theorem overtaken_gauge :
    let start : Replica (List String) :=
      { target := gauge.zero (.record "Gauge"), options := Options.buffering {} true }
    let early : Event := ⟨.replace, [], "level", .scalar .int, "7", none⟩
    let late : Event := ⟨.replace, [], "level", .default, "9", none⟩
    let requests : List Request :=
      [.call .start, .call (.event early), .path (.replace "/level" "9"), .call .finish]
    (start.serveAll gauge requests).batch = none ∧
    Request.handed requests = [early, late] ∧
    (start.serveAll gauge requests).journal.map Outcome.event = [late, early] ∧
    (start.serveAll gauge requests).journal.map Outcome.event ≠ Request.handed requests := by
  decide +kernel

end Replica

end TreeSync

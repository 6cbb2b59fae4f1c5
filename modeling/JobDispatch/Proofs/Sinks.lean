import JobDispatch.Proofs.Retries
import JobDispatch.Scenario.Operation

/-!
Sinks of metrics. Operations tell the sink what they do and learn nothing from it. So runs with
different sinks differ in the sinks, and in what the log tells of metrics, and in nothing else,
whatever is done to the sinks meanwhile (`System.Agrees.play`). The sink at the end of a run is what
the metrics of the run have made of the sink at its start (`System.Records.play`): a channel from
which nothing is taken holds the first of them (`Sink.foldr_record_sending`), and counters show how
often each of them came (`Counters.sumsUp_ofMetrics`). So all sinks tell the same of an engine
(`Engine.sinks_agree`).
-/

namespace JobDispatch

open Program

/-! ### What metrics make of a sink -/

def Metric.gauge? : Metric → Option UInt64
  | activeWorkers count => some count
  | _ => none

namespace Counters

/-- The counters show what the metrics come to: how often each of them came, for each worker to
which a job was offered how many offers there were, and the last number of active workers. -/
structure SumsUp (k : Counters) (ms : List Metric) : Prop where
  pushes : k.queuePush.toNat = ms.count .queuePush
  claimed : k.queuePopClaimed.toNat = ms.count (.queuePop .claimed)
  unclaimed : k.queuePopUnclaimed.toNat = ms.count (.queuePop .unclaimed)
  duplicates : k.duplicateEntries.toNat = ms.count .duplicateEntry
  violations : k.consistencyViolations.toNat = ms.count .consistencyViolation
  active : k.activeWorkers = (ms.filterMap Metric.gauge?).getLast?.getD 0
  ticks : ∀ worker, (k.workerTicks.find? worker).map UInt64.toNat =
    if ms.count (.workerTick worker) = 0 then none else some (ms.count (.workerTick worker))

lemma activeWorkers_ofMetrics (ms : List Metric) :
    (ofMetrics ms).activeWorkers = (ms.filterMap Metric.gauge?).head?.getD 0 := by
  induction ms with
  | nil => rfl
  | cons m ms ih =>
    show ((ofMetrics ms).record m).activeWorkers = _
    cases m with
    | activeWorkers count => rfl
    | queuePop kind => cases kind <;> exact ih
    | _ => exact ih

lemma find?_ticks_record (k : Counters) (m : Metric) (worker : WorkerId) :
    (k.record m).workerTicks.find? worker = none ↔
      m ≠ .workerTick worker ∧ k.workerTicks.find? worker = none := by
  cases m with
  | workerTick other =>
    show (k.workerTicks.insert other _).find? worker = none ↔ _
    rw [Table.find?_insert]
    by_cases h : worker = other
    · simp [h]
    · simp [h, Ne.symm h]
  | queuePop kind => cases kind <;> simp [record]
  | _ => simp [record]

/-- A worker to which no job was offered has no count, not even of zero. -/
lemma find?_ticks_ofMetrics (ms : List Metric) (worker : WorkerId) :
    (ofMetrics ms).workerTicks.find? worker = none ↔ ms.count (.workerTick worker) = 0 := by
  rw [List.count_eq_zero]
  induction ms with
  | nil => simp [ofMetrics, zero]
  | cons m ms ih =>
    show ((ofMetrics ms).record m).workerTicks.find? worker = none ↔ _
    rw [find?_ticks_record, ih, List.mem_cons, not_or, ne_comm]

lemma ticks_ofMetrics {ms : List Metric} (hms : ms.length < UInt64.size) (worker : WorkerId) :
    ((ofMetrics ms).workerTicks.find? worker).map UInt64.toNat =
      if ms.count (.workerTick worker) = 0 then none
      else some (ms.count (.workerTick worker)) := by
  have hread : (((ofMetrics ms).workerTicks.find? worker).getD 0).toNat = _ :=
    toNat_read (n := .workerTick worker) hms (by rintro k ⟨⟩)
  have hnone := find?_ticks_ofMetrics ms worker
  split
  · rename_i h
    rw [hnone.2 h]
    rfl
  · rename_i h
    obtain ⟨n, hn⟩ := Option.ne_none_iff_exists'.1 (mt hnone.1 h)
    rw [hn] at hread ⊢
    exact congrArg some hread

/-- **Counters sum up the metrics**, as long as there are fewer than a counter can count. -/
theorem sumsUp_ofMetrics {ms : List Metric} (hms : ms.length < UInt64.size) :
    (ofMetrics ms).SumsUp ms.reverse := by
  have hcount {m : Metric} (hm : m.gauge? = none) :
      ((ofMetrics ms).read m).toNat = ms.reverse.count m := by
    rw [toNat_read hms (by rintro k rfl; cases hm), List.count_reverse]
  exact {
    pushes := hcount (m := .queuePush) rfl
    claimed := hcount (m := .queuePop .claimed) rfl
    unclaimed := hcount (m := .queuePop .unclaimed) rfl
    duplicates := hcount (m := .duplicateEntry) rfl
    violations := hcount (m := .consistencyViolation) rfl
    active := by rw [activeWorkers_ofMetrics, List.filterMap_reverse, List.getLast?_reverse]
    ticks := fun worker => by
      rw [List.count_reverse]
      exact ticks_ofMetrics hms worker }

end Counters

/-- An open channel that holds the first events takes the next if it is among the first. -/
lemma Channel.send_take (n : Nat) (ms : List Metric) (m : Metric) :
    (⟨n, true, ms.take n⟩ : Channel).send m = ⟨n, true, (ms ++ [m]).take n⟩ := by
  unfold send
  by_cases h : ms.length < n
  · rw [List.take_of_length_le (Nat.le_of_lt h), if_pos ⟨rfl, h⟩,
      List.take_of_length_le (by simpa using h)]
  · have hn : n ≤ ms.length := Nat.not_lt.1 h
    rw [if_neg (by simp [List.length_take_of_le hn]), List.take_append_of_le_length hn]

namespace Sink

lemma foldr_record_counting (ms : List Metric) :
    ms.foldr record (.counting .zero) = .counting (.ofMetrics ms) := by
  induction ms with
  | nil => rfl
  | cons m ms ih =>
    rw [List.foldr_cons, ih]
    rfl

lemma foldr_record_logging (ms : List Metric) :
    ms.foldr record (.logging []) = .logging ms.reverse := by
  induction ms with
  | nil => rfl
  | cons m ms ih =>
    rw [List.foldr_cons, ih, List.reverse_cons]
    rfl

/-- **A channel from which nothing is taken holds the first events**, as many as it has room for. -/
theorem foldr_record_sending (n : Nat) (ms : List Metric) :
    ms.foldr record (.sending (.ofCapacity n)) =
      .sending ⟨max n 1, true, ms.reverse.take (max n 1)⟩ := by
  induction ms with
  | nil => simp [Channel.ofCapacity]
  | cons m ms ih =>
    rw [List.foldr_cons, ih, List.reverse_cons, ← Channel.send_take]
    rfl

end Sink

/-! ### Worlds that differ in their sinks -/

def Event.isMetric : Event → Bool
  | metric _ => true
  | _ => false

namespace World

def dispatchLog (w : World) : List Event := w.events.filter fun e => !e.isMetric

/-- Nothing tells the worlds apart but their sinks and what their logs tell of metrics. -/
structure Agrees (w v : World) : Prop where
  same : w.Matches v
  log : w.dispatchLog = v.dispatchLog

variable {w v : World}

/-- Other lines are added to the log by requests to log them only. -/
lemma dispatchLog_answer (w : World) (r : Request) :
    (w.answer r).2.dispatchLog = match r with
      | .log event => [event].filter (fun e => !e.isMetric) ++ w.dispatchLog
      | _ => w.dispatchLog := by
  cases r with
  | log event => exact List.filter_append [event] w.events
  | count m =>
    obtain ⟨_, _, _, _, _, sink, _, _⟩ := w
    cases sink <;> rfl
  | addJob draft =>
    simp only [answer, addJob]
    split <;> rfl
  | _ => rfl

lemma Agrees.answer (h : w.Agrees v) (r : Request) :
    (w.answer r).1 = (v.answer r).1 ∧ (w.answer r).2.Agrees (v.answer r).2 := by
  obtain ⟨hanswer, hsame⟩ := h.same.answer r
  exact ⟨hanswer, hsame, by rw [dispatchLog_answer, dispatchLog_answer, h.log]⟩

lemma Agrees.arm (h : w.Agrees v) (f : Fault) :
    ({ w with queue := w.queue.arm f } : World).Agrees { v with queue := v.queue.arm f } := by
  obtain ⟨⟨⟨hjobs, hqueue, hregistry, hnow⟩, hleases, hprogress⟩, hlog⟩ := h
  exact ⟨⟨⟨hjobs, by rw [hqueue], hregistry, hnow⟩, hleases, hprogress⟩, hlog⟩

lemma Agrees.setClock (h : w.Agrees v) (now : Timestamp) :
    ({ w with now } : World).Agrees { v with now } := by
  obtain ⟨⟨⟨hjobs, hqueue, hregistry, -⟩, hleases, hprogress⟩, hlog⟩ := h
  exact ⟨⟨⟨hjobs, hqueue, hregistry, rfl⟩, hleases, hprogress⟩, hlog⟩

lemma Agrees.handle (h : w.Agrees v) (sink : Sink) : ({ w with sink } : World).Agrees v := by
  obtain ⟨⟨⟨hjobs, hqueue, hregistry, hnow⟩, hleases, hprogress⟩, hlog⟩ := h
  exact ⟨⟨⟨hjobs, hqueue, hregistry, hnow⟩, hleases, hprogress⟩, hlog⟩

end World

/-! ### Runs with different sinks -/

/-- What goes on in a run, and what may be done to its sink from outside. -/
inductive Turn (κ : Type)
  | move (m : Move κ)
  /-- A later call on the queue is to fail, or to miss what it looks for. -/
  | fault (f : Fault)
  /-- The sink is changed: its events are taken, say, or its receiver goes away. -/
  | handle (act : Sink → Sink)

/-- The turn leaves the sink alone, unless an operation counts a metric. -/
def Turn.spares {κ : Type} : Turn κ → Bool
  | handle _ => false
  | _ => true

structure Deed.Agrees {κ : Type} (d d' : Deed κ) : Prop where
  thread : d.thread = d'.thread
  operation : d.operation = d'.operation
  request : d.request = d'.request
  world : d.world.Agrees d'.world

namespace System

variable {κ ρ : Type}

section

variable (program : κ → Program ρ)

def turn (s : System κ ρ) : Turn κ → System κ ρ
  | .move m => s.move program m
  | .fault f => { s with world := { s.world with queue := s.world.queue.arm f } }
  | .handle act => { s with world := { s.world with sink := act s.world.sink } }

def play (s : System κ ρ) (turns : List (Turn κ)) : System κ ρ := turns.foldl (turn program) s

end

/-- Nothing tells the systems apart but their sinks and what their logs tell of metrics. -/
structure Agrees (s s' : System κ ρ) : Prop where
  world : s.world.Agrees s'.world
  locks : s.locks = s'.locks
  /-- The same operations are under way, at the same places, or have come to the same results. -/
  threads : s.threads = s'.threads
  /-- All requests were the same, and were answered alike. -/
  deeds : List.Forall₂ Deed.Agrees s.deeds s'.deeds

variable {program : κ → Program ρ} {s s' : System κ ρ} {sink : Sink} {turns : List (Turn κ)}

namespace Agrees

lemma initial {w v : World} (h : w.Agrees v) :
    (System.initial w : System κ ρ).Agrees (System.initial v) := ⟨h, rfl, rfl, .nil⟩

lemma metrics (h : s.Agrees s') : s.metrics = s'.metrics := by
  have hdeeds := h.deeds
  unfold System.metrics
  generalize s.deeds = deeds, s'.deeds = deeds' at hdeeds
  induction hdeeds with
  | nil => rfl
  | cons hd _ ih => rw [List.filterMap_cons, List.filterMap_cons, hd.request, ih]

lemma answered (h : s.Agrees s') (i : Nat) (c : κ) (r : Request) (next : r.Answer → Program ρ) :
    (s.answered i c r next).Agrees (s'.answered i c r next) := by
  obtain ⟨hanswer, hworld⟩ := h.world.answer r
  refine ⟨hworld, ?_, ?_, .cons ⟨rfl, rfl, rfl, h.world⟩ h.deeds⟩
  · show s.locksAfter i r = s'.locksAfter i r
    unfold locksAfter
    rw [h.locks, h.world.same.alike.jobs]
  · show s.threads.set i _ = s'.threads.set i _
    rw [h.threads, hanswer]

lemma step (h : s.Agrees s') (i : Nat) : (s.step i).Agrees (s'.step i) := by
  unfold System.step
  rw [h.threads]
  split
  · rename_i c r next _
    have hwaits : s.waits r = s'.waits r := by
      unfold waits
      rw [h.locks]
    rw [hwaits]
    split
    · exact h
    · exact h.answered i c r next
  · exact h

/-- **Systems that agree still do after a move.** -/
theorem move (h : s.Agrees s') (m : Move κ) : (s.move program m).Agrees (s'.move program m) := by
  cases m with
  | step i => exact h.step i
  | start c => exact { h with threads := congrArg (· ++ [(⟨c, program c⟩ : Thread κ ρ)]) h.threads }
  | setClock now => exact { h with world := h.world.setClock now }
  | plan call skip e => exact { h with world := h.world.arm ⟨call, skip, .error e⟩ }

/-- **Systems that agree still do after a run**, whatever is done to the sink of one of them. -/
theorem play (h : s.Agrees s') (turns : List (Turn κ)) :
    (s.play program turns).Agrees (s'.play program (turns.filter Turn.spares)) := by
  induction turns generalizing s s' with
  | nil => exact h
  | cons t turns ih =>
    cases t with
    | move m => exact ih (h.move m)
    | fault f => exact ih { h with world := h.world.arm f }
    -- the other run has no turn for this one
    | handle act => exact ih { h with world := h.world.handle (act s.world.sink) }

end Agrees

/-! ### What becomes of the sink -/

/-- The sink is what the metrics so far have made of it. -/
def Records (sink : Sink) (s : System κ ρ) : Prop := s.world.sink = s.metrics.foldr Sink.record sink

lemma Records.step (h : s.Records sink) (i : Nat) : (s.step i).Records sink := by
  rcases s.step_eq_or_answered i with hstep | ⟨c, r, next, -, hstep⟩
  · rwa [hstep]
  · rw [hstep]
    show (s.world.answer r).2.sink = _
    rw [World.sink_answer, metrics_answered, h]
    cases r.metric? <;> rfl

/-- **The metrics of a run are all that becomes of its sink**, unless something is done to it. -/
theorem Records.play (h : s.Records sink) (hspares : ∀ t ∈ turns, t.spares) :
    (s.play program turns).Records sink := by
  induction turns generalizing s with
  | nil => exact h
  | cons t turns ih =>
    obtain ⟨ht, hturns⟩ := List.forall_mem_cons.1 hspares
    refine ih ?_ hturns
    cases t with
    | move m =>
      -- nothing is counted but by a step
      cases m with
      | step i => exact h.step i
      | _ => exact h
    | fault f => exact h
    | handle act => cases ht

end System

/-! ### The engine -/

namespace Engine

/-- What an engine is put to: operations, its own and those of its parts, and cycles of the periodic
sweep. -/
inductive Task
  | perform (op : Scenario.Operation)
  | sweepCycle

/-- The program of a task, which ends with the reply. -/
def Task.program (c : Config) : Task → Program Scenario.Reply
  | perform op => op.program c
  | sweepCycle => do
    JobDispatch.sweepCycle c.sweepPlan c.untaggedOnly
    pure .done

def operate (c : Config) (now : Timestamp) (sink : Sink) (turns : List (Turn Task)) :
    System Task Scenario.Reply :=
  (System.initial (initial c sink now)).play (Task.program c) turns

/-- **The sink has no part in dispatch, and all sinks tell the same.** Whatever tasks an engine that
was empty at first is put to, in turns, whenever the clock is set and whichever calls on the queue
fail: with any sink, and whatever is done to it meanwhile, all is as with a sink that drops
everything, the replies, jobs, entries, workers and the progress of sweeps among it; only the sinks
differ, and what the log tells of metrics. If nothing is done to the sink, a log has told of the
metrics of the run, an open channel holds the first of them in order, as many as it has room for and
at least one, and counters show what they come to, unless there are more than can be counted. -/
theorem sinks_agree (c : Config) (now : Timestamp) (sink : Sink) (turns : List (Turn Task)) :
    let spared := turns.filter Turn.spares
    let ms := (operate c now .silent spared).metrics.reverse
    (operate c now sink turns).Agrees (operate c now .silent spared) ∧
      (operate c now sink turns).metrics.reverse = ms ∧
      (operate c now (.logging []) spared).world.sink = .logging ms ∧
      (∀ n, (operate c now (.sending (.ofCapacity n)) spared).world.sink =
        .sending ⟨max n 1, true, ms.take (max n 1)⟩) ∧
      ∃ books, (operate c now (.counting .zero) spared).world.sink = .counting books ∧
        (ms.length < UInt64.size → books.SumsUp ms) := by
  intro spared ms
  have hagrees (sink : Sink) (turns : List (Turn Task)) :
      (operate c now sink turns).Agrees (operate c now .silent (turns.filter Turn.spares)) := by
    have hstart : (initial c sink now).Agrees (initial c .silent now) :=
      ⟨⟨⟨rfl, rfl, rfl, rfl⟩, rfl, rfl⟩, rfl⟩
    exact (System.Agrees.initial hstart).play turns
  have hspares : ∀ t ∈ spared, t.spares := fun _ ht => (List.mem_filter.1 ht).2
  -- the metrics that reach a sink are those that the silent one drops
  have hrecords (sink : Sink) : (operate c now sink spared).world.sink =
      (operate c now .silent spared).metrics.foldr Sink.record sink := by
    have hplay : (operate c now sink spared).Records sink := System.Records.play rfl hspares
    have hsame := (hagrees sink spared).metrics
    rw [List.filter_eq_self.2 hspares] at hsame
    rw [hplay, hsame]
  exact ⟨hagrees sink turns, congrArg List.reverse (hagrees sink turns).metrics,
    (hrecords _).trans (Sink.foldr_record_logging _),
    fun n => (hrecords _).trans (Sink.foldr_record_sending n _),
    _, (hrecords _).trans (Sink.foldr_record_counting _),
    fun hfew => Counters.sumsUp_ofMetrics (by rwa [List.length_reverse] at hfew)⟩

def Task.whole (i : Nat) (task : Task) : List (Turn Task) :=
  .move (.start task) :: List.replicate 40 (.move (.step i))

/-- A job is claimed, one is canceled, one is canceled whose entry was taken out of the queue past
the engine, and one is refused for which an entry was put there; then there is a sweep. The receiver
of a channel goes away after the first job. -/
def everyMetric : List (Turn Task) :=
  let draft (job : Nat) : JobDraft := ⟨⟨.ofNat job⟩, ⟨.ofNat 3⟩, .empty⟩
  let hangUp : Sink → Sink
    | .sending channel => .sending channel.close
    | sink => sink
  let inTurn (first : Nat) (ops : List Scenario.Operation) : List (Turn Task) :=
    (ops.zipIdx first).flatMap fun p => Task.whole p.2 (.perform p.1)
  inTurn 0 [.heartbeat ⟨⟨.ofNat 1⟩, .empty, 1, .epoch, .everyProject, true⟩ (.fixed .epoch),
    .enqueue (draft 4)] ++
  .handle hangUp :: inTurn 2 [.enqueue (draft 5), .dequeue ⟨.ofNat 5⟩, .enqueue (draft 6),
    .pop ⟨.ofNat 6⟩, .dequeue ⟨.ofNat 6⟩, .push (draft 7) (.fixed .epoch), .enqueue (draft 7)] ++
  Task.whole 9 .sweepCycle

theorem sinks_agree_everyMetric :
    let ms : List Metric := [.queuePush, .workerTick ⟨.ofNat 1⟩, .queuePop .claimed, .queuePush,
      .queuePop .unclaimed, .queuePush, .consistencyViolation, .duplicateEntry, .activeWorkers 1]
    (operate .standard .epoch .silent (everyMetric.filter Turn.spares)).metrics.reverse = ms ∧
      ms.length < UInt64.size ∧
      (operate .standard .epoch (.sending (.ofCapacity 2)) everyMetric).Agrees
        (operate .standard .epoch .silent (everyMetric.filter Turn.spares)) ∧
      (operate .standard .epoch (.sending (.ofCapacity 0))
        (everyMetric.filter Turn.spares)).world.sink = .sending ⟨1, true, [.queuePush]⟩ ∧
      ∃ books, (operate .standard .epoch (.counting .zero)
          (everyMetric.filter Turn.spares)).world.sink = .counting books ∧
        books.queuePush.toNat = 3 ∧ books.activeWorkers = 1 ∧
        (books.workerTicks.find? ⟨.ofNat 1⟩).map UInt64.toNat = some 1 := by
  intro ms
  have hms : (operate .standard .epoch .silent
      (everyMetric.filter Turn.spares)).metrics.reverse = ms := by decide +kernel
  have hfew : ms.length < UInt64.size := by decide +kernel
  obtain ⟨hagrees, -, -, hchannel, books, hbooks, hsums⟩ :=
    sinks_agree .standard .epoch (.sending (.ofCapacity 2)) everyMetric
  have hfirst := hchannel 0
  rw [hms] at hfirst hsums
  have hcounts := hsums hfew
  exact ⟨hms, hfew, hagrees, hfirst, books, hbooks, hcounts.pushes, hcounts.active,
    hcounts.ticks ⟨.ofNat 1⟩⟩

end Engine

end JobDispatch

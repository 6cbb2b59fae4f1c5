import JobDispatch.Proofs.Lockstep
import JobDispatch.Proofs.Precedence
import JobDispatch.Proofs.Ticks

/-!
What a tick comes to when nothing comes in between. The workers that may take the job are ranked,
and the first of them gets it: since it was ready at the ranking, it is at the claim
(`claim_run`). If there is none, all stays as it was (`Still.offerEntry_run`).
-/

namespace JobDispatch

open Program

/-! ### The ranking -/

namespace Registry

variable {r : Registry}

/-- The worker that an entry goes to: the first of those that may take it. -/
def choice (r : Registry) (untaggedOnly : Bool) (now : Timestamp) (e : QueueEntry) :
    Option Worker :=
  (rank e r.workers.values ⟨now, r.staleAfter, untaggedOnly⟩).head?

lemma rank_available (untaggedOnly : Bool) (now : Timestamp) (e : QueueEntry) :
    rank e (r.available e.project now) ⟨now, r.staleAfter, untaggedOnly⟩ =
      rank e r.workers.values ⟨now, r.staleAfter, untaggedOnly⟩ := by
  unfold rank available
  rw [List.filter_filter]
  congr 1
  refine List.filter_congr fun worker _ => ?_
  unfold Worker.eligible
  cases worker.scope.covers e.project <;> cases worker.isReady now r.staleAfter <;> simp

lemma takePlace_of_ready {id : WorkerId} {worker : Worker} {now : Timestamp}
    (hget : r.get? id = some worker) (hready : worker.isReady now r.staleAfter = true) :
    r.takePlace id now =
      (none, r.put { worker with running := worker.running + 1, lastClaimedAt? := some now }) := by
  have h := hready
  simp only [Worker.isReady, Bool.and_eq_true, decide_eq_true_eq] at h
  have hroom : worker.room ≠ 0 := UInt32.pos_iff_ne_zero.1 h.1
  unfold takePlace
  rw [hget]
  simp [h.2, hroom]

end Registry

/-! ### Claims -/

def World.handOver (w : World) (job : Job) (worker : WorkerId) : World :=
  { w with
    jobs := w.jobs.insert job.id { job with
      state := .running, claimedBy? := some worker, enqueuedAt? := none, updatedAt := w.now }
    queue := .ofQueue (w.queue.queue.pop job.id).2
    registry := (w.registry.takePlace worker w.now).2 }

variable {w : World}

lemma World.Still.get?_of_pending (hw : w.Still) {job : Job}
    (hjob : w.jobs.find? job.id = some job) (hpending : job.state = .pending) :
    ∃ e, w.queue.queue.get? job.id = some e :=
  Option.isSome_iff_exists.1 ((hw.sound.kept.settled hjob).queued_iff.2 hpending)

theorem World.Still.claim_run (hw : w.Still) {job : Job} {id : WorkerId} {worker : Worker}
    (hjob : w.jobs.find? job.id = some job) (hpending : job.state = .pending)
    (hget : w.registry.get? id = some worker)
    (hready : worker.isReady w.now w.registry.staleAfter = true) :
    ∃ events, (claim job.id id).run w = (.ok (.claimed id w.now),
      { w.handOver job id with sink := w.sink.record (.queuePop .claimed), events }) := by
  obtain ⟨e, he⟩ := hw.get?_of_pending hjob hpending
  have htake := Registry.takePlace_of_ready hget hready
  have hlock : (request (.lockJob job.id)).run w = (some job, w) := by
    show (w.jobs.find? job.id, w) = _
    rw [hjob]
  let w₁ := { w with registry := (w.registry.takePlace id w.now).2 }
  have hplace : (request (.takePlace id)).run w = (none, w₁) := by
    show ((w.registry.takePlace id w.now).1, w₁) = _
    rw [htake]
  let w₂ := { w₁ with queue := .ofQueue (w.queue.queue.pop job.id).2 }
  have hpop : (request (.pop job.id)).run w₁ = (.ok true, w₂) := by
    show w₁.onQueue (fun q => q.pop job.id) = _
    simp only [World.onQueue, FallibleQueue.pop]
    rw [FallibleQueue.guarded_of_plan_eq_nil _ _ _ hw.plan]
    simp only [w₁, w₂, Queue.pop_fst, he]
    rfl
  unfold claim
  rw [run_bind, hlock]
  dsimp only
  rw [if_neg (by rw [hpending]; decide), run_bind, run_request, World.answer_lookup hw.plan, he]
  dsimp only
  rw [run_bind, hplace]
  dsimp only
  unfold popEntry
  rw [if_neg (by decide), run_bind, run_bind, hpop]
  exact ⟨_, rfl⟩

/-! ### Ticks -/

/-- What a tick of an entry comes to. -/
def Registry.verdict (r : Registry) (untaggedOnly : Bool) (now : Timestamp) (e : QueueEntry) :
    TickOutcome :=
  match r.choice untaggedOnly now e with
  | none => .noEligibleWorker
  | some worker => .claimed ⟨e.job, worker.id, now⟩

def World.ticked (untaggedOnly : Bool) (w : World) (e : QueueEntry) : World :=
  match w.registry.choice untaggedOnly w.now e, w.jobs.find? e.job with
  | some worker, some job => w.handOver job worker.id
  | _, _ => w

lemma World.Still.job_of_get? (hw : w.Still) {id : JobId} {e : QueueEntry}
    (he : w.queue.queue.get? id = some e) :
    ∃ job, w.jobs.find? id = some job ∧ job.id = id ∧ job.state = .pending := by
  have hid := hw.sound.kept.agree id
  cases hjob : w.jobs.find? id with
  | none =>
    rw [hw.sound.kept.get?_eq_none hjob] at he
    cases he
  | some job =>
    rw [hjob] at hid
    exact ⟨job, rfl, hid.1, hid.2.queued_iff.1 (by rw [he]; rfl)⟩

/-- Whoever is chosen is registered and may take the entry. -/
lemma World.Still.choice_spec (hw : w.Still) {untaggedOnly : Bool} {e : QueueEntry}
    {worker : Worker} (h : w.registry.choice untaggedOnly w.now e = some worker) :
    w.registry.get? worker.id = some worker ∧
      worker.eligible e ⟨w.now, w.registry.staleAfter, untaggedOnly⟩ = true := by
  obtain ⟨hmem, heligible⟩ := mem_rank.1 (List.mem_of_mem_head? h)
  obtain ⟨id, hget⟩ := Table.mem_values.1 hmem
  have hid : worker.id = id := Registry.Staffed.named hw.sound.staffed id worker hget
  exact ⟨hid ▸ hget, heligible⟩

lemma rankWorkers_run (untaggedOnly : Bool) (e : QueueEntry) (w : World) :
    (rankWorkers untaggedOnly e).run w =
      (rank e w.registry.workers.values ⟨w.now, w.registry.staleAfter, untaggedOnly⟩, w) := by
  rw [← Registry.rank_available]
  rfl

/-- Whoever is chosen gets the job. The offer is counted before the claim, which takes no notice of
that. -/
lemma World.Still.claim_choice_run (hw : w.Still) {untaggedOnly : Bool} {e : QueueEntry}
    (he : w.queue.queue.get? e.job = some e) {worker : Worker}
    (hchoice : w.registry.choice untaggedOnly w.now e = some worker) :
    ∃ job events, w.jobs.find? e.job = some job ∧
      (claim e.job worker.id).run (w.record (.workerTick worker.id)) =
        (.ok (.claimed worker.id w.now), { w.handOver job worker.id with
          sink := (w.sink.record (.workerTick worker.id)).record (.queuePop .claimed)
          events }) := by
  obtain ⟨job, hjob, hid, hpending⟩ := hw.job_of_get? he
  obtain ⟨hget, heligible⟩ := hw.choice_spec hchoice
  have hready : worker.isReady w.now w.registry.staleAfter = true := by
    simp only [Worker.eligible, Bool.and_eq_true] at heligible
    exact heligible.1.2
  let w₁ := w.record (.workerTick worker.id)
  have hw₁ : w₁.Still := hw.congr ⟨rfl, rfl, rfl, rfl⟩
  have hjob₁ : w₁.jobs.find? job.id = some job := by
    rw [hid]
    exact hjob
  obtain ⟨events, hclaim⟩ := hw₁.claim_run hjob₁ hpending hget hready
  rw [hid] at hclaim
  exact ⟨job, events, hjob, hclaim⟩

/-- The sink after a tick of an entry: if there is a worker that may take it, the offer and the
removal of the entry are counted. -/
def World.tickedSink (untaggedOnly : Bool) (w : World) (e : QueueEntry) : Sink :=
  match w.registry.choice untaggedOnly w.now e with
  | none => w.sink
  | some worker => (w.sink.record (.workerTick worker.id)).record (.queuePop .claimed)

/-- **A tick hands the job to the first worker that may take it**, if there is one, and does nothing
else. -/
theorem World.Still.offerEntry_exact (hw : w.Still) (untaggedOnly : Bool) {e : QueueEntry}
    (he : w.queue.queue.get? e.job = some e) :
    ∃ events, (offerEntry untaggedOnly e).run w =
      (.ok (w.registry.verdict untaggedOnly w.now e),
        { w.ticked untaggedOnly e with sink := w.tickedSink untaggedOnly e, events }) := by
  unfold offerEntry Registry.verdict World.ticked World.tickedSink
  rw [run_bind, rankWorkers_run]
  cases hchoice : w.registry.choice untaggedOnly w.now e with
  | none =>
    have hnil := List.head?_eq_none_iff.1 hchoice
    dsimp only
    rw [hnil]
    exact ⟨_, rfl⟩
  | some worker =>
    obtain ⟨job, events, hjob, hclaim⟩ := hw.claim_choice_run he hchoice
    obtain ⟨rest, hcons⟩ := List.head?_eq_some_iff.1 hchoice
    dsimp only
    rw [hcons]
    simp only [List.isEmpty_cons, Bool.false_eq_true, if_false, hjob]
    unfold offerTo
    rw [run_bind]
    show ∃ events, (claim e.job worker.id >>= _).run (w.record (.workerTick worker.id)) = _
    rw [run_bind, hclaim]
    exact ⟨_, rfl⟩

lemma World.Still.offerEntry_run (hw : w.Still) (untaggedOnly : Bool) {e : QueueEntry}
    (he : w.queue.queue.get? e.job = some e) :
    ∃ w', (offerEntry untaggedOnly e).run w =
        (.ok (w.registry.verdict untaggedOnly w.now e), w') ∧
      w'.Alike (w.ticked untaggedOnly e) := by
  obtain ⟨events, hrun⟩ := hw.offerEntry_exact untaggedOnly he
  exact ⟨_, hrun, rfl, rfl, rfl, rfl⟩

lemma tick_run_of_unqueued (untaggedOnly : Bool) {id : JobId} (hplan : w.queue.plan = [])
    (hnone : w.queue.queue.get? id = none) :
    (tick untaggedOnly id).run w =
      (.ok .alreadyClaimed, { w with events := .notQueued id :: w.events }) := by
  unfold tick
  rw [run_bind, run_request, World.answer_lookup hplan, hnone]
  rfl

lemma tick_run_of_queued (untaggedOnly : Bool) {id : JobId} {e : QueueEntry}
    (hplan : w.queue.plan = []) (he : w.queue.queue.get? id = some e) :
    (tick untaggedOnly id).run w = (offerEntry untaggedOnly e).run w := by
  unfold tick
  rw [run_bind, run_request, World.answer_lookup hplan, he]

lemma World.AtRest.ticked (hw : w.AtRest) (untaggedOnly : Bool) {e : QueueEntry}
    (he : w.queue.queue.get? e.job = some e) : (w.ticked untaggedOnly e).AtRest := by
  obtain ⟨w', hrun, halike⟩ := hw.still.offerEntry_run untaggedOnly he
  have hw' := (hw.of_offerEntry untaggedOnly e).1
  rw [hrun] at hw'
  exact hw'.congr ⟨halike.jobs.symm, halike.queue.symm, halike.registry.symm, halike.now.symm⟩

end JobDispatch

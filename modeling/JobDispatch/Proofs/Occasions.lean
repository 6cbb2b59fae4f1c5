import JobDispatch.Proofs.Fleets
import JobDispatch.Proofs.Schedules

/-!
Sections while time passes, with nothing in between and no call on the queue that is going to fail.
A worker that has a place to spare and does not go stale gets the job that it claims
(`claim_whenever`); a job that was just registered is queued (`changeState_enqueue_whenever`); and a
job that runs leaves its worker when it ends (`changeState_success_whenever`). What each of them
leaves behind is laid down but for the times in it (`World.HandsOver`, `Registers`, `Queues`,
`Frees`).
-/

namespace JobDispatch

open Program

variable {ok : World → Prop} {w v : World} {job : Job} {worker : Worker} {e : QueueEntry}

namespace World

/-! ### Answers -/

lemma answer_lockJob {id : JobId} (hjob : w.jobs.find? id = some job) :
    w.answer (.lockJob id) = (some job, w) := Prod.ext hjob rfl

lemma answer_lookup_of_get? (hplan : w.queue.plan = []) {id : JobId}
    (he : w.queue.queue.get? id = some e) : w.answer (.lookup id) = (.ok (some e), w) := by
  rw [answer_lookup hplan, he]

def placeTaken (w : World) (worker : Worker) : World :=
  { w with
    registry := w.registry.put
      { worker with running := worker.running + 1, lastClaimedAt? := some w.now } }

lemma answer_takePlace (hget : w.registry.get? worker.id = some worker)
    (hready : worker.isReady w.now w.registry.staleAfter = true) :
    w.answer (.takePlace worker.id) = (none, w.placeTaken worker) := by
  show w.onRegistry (fun r => r.takePlace worker.id w.now) = _
  simp only [onRegistry]
  rw [Registry.takePlace_of_ready hget hready]
  rfl

lemma answer_release (hget : w.registry.get? worker.id = some worker) (hrun : worker.running ≠ 0) :
    w.answer (.release worker.id) = (.released, { w with
      registry := w.registry.put { worker with running := worker.running - 1 } }) := by
  show w.onRegistry (fun r => r.release worker.id) = _
  simp only [onRegistry]
  rw [Registry.release_of_running _ hget hrun]

lemma answer_pop (hplan : w.queue.plan = []) {id : JobId} (he : w.queue.queue.get? id = some e) :
    w.answer (.pop id) = (.ok true, { w with queue := .ofQueue (w.queue.queue.pop id).2 }) := by
  show w.onQueue (fun q => q.pop id) = _
  simp only [onQueue, FallibleQueue.pop]
  rw [FallibleQueue.guarded_of_plan_eq_nil _ _ _ hplan]
  simp only [Queue.pop_fst, he]
  rfl

lemma answer_push (hplan : w.queue.plan = []) {id : JobId} (project : ProjectId) (tags : Tags)
    (time : Timestamp) (hnone : w.queue.queue.get? id = none) :
    w.answer (.push id project tags time) = (.ok ⟨id, w.queue.queue.lastSequence + 1⟩,
      { w with queue := .ofQueue (w.queue.queue.push id project tags time).2 }) := by
  show w.onQueue (fun q => q.push id project tags time) = _
  simp only [onQueue, FallibleQueue.push]
  rw [FallibleQueue.guarded_of_plan_eq_nil _ _ _ hplan]
  simp only [Queue.push_of_get?_eq_none _ _ _ _ _ hnone]
  rfl

lemma answer_heartbeat_of_new {h : Heartbeat} (hnone : w.registry.get? h.worker = none) :
    w.answer (.heartbeat h) = ((.ofHeartbeat h, true), { w with
      registry := w.registry.put (.ofHeartbeat h) }) := by
  simp only [answer, onRegistry]
  rw [Registry.heartbeat_eq, Registry.after, hnone]
  rfl

lemma answer_obtainLease {key : String} {ttl : Int} {now : Timestamp} {lease : Lease}
    {leases : Leases} (h : w.leases.obtain? key ttl now = (.ok lease, leases)) :
    w.answer (.obtainLease key ttl now) = (.ok lease, { w with leases }) := by
  simp only [answer, onLeases]
  rw [h]

/-! ### What sections leave behind -/

/-- The job has gone from the queue to the worker. -/
structure HandsOver (w : World) (job : Job) (worker : Worker) (v : World) : Prop where
  jobs : ∃ record, record.state = .running ∧ v.jobs = w.jobs.insert job.id record
  queue : v.queue = .ofQueue (w.queue.queue.pop job.id).2
  registry : ∃ time?, v.registry = w.registry.put
    { worker with running := worker.running + 1, lastClaimedAt? := time? }
  sink : v.sink = w.sink.record (.queuePop .claimed)
  leases : v.leases = w.leases
  progress : v.progress = w.progress

/-- The job is new in the table. -/
structure Registers (w : World) (job : Job) (v : World) : Prop where
  jobs : v.jobs = w.jobs.insert job.id job
  queue : v.queue = w.queue
  registry : v.registry = w.registry
  sink : v.sink = w.sink
  leases : v.leases = w.leases
  progress : v.progress = w.progress

/-- The job waits at the end of the queue. -/
structure Queues (w : World) (job : Job) (v : World) : Prop where
  jobs : ∃ record, record.state = .pending ∧ v.jobs = w.jobs.insert job.id record
  queue : ∃ time, v.queue = .ofQueue (w.queue.queue.push job.id job.project job.tags time).2
  registry : v.registry = w.registry
  sink : v.sink = w.sink.record .queuePush
  leases : v.leases = w.leases
  progress : v.progress = w.progress

/-- The job has ended, and the worker has its place back. -/
structure Frees (w : World) (job : Job) (worker : Worker) (v : World) : Prop where
  jobs : ∃ record, record.state = .success ∧ v.jobs = w.jobs.insert job.id record
  queue : v.queue = w.queue
  registry : v.registry = w.registry.put { worker with running := worker.running - 1 }
  sink : v.sink = w.sink
  leases : v.leases = w.leases
  progress : v.progress = w.progress

end World

/-! ### Sections -/

/-- **A worker that has a place to spare gets the job that it claims.** -/
theorem claim_whenever (hok : ∀ v, ok v → v.NoneStale) (hplan : w.queue.plan = [])
    (hjob : w.jobs.find? job.id = some job) (hpending : job.state = .pending)
    (he : w.queue.queue.get? job.id = some e) (hget : w.registry.get? worker.id = some worker)
    (hroom : worker.running < worker.capacity) :
    (claim job.id worker.id).Whenever ok
      (fun r v => ∃ time, r = .ok (.claimed worker.id time) ∧ w.HandsOver job worker v) w := by
  have hready (now : Timestamp) (hnow : ok (w.atTime now)) :
      worker.isReady now w.registry.staleAfter = true := by
    rw [Worker.isReady, Bool.and_eq_true, decide_eq_true_iff, Worker.room_pos_iff]
    exact ⟨hroom, hok _ hnow worker (Table.mem_values.2 ⟨_, hget⟩)⟩
  unfold claim
  rw [whenever_read rfl (World.answer_lockJob hjob)]
  intro t₁ _
  dsimp only
  rw [if_neg (by rw [hpending]; decide),
    whenever_read rfl (World.answer_lookup_of_get? (w := w.atTime t₁) hplan he)]
  intro t₂ _
  dsimp only
  rw [whenever_ask, World.atTime_atTime]
  intro t₃ ht₃
  rw [World.answer_takePlace (w := (w.atTime t₂).atTime t₃) hget (hready t₃ ht₃),
    World.atTime_atTime]
  dsimp only
  unfold popEntry
  rw [if_neg (by decide), whenever_bind, whenever_ask]
  intro t₄ _
  rw [World.answer_pop (w := ((w.atTime t₃).placeTaken worker).atTime t₄) hplan he]
  exact fun t₅ _ t₆ _ t₇ _ t₈ _ => ⟨t₆, rfl, ⟨_, rfl, rfl⟩, rfl, ⟨_, rfl⟩, rfl, rfl, rfl⟩

lemma ensureRegistered_whenever {d : JobDraft} (hnew : w.jobs.find? d.id = none) :
    (Engine.ensureRegistered d).Whenever ok
      (fun _ v => ∃ now, w.Registers (.ofDraft d now) v) w := by
  unfold Engine.ensureRegistered
  rw [whenever_ask]
  intro now _
  rw [show (w.atTime now).answer (.addJob d) = _ from
    World.addJob_of_new (w := w.atTime now) d hnew]
  exact ⟨now, rfl, rfl, rfl, rfl, rfl, rfl⟩

/-- **A job that was just registered is queued.** -/
theorem changeState_enqueue_whenever (hplan : w.queue.plan = [])
    (hjob : w.jobs.find? job.id = some job) (hcreated : job.state = .created)
    (hnone : w.queue.queue.get? job.id = none) :
    (changeState job.id Engine.enqueueEdge).Whenever ok
      (fun r v => ∃ receipt, r = .ok ⟨job.id, Engine.enqueueEdge, .enqueue, some receipt⟩ ∧
        w.Queues job v) w := by
  unfold changeState
  rw [if_neg (by decide), if_neg (by decide), whenever_read rfl (World.answer_lockJob hjob)]
  intro t₁ _
  dsimp only
  rw [if_neg (by rw [hcreated]; decide), whenever_clock]
  intro t₂ _
  rw [whenever_bind, World.atTime_atTime]
  show (pushEntry job Engine.enqueueEdge t₂ >>= _).Whenever _ _ _
  unfold pushEntry
  rw [whenever_bind, if_neg (by decide), whenever_ask]
  intro t₃ _
  rw [World.answer_push (w := (w.atTime t₂).atTime t₃) hplan _ _ _ hnone]
  exact fun t₄ _ t₅ _ t₆ _ => ⟨_, rfl, ⟨_, rfl, rfl⟩, ⟨_, rfl⟩, rfl, rfl, rfl, rfl⟩

def successEdge : Edge := ⟨.running, .success⟩

/-- **A job that comes to its end leaves its worker.** -/
theorem changeState_success_whenever (hjob : w.jobs.find? job.id = some job)
    (hrunning : job.state = .running) (hclaimed : job.claimedBy? = some worker.id)
    (hget : w.registry.get? worker.id = some worker) (hrun : worker.running ≠ 0) :
    (changeState job.id successEdge).Whenever ok
      (fun r v => r = .ok ⟨job.id, successEdge, .none, none⟩ ∧ w.Frees job worker v) w := by
  unfold changeState
  rw [if_neg (by decide), if_neg (by decide), whenever_read rfl (World.answer_lockJob hjob)]
  intro t₁ _
  dsimp only
  rw [if_neg (by rw [hrunning]; decide), whenever_clock]
  intro t₂ _
  rw [whenever_bind, World.atTime_atTime]
  show (pure (.ok (job, none)) : Program (Except DispatchError _)).Whenever _ _ _
  rw [whenever_pure]
  dsimp only
  rw [if_pos (by decide), whenever_bind]
  unfold letGo
  rw [hclaimed]
  dsimp only
  rw [whenever_bind]
  show (givePlace worker.id >>= fun _ => pure ()).Whenever _ _ _
  unfold givePlace
  rw [whenever_bind, whenever_ask]
  intro t₃ _
  rw [World.answer_release (w := (w.atTime t₂).atTime t₃) hget hrun]
  exact fun t₄ _ t₅ _ => ⟨rfl, ⟨_, rfl, rfl⟩, rfl, rfl, rfl, rfl, rfl⟩

end JobDispatch

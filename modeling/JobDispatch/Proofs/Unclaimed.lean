import JobDispatch.Proofs.Occupancy
import JobDispatch.Proofs.Retreat

/-!
What the result of a tick tells, whatever its calls on the queue come to (`offerEntry_tells`,
`tick_tells`). If a claim held, the job runs. If not, jobs and entries are as they were, and if
moreover no call failed, so are the workers. The worlds are those in which records are filed under
their names and failing calls on the queue have no effect (`World.Honest`); no request leads out of
them.
-/

namespace JobDispatch

open Program

variable {w v : World} {id : JobId} {worker : WorkerId}

/-! ### Honest worlds -/

/-- Records are found under the names that they tell, and no planned fault hides an entry. -/
structure World.Honest (w : World) : Prop where
  filed : w.Filed
  sure : w.queue.Sure

lemma World.Filed.answer (hw : w.Filed) (r : Request) : (w.answer r).2.Filed where
  jobs k job hjob := by
    cases r with
    | addJob draft =>
      change (w.addJob draft).2.jobs.find? k = some job at hjob
      unfold World.addJob at hjob
      split at hjob
      · exact hw.jobs k job hjob
      · dsimp only at hjob
        rw [Table.find?_insert] at hjob
        split at hjob
        · rename_i hk
          cases hjob
          exact hk.symm
        · exact hw.jobs k job hjob
    | storeJob record =>
      have hstored : (w.jobs.insert record.id record).find? k = some job := hjob
      rw [Table.find?_insert] at hstored
      split at hstored
      · rename_i hk
        cases hstored
        exact hk.symm
      · exact hw.jobs k job hstored
    | _ => exact hw.jobs k job hjob
  workers k record hrecord := by
    rcases w.registry_cases r with heq | ⟨new, heq, -⟩
    · rw [heq] at hrecord
      exact hw.workers k record hrecord
    · rw [heq, Registry.get?_put] at hrecord
      split at hrecord
      · rename_i hk
        cases hrecord
        exact hk.symm
      · exact hw.workers k record hrecord

lemma World.Honest.answer (hw : w.Honest) (r : Request) : (w.answer r).2.Honest :=
  ⟨hw.filed.answer r, World.answer_sure hw.sure r⟩

lemma World.Honest.run {α : Type} (hw : w.Honest) (p : Program α) : (p.run w).2.Honest :=
  p.asks_true.run (fun r _ _ h => h.answer r) hw

lemma World.Consistent.honest (hw : w.Consistent) : w.Honest :=
  ⟨hw.sound.filed, hw.sound.kept.sure⟩

lemma Engine.Reachable.honest {c : Config} (h : Engine.Reachable c w) : w.Honest :=
  ⟨h.sound.filed, h.sound.kept.sure⟩

/-! ### Claims -/

/-- The world has the jobs, the entries and the workers of the other one. -/
structure World.SameStores (w v : World) : Prop where
  jobs : v.jobs = w.jobs
  queue : v.queue.queue = w.queue.queue
  registry : v.registry = w.registry

def Job.claimedAs (job : Job) (worker : WorkerId) (time : Timestamp) : Job :=
  { job with state := .running, claimedBy? := some worker, enqueuedAt? := none, updatedAt := time }

lemma popEntry_jobs (job : Job) (edge : Edge) (kind : Departure) (w : World) :
    ((popEntry job edge kind).run w).2.jobs = w.jobs := by
  unfold popEntry
  split
  · rfl
  rw [run_bind, run_request]
  generalize hpop : w.answer (.pop job.id) = popped
  have hjobs : popped.2.jobs = w.jobs := by rw [← hpop]; rfl
  obtain ⟨_ | _ | _, w'⟩ := popped
  · exact hjobs
  · exact hjobs
  · exact hjobs

lemma retreat_result {α : Type} (a : α) (taken : World) :
    ((do
      discard (givePlace worker)
      request (.unlockJob id)
      pure a : Program α).run taken).1 = a := by
  rw [run_bind, run_bind]
  rfl

lemma claim_runs {who : WorkerId} {time : Timestamp}
    (h : ((claim id worker).run w).1 = .ok (.claimed who time)) :
    who = worker ∧ ∃ job, w.jobs.find? id = some job ∧ job.state = .pending ∧
      ((claim id worker).run w).2.jobs = w.jobs.insert job.id (job.claimedAs worker time) := by
  have hoffers : w.Offers id worker := by
    by_contra hnot
    exact (claim_of_not_offers hnot).1 who time h
  obtain ⟨⟨job, hjob, hpending⟩, ⟨e, hlookup⟩, hplace⟩ := hoffers
  let taken := ((w.answer (.lookup id)).2.answer (.takePlace worker)).2
  have hjobs : ((popEntry job claimEdge .claimed).run taken).2.jobs = w.jobs :=
    popEntry_jobs job claimEdge .claimed taken
  have hlock : w.answer (.lockJob id) = (some job, w) := by rw [← hjob]; rfl
  have hplace' : ((w.answer (.lookup id)).2.answer (.takePlace worker)).1 = none := hplace
  have hstate : ¬(job.state != .pending) = true := by rw [hpending]; decide
  unfold claim at h ⊢
  rw [run_bind, run_request, hlock] at h ⊢
  dsimp only at h ⊢
  rw [if_neg hstate, run_bind, run_request, hlookup] at h ⊢
  dsimp only at h ⊢
  rw [run_bind, run_request, hplace'] at h ⊢
  dsimp only at h ⊢
  rw [run_bind] at h ⊢
  generalize (popEntry job claimEdge .claimed).run taken = popped at h hjobs ⊢
  obtain ⟨err | removed, w'⟩ := popped
  · dsimp only at h
    rw [retreat_result] at h
    cases h
  cases removed with
  | false =>
    dsimp only at h
    rw [retreat_result] at h
    cases h
  | true =>
    cases h
    refine ⟨rfl, job, hjob, hpending, ?_⟩
    show w'.jobs.insert job.id _ = _
    rw [hjobs]
    rfl

/-- A claim that does not hold leaves jobs and entries alone, and the workers too, unless a call
fails. -/
lemma claim_spares (hw : w.Honest)
    (hno : ∀ who time, ((claim id worker).run w).1 ≠ .ok (.claimed who time)) :
    ((claim id worker).run w).2.jobs = w.jobs ∧
      ((claim id worker).run w).2.queue.queue = w.queue.queue ∧
      ∀ handover, ((claim id worker).run w).1 = .ok handover →
        ((claim id worker).run w).2.registry = w.registry := by
  by_cases h : w.Offers id worker
  · rcases claim_of_offers hw.sure h hw.filed with ⟨time, hclaimed⟩ | ⟨⟨e, he⟩, hjobs, hqueue, -⟩
    · exact absurd hclaimed (hno worker time)
    · refine ⟨hjobs, hqueue, fun handover hok => ?_⟩
      rw [he] at hok
      cases hok
  · obtain ⟨-, hjobs, hqueue, hregistry⟩ := claim_of_not_offers h
    exact ⟨hjobs, hqueue, fun _ _ => hregistry⟩

/-! ### Ticks -/

/-- What the result of a tick tells about the world after it. -/
structure World.TickTells (w : World) (id : JobId) (result : Except DispatchError TickOutcome)
    (w' : World) : Prop where
  claimed : ∀ a, result = .ok (.claimed a) → a.job = id ∧ ∃ job, w.jobs.find? id = some job ∧
    job.state = .pending ∧ w'.jobs = w.jobs.insert id (job.claimedAs a.worker a.claimedAt)
  spared : (∀ a, result ≠ .ok (.claimed a)) →
    w'.jobs = w.jobs ∧ w'.queue.queue = w.queue.queue
  unmoved : ∀ outcome, result = .ok outcome → outcome.isAssigned = false →
    w'.registry = w.registry

lemma World.TickTells.of_sameStores {result : Except DispatchError TickOutcome} {w' : World}
    (h : v.TickTells id result w') (hv : w.SameStores v) : w.TickTells id result w' where
  claimed a ha := by
    obtain ⟨hid, job, hjob, hpending, hjobs⟩ := h.claimed a ha
    rw [hv.jobs] at hjob hjobs
    exact ⟨hid, job, hjob, hpending, hjobs⟩
  spared hno := by
    obtain ⟨hjobs, hqueue⟩ := h.spared hno
    exact ⟨hjobs.trans hv.jobs, hqueue.trans hv.queue⟩
  unmoved outcome hok hnot := (h.unmoved outcome hok hnot).trans hv.registry

lemma World.TickTells.of_idle {outcome : TickOutcome} (hw : w.SameStores v)
    (hnot : outcome.isAssigned = false) : w.TickTells id (.ok outcome) v where
  claimed a ha := by
    cases ha
    cases hnot
  spared _ := ⟨hw.jobs, hw.queue⟩
  unmoved _ _ _ := hw.registry

lemma World.TickTells.of_error {e : DispatchError} (hjobs : v.jobs = w.jobs)
    (hqueue : v.queue.queue = w.queue.queue) : w.TickTells id (.error e) v where
  claimed a ha := by cases ha
  spared _ := ⟨hjobs, hqueue⟩
  unmoved _ hok _ := by cases hok

/-- **Offers tell what they come to.** -/
theorem offerTo_tells (hw : w.Honest) (e : QueueEntry) (ws : List Worker) :
    w.TickTells e.job ((offerTo e ws).run w).1 ((offerTo e ws).run w).2 := by
  induction ws generalizing w with
  | nil => exact .of_idle ⟨rfl, rfl, rfl⟩ rfl
  | cons worker ws ih =>
    -- the offer is counted first
    let w₁ := w.record (.workerTick worker.id)
    have hw₁ : w₁.Honest := hw.answer (.count (.workerTick worker.id))
    have hcounted : w.SameStores w₁ := ⟨rfl, rfl, rfl⟩
    have hcount : (request (.count (.workerTick worker.id))).run w = ((), w₁) := rfl
    have hspares := @claim_spares w₁ e.job worker.id hw₁
    have hruns := @claim_runs w₁ e.job worker.id
    unfold offerTo
    rw [run_bind, hcount]
    dsimp only
    rw [run_bind]
    have hhonest := hw₁.run (claim e.job worker.id)
    generalize (claim e.job worker.id).run w₁ = claimed at hspares hruns hhonest ⊢
    obtain ⟨err | ⟨who, time⟩ | _ | reason, w₂⟩ := claimed
    · obtain ⟨hjobs, hqueue, -⟩ := hspares fun _ _ h => (by cases h)
      exact .of_error hjobs hqueue
    · obtain ⟨rfl, job, hjob, hpending, hjobs⟩ := hruns rfl
      rw [hw.filed.jobs e.job job hjob] at hjobs
      refine ⟨fun a ha => ?_, fun hno => absurd rfl (hno _), fun outcome hok hnot => ?_⟩
      · cases ha
        exact ⟨rfl, job, hjob, hpending, hjobs⟩
      · cases hok
        cases hnot
    · obtain ⟨hjobs, hqueue, hregistry⟩ := hspares fun _ _ h => (by cases h)
      exact .of_idle ⟨hjobs, hqueue, hregistry _ rfl⟩ rfl
    · obtain ⟨hjobs, hqueue, hregistry⟩ := hspares fun _ _ h => (by cases h)
      have hlost : w.SameStores (w₂.answer (.log (.claimLost e.job worker.id reason))).2 :=
        ⟨hjobs, hqueue, hregistry _ rfl⟩
      exact (ih (hhonest.answer _)).of_sameStores hlost

/-- **A tick of an entry tells what it comes to.** -/
theorem offerEntry_tells (hw : w.Honest) (untaggedOnly : Bool) (e : QueueEntry) :
    w.TickTells e.job ((offerEntry untaggedOnly e).run w).1
      ((offerEntry untaggedOnly e).run w).2 := by
  unfold offerEntry
  rw [run_bind, rankWorkers_run]
  dsimp only
  split
  · exact .of_idle ⟨rfl, rfl, rfl⟩ rfl
  · exact offerTo_tells hw e _

/-- **A tick by name tells what it comes to**, if the entry of the job is one for the job. -/
theorem tick_tells (hw : w.Honest) (untaggedOnly : Bool)
    (hnamed : ∀ e, w.queue.queue.get? id = some e → e.job = id) :
    w.TickTells id ((tick untaggedOnly id).run w).1 ((tick untaggedOnly id).run w).2 := by
  let w₁ := (w.answer (.lookup id)).2
  have hread : w.SameStores w₁ := ⟨rfl, World.queue_answer rfl, rfl⟩
  unfold tick
  rw [run_bind, run_request]
  rcases hlookup : (w.answer (.lookup id)).1 with err | _ | e
  · exact .of_error hread.jobs hread.queue
  · exact .of_idle ⟨hread.jobs, hread.queue, hread.registry⟩ rfl
  · have hid := hnamed e (World.get?_of_lookup hlookup)
    have htells := (offerEntry_tells (hw.answer (.lookup id)) untaggedOnly e).of_sameStores hread
    rw [hid] at htells
    exact htells

end JobDispatch

import JobDispatch.Proofs.Exhaustion

/-!
What a tick by name comes to, in full. A job without an entry is passed over, and so is one that no
registered worker may take; neither leaves a trace outside the log. Else the worker that precedes
all others gets the job: the record of the job, its entry, the place of the worker and two counts
change, and nothing else does (`tick_exact`).
-/

namespace JobDispatch

open Program

variable {w w' : World} {c : Config} {id : JobId} {e : QueueEntry}

/-- What happens when a queued job goes to a worker: the job runs, its entry is gone, one place more
of the worker is taken, and offer and removal are counted. All else stays as it was. -/
structure World.Assigns (w w' : World) (id : JobId) (job : Job) (e : QueueEntry)
    (worker : Worker) : Prop where
  runs : w'.jobs.find? id = some { job with
    state := .running, claimedBy? := some worker.id, enqueuedAt? := none, updatedAt := w.now }
  jobs : ∀ k, k ≠ id → w'.jobs.find? k = w.jobs.find? k
  gone : w'.queue.queue.get? id = none
  entries : ∀ k, k ≠ id → w'.queue.queue.get? k = w.queue.queue.get? k
  order : w'.queue.queue.order = w.queue.queue.order.filter fun p => p.1 != e.sequence
  lastSequence : w'.queue.queue.lastSequence = w.queue.queue.lastSequence
  plan : w'.queue.plan = []
  taken : ∃ running : UInt32, running.toNat = worker.running.toNat + 1 ∧
    w'.registry.get? worker.id = some { worker with running, lastClaimedAt? := some w.now }
  workers : ∀ k, k ≠ worker.id → w'.registry.get? k = w.registry.get? k
  staleAfter : w'.registry.staleAfter = w.registry.staleAfter
  sink : w'.sink = (w.sink.record (.workerTick worker.id)).record (.queuePop .claimed)
  leases : w'.leases = w.leases
  progress : w'.progress = w.progress
  now : w'.now = w.now

lemma World.assigns_handOver {job : Job} {worker : Worker}
    (he : w.queue.queue.get? job.id = some e) (hget : w.registry.get? worker.id = some worker)
    (hready : worker.isReady w.now w.registry.staleAfter = true) (events : List Event) :
    w.Assigns { w.handOver job worker.id with
      sink := (w.sink.record (.workerTick worker.id)).record (.queuePop .claimed), events }
      job.id job e worker := by
  have htake := Registry.takePlace_of_ready hget hready
  have hregistry : (w.handOver job worker.id).registry =
      w.registry.put { worker with running := worker.running + 1, lastClaimedAt? := some w.now } :=
    congrArg Prod.snd htake
  have hroom : worker.running < worker.capacity := by
    simp only [Worker.isReady, Bool.and_eq_true, decide_eq_true_eq] at hready
    exact Worker.room_pos_iff.1 hready.1
  refine
    { runs := Table.find?_insert_self _ _ _
      jobs := fun k hk => Table.find?_insert_of_ne _ _ hk
      gone := (Queue.get?_pop _ _ _).trans (if_pos rfl)
      entries := fun k hk => (Queue.get?_pop _ _ _).trans (if_neg hk)
      order := Queue.order_pop he
      lastSequence := Queue.lastSequence_pop _ _
      plan := rfl
      taken := ⟨worker.running + 1, Worker.toNat_running_succ hroom, ?_⟩
      workers := fun k hk => ?_
      staleAfter := ?_
      sink := rfl
      leases := rfl
      progress := rfl
      now := rfl }
  · show (w.handOver job worker.id).registry.get? worker.id = _
    rw [hregistry, Registry.get?_put, if_pos rfl]
  · show (w.handOver job worker.id).registry.get? k = _
    rw [hregistry, Registry.get?_put, if_neg hk]
  · show (w.handOver job worker.id).registry.staleAfter = _
    rw [hregistry]
    rfl

/-- **Ticks are exact.** A tick of a job without an entry, or with one that no registered worker may
take, changes nothing but the log. Else the job goes to the worker that precedes all others that
may take it. -/
theorem tick_exact (hreach : Engine.Reachable c w) (hplan : w.queue.plan = []) (id : JobId) :
    let p : Criteria := ⟨w.now, w.registry.staleAfter, c.untaggedOnly⟩
    let tick := (Engine.tick c id).run w
    (w.queue.queue.get? id = none → ∃ events, tick = (.ok .alreadyClaimed, { w with events })) ∧
    ∀ e, w.queue.queue.get? id = some e →
      ((∀ k worker, w.registry.get? k = some worker → worker.eligible e p = false) →
        ∃ events, tick = (.ok .noEligibleWorker, { w with events })) ∧
      ((∃ k worker, w.registry.get? k = some worker ∧ worker.eligible e p = true) →
        ∃ worker job, w.registry.get? worker.id = some worker ∧ worker.eligible e p = true ∧
          (∀ k other, w.registry.get? k = some other → other.eligible e p = true →
            k ≠ worker.id → worker.Precedes other) ∧
          w.jobs.find? id = some job ∧ tick.1 = .ok (.claimed ⟨id, worker.id, w.now⟩) ∧
          w.Assigns tick.2 id job e worker) := by
  intro p tick
  have hw := hreach.still hplan
  refine ⟨fun hnone => ⟨_, tick_run_of_unqueued c.untaggedOnly hplan hnone⟩, fun e he => ?_⟩
  have hid := hw.listed.named id e he
  subst hid
  obtain ⟨events, hrun⟩ := hw.offerEntry_exact c.untaggedOnly he
  have htick : tick = (offerEntry c.untaggedOnly e).run w := tick_run_of_queued _ hplan he
  rw [htick, hrun]
  unfold Registry.verdict World.ticked World.tickedSink
  cases hchoice : w.registry.choice c.untaggedOnly w.now e with
  | none =>
    have hnobody := Registry.choice_eq_none_iff.1 hchoice
    refine ⟨fun _ => ⟨events, rfl⟩, fun ⟨k, worker, hget, heligible⟩ => ?_⟩
    rw [hnobody k worker hget] at heligible
    cases heligible
  | some worker =>
    obtain ⟨hget, heligible⟩ := hw.choice_spec hchoice
    refine ⟨fun hnobody => ?_, fun _ => ?_⟩
    · rw [hnobody worker.id worker hget] at heligible
      cases heligible
    obtain ⟨job, hjob, hid, -⟩ := hw.job_of_get? he
    refine ⟨worker, job, hget, heligible, fun k other hother hmay hne => ?_, hjob, rfl, ?_⟩
    · have hnamed : other.id = k := Registry.Staffed.named hw.sound.staffed k other hother
      exact head?_rank hchoice (Table.mem_values.2 ⟨k, hother⟩) hmay (hnamed.symm ▸ hne)
    · have hready : worker.isReady w.now w.registry.staleAfter = true :=
        (Worker.eligible_iff.1 heligible).2
      rw [hjob]
      rw [← hid] at he ⊢
      exact World.assigns_handOver he hget hready events

/-- A worker that has had a job and has room for another, one that never had any, and a job that
waits. -/
def twoReady : World :=
  (Engine.initial smallestPasses (.counting .zero) .epoch).acts
    (Engine.Operation.program smallestPasses)
    [.call (.heartbeat ⟨⟨.ofNat 1⟩, .empty, 2, .epoch, .everyProject, true⟩),
      .call (.enqueue ⟨⟨.ofNat 3⟩, ⟨.ofNat 5⟩, .empty⟩), .call (.tick ⟨.ofNat 3⟩),
      .call (.heartbeat ⟨⟨.ofNat 2⟩, .empty, 1, .epoch, .everyProject, true⟩),
      .call (.enqueue ⟨⟨.ofNat 4⟩, ⟨.ofNat 5⟩, .empty⟩)]

theorem tick_exact_twoReady : ∃ job e worker,
    ((Engine.tick smallestPasses ⟨.ofNat 4⟩).run twoReady).1 =
      .ok (.claimed ⟨⟨.ofNat 4⟩, ⟨.ofNat 2⟩, .epoch⟩) ∧
    twoReady.Assigns ((Engine.tick smallestPasses ⟨.ofNat 4⟩).run twoReady).2 ⟨.ofNat 4⟩ job e
      worker := by
  have hqueued : twoReady.queue.queue.get? ⟨.ofNat 4⟩ =
      some ⟨⟨.ofNat 4⟩, ⟨.ofNat 5⟩, .empty, .epoch, 2⟩ := by decide +kernel
  have hidle : twoReady.registry.get? ⟨.ofNat 2⟩ =
      some ⟨⟨.ofNat 2⟩, .empty, 1, 0, .epoch, none, .everyProject, true⟩ := by decide +kernel
  have hplan : twoReady.queue.plan = [] := by decide +kernel
  obtain ⟨worker, job, hget, -, hleast, -, hresult, hassigns⟩ :=
    ((tick_exact (w := twoReady) (c := smallestPasses) ⟨_, _, _, rfl⟩ hplan ⟨.ofNat 4⟩).2 _
      hqueued).2 ⟨_, _, hidle, by decide +kernel⟩
  have hall : twoReady.registry.workers.values =
      [⟨⟨.ofNat 1⟩, .empty, 2, 1, .epoch, some .epoch, .everyProject, true⟩,
        ⟨⟨.ofNat 2⟩, .empty, 1, 0, .epoch, none, .everyProject, true⟩] := by decide +kernel
  have hmem := Table.mem_values.2 ⟨_, hget⟩
  rw [hall] at hmem
  have hid : worker.id = ⟨.ofNat 2⟩ := by
    rcases List.mem_cons.1 hmem with rfl | hmem
    · -- it has had a claim, so it does not precede the one that had none
      rcases hleast _ _ hidle (by decide +kernel) (by decide) with h | ⟨h, -⟩
      · exact h.elim
      · cases h
    · rw [List.mem_singleton.1 hmem]
  have hnow : twoReady.now = .epoch := by decide +kernel
  rw [hid, hnow] at hresult
  exact ⟨job, _, worker, hresult, hassigns⟩

end JobDispatch

import JobDispatch.Proofs.Exhaustion
import JobDispatch.Proofs.Fitness
import JobDispatch.Proofs.Retreat
import JobDispatch.Proofs.Walks

/-!
What a worker gets that reports in. The queued jobs that it could take are ticked in the order of
their entries, as long as it is ready (`World.tickWhileReady`); others may get them, but none of
them is left if the worker is still ready in the end (`heartbeat_serves`). The pages in which the
queue is read have no part in this.
-/

namespace JobDispatch

open Program

variable {w w' u : World} {untaggedOnly : Bool} {id : WorkerId}

/-! ### Handing out jobs -/

/-- Between the worlds some pending jobs went to workers, and nothing else happened that could
matter for later ticks. -/
structure World.HandsOut (w w' : World) : Prop where
  now : w'.now = w.now
  staleAfter : w'.registry.staleAfter = w.registry.staleAfter
  workers : ∀ id worker, w.registry.get? id = some worker →
    ∃ worker', w'.registry.get? id = some worker' ∧ worker'.offer = worker.offer
  entries : ∀ id e, w'.queue.queue.get? id = some e → w.queue.queue.get? id = some e
  jobs : ∀ id, w'.jobs.find? id = w.jobs.find? id ∨
    ∃ job job', w.jobs.find? id = some job ∧ w'.jobs.find? id = some job' ∧
      job.state = .pending ∧ job'.state = .running

namespace World.HandsOut

lemma refl (w : World) : w.HandsOut w where
  now := rfl
  staleAfter := rfl
  workers _ worker h := ⟨worker, h, rfl⟩
  entries _ _ h := h
  jobs _ := .inl rfl

lemma trans (h : w.HandsOut w') (h' : w'.HandsOut u) : w.HandsOut u where
  now := h'.now.trans h.now
  staleAfter := h'.staleAfter.trans h.staleAfter
  workers id worker hget := by
    obtain ⟨worker', hget', hoffer⟩ := h.workers id worker hget
    obtain ⟨last, hlast, hoffer'⟩ := h'.workers id worker' hget'
    exact ⟨last, hlast, hoffer'.trans hoffer⟩
  entries id e he := h.entries id e (h'.entries id e he)
  jobs id := by
    rcases h'.jobs id with hsame' | ⟨job', last, hjob', hlast, hpending', hrunning'⟩
    · rcases h.jobs id with hsame | ⟨job, job', hjob, hjob', hpending, hrunning⟩
      · exact .inl (hsame'.trans hsame)
      · exact .inr ⟨job, job', hjob, hsame'.trans hjob', hpending, hrunning⟩
    · rcases h.jobs id with hsame | ⟨job, running, hjob, hrunning, -, hstate⟩
      · exact .inr ⟨job', last, hsame.symm.trans hjob', hlast, hpending', hrunning'⟩
      · -- a job that runs does not go to a worker again
        rw [hjob'] at hrunning
        cases hrunning
        rw [hstate] at hpending'
        cases hpending'

lemma congr (h : w.HandsOut w') (halike : u.Alike w') : w.HandsOut u where
  now := by rw [halike.now]; exact h.now
  staleAfter := by rw [halike.registry]; exact h.staleAfter
  workers := by rw [halike.registry]; exact h.workers
  entries := by rw [halike.queue]; exact h.entries
  jobs := by rw [halike.jobs]; exact h.jobs

end World.HandsOut

lemma World.Still.handsOut_handOver (hw : w.Still) {job : Job}
    (hjob : w.jobs.find? job.id = some job) (hpending : job.state = .pending) (worker : WorkerId) :
    w.HandsOut (w.handOver job worker) where
  now := rfl
  staleAfter := w.registry.staleAfter_takePlace worker w.now
  workers id record h := World.offer_stays (Registry.Staffed.named hw.sound.staffed) h
    (r := .takePlace worker) fun b heq => (by cases heq)
  entries id e he := Queue.get?_of_pop (.inr rfl) he
  jobs id := by
    by_cases hid : id = job.id
    · subst hid
      exact .inr ⟨job, _, hjob, Table.find?_insert_self _ _ _, hpending, rfl⟩
    · exact .inl (Table.find?_insert_of_ne _ _ hid)

lemma World.Still.handsOut_ticked (hw : w.Still) {e : QueueEntry}
    (he : w.queue.queue.get? e.job = some e) : w.HandsOut (w.ticked untaggedOnly e) := by
  obtain ⟨job, hjob, hid, hpending⟩ := hw.job_of_get? he
  unfold World.ticked
  rw [hjob]
  cases w.registry.choice untaggedOnly w.now e with
  | none => exact .refl w
  | some worker =>
    rw [← hid] at hjob
    exact hw.handsOut_handOver hjob hpending worker.id

lemma World.AtRest.tick_queued (hw : w.AtRest) (untaggedOnly : Bool) {e : QueueEntry}
    (he : w.queue.queue.get? e.job = some e) :
    let w' := ((tick untaggedOnly e.job).run w).2
    (∃ outcome, (offerEntry untaggedOnly e).run w = (.ok outcome, w')) ∧ w'.AtRest ∧
      w.HandsOut w' ∧ (∀ k, k ≠ e.job → w'.queue.queue.get? k = w.queue.queue.get? k) ∧
      (w.registry.choice untaggedOnly w.now e ≠ none → w'.queue.queue.get? e.job = none) := by
  rw [tick_run_of_queued _ hw.plan he]
  obtain ⟨w', hrun, halike⟩ := hw.still.offerEntry_run untaggedOnly he
  have hw' := (hw.of_offerEntry untaggedOnly e).1
  rw [hrun] at hw' ⊢
  refine ⟨⟨_, rfl⟩, hw', (hw.still.handsOut_ticked he).congr halike, fun k hk => ?_,
    fun hchoice => ?_⟩
  · rw [halike.queue]
    exact hw.get?_ticked he hk
  · rcases hw.ticked_cases untaggedOnly he with ⟨hnone, -⟩ | ⟨worker, job, -, hid, hgone⟩
    · exact absurd hnone hchoice
    · rw [halike.queue, hgone, ← hid]
      exact (Queue.get?_pop _ _ _).trans (if_pos rfl)

/-! ### Ticks as long as a worker is ready -/

def World.hasReady (w : World) (id : WorkerId) : Bool :=
  (w.registry.get? id).any fun worker => worker.isReady w.now w.registry.staleAfter

/-- The world after the jobs of entries have been ticked in turn, as long as the worker is ready. -/
def World.tickWhileReady (untaggedOnly : Bool) (id : WorkerId) : List QueueEntry → World → World
  | [], w => w
  | e :: es, w =>
    if w.hasReady id then
      tickWhileReady untaggedOnly id es ((tick untaggedOnly e.job).run w).2
    else w

lemma World.tickWhileReady_of_not_ready (h : w.hasReady id = false) (es : List QueueEntry) :
    w.tickWhileReady untaggedOnly id es = w := by
  cases es with
  | nil => rfl
  | cons e es => exact if_neg (by rw [h]; exact Bool.false_ne_true)

structure World.Lists (w : World) (es : List QueueEntry) : Prop where
  queued : ∀ e ∈ es, w.queue.queue.get? e.job = some e
  distinct : es.Pairwise fun a b => a.job ≠ b.job

variable {e : QueueEntry} {es : List QueueEntry} {worker : Worker}

lemma World.Lists.tail (h : w.Lists (e :: es)) : w.Lists es :=
  ⟨fun k hk => h.queued k (List.mem_cons_of_mem _ hk), (List.pairwise_cons.1 h.distinct).2⟩

lemma World.Lists.tick (hw : w.AtRest) (untaggedOnly : Bool) (h : w.Lists (e :: es)) :
    ((JobDispatch.tick untaggedOnly e.job).run w).2.Lists es := by
  obtain ⟨-, -, -, hothers, -⟩ := hw.tick_queued untaggedOnly (h.queued e List.mem_cons_self)
  refine ⟨fun k hk => ?_, h.tail.distinct⟩
  rw [hothers k.job ((List.pairwise_cons.1 h.distinct).1 k hk).symm]
  exact h.tail.queued k hk

/-- Ticks as long as a worker is ready hand out jobs and do nothing else. -/
theorem World.AtRest.tickWhileReady (hw : w.AtRest) (untaggedOnly : Bool) (id : WorkerId)
    (hlists : w.Lists es) :
    (w.tickWhileReady untaggedOnly id es).AtRest ∧
      w.HandsOut (w.tickWhileReady untaggedOnly id es) := by
  induction es generalizing w with
  | nil => exact ⟨hw, .refl w⟩
  | cons e es ih =>
    unfold World.tickWhileReady
    split
    · obtain ⟨-, hw', hout, -⟩ := hw.tick_queued untaggedOnly (hlists.queued e List.mem_cons_self)
      obtain ⟨hlast, hrest⟩ := ih hw' (hlists.tick hw untaggedOnly)
      exact ⟨hlast, hout.trans hrest⟩
    · exact ⟨hw, .refl w⟩

lemma World.hasReady_iff : w.hasReady id = true ↔ ∃ worker, w.registry.get? id = some worker ∧
    worker.isReady w.now w.registry.staleAfter = true := by
  unfold hasReady
  rw [Option.any_eq_true]

theorem World.AtRest.tickWhileReady_gone (hw : w.AtRest) (hlists : w.Lists es)
    (hget : w.registry.get? id = some worker)
    (hsuits : ∀ e ∈ es, worker.suits e.project e.tags untaggedOnly)
    (hready : (w.tickWhileReady untaggedOnly id es).hasReady id = true) :
    ∀ e ∈ es, (w.tickWhileReady untaggedOnly id es).queue.queue.get? e.job = none := by
  induction es generalizing w worker with
  | nil => exact fun e he => absurd he List.not_mem_nil
  | cons e es ih =>
    have hqueued := hlists.queued e List.mem_cons_self
    obtain ⟨-, hw', hout, -, hgone⟩ := hw.tick_queued untaggedOnly hqueued
    have hlists' := hlists.tick hw untaggedOnly
    cases hnow : w.hasReady id with
    | false =>
      rw [World.tickWhileReady_of_not_ready hnow, hnow] at hready
      cases hready
    | true =>
      have hstep : w.tickWhileReady untaggedOnly id (e :: es) =
          ((JobDispatch.tick untaggedOnly e.job).run w).2.tickWhileReady untaggedOnly id es :=
        if_pos hnow
      rw [hstep] at hready ⊢
      obtain ⟨worker', hget', hoffer⟩ := hout.workers id worker hget
      intro k hk
      rcases List.mem_cons.1 hk with rfl | hk
      · -- the worker could take the job, so that somebody got it
        obtain ⟨same, hsame, hsameReady⟩ := World.hasReady_iff.1 hnow
        rw [hget] at hsame
        cases hsame
        have hleft := hgone fun hnone => by
          have hnot := Registry.choice_eq_none_iff.1 hnone id worker hget
          rw [Worker.eligible_iff.2 ⟨hsuits k List.mem_cons_self, hsameReady⟩] at hnot
          cases hnot
        refine Option.eq_none_iff_forall_ne_some.2 fun e' he' => ?_
        rw [(hw'.tickWhileReady untaggedOnly id hlists').2.entries _ _ he'] at hleft
        cases hleft
      · have hsuits' := fun f hf =>
          Worker.suits_of_offer (hsuits f (List.mem_cons_of_mem _ hf)) hoffer
        exact ih hw' hlists' hget' hsuits' hready k hk

/-- The entries in the queue that suit a worker, in the order of their numbers. -/
def World.suited (w : World) (untaggedOnly : Bool) (worker : Worker) : List QueueEntry :=
  w.queue.queue.toList.filter fun e => worker.suits e.project e.tags untaggedOnly

lemma World.AtRest.lists_suited (hw : w.AtRest) (untaggedOnly : Bool) (worker : Worker) :
    w.Lists (w.suited untaggedOnly worker) :=
  ⟨fun _ he => Queue.mem_toList hw.aligned (List.mem_of_mem_filter he),
    hw.aligned.toList_distinct.filter _⟩

theorem World.AtRest.not_suits_of_ready (hw : w.AtRest) (hget : w.registry.get? id = some worker)
    (hready :
      (w.tickWhileReady untaggedOnly id (w.suited untaggedOnly worker)).hasReady id = true)
    {k : JobId}
    (he : (w.tickWhileReady untaggedOnly id (w.suited untaggedOnly worker)).queue.queue.get? k =
      some e) : ¬worker.suits e.project e.tags untaggedOnly := by
  intro hsuits
  have hlists := hw.lists_suited untaggedOnly worker
  have hbefore := (hw.tickWhileReady untaggedOnly id hlists).2.entries k e he
  have hmem : e ∈ w.suited untaggedOnly worker :=
    List.mem_filter.2 ⟨hw.aligned.mem_toList_of_get? hbefore, decide_eq_true hsuits⟩
  have hgone := hw.tickWhileReady_gone hlists hget
    (fun f hf => of_decide_eq_true (List.mem_filter.1 hf).2) hready e hmem
  rw [(hw.aligned.listed k e hbefore).1, he] at hgone
  cases hgone

/-! ### Walks for a worker -/

lemma visitFor_run_of_not_ready (h : w.hasReady id = false) (e : QueueEntry) (n : Nat) :
    (visitFor untaggedOnly id e n).run w = (.stop n, w) := by
  have hworker : (request (.worker id)).run w = (w.registry.get? id, w) := rfl
  unfold visitFor
  rw [run_bind, hworker]
  cases hget : w.registry.get? id with
  | none => rfl
  | some worker =>
    have hready : worker.isReady w.now w.registry.staleAfter = false := by
      simpa [World.hasReady, hget] using h
    have hcriteria : (currentCriteria untaggedOnly).run w =
        (⟨w.now, w.registry.staleAfter, untaggedOnly⟩, w) := rfl
    dsimp only
    rw [run_bind, hcriteria]
    dsimp only
    rw [hready]
    rfl

lemma visitFor_run_of_ready (hget : w.registry.get? id = some worker)
    (hready : worker.isReady w.now w.registry.staleAfter = true) (e : QueueEntry) (n : Nat) :
    (visitFor untaggedOnly id e n).run w =
      if worker.eligible e ⟨w.now, w.registry.staleAfter, untaggedOnly⟩ then
        match (offerEntry untaggedOnly e).run w with
        | (.error err, w') => (.fail err, w')
        | (.ok outcome, w') => (.next (if outcome.isAssigned then n + 1 else n), w')
      else (.next n, w) := by
  have hworker : (request (.worker id)).run w = (some worker, w) := by rw [← hget]; rfl
  have hcriteria : (currentCriteria untaggedOnly).run w =
      (⟨w.now, w.registry.staleAfter, untaggedOnly⟩, w) := rfl
  unfold visitFor
  rw [run_bind, hworker]
  dsimp only
  rw [run_bind, hcriteria]
  dsimp only
  rw [hready]
  cases heligible : worker.eligible e ⟨w.now, w.registry.staleAfter, untaggedOnly⟩ with
  | false =>
    rw [rank_singleton.2 heligible]
    rfl
  | true =>
    have hranked : (rank e [worker] ⟨w.now, w.registry.staleAfter, untaggedOnly⟩).isEmpty = false :=
      Bool.eq_false_iff.2 fun hempty => by
        rw [List.isEmpty_iff, rank_singleton, heligible] at hempty
        cases hempty
    rw [hranked]
    simp only [Bool.not_true, Bool.false_eq_true, if_false, if_true]
    rw [run_bind]
    cases (offerEntry untaggedOnly e).run w with
    | mk result w' => cases result <;> rfl

/-- A visit takes no other entry out of the queue than the one visited. -/
lemma visitFor_confined (untaggedOnly : Bool) (id : WorkerId) :
    Confined (visitFor untaggedOnly id) := by
  intro e n w hw
  cases hnow : w.hasReady id with
  | false =>
    rw [visitFor_run_of_not_ready hnow]
    exact ⟨hw, .inl rfl⟩
  | true =>
    obtain ⟨worker, hget, hready⟩ := World.hasReady_iff.1 hnow
    have hoffer := hw.of_offerEntry untaggedOnly e
    rw [visitFor_run_of_ready hget hready]
    split
    · generalize (offerEntry untaggedOnly e).run w = offered at hoffer ⊢
      obtain ⟨_ | _, w'⟩ := offered
      · exact hoffer
      · exact hoffer
    · exact ⟨hw, .inl rfl⟩

/-- **A walk for a worker ticks what suits it, as long as it is ready.** -/
theorem World.AtRest.walkPage_visitFor (hw : w.AtRest) (hlists : w.Lists es)
    (hget : w.registry.get? id = some worker) (n : Nat) :
    ∃ m, ((JobDispatch.walkPage (visitFor untaggedOnly id) es n).run w).1.result = .ok m ∧
      ((JobDispatch.walkPage (visitFor untaggedOnly id) es n).run w).2 =
        w.tickWhileReady untaggedOnly id
          (es.filter fun e => worker.suits e.project e.tags untaggedOnly) := by
  induction es generalizing w worker n with
  | nil => exact ⟨n, rfl, rfl⟩
  | cons e es ih =>
    have hqueued := hlists.queued e List.mem_cons_self
    simp only [JobDispatch.walkPage, run_bind]
    cases hnow : w.hasReady id with
    | false =>
      rw [visitFor_run_of_not_ready hnow, World.tickWhileReady_of_not_ready hnow]
      exact ⟨n, rfl, rfl⟩
    | true =>
      obtain ⟨same, hsame, hready⟩ := World.hasReady_iff.1 hnow
      rw [hget] at hsame
      cases hsame
      rw [visitFor_run_of_ready hget hready]
      by_cases hsuits : worker.suits e.project e.tags untaggedOnly
      · obtain ⟨⟨outcome, hrun⟩, hw', hout, -⟩ := hw.tick_queued untaggedOnly hqueued
        rw [if_pos (Worker.eligible_iff.2 ⟨hsuits, hready⟩), hrun,
          List.filter_cons_of_pos (by simpa using hsuits)]
        obtain ⟨worker', hget', hoffer⟩ := hout.workers id worker hget
        obtain ⟨m, hresult, hlast⟩ := ih hw' (hlists.tick hw untaggedOnly) hget'
          (if outcome.isAssigned then n + 1 else n)
        have hsame : (es.filter fun e => worker'.suits e.project e.tags untaggedOnly) =
            es.filter fun e => worker.suits e.project e.tags untaggedOnly :=
          List.filter_congr fun e _ => decide_eq_decide.2
            ⟨fun h => Worker.suits_of_offer h hoffer.symm, fun h => Worker.suits_of_offer h hoffer⟩
        rw [hsame] at hlast
        exact ⟨m, hresult, hlast.trans (if_pos hnow).symm⟩
      · have hnot : worker.eligible e ⟨w.now, w.registry.staleAfter, untaggedOnly⟩ = false :=
          Bool.eq_false_iff.2 fun heligible => hsuits (Worker.eligible_iff.1 heligible).1
        rw [hnot, List.filter_cons_of_neg (by simpa using hsuits)]
        exact ih hw hlists.tail hget n

/-! ### Heartbeats -/

variable {c c₀ : Config}

lemma recordHeartbeat_run (w : World) (h : Heartbeat) : ∃ events,
    (Engine.recordHeartbeat h).run w = (w.registry.after h,
      { w with registry := w.registry.put (w.registry.after h), events }) := by
  have hanswer : (request (.heartbeat h)).run w =
      ((w.registry.after h, (w.registry.get? h.worker).isNone),
        { w with registry := w.registry.put (w.registry.after h) }) := by
    show w.onRegistry (fun r => r.heartbeat h) = _
    simp only [World.onRegistry, Registry.heartbeat_eq]
  unfold Engine.recordHeartbeat
  rw [run_bind, hanswer]
  cases (w.registry.get? h.worker).isNone with
  | true => exact ⟨_, rfl⟩
  | false => exact ⟨_, rfl⟩

lemma World.AtRest.recordHeartbeat (hw : w.AtRest) (h : Heartbeat) :
    ((Engine.recordHeartbeat h).run w).2.AtRest := by
  have hstill := hw.still.run (Engine.recordHeartbeat_loose h).unlocked_of_loose
  obtain ⟨events, hrun⟩ := recordHeartbeat_run w h
  rw [hrun] at hstill ⊢
  exact ⟨hstill.sound, hstill.plan, hw.aligned⟩

/-- **The offers after a heartbeat**, whatever the length of the pages in which the queue is read.
-/
theorem World.AtRest.serveWorker_run (hw : w.AtRest) (untaggedOnly : Bool)
    (hget : w.registry.get? id = some worker) {limit : UInt64} (hlimit : limit ≠ 0) :
    ∃ claims, (serveWorker untaggedOnly id limit).run w = (.ok claims,
      w.tickWhileReady untaggedOnly id (w.suited untaggedOnly worker)) := by
  have hlists : w.Lists w.queue.queue.toList :=
    ⟨fun e he => Queue.mem_toList hw.aligned he, hw.aligned.toList_distinct⟩
  obtain ⟨claims, hresult, hlast⟩ := hw.walkPage_visitFor hlists hget 0
  unfold serveWorker
  rw [hw.walkQueue_run (visitFor_confined untaggedOnly id) hlimit, Queue.entriesAfter_none]
  exact ⟨claims, Prod.ext hresult hlast⟩

lemma get?_recordHeartbeat (hw : w.Filed) (h : Heartbeat) :
    ((Engine.recordHeartbeat h).run w).2.registry.get? h.worker = some (w.registry.after h) := by
  obtain ⟨events, hrun⟩ := recordHeartbeat_run w h
  rw [hrun]
  exact (Registry.get?_put _ _ _).trans (if_pos (w.registry.id_after hw.workers h).symm)

lemma heartbeat_run (hw : w.Filed) (hmode : c.mode.atOnce = true) (h : Heartbeat) :
    (Engine.heartbeat c h).run w =
      match (serveWorker c.untaggedOnly h.worker c.batchSize).run
        ((Engine.recordHeartbeat h).run w).2 with
      | (.ok 0, w') => (w.registry.after h, w')
      | (.ok (n + 1), w') => ((w'.registry.get? h.worker).getD (w.registry.after h),
          { w' with events := .heartbeatDispatched h.worker (n + 1) :: w'.events })
      | (.error e, w') => (w.registry.after h,
          { w' with events := .heartbeatTickFailed h.worker e :: w'.events }) := by
  obtain ⟨noted, hnoted⟩ := recordHeartbeat_run w h
  have hworker : ((Engine.recordHeartbeat h).run w).1 = w.registry.after h := by rw [hnoted]
  unfold Engine.heartbeat
  rw [run_bind, hworker, w.registry.id_after hw.workers h, hmode]
  simp only [Bool.not_true, Bool.false_eq_true, if_false]
  rw [run_bind]
  generalize (serveWorker c.untaggedOnly h.worker c.batchSize).run _ = served
  obtain ⟨e | n, w'⟩ := served
  · rfl
  · cases n with
    | zero => rfl
    | succ n => rfl

lemma World.AtRest.heartbeat_run (hw : w.AtRest) (hmode : c.mode.atOnce = true)
    (hbatch : c.batchSize ≠ 0) (h : Heartbeat) :
    let recorded := ((Engine.recordHeartbeat h).run w).2
    ∃ events, ((Engine.heartbeat c h).run w).2 = { recorded.tickWhileReady c.untaggedOnly h.worker
      (recorded.suited c.untaggedOnly (w.registry.after h)) with events } := by
  intro recorded
  obtain ⟨claims, hserve⟩ := (hw.recordHeartbeat h).serveWorker_run c.untaggedOnly
    (get?_recordHeartbeat hw.sound.filed h) hbatch
  rw [JobDispatch.heartbeat_run hw.sound.filed hmode, hserve]
  cases claims with
  | zero => exact ⟨_, rfl⟩
  | succ claims => exact ⟨_, rfl⟩

lemma World.tickWhileReady_suited (hget : w.registry.get? id = some worker) :
    w.tickWhileReady untaggedOnly id (w.suited untaggedOnly worker) =
      w.tickWhileReady untaggedOnly id (w.queue.queue.toList.filter fun e =>
        worker.eligible e ⟨w.now, w.registry.staleAfter, untaggedOnly⟩) := by
  cases hnow : w.hasReady id with
  | false => rw [tickWhileReady_of_not_ready hnow, tickWhileReady_of_not_ready hnow]
  | true =>
    obtain ⟨same, hsame, hready⟩ := hasReady_iff.1 hnow
    rw [hget] at hsame
    cases hsame
    congr 1
    refine List.filter_congr fun e _ => ?_
    rw [Bool.eq_iff_iff, decide_eq_true_iff]
    exact ⟨fun h => Worker.eligible_iff.2 ⟨h, hready⟩, fun h => (Worker.eligible_iff.1 h).1⟩

/-- **A heartbeat leaves no job waiting that its worker could take.** It takes the report over and
ticks the queued jobs that the worker may take, in the order of their numbers, until the worker is
not ready any more. Another batch size leads to the same world. If the worker is ready in the end,
no entry is left that it may take. Jobs go from pending to running or stay as they are. The table of
jobs counts its rows in 64 bits, so that the numbers of entries never run out. -/
theorem heartbeat_serves (hreach : Engine.Reachable c₀ w) (hplan : w.queue.plan = [])
    (hroom : w.jobs.size < UInt64.size) (hmode : c.mode = .event ∨ c.mode = .both)
    (hbatch : c.batchSize ≠ 0) (h : Heartbeat) :
    let p : Criteria := ⟨w.now, w.registry.staleAfter, c.untaggedOnly⟩
    let recorded := ((Engine.recordHeartbeat h).run w).2
    let served := ((Engine.heartbeat c h).run w).2
    (∃ worker es events, recorded.registry.get? h.worker = some worker ∧
      (∀ e, e ∈ es ↔ w.queue.queue.get? e.job = some e ∧ worker.eligible e p = true) ∧
      es.Pairwise (fun a b => a.sequence < b.sequence) ∧
      served = { recorded.tickWhileReady c.untaggedOnly h.worker es with events }) ∧
    (∀ limit, limit ≠ 0 → ∃ events,
      ((Engine.heartbeat { c with batchSize := limit } h).run w).2 = { served with events }) ∧
    (∃ worker, served.registry.get? h.worker = some worker ∧
      (worker.isReady served.now served.registry.staleAfter = true →
        ∀ id e, served.queue.queue.get? id = some e →
          rank e [worker] ⟨served.now, served.registry.staleAfter, c.untaggedOnly⟩ = [])) ∧
    ∀ id, served.jobs.find? id = w.jobs.find? id ∨
      ∃ job job', w.jobs.find? id = some job ∧ served.jobs.find? id = some job' ∧
        job.state = .pending ∧ job'.state = .running := by
  intro p recorded served
  have hw : w.AtRest := ⟨hreach.sound, hplan, hreach.sound.numbered.aligned hroom⟩
  have hrecorded : recorded.AtRest := hw.recordHeartbeat h
  have hatOnce : c.mode.atOnce = true := by
    rcases hmode with hmode | hmode <;> rw [hmode] <;> rfl
  let worker := w.registry.after h
  obtain ⟨noted, hnoted⟩ := recordHeartbeat_run w h
  have hsame : recorded = { w with registry := w.registry.put worker, events := noted } :=
    congrArg Prod.snd hnoted
  have hget : recorded.registry.get? h.worker = some worker :=
    get?_recordHeartbeat hw.sound.filed h
  obtain ⟨events, hserved⟩ := hw.heartbeat_run hatOnce hbatch h
  have hserved : served = { recorded.tickWhileReady c.untaggedOnly h.worker
    (recorded.suited c.untaggedOnly worker) with events } := hserved
  obtain ⟨-, hout⟩ := hrecorded.tickWhileReady c.untaggedOnly h.worker
    (hrecorded.lists_suited c.untaggedOnly worker)
  refine ⟨⟨worker, w.queue.queue.toList.filter fun e => worker.eligible e p, events, hget,
    fun e => ?_, hw.aligned.toList_ascending.filter _, ?_⟩, fun limit hlimit => ?_, ?_,
    fun id => ?_⟩
  · rw [List.mem_filter]
    exact and_congr_left fun _ => ⟨Queue.mem_toList hw.aligned, hw.aligned.mem_toList_of_get?⟩
  · rw [hserved, World.tickWhileReady_suited hget, hsame]
    rfl
  · obtain ⟨events', hother⟩ :=
      hw.heartbeat_run (c := { c with batchSize := limit }) hatOnce hlimit h
    rw [hserved]
    exact ⟨events', hother⟩
  · obtain ⟨last, hlast, hoffer⟩ := hout.workers _ _ hget
    rw [hserved]
    refine ⟨last, hlast, fun hready id e he => rank_singleton.2 ?_⟩
    have hunsuited := hrecorded.not_suits_of_ready hget
      (World.hasReady_iff.2 ⟨last, hlast, hready⟩) he
    exact Bool.eq_false_iff.2 fun heligible =>
      hunsuited (Worker.suits_of_offer (Worker.eligible_iff.1 heligible).1 hoffer.symm)
  · have hjobs : recorded.jobs = w.jobs := by rw [hsame]
    rw [hserved, ← hjobs]
    exact hout.jobs id

def eventPages : Config := { Config.standard with mode := .event, batchSize := 1 }

/-- A job waits that asks for a tag, and two that ask for none. -/
def threeWaiting : World :=
  (Engine.initial eventPages .silent .epoch).acts (Engine.Operation.program eventPages)
    [.call (.enqueue ⟨⟨.ofNat 2⟩, ⟨.ofNat 5⟩, .ofList ["docker"]⟩),
      .call (.enqueue ⟨⟨.ofNat 3⟩, ⟨.ofNat 5⟩, .empty⟩),
      .call (.enqueue ⟨⟨.ofNat 4⟩, ⟨.ofNat 5⟩, .empty⟩)]

theorem heartbeat_serves_threeWaiting :
    let served := ((Engine.heartbeat eventPages
      ⟨⟨.ofNat 1⟩, .empty, 3, .epoch, .everyProject, true⟩).run threeWaiting).2
    ∃ worker, served.registry.get? ⟨.ofNat 1⟩ = some worker ∧ worker.running = 2 ∧
      served.queue.queue.length = 1 ∧ ∀ id e, served.queue.queue.get? id = some e →
        rank e [worker] ⟨served.now, served.registry.staleAfter, true⟩ = [] := by
  intro served
  have hreach : Engine.Reachable eventPages threeWaiting := ⟨_, _, _, rfl⟩
  obtain ⟨-, -, ⟨worker, hget, hleft⟩, -⟩ := heartbeat_serves (c := eventPages) hreach
    (by decide +kernel) (by decide +kernel) (.inl rfl) (by decide)
    ⟨⟨.ofNat 1⟩, .empty, 3, .epoch, .everyProject, true⟩
  have hrecord : served.registry.get? ⟨.ofNat 1⟩ =
      some ⟨⟨.ofNat 1⟩, .empty, 3, 2, .epoch, some .epoch, .everyProject, true⟩ := by decide +kernel
  have heq : worker = _ := Option.some.inj (hget.symm.trans hrecord)
  refine ⟨worker, hget, by rw [heq], by decide +kernel, hleft ?_⟩
  rw [heq]
  decide +kernel

end JobDispatch

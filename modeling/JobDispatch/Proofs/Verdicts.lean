import JobDispatch.Proofs.Unclaimed

/-!
What the result of a tick says of its job. A claim looks at the record and at the entry while it
holds the lock, so that its result is right about the job however old the entry is that led to it
(`claim_cases`); and a tick that offers the job to anybody inherits that from its first claim
(`offerTo_shows`). A tick that finds nobody to offer the job to looks at neither record nor entry.
-/

namespace JobDispatch

open Program

variable {w v : World} {id : JobId} {worker : WorkerId}

/-! ### Jobs that wait -/

structure World.Waiting (w : World) (id : JobId) : Prop where
  pending : ∃ job, w.jobs.find? id = some job ∧ job.state = .pending
  queued : ∃ e, w.queue.queue.get? id = some e

namespace World

lemma SameStores.trans {u : World} (h : w.SameStores v) (h' : v.SameStores u) : w.SameStores u :=
  ⟨h'.jobs.trans h.jobs, h'.queue.trans h.queue, h'.registry.trans h.registry⟩

lemma Waiting.congr (h : w.Waiting id) (hjobs : v.jobs = w.jobs)
    (hqueue : v.queue.queue = w.queue.queue) : v.Waiting id :=
  ⟨by rw [hjobs]; exact h.pending, by rw [hqueue]; exact h.queued⟩

lemma Consistent.waiting {e : QueueEntry} (hw : w.Consistent)
    (h : w.queue.queue.get? id = some e) : w.Waiting id :=
  ⟨(hw.sound.kept.lockstep.queued_iff id).1 ⟨e, h⟩, ⟨e, h⟩⟩

lemma SameStores.waiting_iff (h : w.SameStores v) : v.Waiting id ↔ w.Waiting id :=
  ⟨fun hv => hv.congr h.jobs.symm h.queue.symm, fun hw => hw.congr h.jobs h.queue⟩

end World

/-! ### Claims -/

/-- **The result of a claim is right about the job**: whether it waited, and that it has left the
queue if the claim holds. A claim is blocked if the worker has no place. -/
lemma claim_cases (hw : w.Honest) (id : JobId) (worker : WorkerId) :
    let result := ((claim id worker).run w).1
    (∃ e, result = .error e) ∨
    (result = .ok .notQueued ∧ ¬w.Waiting id) ∨
    w.Waiting id ∧ ((∃ reason, result = .ok (.blocked reason) ∧
        (w.registry.takePlace worker w.now).1 = some reason) ∨
      (∃ time, result = .ok (.claimed worker time)) ∧
        ((claim id worker).run w).2.queue.queue = (w.queue.queue.pop id).2) := by
  have hlock : w.answer (.lockJob id) = (w.jobs.find? id, w) := rfl
  unfold claim
  rw [run_bind, run_request, hlock]
  dsimp only
  cases hjob : w.jobs.find? id with
  | none =>
    refine .inr (.inl ⟨rfl, fun hwaits => ?_⟩)
    obtain ⟨job, hfind, -⟩ := hwaits.pending
    rw [hjob] at hfind
    cases hfind
  | some job =>
    dsimp only
    split
    · rename_i hstate
      refine .inr (.inl ⟨rfl, fun hwaits => ?_⟩)
      obtain ⟨job', hfind, hpending⟩ := hwaits.pending
      rw [hjob] at hfind
      cases hfind
      rw [hpending] at hstate
      cases hstate
    rename_i hstate
    have hpending : job.state = .pending := by simpa using hstate
    have hid := hw.filed.jobs id job hjob
    have hread : (w.answer (.lookup id)).2.queue.queue = w.queue.queue := World.queue_answer rfl
    rw [run_bind, run_request]
    rcases World.lookup_cases hw.sure id with ⟨e, he⟩ | hlookup
    · rw [he]
      exact .inl ⟨e, rfl⟩
    rw [hlookup]
    cases hentry : w.queue.queue.get? id with
    | none =>
      refine .inr (.inl ⟨rfl, fun hwaits => ?_⟩)
      obtain ⟨e, he⟩ := hwaits.queued
      rw [hentry] at he
      cases he
    | some e =>
      have hwaits : w.Waiting id := ⟨⟨job, hjob, hpending⟩, ⟨e, hentry⟩⟩
      let taken := ((w.answer (.lookup id)).2.answer (.takePlace worker)).2
      have hsure : taken.queue.Sure := World.answer_sure hw.sure (.lookup id)
      have hqueue : taken.queue.queue = w.queue.queue := hread
      obtain ⟨-, -, hpop⟩ := popEntry_run hsure job
      have hplace : ((w.answer (.lookup id)).2.answer (.takePlace worker)).1 =
          (w.registry.takePlace worker w.now).1 := rfl
      dsimp only
      rw [run_bind, run_request, hplace]
      cases (w.registry.takePlace worker w.now).1 with
      | some reason => exact .inr (.inr ⟨hwaits, .inl ⟨reason, rfl, rfl⟩⟩)
      | none =>
        dsimp only
        rw [run_bind]
        rw [hqueue, hid, hentry] at hpop
        rcases hpop with ⟨⟨err, herr⟩, -⟩ | ⟨hok, hpopped⟩
        · rw [herr]
          exact .inl ⟨err, retreat_result _ _⟩
        · rw [hok]
          exact .inr (.inr ⟨hwaits, .inr ⟨⟨_, rfl⟩, hpopped⟩⟩)

/-! ### Ticks -/

/-- What the result of a tick says of its job, if the job is offered to anybody. -/
structure World.TickShows (w : World) (id : JobId) (offered : Bool)
    (result : Except DispatchError TickOutcome) (w' : World) : Prop where
  gone : result = .ok .alreadyClaimed → ¬w.Waiting id
  left : result = .ok .noEligibleWorker → offered = true → w.Waiting id
  taken : ∀ a, result = .ok (.claimed a) →
    w.Waiting id ∧ w'.queue.queue = (w.queue.queue.pop id).2

/-- **Offers show how the job is.** The first claim does already. -/
theorem offerTo_shows (hw : w.Honest) (e : QueueEntry) (ws : List Worker) :
    w.TickShows e.job (!ws.isEmpty) ((offerTo e ws).run w).1 ((offerTo e ws).run w).2 := by
  induction ws generalizing w with
  | nil => exact ⟨fun h => (by cases h), fun _ h => (by cases h), fun _ h => (by cases h)⟩
  | cons worker ws ih =>
    let w₁ := w.record (.workerTick worker.id)
    have hw₁ : w₁.Honest := hw.answer (.count (.workerTick worker.id))
    have hcounted : w.SameStores w₁ := ⟨rfl, rfl, rfl⟩
    have hcount : (request (.count (.workerTick worker.id))).run w = ((), w₁) := rfl
    have hcases := claim_cases hw₁ e.job worker.id
    have hspares := @claim_spares w₁ e.job worker.id hw₁
    have hhonest := hw₁.run (claim e.job worker.id)
    unfold offerTo
    rw [run_bind, hcount]
    dsimp only at hcases ⊢
    rw [run_bind]
    rw [hcounted.waiting_iff] at hcases
    generalize (claim e.job worker.id).run w₁ = claimed at hcases hspares hhonest ⊢
    obtain ⟨result, w₂⟩ := claimed
    dsimp only at hcases
    rcases hcases with
      ⟨err, rfl⟩ | ⟨rfl, hgone⟩ | ⟨hwaits, ⟨reason, rfl, -⟩ | ⟨⟨time, rfl⟩, hqueue⟩⟩
    · exact ⟨fun h => (by cases h), fun h => (by cases h), fun _ h => (by cases h)⟩
    · exact ⟨fun _ => hgone, fun h => (by cases h), fun _ h => (by cases h)⟩
    · obtain ⟨hjobs, hqueue, hregistry⟩ := hspares fun _ _ h => (by cases h)
      have hlost : w.SameStores (w₂.answer (.log (.claimLost e.job worker.id reason))).2 :=
        hcounted.trans ⟨hjobs, hqueue, hregistry _ rfl⟩
      have hrest := ih (hhonest.answer (.log (.claimLost e.job worker.id reason)))
      refine ⟨fun h => ?_, fun _ _ => hwaits, fun a ha => ⟨hwaits, ?_⟩⟩
      · exact fun hw => hrest.gone h (hlost.waiting_iff.2 hw)
      · rw [← hlost.queue]
        exact (hrest.taken a ha).2
    · exact ⟨fun h => (by cases h), fun h => (by cases h), fun _ _ => ⟨hwaits, hqueue⟩⟩

/-- **A tick shows how its job is**, if there is anybody to offer it to. -/
theorem offerEntry_shows (hw : w.Honest) (untaggedOnly : Bool) (e : QueueEntry) :
    w.TickShows e.job (!((rankWorkers untaggedOnly e).run w).1.isEmpty)
      ((offerEntry untaggedOnly e).run w).1 ((offerEntry untaggedOnly e).run w).2 := by
  unfold offerEntry
  rw [run_bind, rankWorkers_run]
  dsimp only
  split
  · rename_i hnone
    rw [hnone]
    exact ⟨fun h => (by cases h), fun _ h => (by cases h), fun _ h => (by cases h)⟩
  · exact offerTo_shows hw e _

lemma offerEntry_of_none (untaggedOnly : Bool) (e : QueueEntry)
    (h : ((rankWorkers untaggedOnly e).run w).1 = []) :
    (offerEntry untaggedOnly e).run w =
      (.ok .noEligibleWorker, { w with events := .noEligibleWorker e.job e.tags :: w.events }) := by
  rw [rankWorkers_run] at h
  dsimp only at h
  unfold offerEntry
  rw [run_bind, rankWorkers_run]
  dsimp only
  rw [h]
  rfl

lemma World.Filed.takePlace_of_mem_rank (hw : w.Filed) {untaggedOnly : Bool} {e : QueueEntry}
    {record : Worker} (h : record ∈ ((rankWorkers untaggedOnly e).run w).1) :
    (w.registry.takePlace record.id w.now).1 = none := by
  rw [rankWorkers_run] at h
  obtain ⟨hmem, heligible⟩ := mem_rank.1 h
  obtain ⟨id, hget⟩ := Table.mem_values.1 hmem
  have hget' : w.registry.get? record.id = some record := by
    rw [hw.workers id record hget]
    exact hget
  have hready : record.isReady w.now w.registry.staleAfter = true := by
    unfold Worker.eligible at heligible
    simp only [Bool.and_eq_true] at heligible
    exact heligible.1.2
  rw [Registry.takePlace_of_ready hget' hready]

/-- **A tick by itself finds nobody if and only if nobody is ranked.** The first in the ranking
still has a place when the job is claimed. -/
theorem offerEntry_noEligible_iff (hw : w.Honest) (untaggedOnly : Bool) (e : QueueEntry) :
    ((offerEntry untaggedOnly e).run w).1 = .ok .noEligibleWorker ↔
      ((rankWorkers untaggedOnly e).run w).1 = [] := by
  refine ⟨fun hresult => ?_, fun hnone => by rw [offerEntry_of_none untaggedOnly e hnone]⟩
  cases hranked : ((rankWorkers untaggedOnly e).run w).1 with
  | nil => rfl
  | cons record records =>
    have hplace := hw.filed.takePlace_of_mem_rank (by rw [hranked]; exact List.mem_cons_self)
    let w₁ := w.record (.workerTick record.id)
    have hw₁ : w₁.Honest := hw.answer (.count (.workerTick record.id))
    have hcount : (request (.count (.workerTick record.id))).run w = ((), w₁) := rfl
    have hcases := claim_cases hw₁ e.job record.id
    unfold offerEntry at hresult
    rw [run_bind, hranked] at hresult
    rw [rankWorkers_run] at hresult
    dsimp only [List.isEmpty_cons] at hresult
    rw [if_neg Bool.false_ne_true] at hresult
    unfold offerTo at hresult
    rw [run_bind, hcount] at hresult
    dsimp only at hcases hresult
    rw [run_bind] at hresult
    generalize (claim e.job record.id).run w₁ = claimed at hcases hresult
    obtain ⟨result, w₂⟩ := claimed
    dsimp only at hcases
    rcases hcases with ⟨err, rfl⟩ | ⟨rfl, -⟩ | ⟨-, ⟨reason, rfl, hblocked⟩ | ⟨⟨time, rfl⟩, -⟩⟩
    · cases hresult
    · cases hresult
    · rw [show (w₁.registry.takePlace record.id w₁.now).1 = none from hplace] at hblocked
      cases hblocked
    · cases hresult

/-- A tick by name looks at the entry first: whatever it comes to, it is right about the job. -/
theorem tick_shows (hw : w.Consistent) (untaggedOnly : Bool) (id : JobId) :
    w.TickShows id true ((tick untaggedOnly id).run w).1 ((tick untaggedOnly id).run w).2 := by
  have hhonest := hw.honest
  let w₁ := (w.answer (.lookup id)).2
  have hread : w.SameStores w₁ := ⟨rfl, World.queue_answer rfl, rfl⟩
  unfold tick
  rw [run_bind, run_request]
  rcases World.lookup_cases hhonest.sure id with ⟨err, herr⟩ | hlookup
  · rw [herr]
    exact ⟨fun h => (by cases h), fun h => (by cases h), fun _ h => (by cases h)⟩
  rw [hlookup]
  cases hget : w.queue.queue.get? id with
  | none =>
    refine ⟨fun _ hwaits => ?_, fun h => (by cases h), fun _ h => (by cases h)⟩
    obtain ⟨e, he⟩ := hwaits.queued
    rw [hget] at he
    cases he
  | some e =>
    obtain rfl : e.job = id := hw.listed.named id e hget
    have hwaits := hw.waiting hget
    have hshows := offerEntry_shows (hhonest.answer (.lookup e.job)) untaggedOnly e
    refine ⟨fun hgone => absurd (hread.waiting_iff.2 hwaits) (hshows.gone hgone),
      fun _ _ => hwaits, fun a ha => ⟨hwaits, ?_⟩⟩
    rw [← hread.queue]
    exact (hshows.taken a ha).2

/-! ### Who waits after ticks -/

/-- A tick hands its job to a worker and takes it out of the queue, or leaves jobs and entries. -/
lemma offerEntry_effect (hw : w.Honest) (untaggedOnly : Bool) (e : QueueEntry) :
    let ticked := (offerEntry untaggedOnly e).run w
    (∃ a job, ticked.1 = .ok (.claimed a) ∧ a.job = e.job ∧
      (w.jobs.find? e.job = some job ∧ job.state = .pending) ∧
      ticked.2.jobs = w.jobs.insert e.job (job.claimedAs a.worker a.claimedAt) ∧
      ticked.2.queue.queue = (w.queue.queue.pop e.job).2) ∨
    (∀ a, ticked.1 ≠ .ok (.claimed a)) ∧ ticked.2.jobs = w.jobs ∧
      ticked.2.queue.queue = w.queue.queue := by
  intro ticked
  have htells := offerEntry_tells hw untaggedOnly e
  by_cases hany : ∃ a, ticked.1 = .ok (.claimed a)
  · obtain ⟨a, ha⟩ := hany
    obtain ⟨hid, job, hjob, hpending, hjobs⟩ := htells.claimed a ha
    obtain ⟨-, hqueue⟩ := (offerEntry_shows hw untaggedOnly e).taken a ha
    exact .inl ⟨a, job, ha, hid, ⟨hjob, hpending⟩, hjobs, hqueue⟩
  · have hno : ∀ a, ticked.1 ≠ .ok (.claimed a) := fun a ha => hany ⟨a, ha⟩
    exact .inr ⟨hno, htells.spared hno⟩

namespace World.Waiting

variable {e : QueueEntry}

lemma offerEntry (h : w.Waiting id) (hw : w.Honest) (untaggedOnly : Bool)
    (hother : id ≠ e.job ∨ ∀ a, ((offerEntry untaggedOnly e).run w).1 ≠ .ok (.claimed a)) :
    ((JobDispatch.offerEntry untaggedOnly e).run w).2.Waiting id := by
  rcases offerEntry_effect hw untaggedOnly e with
    ⟨a, job, ha, -, -, hjobs, hqueue⟩ | ⟨-, hjobs, hqueue⟩
  · have hne : id ≠ e.job := hother.resolve_right fun hno => hno a ha
    refine ⟨?_, ?_⟩
    · rw [hjobs, Table.find?_insert_of_ne _ _ hne]
      exact h.pending
    · rw [hqueue, Queue.get?_pop, if_neg hne]
      exact h.queued
  · exact h.congr hjobs hqueue

lemma offerAll (h : w.Waiting id) (hw : w.Honest) (untaggedOnly : Bool) (es : List QueueEntry) :
    ((JobDispatch.offerAll untaggedOnly es).run w).2.Waiting id ∨
      (∃ e ∈ es, e.job = id) ∧
        ∃ a, .ok (.claimed a) ∈ ((JobDispatch.offerAll untaggedOnly es).run w).1 ∧ a.job = id := by
  induction es generalizing w with
  | nil => exact .inl h
  | cons e es ih =>
    simp only [JobDispatch.offerAll, run_bind, run_pure]
    by_cases hnow : e.job = id ∧
      ∃ a, ((JobDispatch.offerEntry untaggedOnly e).run w).1 = .ok (.claimed a)
    · obtain ⟨hid, a, ha⟩ := hnow
      have hjob := ((offerEntry_tells hw untaggedOnly e).claimed a ha).1
      exact .inr ⟨⟨e, List.mem_cons_self, hid⟩, a, by rw [ha]; exact List.mem_cons_self,
        hjob.trans hid⟩
    · have hother : id ≠ e.job ∨
          ∀ a, ((JobDispatch.offerEntry untaggedOnly e).run w).1 ≠ .ok (.claimed a) := by
        rcases not_and_or.1 hnow with hne | hno
        · exact .inl (Ne.symm hne)
        · exact .inr fun a ha => hno ⟨a, ha⟩
      rcases ih (h.offerEntry hw untaggedOnly hother) (hw.run _) with
        hwaits | ⟨⟨e', he', hid⟩, a, ha, hjob⟩
      · exact .inl hwaits
      · exact .inr ⟨⟨e', List.mem_cons_of_mem _ he', hid⟩, a, List.mem_cons_of_mem _ ha, hjob⟩

lemma not_gone (h : w.Waiting e.job) (hw : w.Honest) (untaggedOnly : Bool) :
    ((JobDispatch.offerEntry untaggedOnly e).run w).1 ≠ .ok .alreadyClaimed :=
  fun hgone => (offerEntry_shows hw untaggedOnly e).gone hgone h

end World.Waiting

/-- The entries are of different jobs, all of which wait. -/
structure World.AllWait (w : World) (es : List QueueEntry) : Prop where
  distinct : es.Pairwise fun a b => a.job ≠ b.job
  waiting : ∀ e ∈ es, w.Waiting e.job

/-- **Ticks of jobs that wait find none of them gone**, and each one that finds nobody to take its
job leaves the job waiting. -/
theorem World.AllWait.offerAll {es : List QueueEntry} (h : w.AllWait es) (hw : w.Honest)
    (untaggedOnly : Bool) :
    let ticks := (offerAll untaggedOnly es).run w
    .ok .alreadyClaimed ∉ ticks.1 ∧
      ∀ q ∈ es.zip ticks.1, q.2 = .ok .noEligibleWorker → ticks.2.Waiting q.1.job := by
  induction es generalizing w with
  | nil => exact ⟨List.not_mem_nil, fun q hq => absurd hq List.not_mem_nil⟩
  | cons e es ih =>
    obtain ⟨hfirst, hdistinct⟩ := List.pairwise_cons.1 h.distinct
    have hwaits := h.waiting e List.mem_cons_self
    have hw' := hw.run (offerEntry untaggedOnly e)
    have hrest : ((offerEntry untaggedOnly e).run w).2.AllWait es :=
      ⟨hdistinct, fun e' he' => (h.waiting e' (List.mem_cons_of_mem _ he')).offerEntry hw
        untaggedOnly (.inl (hfirst e' he').symm)⟩
    obtain ⟨hnone, hleft⟩ := ih hrest hw'
    simp only [JobDispatch.offerAll, run_bind, run_pure]
    refine ⟨fun hmem => ?_, fun q hq hresult => ?_⟩
    · rcases List.mem_cons.1 hmem with hnow | hlater
      · exact hwaits.not_gone hw untaggedOnly hnow.symm
      · exact hnone hlater
    · rw [List.zip_cons_cons] at hq
      rcases List.mem_cons.1 hq with rfl | hq
      · have hnow := hwaits.offerEntry hw untaggedOnly (.inr fun a ha => by
          rw [show ((offerEntry untaggedOnly e).run w).1 = _ from hresult] at ha
          cases ha)
        refine (hnow.offerAll hw' untaggedOnly es).resolve_right ?_
        rintro ⟨⟨e', he', hjob⟩, -⟩
        exact hfirst e' he' hjob.symm
      · exact hleft q hq hresult

end JobDispatch

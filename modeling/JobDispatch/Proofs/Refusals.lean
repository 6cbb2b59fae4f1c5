import JobDispatch.Proofs.Unclaimed

/-!
What refused changes of state leave behind, and what applied ones come to. A change that is refused,
for whatever reason and however the calls on the queue fail, leaves jobs, entries, numbers and
workers as they were; the one thing that may be counted is a push that finds the job queued. The
engine reports a change as applied if it was, and a tick that fails after it does not take it back
(`changes_apply_or_leave_no_trace`). All that is as long as no removal of an entry fails as if for a
duplicate, which no counter would show (`uncounted_duplicate_and_removal`).
-/

namespace JobDispatch

open Program

variable {w : World} {id : JobId} {edge : Edge}

/-! ### Refusals -/

/-- The refusal says that the job has an entry already. -/
def DispatchError.isDuplicate : DispatchError → Bool
  | .duplicateEntry _ => true
  | _ => false

/-- The second world is left by a change of state that was refused in the first one: apart from the
planned faults, the log and the count of duplicates nothing has changed. -/
def World.Refused (w : World) (edge : Edge) (e : DispatchError) (w' : World) : Prop :=
  ∃ plan events, w' = { w with
    queue := ⟨w.queue.queue, plan⟩
    sink := if e.isDuplicate && edge.entersQueue then w.sink.record .duplicateEntry else w.sink
    events }

lemma World.Refused.of_uncounted {e : DispatchError}
    (h : (e.isDuplicate && edge.entersQueue) = false) (plan : List Fault) (events : List Event) :
    w.Refused edge e { w with queue := ⟨w.queue.queue, plan⟩, events } := by
  unfold Refused
  rw [h]
  exact ⟨plan, events, rfl⟩

lemma World.Refused.log {e : DispatchError} {w' : World} (h : w.Refused edge e w') (event : Event) :
    w.Refused edge e { w' with events := event :: w'.events } := by
  obtain ⟨plan, events, rfl⟩ := h
  exact ⟨plan, _, rfl⟩

/-- Where duplicates are found by pushes only, they are what is counted. -/
lemma World.Refused.sink_of_push {e : DispatchError} {w' : World} (h : w.Refused edge e w')
    (hpush : ∀ k, e = .duplicateEntry k → edge.entersQueue = true) :
    w'.sink = if e.isDuplicate then w.sink.record .duplicateEntry else w.sink := by
  obtain ⟨plan, events, rfl⟩ := h
  cases e with
  | duplicateEntry k =>
    dsimp only
    rw [hpush k rfl, Bool.and_true]
  | _ => rfl

lemma World.push_error (hs : w.queue.Sure) {project : ProjectId} {tags : Tags} {time : Timestamp}
    {e : DispatchError} (h : (w.answer (.push id project tags time)).1 = .error e) :
    ∃ plan,
      (w.answer (.push id project tags time)).2 = { w with queue := ⟨w.queue.queue, plan⟩ } := by
  refine ⟨(w.answer (.push id project tags time)).2.queue.plan, ?_⟩
  have hqueue : (w.answer (.push id project tags time)).2.queue.queue = w.queue.queue := by
    cases hget : w.queue.queue.get? id with
    | none =>
      rcases World.push_cases hs project tags time hget with ⟨-, -, hq⟩ | ⟨receipt, hok, -⟩
      · exact hq
      · rw [hok] at h
        cases h
    | some entry =>
      rcases (FallibleQueue.guarded_cases .push none
        (fun q => q.push id project tags time) hs).1 with ⟨-, -, hq⟩ | ⟨-, hq⟩
      · exact hq
      · rw [Queue.push_of_get? _ _ _ _ _ hget] at hq
        exact hq
  rw [← hqueue]
  rfl

lemma World.push_ok (hs : w.queue.Sure) {project : ProjectId} {tags : Tags} {time : Timestamp}
    {receipt : Receipt} (h : (w.answer (.push id project tags time)).1 = .ok receipt) :
    ∃ entry, (w.answer (.push id project tags time)).2.queue.queue.get? id = some entry ∧
      entry.job = id := by
  rcases (FallibleQueue.guarded_cases .push none
    (fun q => q.push id project tags time) hs).1 with ⟨e, herr, -⟩ | ⟨hr, hq⟩
  · rw [show (w.answer (.push id project tags time)).1 = .error e from herr] at h
    cases h
  · have hthrough : (w.queue.queue.push id project tags time).1 = .ok receipt := hr.symm.trans h
    cases hget : w.queue.queue.get? id with
    | none =>
      refine ⟨w.queue.queue.newEntry id project tags time, ?_, rfl⟩
      rw [show (w.answer (.push id project tags time)).2.queue.queue = _ from hq]
      exact (Queue.get?_push _ _ _ _ _ hget id).trans (if_pos rfl)
    | some entry =>
      rw [Queue.push_of_get? _ _ _ _ _ hget] at hthrough
      cases hthrough

/-- A removal that fails leaves the queue as it was, and its error was planned. -/
lemma World.pop_error (hs : w.queue.Sure) {e : DispatchError}
    (h : (w.answer (.pop id)).1 = .error e) :
    (∃ plan, (w.answer (.pop id)).2 = { w with queue := ⟨w.queue.queue, plan⟩ }) ∧
      ∃ f ∈ w.queue.plan, f.call = .pop ∧ f.failure = .error e := by
  refine ⟨⟨(w.answer (.pop id)).2.queue.plan, ?_⟩, ?_⟩
  · rcases World.pop_cases hs id with ⟨-, -, hq⟩ | ⟨hok, -⟩
    · rw [← hq]
      rfl
    · rw [hok] at h
      cases h
  · simp only [World.answer, World.onQueue, FallibleQueue.pop, FallibleQueue.guarded] at h
    split at h
    · rename_i hstrike
      cases h
      exact FallibleQueue.strike_planned (congrArg Prod.fst hstrike)
    · cases h
    · cases h

/-! ### Effects on the queue -/

variable {job : Job} {now : Timestamp} {e : DispatchError}

lemma Edge.not_entersQueue (h : edge.leavesQueue = true) : edge.entersQueue = false := by
  obtain ⟨source, target⟩ := edge
  cases source with
  | pending => cases target <;> rfl
  | _ => cases h

lemma Edge.target_of_enqueue (h : edge.queueChange = .enqueue) : edge.target = .pending := by
  obtain ⟨source, target⟩ := edge
  cases target with
  | pending => rfl
  | _ => cases source <;> cases h

lemma Edge.entersQueue_of_enqueue (h : edge.queueChange = .enqueue) : edge.entersQueue = true := by
  obtain ⟨source, target⟩ := edge
  cases target with
  | pending =>
    cases source with
    | pending => cases h
    | _ => rfl
  | _ => cases source <;> cases h

lemma pushEntry_error (hs : w.queue.Sure)
    (h : ((pushEntry job edge now).run w).1 = .error e) :
    w.Refused edge e ((pushEntry job edge now).run w).2 := by
  unfold pushEntry at h ⊢
  split at h
  · rename_i hedge
    rw [if_pos hedge]
    cases h
    exact .of_uncounted rfl w.queue.plan w.events
  · rename_i hedge
    rw [if_neg hedge]
    have henters : edge.entersQueue = true := by simpa using hedge
    have hfailed := @World.push_error w job.id hs job.project job.tags now
    rw [run_bind, run_request] at h ⊢
    generalize w.answer (.push job.id job.project job.tags now) = pushed at h hfailed ⊢
    obtain ⟨err | receipt, w'⟩ := pushed
    · obtain ⟨plan, hw'⟩ := hfailed rfl
      dsimp only at hw'
      subst hw'
      cases err with
      | duplicateEntry k =>
        cases h
        unfold World.Refused
        rw [henters]
        exact ⟨plan, _, rfl⟩
      | _ =>
        cases h
        exact .of_uncounted rfl plan w.events
    · cases h

lemma popEntry_error (hs : w.queue.Sure) {kind : Departure}
    (h : ((popEntry job edge kind).run w).1 = .error e) :
    w.Refused edge e ((popEntry job edge kind).run w).2 ∧
      (e = .invalidQueueTransition edge ∨
        ∃ f ∈ w.queue.plan, f.call = .pop ∧ f.failure = .error e) := by
  unfold popEntry at h ⊢
  split at h
  · rename_i hedge
    rw [if_pos hedge]
    cases h
    exact ⟨.of_uncounted rfl w.queue.plan w.events, .inl rfl⟩
  · rename_i hedge
    rw [if_neg hedge]
    have hleaves : edge.leavesQueue = true := by simpa using hedge
    have hfailed := @World.pop_error w job.id hs
    rw [run_bind, run_request] at h ⊢
    generalize w.answer (.pop job.id) = popped at h hfailed ⊢
    obtain ⟨err | removed, w'⟩ := popped
    · cases h
      obtain ⟨⟨plan, hw'⟩, hplanned⟩ := hfailed rfl
      dsimp only at hw'
      subst hw'
      have huncounted : (e.isDuplicate && edge.entersQueue) = false := by
        rw [Edge.not_entersQueue hleaves, Bool.and_false]
      exact ⟨.of_uncounted huncounted plan w.events, .inr hplanned⟩
    · cases removed <;> cases h

/-- **An effect that fails is refused without a trace.** A duplicate is one of a push, unless a
removal was planned to fail as one. -/
lemma applyEffect_error (hs : w.queue.Sure)
    (h : ((applyEffect job edge now).run w).1 = .error e) :
    w.Refused edge e ((applyEffect job edge now).run w).2 ∧
      ∀ k, e = .duplicateEntry k → edge.entersQueue = true ∨
        ∃ f ∈ w.queue.plan, f.call = .pop ∧ f.failure = .error e := by
  unfold applyEffect at h ⊢
  cases hchange : edge.queueChange with
  | enqueue =>
    have hfailed := @pushEntry_error w edge job now
    rw [hchange] at h
    dsimp only at h ⊢
    rw [run_bind] at h ⊢
    generalize (pushEntry job edge now).run w = pushed at h hfailed ⊢
    obtain ⟨err | receipt, w'⟩ := pushed
    · cases h
      exact ⟨hfailed hs rfl, fun k _ => .inl (Edge.entersQueue_of_enqueue hchange)⟩
    · cases h
  | dequeueUnclaimed =>
    have hfailed := @popEntry_error w edge job e hs .unclaimed
    rw [hchange] at h
    dsimp only at h ⊢
    rw [run_bind] at h ⊢
    generalize (popEntry job edge .unclaimed).run w = popped at h hfailed ⊢
    obtain ⟨err | removed, w'⟩ := popped
    · cases h
      obtain ⟨hrefused, hcause⟩ := hfailed rfl
      refine ⟨hrefused, fun k hk => ?_⟩
      rcases hcause with rfl | hplanned
      · cases hk
      · exact .inr hplanned
    · cases h
  | dequeueClaimed | none =>
    rw [hchange] at h
    cases h

lemma pushEntry_ok (hs : w.queue.Sure) {receipt : Receipt}
    (h : ((pushEntry job edge now).run w).1 = .ok receipt) :
    ((pushEntry job edge now).run w).2.jobs = w.jobs ∧ ∃ entry,
      ((pushEntry job edge now).run w).2.queue.queue.get? job.id = some entry ∧
        entry.job = job.id := by
  unfold pushEntry at h ⊢
  split at h
  · cases h
  · rename_i hedge
    rw [if_neg hedge]
    have hentry := @World.push_ok w job.id hs job.project job.tags now
    have hjobs : (w.answer (.push job.id job.project job.tags now)).2.jobs = w.jobs := rfl
    rw [run_bind, run_request] at h ⊢
    generalize w.answer (.push job.id job.project job.tags now) = pushed at h hentry hjobs ⊢
    obtain ⟨err | answer, w'⟩ := pushed
    · cases err <;> cases h
    · exact ⟨hjobs, hentry rfl⟩

lemma applyEffect_ok (hs : w.queue.Sure) {job' : Job} {receipt? : Option Receipt}
    (h : ((applyEffect job edge now).run w).1 = .ok (job', receipt?)) :
    job'.id = job.id ∧ ((applyEffect job edge now).run w).2.jobs = w.jobs ∧
      (edge.queueChange = .enqueue → ∃ entry,
        ((applyEffect job edge now).run w).2.queue.queue.get? job.id = some entry ∧
          entry.job = job.id) := by
  unfold applyEffect at h ⊢
  cases hchange : edge.queueChange with
  | enqueue =>
    have hpushed := @pushEntry_ok w edge job now hs
    rw [hchange] at h
    dsimp only at h ⊢
    rw [run_bind] at h ⊢
    generalize (pushEntry job edge now).run w = pushed at h hpushed ⊢
    obtain ⟨err | receipt, w'⟩ := pushed
    · cases h
    · cases h
      obtain ⟨hjobs, hentry⟩ := hpushed rfl
      exact ⟨rfl, hjobs, fun _ => hentry⟩
  | dequeueUnclaimed =>
    have hjobs := popEntry_jobs job edge .unclaimed w
    rw [hchange] at h
    dsimp only at h ⊢
    rw [run_bind] at h ⊢
    generalize (popEntry job edge .unclaimed).run w = popped at h hjobs ⊢
    obtain ⟨err | removed, w'⟩ := popped
    · cases h
    · cases h
      exact ⟨rfl, hjobs, fun heq => by cases heq⟩
  | dequeueClaimed | none =>
    rw [hchange] at h
    cases h
    exact ⟨rfl, rfl, fun heq => by cases heq⟩

lemma givePlace_apart (worker : WorkerId) (w : World) :
    ((givePlace worker).run w).2.jobs = w.jobs ∧ ((givePlace worker).run w).2.queue = w.queue := by
  unfold givePlace
  rw [run_bind, run_request]
  cases (w.answer (.release worker)).1 <;> exact ⟨rfl, rfl⟩

lemma letGo_run (job : Job) (w : World) :
    ((letGo job).run w).1.id = job.id ∧ ((letGo job).run w).2.jobs = w.jobs ∧
      ((letGo job).run w).2.queue = w.queue := by
  unfold letGo
  cases job.claimedBy? with
  | none => exact ⟨rfl, rfl, rfl⟩
  | some worker =>
    dsimp only
    rw [run_bind, run_discard]
    exact ⟨rfl, givePlace_apart worker w⟩

/-! ### Changes of state -/

/-- The record that is stored once the effect of an edge is applied. -/
def settle (job : Job) (edge : Edge) : Program Job :=
  if edge.target.isFinal then letGo job else pure job

lemma settle_run (job : Job) (edge : Edge) (w : World) :
    ((settle job edge).run w).1.id = job.id ∧ ((settle job edge).run w).2.jobs = w.jobs ∧
      ((settle job edge).run w).2.queue = w.queue := by
  unfold settle
  split
  · exact letGo_run job w
  · exact ⟨rfl, rfl, rfl⟩

/-- A change of state is refused before it comes to its effect, or the effect fails, or the record
is stored. -/
lemma changeState_cases (id : JobId) (edge : Edge) (w : World) :
    (∃ e, (changeState id edge).run w = (.error e, w) ∧ ∀ k, e ≠ .duplicateEntry k) ∨
      ∃ job, w.jobs.find? id = some job ∧
        ((∃ e w', (applyEffect job edge w.now).run w = (.error e, w') ∧
          (changeState id edge).run w = (.error e, w')) ∨
        ∃ job' receipt? w' events, (applyEffect job edge w.now).run w = (.ok (job', receipt?), w') ∧
          (changeState id edge).run w =
            (.ok ⟨id, edge, edge.queueChange, receipt?⟩, { ((settle job' edge).run w').2 with
              jobs := ((settle job' edge).run w').2.jobs.insert ((settle job' edge).run w').1.id
                { ((settle job' edge).run w').1 with state := edge.target, updatedAt := w.now }
              events })) := by
  unfold changeState
  dsimp only
  split
  · exact .inl ⟨_, rfl, fun k hk => by cases hk⟩
  split
  · exact .inl ⟨_, rfl, fun k hk => by cases hk⟩
  have hlock : w.answer (.lockJob id) = (w.jobs.find? id, w) := rfl
  rw [run_bind, run_request, hlock]
  cases hjob : w.jobs.find? id with
  | none => exact .inl ⟨_, rfl, fun k hk => by cases hk⟩
  | some job =>
    dsimp only
    split
    · exact .inl ⟨_, rfl, fun k hk => by cases hk⟩
    · refine .inr ⟨job, rfl, ?_⟩
      have hclock : (request .clock).run w = (w.now, w) := rfl
      rw [run_bind, hclock]
      dsimp only
      rw [run_bind]
      generalize (applyEffect job edge w.now).run w = applied
      obtain ⟨err | ⟨job', receipt?⟩, w'⟩ := applied
      · exact .inl ⟨err, w', rfl, rfl⟩
      · refine .inr ⟨job', receipt?, w', ?_⟩
        unfold settle
        dsimp only
        split
        · rw [run_bind]
          exact ⟨_, rfl, rfl⟩
        · exact ⟨_, rfl, rfl⟩

/-- **A refused change of state leaves no trace.** -/
theorem changeState_error (hs : w.queue.Sure)
    (h : ((changeState id edge).run w).1 = .error e) :
    w.Refused edge e ((changeState id edge).run w).2 ∧
      ∀ k, e = .duplicateEntry k → edge.entersQueue = true ∨
        ∃ f ∈ w.queue.plan, f.call = .pop ∧ f.failure = .error e := by
  rcases changeState_cases id edge w with ⟨err, hrun, hplain⟩ | ⟨job, hjob, hcases⟩
  · rw [hrun] at h ⊢
    cases h
    have huncounted : (e.isDuplicate && edge.entersQueue) = false := by
      cases e with
      | duplicateEntry k => exact absurd rfl (hplain k)
      | _ => rfl
    exact ⟨.of_uncounted huncounted w.queue.plan w.events, fun k hk => absurd hk (hplain k)⟩
  rcases hcases with ⟨err, w', heffect, hrun⟩ | ⟨job', receipt?, w', events, -, hrun⟩
  · rw [hrun] at h ⊢
    cases h
    have hrefused := @applyEffect_error w edge job w.now e hs
    rw [heffect] at hrefused
    exact hrefused rfl
  · rw [hrun] at h
    cases h

/-- **An applied change of state leaves the job in its target**, and if it leads into the queue,
with an entry. -/
theorem changeState_ok (hw : w.Honest) {outcome : AppliedEdge}
    (h : ((changeState id edge).run w).1 = .ok outcome) :
    outcome.job = id ∧ outcome.effect = edge.queueChange ∧
      (∃ job, ((changeState id edge).run w).2.jobs.find? id = some job ∧
        job.state = edge.target) ∧
      (edge.queueChange = .enqueue → ∃ entry,
        ((changeState id edge).run w).2.queue.queue.get? id = some entry ∧
          entry.job = id) := by
  rcases changeState_cases id edge w with ⟨err, hrun, -⟩ | ⟨job, hjob, hcases⟩
  · rw [hrun] at h
    cases h
  rcases hcases with ⟨err, w', -, hrun⟩ | ⟨job', receipt?, w', events, heffect, hrun⟩
  · rw [hrun] at h
    cases h
  · have hid := hw.filed.jobs id job hjob
    obtain ⟨hid', -, hentry⟩ := @applyEffect_ok w edge job w.now hw.sure _ _
      (congrArg Prod.fst heffect)
    obtain ⟨hsettled, -, hqueue⟩ := settle_run job' edge w'
    rw [heffect, hid] at hentry
    rw [hrun] at h ⊢
    cases h
    refine ⟨rfl, rfl, ⟨{ ((settle job' edge).run w').1 with
      state := edge.target, updatedAt := w.now }, ?_, rfl⟩, fun henqueue => ?_⟩
    · rw [hsettled, hid', hid]
      exact Table.find?_insert_self _ _ _
    · dsimp only
      rw [hqueue]
      exact hentry henqueue

/-! ### Reports -/

variable {c : Config}

/-- The tick after a change of state takes nothing of it back. -/
lemma offerAfter_tells (hw : w.Honest) {outcome : AppliedEdge} (hnamed : outcome.effect = .enqueue →
      ∀ entry, w.queue.queue.get? outcome.job = some entry → entry.job = outcome.job) :
    (∀ a, ((Engine.offerAfter c outcome).run w).1 = some (.claimed a) →
      outcome.effect = .enqueue ∧ ∃ job,
        ((Engine.offerAfter c outcome).run w).2.jobs.find? outcome.job = some job ∧
          job.state = .running) ∧
    ((∀ a, ((Engine.offerAfter c outcome).run w).1 ≠ some (.claimed a)) →
      ((Engine.offerAfter c outcome).run w).2.jobs = w.jobs ∧
        ((Engine.offerAfter c outcome).run w).2.queue.queue = w.queue.queue) := by
  unfold Engine.offerAfter
  split
  · exact ⟨fun a ha => (by cases ha), fun _ => ⟨rfl, rfl⟩⟩
  · rename_i hticks
    have henqueue : outcome.effect = .enqueue := by
      simp only [Bool.or_eq_true, not_or] at hticks
      simpa using hticks.1
    have htells := tick_tells hw c.untaggedOnly (hnamed henqueue)
    rw [run_bind]
    generalize (tick c.untaggedOnly outcome.job).run w = ticked at htells ⊢
    obtain ⟨err | result, w'⟩ := ticked
    · refine ⟨fun a ha => (by cases ha), fun _ => htells.spared fun a ha => by cases ha⟩
    · refine ⟨fun a ha => ?_, fun hno => htells.spared fun a ha => ?_⟩
      · cases ha
        obtain ⟨-, job, -, -, hjobs⟩ := htells.claimed a rfl
        refine ⟨henqueue, job.claimedAs a.worker a.claimedAt, ?_, rfl⟩
        show w'.jobs.find? outcome.job = _
        rw [show w'.jobs = _ from hjobs]
        exact Table.find?_insert_self _ _ _
      · cases ha
        exact hno a rfl

lemma reportTransition_error {w' : World}
    (h : (changeState id edge).run w = (.error e, w')) :
    (Engine.reportTransition c id edge).run w = (⟨false, some e, .none, none⟩,
      { w' with events := .transitionRefused id edge e :: w'.events }) := by
  unfold Engine.reportTransition Engine.changeState
  rw [run_bind, run_bind, h]
  rfl

lemma reportTransition_ok {outcome : AppliedEdge} {w' : World}
    (h : (changeState id edge).run w = (.ok outcome, w')) :
    (Engine.reportTransition c id edge).run w =
      (⟨true, none, outcome.effect, ((Engine.offerAfter c outcome).run w').1⟩,
        ((Engine.offerAfter c outcome).run w').2) := by
  unfold Engine.reportTransition Engine.changeState
  rw [run_bind, run_bind, h]
  dsimp only
  rw [run_bind]
  rfl

lemma offerAfter_error {outcome : AppliedEdge}
    (h : ((tick c.untaggedOnly outcome.job).run w).1 = .error e) :
    ((Engine.offerAfter c outcome).run w).1 = none := by
  unfold Engine.offerAfter
  split
  · rfl
  · rw [run_bind]
    generalize (tick c.untaggedOnly outcome.job).run w = ticked at h ⊢
    obtain ⟨result, w'⟩ := ticked
    cases h
    rfl

lemma offerAfter_state (hw : w.Honest) {outcome : AppliedEdge} {w' : World}
    (h : (changeState id edge).run w = (.ok outcome, w')) :
    (∃ job, ((Engine.offerAfter c outcome).run w').2.jobs.find? id = some job ∧
      (job.state = edge.target ∧
          (∀ a, ((Engine.offerAfter c outcome).run w').1 ≠ some (.claimed a)) ∨
        job.state = .running ∧ edge.target = .pending ∧
          ∃ a, ((Engine.offerAfter c outcome).run w').1 = some (.claimed a))) ∧
    ((∀ a, ((Engine.offerAfter c outcome).run w').1 ≠ some (.claimed a)) →
      ((Engine.offerAfter c outcome).run w').2.jobs = w'.jobs ∧
        ((Engine.offerAfter c outcome).run w').2.queue.queue = w'.queue.queue) := by
  obtain ⟨rfl, heffect, ⟨job, hfind, hstate⟩, hentry⟩ := changeState_ok hw (congrArg Prod.fst h)
  have hhonest := hw.run (changeState outcome.job edge)
  rw [h] at hfind hentry hhonest
  have hnamed : outcome.effect = .enqueue → ∀ entry,
      w'.queue.queue.get? outcome.job = some entry → entry.job = outcome.job := by
    intro henqueue entry hget
    obtain ⟨known, hknown, hid⟩ := hentry (heffect ▸ henqueue)
    rw [show w'.queue.queue.get? outcome.job = _ from hknown] at hget
    cases hget
    exact hid
  obtain ⟨hclaimed, hspared⟩ := offerAfter_tells hhonest hnamed
  refine ⟨?_, hspared⟩
  by_cases hany : ∃ a, ((Engine.offerAfter c outcome).run w').1 = some (.claimed a)
  · obtain ⟨a, ha⟩ := hany
    obtain ⟨henqueue, running, hrunning, hruns⟩ := hclaimed a ha
    exact ⟨running, hrunning, .inr ⟨hruns, Edge.target_of_enqueue (heffect ▸ henqueue), a, ha⟩⟩
  · have hno : ∀ a, ((Engine.offerAfter c outcome).run w').1 ≠ some (.claimed a) :=
      fun a ha => hany ⟨a, ha⟩
    refine ⟨job, ?_, .inl ⟨hstate, hno⟩⟩
    rw [show ((Engine.offerAfter c outcome).run w').2.jobs = _ from (hspared hno).1]
    exact hfind

/-- **Changes of state apply or leave no trace.** However the calls on the queue fail: if a change
is refused, jobs, entries, numbers and workers are as they were, and the one count that may have
gone up is that of duplicates, if the refusal is one (a removal does not fail as a duplicate). The
engine reports a change as applied if and only if it was; the job is in the target then, or runs, if
the target is to wait and the tick that follows says that it was claimed. Any other outcome of that
tick, an error among them, leaves jobs and entries as the change did. -/
theorem changes_apply_or_leave_no_trace (hw : w.Honest) (c : Config) (id : JobId) (edge : Edge) :
    let change := (changeState id edge).run w
    let report := (Engine.reportTransition c id edge).run w
    (∀ e, change.1 = .error e → w.Refused edge e change.2) ∧
    ((∀ f ∈ w.queue.plan, f.call = .pop → ∀ k, f.failure ≠ .error (.duplicateEntry k)) →
      ∀ e, change.1 = .error e → change.2.sink =
        if e.isDuplicate then w.sink.record .duplicateEntry else w.sink) ∧
    (report.1.applied = true ↔ ∃ outcome, change.1 = .ok outcome) ∧
    (report.1.applied = false →
      ∃ e, report.1.reason? = some e ∧ change.1 = .error e ∧ w.Refused edge e report.2) ∧
    (report.1.applied = true →
      (∃ job, report.2.jobs.find? id = some job ∧
        (job.state = edge.target ∧ (∀ a, report.1.dispatch? ≠ some (.claimed a)) ∨
          job.state = .running ∧ edge.target = .pending ∧
            ∃ a, report.1.dispatch? = some (.claimed a))) ∧
      ((∀ a, report.1.dispatch? ≠ some (.claimed a)) →
        report.2.jobs = change.2.jobs ∧ report.2.queue.queue = change.2.queue.queue)) ∧
    ∀ outcome e, change.1 = .ok outcome → ((tick c.untaggedOnly id).run change.2).1 = .error e →
      report.1 = ⟨true, none, edge.queueChange, none⟩ := by
  intro change report
  have hchange : change = (changeState id edge).run w := rfl
  have hreport : report = (Engine.reportTransition c id edge).run w := rfl
  clear_value change report
  cases hrun : (changeState id edge).run w with
  | mk result w' =>
    cases result with
    | error e =>
      obtain ⟨htrace, hduplicate⟩ := changeState_error (e := e) hw.sure (congrArg Prod.fst hrun)
      rw [hrun] at hchange htrace
      rw [reportTransition_error hrun] at hreport
      subst hchange hreport
      refine ⟨fun e h => ?_, fun hpops e h => ?_,
        ⟨fun h => Bool.noConfusion h, fun ⟨_, h⟩ => (by cases h)⟩, fun _ => ?_,
        fun h => Bool.noConfusion h, fun _ _ h => (by cases h)⟩
      · cases h
        exact htrace
      · cases h
        exact htrace.sink_of_push fun k hk => (hduplicate k hk).resolve_right
          fun ⟨f, hf, hcall, hfailure⟩ => hpops f hf hcall k (hk ▸ hfailure)
      · exact ⟨e, rfl, rfl, htrace.log _⟩
    | ok outcome =>
      obtain ⟨hjob, heffect, -, -⟩ := changeState_ok hw (congrArg Prod.fst hrun)
      rw [hrun] at hchange
      rw [reportTransition_ok hrun, heffect] at hreport
      subst hchange hreport
      refine ⟨fun _ h => (by cases h), fun _ _ h => (by cases h),
        ⟨fun _ => ⟨outcome, rfl⟩, fun _ => rfl⟩, fun h => Bool.noConfusion h,
        fun _ => offerAfter_state hw hrun, fun _ e h herr => ?_⟩
      rw [← hjob] at herr
      rw [offerAfter_error herr]

/-- A worker is ready, a job is registered, and the next look-up of an entry is to fail. -/
def tickFailing : World :=
  (Engine.initial .standard (.counting .zero) .epoch).acts (Engine.Operation.program .standard)
    [.call (.heartbeat ⟨⟨.ofNat 1⟩, .empty, 1, .epoch, .everyProject, true⟩),
      .call (.register ⟨⟨.ofNat 2⟩, ⟨.ofNat 3⟩, .empty⟩),
      .plan .get 0 (.leaseOutOfRange "injected")]

theorem changes_apply_or_leave_no_trace_tickFailing :
    let queued := (Engine.reportTransition .standard ⟨.ofNat 2⟩ Engine.enqueueEdge).run tickFailing
    let canceled := (Engine.reportTransition .standard ⟨.ofNat 2⟩ Engine.cancelEdge).run tickFailing
    queued.1 = ⟨true, none, .enqueue, none⟩ ∧
      (∃ job, queued.2.jobs.find? ⟨.ofNat 2⟩ = some job ∧ job.state = .pending) ∧
      ∃ e, tickFailing.Refused Engine.cancelEdge e canceled.2 := by
  have hhonest : tickFailing.Honest :=
    Engine.Reachable.honest (c := .standard) ⟨_, _, _, rfl⟩
  obtain ⟨-, -, -, -, happlied, hfailed⟩ :=
    changes_apply_or_leave_no_trace hhonest .standard ⟨.ofNat 2⟩ Engine.enqueueEdge
  obtain ⟨-, -, -, hrefused, -⟩ :=
    changes_apply_or_leave_no_trace hhonest .standard ⟨.ofNat 2⟩ Engine.cancelEdge
  have hchange : ((changeState ⟨.ofNat 2⟩ Engine.enqueueEdge).run tickFailing).1 =
      .ok ⟨⟨.ofNat 2⟩, Engine.enqueueEdge, .enqueue, some ⟨⟨.ofNat 2⟩, 1⟩⟩ := by decide +kernel
  have htick : ((tick Config.standard.untaggedOnly ⟨.ofNat 2⟩).run
      ((changeState ⟨.ofNat 2⟩ Engine.enqueueEdge).run tickFailing).2).1 =
        .error (.leaseOutOfRange "injected") := by decide +kernel
  have hreport := hfailed _ _ hchange htick
  obtain ⟨⟨job, hjob, hstate⟩, -⟩ := happlied (by rw [hreport])
  refine ⟨hreport, ⟨job, hjob, ?_⟩, ?_⟩
  · rcases hstate with ⟨hpending, -⟩ | ⟨-, -, a, ha⟩
    · exact hpending
    · rw [hreport] at ha
      cases ha
  · obtain ⟨e, -, -, htrace⟩ := hrefused (by decide +kernel)
    exact ⟨e, htrace⟩

/-! ### Refusals that pass for duplicates, and removals in between -/

/-- A job is queued in vain, and the next removal of an entry is to fail as if for a duplicate. -/
def popFailing : World :=
  (Engine.initial .standard (.counting .zero) .epoch).acts (Engine.Operation.program .standard)
    [.call (.enqueue ⟨⟨.ofNat 2⟩, ⟨.ofNat 3⟩, .empty⟩), .plan .pop 0 (.duplicateEntry ⟨.ofNat 2⟩)]

def Program.reply? {α : Type} : Program α → Option α
  | done a => some a
  | ask .. => none

def reportOrRemove : Bool → Program (Option Engine.Verdict)
  | true => some <$> Engine.reportTransition .standard ⟨.ofNat 2⟩ Engine.enqueueEdge
  | false => (fun _ => none) <$> Engine.dequeue ⟨.ofNat 2⟩

/-- The report comes while a worker is ready, and the removal while the job is offered to it. -/
def removedWhenOffered : System Bool (Option Engine.Verdict) :=
  (System.initial ((Engine.initial .standard (.counting .zero) .epoch).acts
    (Engine.Operation.program .standard)
    [.call (.heartbeat ⟨⟨.ofNat 1⟩, .empty, 1, .epoch, .everyProject, true⟩),
      .call (.register ⟨⟨.ofNat 2⟩, ⟨.ofNat 3⟩, .empty⟩)])).run reportOrRemove
    ([.start true] ++ List.replicate 11 (.step 0) ++ [.start false] ++ List.replicate 6 (.step 1) ++
      List.replicate 3 (.step 0))

/-- **A refusal may pass for a duplicate that is not counted**, where a removal fails as if for one;
and a change that is reported as applied may have been followed by another, which comes between it
and the end of the tick. -/
theorem uncounted_duplicate_and_removal :
    (((changeState ⟨.ofNat 2⟩ Engine.cancelEdge).run popFailing).1 =
        .error (.duplicateEntry ⟨.ofNat 2⟩) ∧
      ((changeState ⟨.ofNat 2⟩ Engine.cancelEdge).run popFailing).2.sink = popFailing.sink) ∧
    removedWhenOffered.threads.map (fun t => t.rest.reply?) =
        [some (some ⟨true, none, .enqueue, some .alreadyClaimed⟩), some none] ∧
      (removedWhenOffered.world.jobs.find? ⟨.ofNat 2⟩).map Job.state = some .canceled := by
  refine ⟨⟨?_, ?_⟩, ?_, ?_⟩
  · decide +kernel
  · decide +kernel
  · decide +kernel
  · decide +kernel

end JobDispatch

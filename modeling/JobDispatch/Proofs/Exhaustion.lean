import JobDispatch.Proofs.Passes
import JobDispatch.Proofs.Placement

/-!
A sweep that comes to the end of the queue leaves nothing to hand out. Claims only take places, and
time only takes workers out of contact, so that an entry without a worker stays without one as long
as nobody reports in and no job ends (`Registry.choice_takePlace`, `Registry.choice_later`). A
sweep without a cap therefore leaves a world in which no entry has a worker, and further passes find
it as they leave it (`sweep_leaves_nothing`).
-/

namespace JobDispatch

open Program

/-! ### Entries without a worker -/

lemma Worker.inContact_of_later {worker : Worker} {now now' : Timestamp} {staleAfter : Int}
    (hle : now ≤ now') (h : worker.inContact now' staleAfter = true) :
    worker.inContact now staleAfter = true := by
  have hlater := of_decide_eq_true h
  refine decide_eq_true ?_
  have hnanos := Timestamp.le_def.1 hle
  unfold Timestamp.since at hlater ⊢
  omega

namespace Registry

variable {r : Registry} {untaggedOnly : Bool} {now : Timestamp} {e : QueueEntry}

lemma choice_eq_none_iff :
    r.choice untaggedOnly now e = none ↔ ∀ id worker, r.get? id = some worker →
      worker.eligible e ⟨now, r.staleAfter, untaggedOnly⟩ = false := by
  unfold choice
  rw [List.head?_eq_none_iff, List.eq_nil_iff_forall_not_mem]
  constructor
  · intro h id worker hget
    by_contra hne
    rw [Bool.not_eq_false] at hne
    exact h worker (mem_rank.2 ⟨Table.mem_values.2 ⟨id, hget⟩, hne⟩)
  · intro h worker hmem
    obtain ⟨hvalue, heligible⟩ := mem_rank.1 hmem
    obtain ⟨id, hget⟩ := Table.mem_values.1 hvalue
    rw [h id worker hget] at heligible
    cases heligible

/-- A claim makes nobody eligible: its worker was ready before. -/
lemma choice_takePlace (h : r.choice untaggedOnly now e = none) (id : WorkerId) :
    (r.takePlace id now).2.choice untaggedOnly now e = none := by
  cases htake : (r.takePlace id now).1 with
  | some reason =>
    rw [r.takePlace_of_blocked htake]
    exact h
  | none =>
    obtain ⟨worker, hget, hcontact, hroom, hregistry⟩ := r.takePlace_eq_none htake
    rw [choice_eq_none_iff] at h ⊢
    rw [hregistry]
    intro k other hother
    rw [get?_put] at hother
    split at hother
    · cases hother
      have hready : worker.isReady now r.staleAfter = true := by
        simp [Worker.isReady, Worker.room_pos_iff, hroom, hcontact]
      have hworker := h id worker hget
      simp only [Worker.eligible, hready, Bool.and_true] at hworker
      show (worker.scope.covers e.project && _ && worker.fitsTags e.tags untaggedOnly) = false
      rw [Bool.and_right_comm, hworker, Bool.false_and]
    · exact h k other hother

lemma choice_later (h : r.choice untaggedOnly now e = none) {now' : Timestamp}
    (hle : now ≤ now') : r.choice untaggedOnly now' e = none := by
  rw [choice_eq_none_iff] at h ⊢
  intro id worker hget
  have hworker := h id worker hget
  by_contra heligible
  rw [Bool.not_eq_false] at heligible
  simp only [Worker.eligible, Worker.isReady, Bool.and_eq_true] at heligible
  obtain ⟨⟨hscope, hroom, hcontact⟩, htags⟩ := heligible
  have hbefore := Worker.inContact_of_later hle hcontact
  simp [Worker.eligible, Worker.isReady, hscope, hroom, hbefore, htags] at hworker

end Registry

variable {w w' : World} {untaggedOnly : Bool}

/-- No entry in the queue has a worker that may take it. -/
def World.Exhausted (untaggedOnly : Bool) (w : World) : Prop :=
  ∀ id e, w.queue.queue.get? id = some e → w.registry.choice untaggedOnly w.now e = none

/-! ### Ticks -/

lemma World.AtRest.ticked_cases (hw : w.AtRest) (untaggedOnly : Bool) {e : QueueEntry}
    (he : w.queue.queue.get? e.job = some e) :
    (w.registry.choice untaggedOnly w.now e = none ∧ w.ticked untaggedOnly e = w) ∨
      ∃ worker job, w.registry.choice untaggedOnly w.now e = some worker ∧ job.id = e.job ∧
        w.ticked untaggedOnly e = w.handOver job worker.id := by
  obtain ⟨job, hjob, hid, -⟩ := hw.still.job_of_get? he
  unfold World.ticked
  cases hchoice : w.registry.choice untaggedOnly w.now e with
  | none => exact .inl ⟨rfl, rfl⟩
  | some worker =>
    rw [hjob]
    exact .inr ⟨worker, job, rfl, hid, rfl⟩

lemma World.AtRest.get?_ticked (hw : w.AtRest) {e : QueueEntry}
    (he : w.queue.queue.get? e.job = some e) {id : JobId} (hne : id ≠ e.job) :
    (w.ticked untaggedOnly e).queue.queue.get? id = w.queue.queue.get? id := by
  rcases hw.ticked_cases untaggedOnly he with ⟨-, hsame⟩ | ⟨worker, job, -, hid, hgone⟩
  · rw [hsame]
  · rw [hgone]
    show (w.queue.queue.pop job.id).2.get? id = _
    rw [Queue.get?_pop, hid, if_neg hne]

/-- What a tick leaves in the queue was there before; it had no worker if it was the entry ticked,
and it has none if it had none. -/
lemma World.AtRest.choice_ticked (hw : w.AtRest) {e : QueueEntry}
    (he : w.queue.queue.get? e.job = some e) {id : JobId} {e' : QueueEntry}
    (he' : (w.ticked untaggedOnly e).queue.queue.get? id = some e') :
    w.queue.queue.get? id = some e' ∧
      (e' = e ∨ w.registry.choice untaggedOnly w.now e' = none →
        (w.ticked untaggedOnly e).registry.choice untaggedOnly w.now e' = none) := by
  rcases hw.ticked_cases untaggedOnly he with ⟨hnone, hsame⟩ | ⟨worker, job, -, hid, hgone⟩
  · rw [hsame] at he' ⊢
    refine ⟨he', ?_⟩
    rintro (rfl | h)
    · exact hnone
    · exact h
  · rw [hgone] at he' ⊢
    have hpop : (w.queue.queue.pop job.id).2.get? id = some e' := he'
    rw [Queue.get?_pop] at hpop
    split at hpop
    · cases hpop
    rename_i hne
    refine ⟨hpop, ?_⟩
    rintro (rfl | h)
    · exact absurd ((hw.aligned.listed id e' hpop).1.symm.trans hid.symm) hne
    · exact Registry.choice_takePlace h worker.id

/-- **Ticks of all entries leave none that has a worker**, the entries being ticked in any order. -/
theorem World.AtRest.exhausted_offerAll (hw : w.AtRest) (untaggedOnly : Bool)
    {es : List QueueEntry}
    (hqueued : ∀ e ∈ es, w.queue.queue.get? e.job = some e)
    (hdistinct : es.Pairwise fun a b => a.job ≠ b.job)
    (hothers : ∀ id e, w.queue.queue.get? id = some e →
      e ∈ es ∨ w.registry.choice untaggedOnly w.now e = none) :
    ((offerAll untaggedOnly es).run w).2.Exhausted untaggedOnly := by
  induction es generalizing w with
  | nil => exact fun id e he => (hothers id e he).resolve_left List.not_mem_nil
  | cons e es ih =>
    have he := hqueued e List.mem_cons_self
    obtain ⟨hne, hdistinct'⟩ := List.pairwise_cons.1 hdistinct
    obtain ⟨w', hrun, halike⟩ := hw.still.offerEntry_run untaggedOnly he
    have hw' := (hw.of_offerEntry untaggedOnly e).1
    simp only [offerAll, run_bind, run_pure]
    rw [hrun] at hw' ⊢
    have hnow : w'.now = w.now := by
      rcases hw.ticked_cases untaggedOnly he with ⟨-, hsame⟩ | ⟨worker, job, -, -, hgone⟩
      · rw [halike.now, hsame]
      · rw [halike.now, hgone]
        rfl
    refine ih hw' (fun e' he' => ?_) hdistinct' fun id e' he' => ?_
    · rw [halike.queue, hw.get?_ticked he (hne e' he').symm]
      exact hqueued e' (List.mem_cons_of_mem _ he')
    · rw [halike.queue] at he'
      obtain ⟨hbefore, hnone⟩ := hw.choice_ticked he he'
      rw [halike.registry, hnow]
      rcases hothers id e' hbefore with hmem | h
      · rcases List.mem_cons.1 hmem with rfl | hmem
        · exact .inr (hnone (.inl rfl))
        · exact .inl hmem
      · exact .inr (hnone (.inr h))

/-- **Where no entry has a worker, ticks do nothing.** -/
theorem World.Exhausted.offerAll (h : w.Exhausted untaggedOnly) (hw : w.AtRest)
    {es : List QueueEntry} (hqueued : ∀ e ∈ es, w.queue.queue.get? e.job = some e) :
    ((offerAll untaggedOnly es).run w).2.Alike w ∧
      ∀ outcome ∈ ((JobDispatch.offerAll untaggedOnly es).run w).1,
        outcome = .ok .noEligibleWorker := by
  induction es generalizing w with
  | nil => exact ⟨⟨rfl, rfl, rfl, rfl⟩, fun _ hmem => absurd hmem List.not_mem_nil⟩
  | cons e es ih =>
    have he := hqueued e List.mem_cons_self
    have hnone := h e.job e he
    obtain ⟨w', hrun, halike⟩ := hw.still.offerEntry_run untaggedOnly he
    have hsame : w.ticked untaggedOnly e = w := by
      unfold World.ticked
      rw [hnone]
    have hverdict : w.registry.verdict untaggedOnly w.now e = .noEligibleWorker := by
      unfold Registry.verdict
      rw [hnone]
    rw [hsame] at halike
    have h' : w'.Exhausted untaggedOnly := by
      intro id e' he'
      rw [halike.queue] at he'
      rw [halike.registry, halike.now]
      exact h id e' he'
    obtain ⟨hrest, houtcomes⟩ := ih h' (hw.congr halike) fun e' he' => by
      rw [halike.queue]
      exact hqueued e' (List.mem_cons_of_mem _ he')
    simp only [JobDispatch.offerAll, run_bind, run_pure]
    rw [hrun]
    refine ⟨hrest.trans halike, fun outcome hmem => ?_⟩
    rcases List.mem_cons.1 hmem with rfl | hmem
    · rw [hverdict]
    · exact houtcomes outcome hmem

/-! ### Passes -/

variable {plan : SweepPlan}

/-- What a pass without a cap comes to, if no earlier one is to be taken up. -/
structure WholePass (untaggedOnly : Bool) (w : World) (r : PassReport) (w' : World) : Prop where
  report : ∃ batches, r =
    { (PassReport.start false).tally
        ((offerAll untaggedOnly w.queue.queue.toList).run w).1 with batches, completed := true }
  alike : w'.Alike ((offerAll untaggedOnly w.queue.queue.toList).run w).2
  fresh : w'.progress.resumes = false
  unheld : w'.leases.held.find? sweepLeaseKey = none

theorem World.AtRest.wholePass (hw : w.AtRest) (untaggedOnly : Bool) (hb : plan.batchSize ≠ 0)
    (hcap : plan.maxBatches? = none) (hfresh : w.progress.resumes = false)
    (hfree : w.LeaseFree plan) :
    ∃ r w', (sweep plan untaggedOnly).run w = (.ok r, w') ∧ WholePass untaggedOnly w r w' := by
  have hpos : 0 < plan.batchSize.toNat := toNat_pos_of_ne_zero hb
  have hes : w.queue.queue.entriesAfter w.progress.start? = w.queue.queue.toList := by
    rw [SweepRecord.start?, hfresh, if_neg Bool.false_ne_true, Queue.entriesAfter_none]
  obtain ⟨r, w', hrun, hpass, -, hunheld, -⟩ := hw.readable.passRun_sweep .plain untaggedOnly hb
    (by rw [hcap]; exact (Option.some_ne_none _).symm) hfree hes
  have hall : w.queue.queue.toList.length ≤
      plan.share 0 w.queue.queue.toList.length * plan.batchSize.toNat := by
    rw [SweepPlan.share, hcap]
    exact SweepPlan.le_pages_mul hpos _
  rw [List.take_of_length_le hall, List.drop_of_length_le hall, hfresh] at hpass
  obtain ⟨os, -, hreport, hserial⟩ := hpass.ticks
  obtain ⟨rfl, halike⟩ := hserial (Rota.plain_unmixed plan)
  exact ⟨r, w', hrun, ⟨_, hreport⟩, halike, hpass.resumes, hunheld⟩

lemma leaseFree_of_sweep {r : PassReport}
    (h : (sweep plan untaggedOnly).run w = (.ok r, w')) : w.LeaseFree plan := by
  rw [sweep_eq] at h
  rw [run_bind] at h
  change (request (.obtainLease sweepLeaseKey plan.leaseTimeout.delta w.now) >>= _).run w = _ at h
  rw [run_bind] at h
  cases hlease : w.leases.obtain? sweepLeaseKey plan.leaseTimeout.delta w.now with
  | mk result l =>
    have hanswer : (request (.obtainLease sweepLeaseKey plan.leaseTimeout.delta w.now)).run w =
        (result, { w with leases := l }) := by
      show ((w.leases.obtain? _ _ _).1, { w with leases := (w.leases.obtain? _ _ _).2 }) = _
      rw [hlease]
    rw [hanswer] at h
    cases result with
    | error e => cases h
    | ok lease => exact ⟨lease, l, hlease⟩

lemma sweep_run_of_refused {rota : Rota} {e : DispatchError}
    (h : w.leases.obtain? sweepLeaseKey plan.leaseTimeout.delta w.now = (.error e, w.leases)) :
    (sweepBy rota plan untaggedOnly).run w = (.error e, w) := by
  have hanswer : (request (.obtainLease sweepLeaseKey plan.leaseTimeout.delta w.now)).run w =
      (.error e, w) := by
    show ((w.leases.obtain? _ _ _).1, { w with leases := (w.leases.obtain? _ _ _).2 }) = _
    rw [h]
  unfold sweepBy
  rw [run_bind]
  change (request (.obtainLease sweepLeaseKey plan.leaseTimeout.delta w.now) >>= _).run w = _
  rw [run_bind, hanswer]
  rfl

/-- All is done: no entry has a worker, no pass is to be taken up, and the lease is not held. -/
structure World.Spent (untaggedOnly : Bool) (w : World) : Prop where
  rest : w.AtRest
  exhausted : w.Exhausted untaggedOnly
  fresh : w.progress.resumes = false
  unheld : w.leases.held.find? sweepLeaseKey = none

/-- **A pass without a cap leaves all done.** -/
theorem WholePass.spent {r : PassReport} (hw : w.AtRest) (h : WholePass untaggedOnly w r w') :
    w'.Spent untaggedOnly := by
  have hexhausted := hw.exhausted_offerAll untaggedOnly
    (fun e he => Queue.mem_toList hw.aligned he) hw.aligned.toList_distinct
    fun id e he => .inl (hw.aligned.mem_toList_of_get? he)
  refine ⟨(hw.of_offerAll untaggedOnly _).congr h.alike, fun id e he => ?_, h.fresh, h.unheld⟩
  rw [h.alike.queue] at he
  rw [h.alike.registry, h.alike.now]
  exact hexhausted id e he

lemma World.Spent.later (h : w.Spent untaggedOnly) {now : Timestamp} (hle : w.now ≤ now) :
    ({ w with now } : World).Spent untaggedOnly where
  rest := ⟨h.rest.sound.congr rfl rfl h.rest.sound.kept.sure rfl, h.rest.plan, h.rest.aligned⟩
  exhausted id e he := Registry.choice_later (h.exhausted id e he) hle
  fresh := h.fresh
  unheld := h.unheld

def IdlePass (result : Except DispatchError PassReport) : Prop :=
  (∃ r, result = .ok r ∧ r.completed = true ∧ r.claimed = 0) ∨
    result = .error (.leaseOutOfRange sweepLeaseKey)

/-- **When all is done a pass changes nothing.** It may be refused its lease past the end of
time. -/
theorem World.Spent.sweep (h : w.Spent untaggedOnly) (hb : plan.batchSize ≠ 0)
    (hcap : plan.maxBatches? = none) :
    ∃ result w', (JobDispatch.sweep plan untaggedOnly).run w = (result, w') ∧ IdlePass result ∧
      w'.Alike w ∧ w'.progress.resumes = false ∧
      w'.leases.held.find? sweepLeaseKey = none := by
  cases hadd : w.now.add? plan.leaseTimeout.delta with
  | none =>
    refine ⟨.error (.leaseOutOfRange sweepLeaseKey), w, ?_, .inr rfl, ⟨rfl, rfl, rfl, rfl⟩,
      h.fresh, h.unheld⟩
    refine sweep_run_of_refused ?_
    unfold Leases.obtain?
    rw [hadd]
  | some expiresAt =>
    obtain ⟨r, w', hrun, hpass⟩ := h.rest.wholePass untaggedOnly hb hcap h.fresh
      (Leases.obtain?_of_unheld h.unheld hadd)
    obtain ⟨halike, houtcomes⟩ := h.exhausted.offerAll h.rest
      fun e he => Queue.mem_toList h.rest.aligned he
    refine ⟨_, w', hrun, .inl ⟨r, rfl, ?_⟩, hpass.alike.trans halike, hpass.fresh, hpass.unheld⟩
    obtain ⟨batches, rfl⟩ := hpass.report
    refine ⟨rfl, ?_⟩
    rw [PassReport.counts_claimed.close, PassReport.counts_claimed.tally,
      PassReport.counts_claimed.start, Nat.zero_add, List.countP_eq_zero]
    intro outcome hmem
    rw [houtcomes outcome hmem]
    exact Bool.false_ne_true

/-! ### Passes one after the other -/

/-- Passes at times that are set one after the other, with nothing in between. -/
def sweepsAt (plan : SweepPlan) (untaggedOnly : Bool) :
    List Timestamp → World → List (Except DispatchError PassReport) × World
  | [], w => ([], w)
  | now :: times, w =>
    let pass := (sweep plan untaggedOnly).run { w with now }
    let later := sweepsAt plan untaggedOnly times pass.2
    (pass.1 :: later.1, later.2)

/-- All stays done over passes at any times that are not before the one at which it was. -/
lemma sweepsAt_of_spent (hb : plan.batchSize ≠ 0) (hcap : plan.maxBatches? = none)
    {now : Timestamp} (h : ({ w with now } : World).Spent untaggedOnly) {times : List Timestamp}
    (hle : ∀ time ∈ times, now ≤ time) :
    (∀ result ∈ (sweepsAt plan untaggedOnly times w).1, IdlePass result) ∧
      (sweepsAt plan untaggedOnly times w).2.jobs = w.jobs ∧
      (sweepsAt plan untaggedOnly times w).2.registry = w.registry ∧
      (sweepsAt plan untaggedOnly times w).2.queue = w.queue := by
  induction times generalizing w with
  | nil => exact ⟨fun _ hmem => absurd hmem List.not_mem_nil, rfl, rfl, rfl⟩
  | cons time times ih =>
    obtain ⟨result, w', hrun, hidle, halike, hfresh, hunheld⟩ :=
      (h.later (hle time List.mem_cons_self)).sweep hb hcap
    have halike' : ({ w' with now } : World).Alike { w with now } :=
      ⟨halike.jobs, halike.queue, halike.registry, rfl⟩
    have h' : ({ w' with now } : World).Spent untaggedOnly := by
      refine ⟨h.rest.congr halike', fun id e he => ?_, hfresh, hunheld⟩
      rw [halike'.queue] at he
      rw [halike'.registry]
      exact h.exhausted id e he
    obtain ⟨hlater, hjobs, hregistry, hqueue⟩ :=
      ih h' fun t ht => hle t (List.mem_cons_of_mem _ ht)
    unfold sweepsAt
    rw [hrun]
    refine ⟨fun result' hmem => ?_, hjobs.trans halike.jobs, hregistry.trans halike.registry,
      hqueue.trans halike.queue⟩
    rcases List.mem_cons.1 hmem with rfl | hmem
    · exact hidle
    · exact hlater result' hmem

/-- **A sweep leaves nothing to hand out**, and passes after it, whenever they come, claim nothing
and leave jobs, workers and queue as they are. The table of jobs counts its rows in 64 bits, so that
the numbers of entries never run out. -/
theorem sweep_leaves_nothing {c : Config} (plan : SweepPlan) (untaggedOnly : Bool)
    (hreach : Engine.Reachable c w) (hroom : w.jobs.size < UInt64.size)
    (hplan : w.queue.plan = [])
    (hphase : w.progress.phase = .idle ∨ w.progress.phase = .completed)
    (hbatch : plan.batchSize ≠ 0) (hcap : plan.maxBatches? = none) {r : PassReport}
    (hok : (sweep plan untaggedOnly).run w = (.ok r, w')) :
    (∀ id e, w'.queue.queue.get? id = some e →
      rank e w'.registry.workers.values ⟨w.now, w'.registry.staleAfter, untaggedOnly⟩ = []) ∧
    ∀ times : List Timestamp, (∀ time ∈ times, w.now ≤ time) →
      let later := sweepsAt plan untaggedOnly times w'
      (∀ result ∈ later.1, (∃ report, result = .ok report ∧ report.completed = true ∧
          report.claimed = 0) ∨ result = .error (.leaseOutOfRange sweepLeaseKey)) ∧
        later.2.jobs = w'.jobs ∧ later.2.registry = w'.registry ∧ later.2.queue = w'.queue := by
  have hsound := hreach.sound
  have hrest : w.AtRest := ⟨hsound, hplan, hsound.numbered.aligned hroom⟩
  have hfresh := SweepRecord.resumes_eq_false hphase
  obtain ⟨r', v, hrun, hpass⟩ :=
    hrest.wholePass untaggedOnly hbatch hcap hfresh (leaseFree_of_sweep hok)
  obtain ⟨rfl, rfl⟩ : r' = r ∧ v = w' := by
    have heq := hrun.symm.trans hok
    cases heq
    exact ⟨rfl, rfl⟩
  have hspent := hpass.spent hrest
  have hnow : v.now = w.now :=
    hpass.alike.now.trans ((offerAll_asks untaggedOnly _).aside w).2.2
  have hspent' : ({ v with now := w.now } : World).Spent untaggedOnly := by
    rw [← hnow]
    exact hspent
  refine ⟨fun id e he => ?_, fun times hle => ?_⟩
  · exact List.head?_eq_none_iff.1 (hspent'.exhausted id e he)
  · exact sweepsAt_of_spent hbatch hcap hspent' hle

def smallestPages : SweepPlan := { smallestPasses.sweepPlan with maxBatches? := none }

theorem sweep_leaves_nothing_twoWaiting : ∃ r w',
    (sweep smallestPages true).run twoWaiting = (.ok r, w') ∧
    (∀ id e, w'.queue.queue.get? id = some e →
      rank e w'.registry.workers.values ⟨.epoch, w'.registry.staleAfter, true⟩ = []) ∧
    (sweepsAt smallestPages true [.epoch, .epoch] w').2.queue = w'.queue := by
  have hsound : twoWaiting.Sound .free := Engine.Reachable.sound ⟨_, _, _, rfl⟩
  have hrest : twoWaiting.AtRest := ⟨hsound, rfl, hsound.numbered.aligned (by decide)⟩
  have hfree : twoWaiting.LeaseFree smallestPages := ⟨_, _, rfl⟩
  obtain ⟨r, w', hrun, -⟩ := hrest.wholePass true (by decide) rfl rfl hfree
  obtain ⟨hnone, hlater⟩ := sweep_leaves_nothing (c := smallestPasses) smallestPages true
    ⟨_, _, _, rfl⟩ (by decide) rfl (.inl rfl) (by decide) rfl hrun
  obtain ⟨-, -, -, hqueue⟩ := hlater [.epoch, .epoch] fun time hmem => by
    rcases List.mem_cons.1 hmem with rfl | hmem
    · exact Int.le_refl _
    · rw [List.mem_singleton.1 hmem]
      exact Int.le_refl _
  exact ⟨r, w', hrun, hnone, hqueue⟩

end JobDispatch

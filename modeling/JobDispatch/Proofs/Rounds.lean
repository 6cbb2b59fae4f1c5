import JobDispatch.Proofs.Crowds
import JobDispatch.Proofs.Lineup
import JobDispatch.Proofs.Saturation

/-!
Rounds of a simulation, whenever their requests are answered. A pass without a cap on batches ticks
all entries that wait, page by page, and hands out as many jobs as there are places to spare
(`Shows.sweepFrom`, `Rests.sweep`). Then all running jobs end (`Shows.finishAll`). So a round hands
out all the places of the fleet if enough jobs wait, and leaves all of them free
(`Rests.playRound`), and the rounds together drain the queue (`Rests.playRounds`).
-/

namespace JobDispatch

open Program

/-- No worker is stale, and a lease that is taken now ends before time does. -/
structure World.Timely (lease : Span) (w : World) : Prop where
  fresh : w.NoneStale
  early : w.now.nanos + lease.nanos ≤ Timestamp.lastNanos

instance (lease : Span) : DecidablePred (World.Timely lease) := fun w =>
  decidable_of_iff (w.NoneStale ∧ w.now.nanos + lease.nanos ≤ Timestamp.lastNanos)
    ⟨fun h => ⟨h.1, h.2⟩, fun h => ⟨h.1, h.2⟩⟩

lemma recordOutcomes_timeless (outcomes : List (Except DispatchError TickOutcome))
    (r : PassReport) : (recordOutcomes outcomes r).Timeless := by
  induction outcomes generalizing r with
  | nil => trivial
  | cons outcome outcomes ih =>
    unfold recordOutcomes
    cases outcome with
    | error e => exact ⟨rfl, fun _ => ih _⟩
    | ok result => exact ih _

namespace Simulation

variable {ok : World → Prop} {s : Simulation} {env : Setting} {t : Tableau} {w : World} {c : Config}
  {rota : Rota}

/-- The jobs that a pass hands out. -/
def due (s : Simulation) (t : Tableau) : Nat := min t.waiting (s.spare t)

namespace Shows

/-! ### Pages -/

lemma recordOutcomes (h : s.Shows env t w) (outcomes : List (Except DispatchError TickOutcome))
    (r : PassReport) : (recordOutcomes outcomes r).Whenever ok (fun r' v =>
      r' = r.tally outcomes ∧ s.Shows env t v ∧ v.queue = w.queue) w := by
  refine ((recordOutcomes_timeless outcomes r).whenever w).mono ?_
  rintro _ v ⟨rfl, now, rfl⟩
  obtain ⟨events, hrun⟩ := recordOutcomes_run outcomes r w
  rw [hrun]
  exact ⟨rfl, h.stays now events, rfl⟩

/-- Entries that are ticked one after the other go to workers as long as there is a place to spare.
What comes after them in the queue is still there. -/
lemma offerAll (hok : ∀ v, ok v → v.NoneStale) (h : s.Shows env t w) (untaggedOnly : Bool)
    {es : List QueueEntry} (hes : ∀ e ∈ es, w.queue.queue.get? e.job = some e)
    (hdistinct : es.Pairwise fun a b => a.job ≠ b.job) :
    (offerAll untaggedOnly es).Whenever ok (fun outcomes v =>
      outcomes.countP PassReport.isClaimed = min es.length (s.spare t) ∧
        s.Shows env (t.hand (min es.length (s.spare t))) v ∧
        ∀ after, (∀ e ∈ es, Cursor.precedes after e.sequence = false) →
          v.queue.queue.entriesAfter after = w.queue.queue.entriesAfter after) w := by
  induction es generalizing t w with
  | nil =>
    rw [List.length_nil, Nat.zero_min]
    exact ⟨rfl, h, fun _ _ => rfl⟩
  | cons e es ih =>
    have he := hes e List.mem_cons_self
    obtain ⟨hne, hdistinct⟩ := List.pairwise_cons.1 hdistinct
    unfold JobDispatch.offerAll
    rw [whenever_bind]
    refine (h.offerEntry hok untaggedOnly he).mono ?_
    rintro outcome v ⟨-, hclaimed, hv, hqueue⟩
    have hes' : ∀ k ∈ es, v.queue.queue.get? k.job = some k := by
      intro k hk
      have hget := hes k (List.mem_cons_of_mem _ hk)
      rcases hqueue with hqueue | hqueue
      · rw [hqueue]
        exact hget
      · rw [hqueue, Queue.get?_pop, if_neg fun heq => hne k hk heq.symm]
        exact hget
    rw [whenever_bind]
    refine (ih hv hes' hdistinct).mono ?_
    rintro outcomes v' ⟨hrest, hv', hkept⟩
    rw [spare_hand] at hrest hv'
    rw [Tableau.hand_hand] at hv'
    have hsum : min 1 (s.spare t) + min es.length (s.spare t - min 1 (s.spare t)) =
        min (es.length + 1) (s.spare t) := by omega
    rw [hsum] at hv'
    have hone : (if PassReport.isClaimed outcome then 1 else 0) = min 1 (s.spare t) := by
      rw [← hclaimed]
      cases PassReport.isClaimed outcome <;> rfl
    refine ⟨?_, hv', fun after hbefore => ?_⟩
    · rw [List.countP_cons, hrest, hone, List.length_cons]
      omega
    · rw [hkept after fun k hk => hbefore k (List.mem_cons_of_mem _ hk)]
      refine h.aligned.entriesAfter_of_pop hqueue fun e' he' => ?_
      rw [he] at he'
      cases he'
      exact hbefore e List.mem_cons_self

/-- **Entries that are ticked go to workers as long as there is a place to spare**, in whatever
order their ticks come on. -/
theorem offerPage (hok : ∀ v, ok v → v.NoneStale) (h : s.Shows env t w) (hfresh : w.NoneStale)
    {plan : SweepPlan} (hrota : t.serial → rota.Unmixed plan) (untaggedOnly : Bool) (page : Nat)
    {es : List QueueEntry} (hes : ∀ e ∈ es, w.queue.queue.get? e.job = some e)
    (hdistinct : es.Pairwise fun a b => a.job ≠ b.job) :
    (JobDispatch.offerPage plan untaggedOnly (rota page) es).Whenever ok (fun outcomes v =>
      outcomes.countP PassReport.isClaimed = min es.length (s.spare t) ∧
        s.Shows env (t.hand (min es.length (s.spare t))) v ∧
        ∀ after, (∀ e ∈ es, Cursor.precedes after e.sequence = false) →
          v.queue.queue.entriesAfter after = w.queue.queue.entriesAfter after) w := by
  by_cases hserial : t.serial
  · rw [(hrota hserial).offerPage]
    exact h.offerAll hok untaggedOnly hes hdistinct
  · exact h.offerPage_crowd hok hfresh hserial plan untaggedOnly (rota page) hes
      (List.pairwise_map.2 hdistinct)

/-- The first entries after a cursor are ticked; the others are what comes after the last of these
then. -/
lemma offerNext (hok : ∀ v, ok v → v.NoneStale) (h : s.Shows env t w) (hfresh : w.NoneStale)
    {plan : SweepPlan} (hrota : t.serial → rota.Unmixed plan) (untaggedOnly : Bool) (page : Nat)
    {after : Option Cursor} {es : List QueueEntry} (hes : w.queue.queue.entriesAfter after = es)
    (n : Nat) :
    (JobDispatch.offerPage plan untaggedOnly (rota page) (es.take n)).Whenever ok (fun outcomes v =>
      outcomes.countP PassReport.isClaimed = min (min n es.length) (s.spare t) ∧
        s.Shows env (t.hand (min (min n es.length) (s.spare t))) v ∧
        ∀ last, (es.take n).getLast? = some last →
          v.queue.queue.entriesAfter (some last.cursor) = es.drop n) w := by
  subst hes
  have hget : ∀ e ∈ (w.queue.queue.entriesAfter after).take n,
      w.queue.queue.get? e.job = some e := fun e he =>
    Queue.mem_toList h.aligned (List.mem_filter.1 (List.mem_of_mem_take he)).1
  have hdistinct : ((w.queue.queue.entriesAfter after).take n).Pairwise
      fun a b => a.job ≠ b.job :=
    (h.aligned.toList_distinct.filter _).sublist (List.take_sublist _ _)
  rw [← List.length_take]
  refine (h.offerPage hok hfresh hrota untaggedOnly page hget hdistinct).mono ?_
  rintro outcomes v ⟨hclaimed, hv, hkept⟩
  refine ⟨hclaimed, hv, fun last hlast => ?_⟩
  rw [hkept _ fun e he => h.aligned.not_after_getLast hlast he e (hget e he)]
  exact h.aligned.entriesAfter_getLast hlast

/-! ### Passes -/

lemma notes (h : s.Shows env t w) (progress : SweepRecord) (now : Timestamp) :
    s.Shows env { t with progress } { w with progress, now } :=
  { h with
    sound := h.sound.congr rfl rfl h.sound.kept.sure rfl
    progress := rfl }

lemma leased (h : s.Shows env t w) (leases : Leases) (now : Timestamp) (events : List Event) :
    s.Shows env { t with leases } { w with leases, now, events } :=
  { h with
    sound := h.sound.congr rfl rfl h.sound.kept.sure rfl
    leases := rfl }

/-- **A pass without a cap ticks all entries after its cursor**, however they are cut into pages. -/
theorem sweepFrom (hok : ∀ v, ok v → v.NoneStale) (h : s.Shows env t w) {plan : SweepPlan}
    (hbatch : 0 < plan.batchSize.toNat) (hmax : plan.maxBatches? = none)
    (hrota : t.serial → rota.Unmixed plan) (untaggedOnly : Bool) {after : Option Cursor}
    {es : List QueueEntry} (hes : w.queue.queue.entriesAfter after = es) (r : PassReport) :
    (sweepFromBy rota plan untaggedOnly after r).Whenever ok (fun result v => ∃ r' progress,
      result = .ok r' ∧ r'.claimed = r.claimed + min es.length (s.spare t) ∧
        progress.resumes = false ∧
        s.Shows env { t.hand (min es.length (s.spare t)) with progress } v) w := by
  -- the cursor of the next page is further on
  induction hroom : Cursor.room after using Nat.strong_induction_on generalizing after es r t w with
  | _ room ih =>
    subst hroom
    have hcap : ¬plan.capped r = true := by
      rw [SweepPlan.capped, hmax]
      exact Bool.false_ne_true
    rw [sweepFromBy, if_neg hcap, whenever_read rfl (World.answer_scan h.plan _ _)]
    intro now hnow
    dsimp only
    rw [whenever_bind, h.aligned.scan_entries plan.batchSize after, hes]
    refine ((h.stays now w.events).offerNext hok (hok _ hnow) hrota untaggedOnly _ hes _).mono ?_
    rintro outcomes v ⟨hclaimed, hv, hrest⟩
    rw [whenever_bind]
    refine (hv.recordOutcomes outcomes r).mono ?_
    rintro _ v' ⟨rfl, hv', hqueue⟩
    have hcount := PassReport.counts_claimed.tally r outcomes
    rw [hclaimed] at hcount
    by_cases hlast : es.length ≤ plan.batchSize.toNat
    · rw [Nat.min_eq_right hlast] at hcount hv'
      rw [h.aligned.scan_next?_of_le (hes.symm ▸ hlast)]
      exact fun now' _ => ⟨_, _, rfl, hcount, rfl, hv'.notes _ now'⟩
    · have hlt : plan.batchSize.toNat < es.length := Nat.not_le.1 hlast
      obtain ⟨last, hpage⟩ := Queue.getLast?_page hbatch hlt
      obtain ⟨hprecedes, hnext⟩ := h.aligned.scan_next?_of_lt (hes.symm ▸ hlt) (hes.symm ▸ hpage)
      rw [Nat.min_eq_left (Nat.le_of_lt hlt)] at hcount hv'
      rw [hnext]
      intro now' _
      -- what the page left out is there when the pass goes on, and so are the places it left
      have hes' := hrest last hpage
      rw [← hqueue] at hes'
      refine (ih _ (Cursor.room_lt hprecedes) (hv'.notes _ now') hrota hes' _ rfl).mono ?_
      rintro result u ⟨r', progress, rfl, hr', hdone, hu⟩
      change r'.claimed = (r.tally outcomes).claimed +
        min (es.drop plan.batchSize.toNat).length (s.spare (t.hand _)) at hr'
      change s.Shows env { (t.hand _).hand
        (min (es.drop plan.batchSize.toNat).length (s.spare (t.hand _))) with progress } u at hu
      rw [spare_hand, List.length_drop] at hr' hu
      have hsum : min plan.batchSize.toNat (s.spare t) + min (es.length - plan.batchSize.toNat)
          (s.spare t - min plan.batchSize.toNat (s.spare t)) = min es.length (s.spare t) := by
        omega
      rw [Tableau.hand_hand, hsum] at hu
      exact ⟨r', progress, rfl, by omega, hdone, hu⟩

lemma beginPass (h : s.Shows env t w) (hended : t.progress.resumes = false) :
    beginPass.Whenever ok
      (fun r v => r = (none, false) ∧ ∃ progress, s.Shows env { t with progress } v) w := by
  rw [← h.progress] at hended
  have hphase : (w.progress.phase == .ongoing) = false := (Bool.or_eq_false_iff.1 hended).1
  unfold JobDispatch.beginPass
  rw [whenever_clock]
  intro now _
  rw [whenever_ask]
  intro now' _
  rw [show ((w.atTime now).atTime now').answer (.beginPass now) = (w.progress,
    { w with progress := w.progress.begin now, now := now' }) from rfl]
  dsimp only
  rw [hphase, hended]
  exact ⟨rfl, _, h.notes _ now'⟩

lemma gauges (h : s.Shows env t w) (n : UInt64) (now : Timestamp) :
    s.Shows env t ((w.atTime now).record (.activeWorkers n)) := by
  obtain ⟨counters, hsink, htells⟩ := h.counted
  refine { h with
    sound := h.sound.congr rfl rfl h.sound.kept.sure rfl
    counted := ⟨_, ?_, htells.gauge n⟩ }
  show w.sink.record _ = _
  rw [hsink]
  rfl

/-- A pass that has the lease hands out a job for each place to spare, or all jobs that wait. -/
lemma pass (hok : ∀ v, ok v → v.NoneStale) (h : s.Shows env t w)
    (hended : t.progress.resumes = false) {plan : SweepPlan} (hbatch : 0 < plan.batchSize.toNat)
    (hmax : plan.maxBatches? = none) (hrota : t.serial → rota.Unmixed plan)
    (untaggedOnly : Bool) :
    (passBy rota plan untaggedOnly).Whenever ok (fun r v => ∃ report progress,
      r = .ok report ∧ report.claimed = s.due t ∧ progress.resumes = false ∧
        s.Shows env { t.hand (s.due t) with progress } v) w := by
  unfold passBy
  rw [whenever_ask]
  intro now _
  rw [whenever_ask]
  intro now' _
  rw [whenever_bind]
  refine ((h.gauges _ now').beginPass hended).mono ?_
  rintro _ v ⟨rfl, progress, hv⟩
  have hwaiting : (v.queue.queue.entriesAfter none).length = t.waiting := by
    rw [Queue.entriesAfter_none, ← hv.aligned.length_eq]
    exact hv.waiting
  refine (hv.sweepFrom hok hbatch hmax hrota untaggedOnly rfl _).mono ?_
  rintro _ u ⟨report, progress', rfl, hclaimed, hdone, hu⟩
  rw [hwaiting] at hclaimed hu
  rw [show (PassReport.start false).claimed = 0 from rfl, Nat.zero_add] at hclaimed
  exact ⟨report, progress', rfl, hclaimed, hdone, hu⟩

/-! ### The ends of jobs -/

/-- **All running jobs end.** -/
theorem finishAll (h : s.Shows env t w) (c : Config) (ids : List JobId) (n : Nat)
    (hall : ∀ id, w.Runs id → id ∈ ids) :
    (finishAll c ids n).Whenever ok (fun finished v =>
      finished = n + t.running ∧ s.Shows env (t.finish t.running) v) w := by
  induction ids generalizing t w n with
  | nil =>
    have hzero : t.running = 0 := h.fleet.load_eq_zero fun worker hmem =>
      h.sound.idle (fun id hruns => List.not_mem_nil (hall id hruns)) hmem
    rw [hzero]
    exact ⟨rfl, h⟩
  | cons id ids ih =>
    unfold Simulation.finishAll
    rw [whenever_bind]
    refine (h.finish c id).mono ?_
    rintro applied v ⟨hle, hv, hended, hothers⟩
    -- the jobs that still run come later in the list
    have hall' : ∀ id', v.Runs id' → id' ∈ ids := by
      intro id' hruns
      rcases List.mem_cons.1 (hall id' (hothers id' hruns)) with rfl | hmem
      · exact absurd hruns hended
      · exact hmem
    refine (ih hv _ hall').mono ?_
    rintro finished u ⟨hfinished, hu⟩
    have hrunning : (t.finish applied.toNat).running = t.running - applied.toNat := rfl
    have hrest : (t.finish applied.toNat).finish (t.finish applied.toNat).running =
        t.finish t.running := by
      unfold Tableau.finish
      dsimp only
      rw [Nat.sub_self, Nat.sub_self]
    rw [hrest] at hu
    refine ⟨?_, hu⟩
    rw [hfinished, hrunning]
    cases applied
    · rfl
    · rw [Bool.toNat_true] at hle ⊢
      rw [if_pos rfl]
      omega

end Shows

/-! ### Rounds -/

/-- The world stands as the tableau says, and no pass is under way. -/
def Rests (s : Simulation) (env : Setting) (t : Tableau) (w : World) : Prop :=
  ∃ leases progress, leases.held.find? sweepLeaseKey = none ∧ progress.resumes = false ∧
    s.Shows env { t with leases, progress } w

def after (s : Simulation) (t : Tableau) : Tableau :=
  { t with waiting := t.waiting - s.due t, running := 0 }

def round (s : Simulation) (t : Tableau) : Round :=
  ⟨s.due t, t.running + s.due t, t.waiting - s.due t⟩

/-- The rounds in which a fleet drains a queue: in each of them every place takes a job, as long as
there are any, and the last round is one that leaves no job. -/
def drain (places : Nat) : Nat → Nat → List Round
  | 0, _ => []
  | rounds + 1, waiting =>
    let round : Round := ⟨min places waiting, min places waiting, waiting - min places waiting⟩
    round :: if round.waiting = 0 then [] else drain places rounds round.waiting

def lastWaiting (queued : Nat) (rounds : List Round) : Nat :=
  (rounds.getLast?.map Round.waiting).getD queued

lemma lastWaiting_cons (queued : Nat) (round : Round) (rounds : List Round) :
    lastWaiting queued (round :: rounds) = lastWaiting round.waiting rounds := by
  unfold lastWaiting
  rw [List.getLast?_cons]
  cases rounds.getLast? <;> rfl

structure Played (s : Simulation) (env : Setting) (t : Tableau) (rounds : List Round)
    (result : List Round × Option Failure) (w : World) : Prop where
  result : result = (rounds, none)
  rests : ∃ u : Tableau, u.arrived = t.arrived ∧ u.serial = t.serial ∧
    u.waiting = lastWaiting t.waiting rounds ∧ s.Rests env u w

namespace Rests

/-- **A pass hands out a job for each place to spare**, or all jobs that wait. -/
theorem sweep (h : s.Rests env t w) (hbatch : c.batchSize ≠ 0) (hmax : c.maxBatches? = none)
    (hrota : t.serial → rota.Unmixed c.sweepPlan) :
    (Engine.sweepBy rota c).Whenever (World.Timely c.leaseTimeout) (fun r v => ∃ report,
      r = .ok report ∧ report.claimed = s.due t ∧ s.Rests env (t.hand (s.due t)) v) w := by
  obtain ⟨leases, progress, hfree, hended, h⟩ := h
  have hbatch' : 0 < c.sweepPlan.batchSize.toNat :=
    UInt64.lt_iff_toNat_lt.1 (UInt64.pos_iff_ne_zero.2 hbatch)
  rw [Engine.sweepBy, sweepBy_eq_logPass, whenever_clock]
  intro now hnow
  have hfree' : ∀ held, w.leases.held.find? sweepLeaseKey = some held → held.expiresAt ≤ now := by
    intro held hheld
    rw [h.leases, hfree] at hheld
    cases hheld
  obtain ⟨lease, hlease, -⟩ :=
    Leases.exists_obtain? (d := c.sweepPlan.leaseTimeout) hnow.early hfree'
  obtain ⟨leases', hobtain⟩ : ∃ leases', w.leases.obtain? sweepLeaseKey
    c.sweepPlan.leaseTimeout.delta now = (.ok lease, leases') := ⟨_, Prod.ext hlease rfl⟩
  rw [whenever_ask]
  intro now' _
  rw [World.answer_obtainLease (w := (w.atTime now).atTime now') hobtain]
  dsimp only
  rw [whenever_bind]
  refine ((h.leased leases' now' w.events).pass (fun _ hok => hok.fresh) hended hbatch' hmax hrota
    c.untaggedOnly).mono ?_
  rintro _ v ⟨report, progress', rfl, hclaimed, hdone, hv⟩
  have hrelease (now : Timestamp) (events : List Event) : s.Rests env (t.hand (s.due t))
      { v with leases := (leases'.release lease).2, now, events } :=
    ⟨_, progress', Leases.find?_release hobtain, hdone, hv.leased _ now events⟩
  -- the lease is given back whether or not it has run out
  rw [← show v.leases = leases' from hv.leases] at hrelease
  rw [whenever_ask]
  intro now'' _
  rw [show (v.atTime now'').answer (.releaseLease lease) = ((v.leases.release lease).1,
    { v with leases := (v.leases.release lease).2, now := now'' }) from rfl]
  cases (v.leases.release lease).1
  · exact fun _ _ t₁ _ => ⟨report, rfl, hclaimed, hrelease t₁ _⟩
  · exact fun t₁ _ => ⟨report, rfl, hclaimed, hrelease t₁ _⟩

/-- **A round hands out what is due**, and all jobs that run end in it. -/
theorem playRound (h : s.Rests env t w) (hbatch : c.batchSize ≠ 0) (hmax : c.maxBatches? = none)
    (hrota : t.serial → rota.Unmixed c.sweepPlan) :
    (playRound rota c ((List.range t.arrived).map env.jobId)).Whenever (World.Timely c.leaseTimeout)
      (fun r v => r = .ok (s.round t) ∧ s.Rests env (s.after t) v) w := by
  unfold Simulation.playRound
  rw [whenever_bind]
  refine (h.sweep hbatch hmax hrota).mono ?_
  rintro _ v ⟨report, rfl, hclaimed, leases, progress, hfree, hended, hv⟩
  dsimp only
  rw [whenever_bind]
  refine (hv.finishAll c _ 0 fun id ⟨job, hjob, _⟩ => ?_).mono ?_
  · have hmem := Table.mem_keys.2 ⟨job, hjob⟩
    rw [hv.jobs] at hmem
    exact hmem
  rintro finished u ⟨rfl, hu⟩
  rw [whenever_read rfl (World.answer_queueLength hu.plan)]
  intro now _
  refine ⟨?_, leases, progress, hfree, hended, ?_⟩
  · show Except.ok (Round.mk _ _ u.queue.queue.length) = _
    rw [hclaimed, hu.waiting, Nat.zero_add]
    rfl
  · have hafter := hu.stays now u.events
    unfold Tableau.finish Tableau.hand at hafter
    dsimp only at hafter
    rw [Nat.sub_self] at hafter
    exact hafter

lemma playRounds_succ (h : s.Rests env t w) (hbatch : c.batchSize ≠ 0)
    (hmax : c.maxBatches? = none) (hrotas : t.serial → ∀ k, (env.rota k).Unmixed c.sweepPlan)
    {n k : Nat} (hrest : ∀ {u : Tableau} {v : World}, s.Rests env u v → u.running = 0 →
      (u.serial → ∀ k, (env.rota k).Unmixed c.sweepPlan) →
      (playRounds env.rota c ((List.range u.arrived).map env.jobId) n (k + 1)).Whenever
        (World.Timely c.leaseTimeout) (s.Played env u (drain (s.places u) n u.waiting)) v) :
    (playRounds env.rota c ((List.range t.arrived).map env.jobId) (n + 1) k).Whenever
      (World.Timely c.leaseTimeout) (s.Played env t (s.round t ::
        if (s.round t).waiting = 0 then [] else drain (s.places t) n (s.round t).waiting)) w := by
  unfold Simulation.playRounds
  rw [whenever_bind]
  refine (h.playRound hbatch hmax fun hserial => hrotas hserial k).mono ?_
  rintro _ v ⟨rfl, hv⟩
  dsimp only
  by_cases hlast : (s.round t).waiting = 0
  · rw [if_pos hlast, if_pos hlast]
    exact ⟨rfl, s.after t, rfl, rfl, rfl, hv⟩
  · rw [if_neg hlast, if_neg hlast, whenever_bind]
    refine (hrest hv rfl hrotas).mono ?_
    rintro _ v' ⟨rfl, u, harrived, hserial, hwaiting, hu⟩
    refine ⟨rfl, u, harrived, hserial, ?_, hu⟩
    rw [hwaiting, lastWaiting_cons]
    rfl

/-- **Rounds drain the queue** at the rate of the fleet, if no job runs before them. -/
theorem playRounds (h : s.Rests env t w) (hidle : t.running = 0) (hbatch : c.batchSize ≠ 0)
    (hmax : c.maxBatches? = none) (hrotas : t.serial → ∀ k, (env.rota k).Unmixed c.sweepPlan)
    (n k : Nat) :
    (playRounds env.rota c ((List.range t.arrived).map env.jobId) n k).Whenever
      (World.Timely c.leaseTimeout) (s.Played env t (drain (s.places t) n t.waiting)) w := by
  induction n generalizing t w k with
  | zero => exact ⟨rfl, t, rfl, rfl, rfl, h⟩
  | succ n ih =>
    have hround : s.round t = ⟨min (s.places t) t.waiting, min (s.places t) t.waiting,
        t.waiting - min (s.places t) t.waiting⟩ := by
      unfold round due spare
      rw [hidle, Nat.sub_zero, Nat.zero_add, Nat.min_comm]
    unfold drain
    rw [← hround]
    exact h.playRounds_succ hbatch hmax hrotas fun hv hidle hrotas => ih hv hidle hrotas (k + 1)

end Rests

end Simulation

end JobDispatch

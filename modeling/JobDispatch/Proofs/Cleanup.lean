import JobDispatch.Proofs.Exhaustion
import JobDispatch.Proofs.Lasting
import JobDispatch.Proofs.Tours

/-!
What passes leave behind, however they end. A pass that cannot have the lease changes nothing. Any
other gives the lease back, notes where it stands, and takes back none of the claims of its ticks,
whatever ticks failed and whatever page could not be read (`sweep_cleans_up`).
-/

namespace JobDispatch

open Program

variable {w v : World} {rota : Rota} {plan : SweepPlan} {untaggedOnly : Bool}

/-! ### Claims stand -/

lemma Tour.honest {start : Option Cursor} {pages : List TickedPage} {onward : Onward}
    (h : Tour rota plan untaggedOnly w start pages onward v) (hw : w.Honest)
    (hlisted : w.queue.queue.Listed) : v.Honest ∧ v.queue.queue.Listed :=
  (h.keeps (I := fun v => v.Honest ∧ v.queue.queue.Listed)
    (fun _ _ _ hv => ⟨hv.1.answer _, hv.2.answer _⟩)
    (fun _ n es hv => (offerPage plan untaggedOnly (rota n) es).asks_true.run
      (I := fun v => v.Honest ∧ v.queue.queue.Listed)
      (fun _ _ _ hv => ⟨hv.1.answer _, hv.2.answer _⟩) hv) ⟨hw, hlisted⟩).1

/-- **All claims of a tour stand at its end.** -/
theorem Tour.stands {start : Option Cursor} {pages : List TickedPage} {onward : Onward}
    (h : Tour rota plan untaggedOnly w start pages onward v) (hw : w.Honest)
    (hlisted : w.queue.queue.Listed) :
    ∀ p ∈ pages, ∀ a, .ok (.claimed a) ∈ p.outcomes plan untaggedOnly → v.Stands a := by
  induction h with
  | start => exact fun p hp => absurd hp List.not_mem_nil
  | @page pages place v u page h hread ih =>
    intro p hp a ha
    obtain ⟨hv, hvlisted⟩ := h.honest hw hlisted
    have hstores := v.sameStores_scan plan.batchSize place
    have hu := hv.answer (.scan plan.batchSize place)
    have hpage := World.page_of_scan (congrArg Prod.fst hread)
    have hdistinct := hvlisted.scan_distinct plan.batchSize place
    rw [hread] at hstores hu
    rw [← hpage] at hdistinct
    obtain ⟨hearlier, hnow⟩ := hu.offerPage_stands plan untaggedOnly (rota pages.length) hdistinct
    rcases List.mem_append.1 hp with hp | hp
    · exact hearlier a ((ih p hp a ha).of_untouched hstores.untouched)
    · rw [List.mem_singleton.1 hp] at ha
      exact hnow a ha

/-! ### The lease -/

lemma Tour.planned {P : Failure → Prop} {start : Option Cursor} {pages : List TickedPage}
    {onward : Onward} (h : Tour rota plan untaggedOnly w start pages onward v)
    (hw : ∀ f ∈ w.queue.plan, P f.failure) : ∀ f ∈ v.queue.plan, P f.failure :=
  (h.keeps (I := fun v => ∀ f ∈ v.queue.plan, P f.failure)
    (fun _ limit after hv => World.plan_answer hv (.scan limit after))
    (fun _ n es hv => (offerPage plan untaggedOnly (rota n) es).asks_true.run
      (I := fun v => ∀ f ∈ v.queue.plan, P f.failure)
      (fun r _ _ hv => World.plan_answer hv r) hv) hw).1

/-- A pass that gets the lease can only fail as the reading of a page is planned to. -/
lemma sweep_error {P : Failure → Prop} {e : DispatchError} (hfree : w.LeaseFree plan)
    (hplan : ∀ f ∈ w.queue.plan, P f.failure)
    (h : ((sweepBy rota plan untaggedOnly).run w).1 = .error e) : P (.error e) := by
  obtain ⟨pages, onward, v, htour, hending, -⟩ := sweep_tours rota untaggedOnly hfree
  generalize (sweepBy rota plan untaggedOnly).run w = pass at h hending
  cases hending with
  | completed _ _ | capped _ _ _ => cases h
  | @failed w' place _ hread _ _ =>
    cases h
    have hstruck : (v.queue.guarded .scan none fun q =>
        (.ok (q.scan plan.batchSize place), q)).1 = .error e := hread
    rcases FallibleQueue.guarded_error _ _ _ (htour.planned hplan) hstruck with hP | hscan
    · exact hP
    · cases hscan

lemma World.LeaseFree.again {w' : World} (hfree : w.LeaseFree plan) (hnow : w'.now = w.now)
    (hheld : w'.leases.held.find? sweepLeaseKey = none) : w'.LeaseFree plan := by
  obtain ⟨lease, l, hlease⟩ := hfree
  obtain ⟨⟨expiresAt, hadd⟩, -⟩ := Leases.obtain?_eq_ok hlease
  rw [← hnow] at hadd
  exact Leases.obtain?_of_unheld hheld hadd

/-! ### Exits -/

lemma capped_tourReport {resumed : Bool} {pages : List TickedPage}
    (hcap : plan.maxBatches? ≠ some 0)
    (h : plan.capped (tourReport plan untaggedOnly resumed pages false) = true) : pages ≠ [] := by
  rintro rfl
  unfold SweepPlan.capped at h
  cases hmax : plan.maxBatches? with
  | none =>
    rw [hmax] at h
    cases h
  | some most =>
    rw [hmax] at h
    have hzero : most.toNat ≤ 0 := of_decide_eq_true h
    refine hcap ?_
    rw [hmax]
    exact congrArg some (UInt64.toNat_inj.1 (Nat.le_zero.1 hzero))

lemma tourReport_counts (plan : SweepPlan) (untaggedOnly resumed : Bool) (pages : List TickedPage)
    (completed : Bool) :
    (tourReport plan untaggedOnly resumed pages completed).ticked =
        (pages.flatMap TickedPage.entries).length ∧
      (tourReport plan untaggedOnly resumed pages completed).errors =
        (pages.flatMap fun p => p.outcomes plan untaggedOnly).countP PassReport.isError := by
  have hlength : (pages.flatMap fun p => p.outcomes plan untaggedOnly).length =
      (pages.flatMap TickedPage.entries).length := by
    simp only [List.length_flatMap, TickedPage.length_outcomes]
  refine ⟨?_, PassReport.counts_errors.tourReport plan untaggedOnly resumed pages completed⟩
  rw [PassReport.counts_ticked.tourReport plan untaggedOnly resumed pages completed, ← hlength]
  simp

section

variable {resumed : Bool} {start : Option Cursor} {pages : List TickedPage} {onward : Onward}
  {pass : Except DispatchError PassReport × World}

/-- A pass that ends with a report has come to the end of the queue, or has had its share. -/
lemma Ending.of_ok {report : PassReport}
    (h : Ending plan untaggedOnly resumed pages v onward pass)
    (htour : Tour rota plan untaggedOnly w start pages onward v) (hok : pass.1 = .ok report) :
    report = tourReport plan untaggedOnly resumed pages report.completed ∧
      (report.completed = true → onward = .ended ∧
        pass.2.progress.phase = .completed ∧ pass.2.progress.cursor? = none) ∧
      (report.completed = false → plan.capped report = true ∧
        pass.2.progress.phase = .unfinished ∧
        pass.2.progress.cursor? = lastPlace start pages ∧
        (plan.maxBatches? ≠ some 0 → ∃ c, pass.2.progress.cursor? = some c)) := by
  cases h with
  | completed hphase hcursor =>
    cases hok
    exact ⟨rfl, fun _ => ⟨rfl, hphase, hcursor⟩, fun h => Bool.noConfusion h⟩
  | capped hcap hphase hcursor =>
    cases hok
    refine ⟨rfl, fun h => Bool.noConfusion h, fun _ => ⟨hcap, hphase, ?_, fun hmost => ?_⟩⟩
    · rw [hcursor]
      exact htour.place_eq
    · rw [hcursor]
      exact htour.place_isSome (capped_tourReport hmost hcap)
  | failed _ _ _ => cases hok

/-- A pass fails at the page after the last one that it ticked. -/
lemma Ending.of_error {e : DispatchError}
    (h : Ending plan untaggedOnly resumed pages v onward pass)
    (htour : Tour rota plan untaggedOnly w start pages onward v) (herr : pass.1 = .error e) :
    (v.answer (.scan plan.batchSize (lastPlace start pages))).1 = .error e ∧
      pass.2.progress.phase = .ongoing ∧ pass.2.progress.cursor? = lastPlace start pages := by
  cases h with
  | completed _ _ | capped _ _ _ => cases herr
  | failed hread hphase hcursor =>
    cases herr
    rw [← htour.place_eq]
    exact ⟨hread, hphase, hcursor⟩

end

/-- **Passes clean up on every exit**, however their ticks mix. A pass that cannot have the lease
changes nothing at all. Any other leaves no lease behind, so that the next pass can have it; and
unless a call on the queue is planned to fail with these very words, the next pass does not say that
the lease is taken. It ticks every entry of the pages that it reads, whatever the ticks come to, and
leaves the stores as the ticks did. If it ends with a report, the errors of ticks are counted in it,
and the progress is completed without a cursor or unfinished with one (given a cap above zero). If a
page cannot be read, the progress is ongoing, at the last entry of the last page that was ticked or
where the pass started, and since when the pass began; and every claim of the pass stands. -/
theorem sweep_cleans_up (hw : w.Honest) (hlisted : w.queue.queue.Listed) (rota : Rota)
    (plan : SweepPlan) (untaggedOnly : Bool) :
    let pass := (sweepBy rota plan untaggedOnly).run w
    let start := w.progress.start?
    match (w.leases.obtain? sweepLeaseKey plan.leaseTimeout.delta w.now).1 with
    | .error e => pass = (.error e, w)
    | .ok _ =>
      (pass.2.leases.held.find? sweepLeaseKey = none ∧ pass.2.LeaseFree plan ∧
        ∀ rota' k, (∀ f ∈ w.queue.plan, f.failure ≠ .error (.leaseTaken k)) →
          ((sweepBy rota' plan untaggedOnly).run pass.2).1 ≠ .error (.leaseTaken k)) ∧
      ∃ pages onward v,
        (Tour rota plan untaggedOnly w start pages onward v ∧ v.SameStores pass.2) ∧
        (∀ report, pass.1 = .ok report →
          report = tourReport plan untaggedOnly w.progress.resumes pages report.completed ∧
          report.ticked = (pages.flatMap TickedPage.entries).length ∧
          report.errors =
            (pages.flatMap fun p => p.outcomes plan untaggedOnly).countP PassReport.isError ∧
          (report.completed = true → onward = .ended ∧
            pass.2.progress.phase = .completed ∧ pass.2.progress.cursor? = none) ∧
          (report.completed = false → plan.capped report = true ∧
            pass.2.progress.phase = .unfinished ∧
            pass.2.progress.cursor? = lastPlace start pages ∧
            (plan.maxBatches? ≠ some 0 → ∃ c, pass.2.progress.cursor? = some c))) ∧
        (∀ e, pass.1 = .error e →
          (v.answer (.scan plan.batchSize (lastPlace start pages))).1 = .error e ∧
          pass.2.progress.phase = .ongoing ∧ pass.2.progress.cursor? = lastPlace start pages) ∧
        pass.2.progress.startedAt? = (w.progress.begin w.now).startedAt? ∧
        ∀ p ∈ pages, ∀ a, .ok (.claimed a) ∈ p.outcomes plan untaggedOnly → pass.2.Stands a := by
  intro pass start
  cases hobtain : w.leases.obtain? sweepLeaseKey plan.leaseTimeout.delta w.now with
  | mk answer l =>
    cases answer with
    | error e =>
      have hsame := Leases.obtain?_of_error (congrArg Prod.fst hobtain)
      rw [hobtain] at hsame
      cases hsame
      exact sweep_run_of_refused hobtain
    | ok lease =>
      have hfree : w.LeaseFree plan := ⟨lease, l, hobtain⟩
      obtain ⟨pages, onward, v, htour, hending, hstores, hheld, hnow, hstarted⟩ :=
        sweep_tours rota untaggedOnly hfree
      have hagain := hfree.again hnow hheld
      refine ⟨⟨hheld, hagain, fun rota' k hplan htaken => ?_⟩, pages, onward, v, ⟨htour, hstores⟩,
        fun report hok => ?_, fun e herr => hending.of_error htour herr, hstarted,
        fun p hp a ha => (htour.stands hw hlisted p hp a ha).of_untouched hstores.untouched⟩
      · have hplan' : ∀ f ∈ pass.2.queue.plan, f.failure ≠ .error (.leaseTaken k) :=
          (sweepBy rota plan untaggedOnly).asks_true.run
            (I := fun v => ∀ f ∈ v.queue.plan, f.failure ≠ .error (.leaseTaken k))
            (fun r _ _ hv => World.plan_answer (P := fun failure => failure ≠ _) hv r) hplan
        exact sweep_error (P := fun failure => failure ≠ .error (.leaseTaken k)) hagain hplan'
          htaken rfl
      · obtain ⟨hreport, hexits⟩ := hending.of_ok htour hok
        obtain ⟨hticked, herrors⟩ :=
          tourReport_counts plan untaggedOnly w.progress.resumes pages report.completed
        rw [← hreport] at hticked herrors
        exact ⟨hreport, hticked, herrors, hexits⟩

/-- Two jobs wait, a worker has room for both, and the second page that is read next is to fail. -/
def pageFailing (e : DispatchError) : World :=
  (Engine.initial smallestPasses .silent .epoch).acts (Engine.Operation.program smallestPasses)
    [.call (.heartbeat ⟨⟨.ofNat 1⟩, .empty, 2, .epoch, .everyProject, true⟩),
      .call (.enqueue ⟨⟨.ofNat 2⟩, ⟨.ofNat 4⟩, .empty⟩),
      .call (.enqueue ⟨⟨.ofNat 3⟩, ⟨.ofNat 4⟩, .empty⟩),
      .plan .scan 1 e]

def byTurns : Rota := fun _ => [1, 0, 1, 0]

theorem sweep_cleans_up_pageFailing :
    let plan := { smallestPasses.sweepPlan with maxBatches? := none }
    let w := pageFailing (.leaseOutOfRange "injected")
    let pass := (sweepBy byTurns plan true).run w
    pass.1 = .error (.leaseOutOfRange "injected") ∧
      pass.2.leases.held.find? sweepLeaseKey = none ∧
      ((sweepBy byTurns plan true).run pass.2).1 ≠ .error (.leaseTaken sweepLeaseKey) ∧
      pass.2.progress.phase = .ongoing ∧
      ∃ pages onward v, Tour byTurns plan true w none pages onward v ∧
        lastPlace none pages = some ⟨1⟩ ∧
        ∀ p ∈ pages, ∀ a, .ok (.claimed a) ∈ p.outcomes plan true → pass.2.Stands a := by
  intro plan w pass
  have hreach : Engine.Reachable smallestPasses w := ⟨_, _, _, rfl⟩
  have hcleans := sweep_cleans_up hreach.honest hreach.consistent.listed byTurns plan true
  have herr : pass.1 = .error (.leaseOutOfRange "injected") := by decide +kernel
  have hcursor : pass.2.progress.cursor? = some ⟨1⟩ := by decide +kernel
  have hplan : w.queue.plan = [⟨.scan, 1, .error (.leaseOutOfRange "injected")⟩] := by
    decide +kernel
  have hlease : (w.leases.obtain? sweepLeaseKey plan.leaseTimeout.delta w.now).1.toBool = true := by
    decide +kernel
  dsimp only at hcleans
  split at hcleans
  · rename_i e hrefused
    rw [hrefused] at hlease
    cases hlease
  obtain ⟨⟨hheld, -, hagain⟩, pages, onward, v, ⟨htour, -⟩, -, hfailed, -, hstands⟩ := hcleans
  obtain ⟨-, hphase, hplace⟩ := hfailed _ herr
  refine ⟨herr, hheld, hagain byTurns _ fun f hf => ?_, hphase, pages, onward, v, htour, ?_,
    hstands⟩
  · rw [hplan] at hf
    rw [List.mem_singleton.1 hf]
    decide
  · exact hplace.symm.trans hcursor

/-- **A pass can say that the lease is taken, or out of range, though the lease was free**: it is
the reading of a page that failed with these words. The pass has moved the progress by then. -/
theorem sweep_fails_with_free_lease :
    let plan := smallestPasses.sweepPlan
    let first := (sweep plan true).run (pageFailing (.leaseTaken sweepLeaseKey))
    let second := (sweep plan true).run first.2
    (first.1.toBool = true ∧ first.2.leases.held.find? sweepLeaseKey = none ∧
      second.1 = .error (.leaseTaken sweepLeaseKey)) ∧
    let pass := (sweep { plan with maxBatches? := none } true).run
      (pageFailing (.leaseOutOfRange sweepLeaseKey))
    pass.1 = .error (.leaseOutOfRange sweepLeaseKey) ∧ pass.2.progress.phase = .ongoing := by
  decide +kernel

end JobDispatch

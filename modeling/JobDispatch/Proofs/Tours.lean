import JobDispatch.Proofs.Passes
import JobDispatch.Proofs.Verdicts

/-!
Passes in which calls on the queue fail. A pass reads a page, ticks all of its entries whatever the
ticks come to, and goes on after the last one (`Tour`), until it is at the end of the queue, has had
its share of pages, or cannot read the next one (`Ending`). Each pass that gets the lease is such a
tour, and gives the lease back (`sweep_tours`).
-/

namespace JobDispatch

open Program

variable {w v u : World} {rota : Rota} {plan : SweepPlan} {untaggedOnly resumed : Bool}

/-! ### Pages -/

/-- The entries of a page, the picks for their ticks, and the world once the page is read. -/
structure TickedPage where
  entries : List QueueEntry
  picks : List Nat
  world : World

namespace TickedPage

variable (p : TickedPage) (plan : SweepPlan) (untaggedOnly : Bool)

def outcomes : List (Except DispatchError TickOutcome) :=
  ((offerPage plan untaggedOnly p.picks p.entries).run p.world).1

def after : World := ((offerPage plan untaggedOnly p.picks p.entries).run p.world).2

lemma length_outcomes : (p.outcomes plan untaggedOnly).length = p.entries.length :=
  length_offerPage plan untaggedOnly p.picks p.entries p.world

end TickedPage

inductive Onward
  | after (place : Option Cursor)
  /-- The tour is at the end of the queue. -/
  | ended

def Page.onward {after : Option Cursor} (page : Page after) : Onward :=
  match page.next? with
  | some ⟨next, _⟩ => .after (some next)
  | none => .ended

/-- Pages are read one after the other, and all entries of each are ticked before the next one is
read. -/
inductive Tour (rota : Rota) (plan : SweepPlan) (untaggedOnly : Bool) (w : World)
    (start : Option Cursor) : List TickedPage → Onward → World → Prop
  | start : Tour rota plan untaggedOnly w start [] (.after start) w
  | page {pages : List TickedPage} {place : Option Cursor} {v u : World} {page : Page place}
    (h : Tour rota plan untaggedOnly w start pages (.after place) v)
    (hread : v.answer (.scan plan.batchSize place) = (.ok page, u)) :
    Tour rota plan untaggedOnly w start (pages ++ [⟨page.entries, rota pages.length, u⟩])
      page.onward
      ((⟨page.entries, rota pages.length, u⟩ : TickedPage).after plan untaggedOnly)

/-- The last entry of the last page; where the tour started, if there was no page. -/
def lastPlace (start : Option Cursor) (pages : List TickedPage) : Option Cursor :=
  match pages.getLast? with
  | none => start
  | some p => p.entries.getLast?.map QueueEntry.cursor

lemma Queue.getLast?_of_next {q : Queue} {limit : UInt64} {after : Option Cursor}
    {next : { c : Cursor // Cursor.precedes after c.sequence = true }}
    (h : (q.scan limit after).next? = some next) :
    (q.scan limit after).entries.getLast?.map QueueEntry.cursor = some next.1 := by
  unfold Queue.scan at h ⊢
  dsimp only at h ⊢
  split at h
  · cases h
  · rename_i last hlast
    rw [hlast]
    split at h
    · split at h
      · cases h
        rfl
      · cases h
    · cases h

/-- **A tour goes on after the last entry that it ticked.** -/
lemma Tour.place_eq {start place : Option Cursor} {pages : List TickedPage}
    (h : Tour rota plan untaggedOnly w start pages (.after place) v) :
    place = lastPlace start pages := by
  generalize hon : Onward.after place = onward at h
  cases h with
  | start =>
    cases hon
    rfl
  | @page pages at' v u page h hread =>
    have hpage := World.page_of_scan (congrArg Prod.fst hread)
    unfold lastPlace
    rw [List.getLast?_concat]
    unfold Page.onward at hon
    cases hnext : page.next? with
    | none =>
      rw [hnext] at hon
      cases hon
    | some next =>
      rw [hnext] at hon
      cases hon
      subst hpage
      exact (Queue.getLast?_of_next hnext).symm

lemma Tour.place_isSome {start place : Option Cursor} {pages : List TickedPage}
    (h : Tour rota plan untaggedOnly w start pages (.after place) v) (hpages : pages ≠ []) :
    ∃ c, place = some c := by
  generalize hon : Onward.after place = onward at h
  cases h with
  | start => exact absurd rfl hpages
  | @page pages at' v u page h hread =>
    unfold Page.onward at hon
    cases hnext : page.next? with
    | none =>
      rw [hnext] at hon
      cases hon
    | some next =>
      rw [hnext] at hon
      cases hon
      exact ⟨next.1, rfl⟩

/-- Whatever pages of ticks and readings keep holds in every page of a tour and after it. -/
theorem Tour.keeps {I : World → Prop} {start : Option Cursor} {pages : List TickedPage}
    {onward : Onward} (h : Tour rota plan untaggedOnly w start pages onward v)
    (hread : ∀ v limit after, I v → I (v.answer (.scan limit after)).2)
    (hticks : ∀ v n es, I v → I ((offerPage plan untaggedOnly (rota n) es).run v).2) (hw : I w) :
    I v ∧ ∀ p ∈ pages, I p.world := by
  induction h with
  | start => exact ⟨hw, fun p hp => absurd hp List.not_mem_nil⟩
  | @page pages place v u page _ hanswer ih =>
    have hu : I u := by
      have hafter := hread v plan.batchSize place ih.1
      rw [hanswer] at hafter
      exact hafter
    refine ⟨hticks u _ page.entries hu, fun p hp => ?_⟩
    rcases List.mem_append.1 hp with hp | hp
    · exact ih.2 p hp
    · rw [List.mem_singleton.1 hp]
      exact hu

/-! ### Reports -/

/-- The report on pages: all outcomes of their ticks are counted, errors among them. -/
def tourReport (plan : SweepPlan) (untaggedOnly resumed : Bool) (pages : List TickedPage)
    (completed : Bool) :
    PassReport :=
  { (PassReport.start resumed).tally (pages.flatMap fun p => p.outcomes plan untaggedOnly) with
    batches := pages.length, completed }

lemma PassReport.Counts.tourReport {field : PassReport → Nat}
    {test : Except DispatchError TickOutcome → Bool} (h : PassReport.Counts field test)
    (plan : SweepPlan) (untaggedOnly resumed : Bool) (pages : List TickedPage)
    (completed : Bool) :
    field (tourReport plan untaggedOnly resumed pages completed) =
      (pages.flatMap fun p => p.outcomes plan untaggedOnly).countP test := by
  unfold JobDispatch.tourReport
  rw [h.close, h.tally, h.start, Nat.zero_add]

/-- One page more is reported on as the pass does it. -/
lemma tourReport_concat (plan : SweepPlan) (untaggedOnly resumed : Bool)
    (pages : List TickedPage) (p : TickedPage) (completed : Bool) :
    tourReport plan untaggedOnly resumed (pages ++ [p]) completed =
      { (tourReport plan untaggedOnly resumed pages false).tally (p.outcomes plan untaggedOnly) with
        batches := (tourReport plan untaggedOnly resumed pages false).batches + 1, completed } := by
  unfold tourReport
  rw [List.flatMap_append, PassReport.tally_append, List.length_append,
    PassReport.tally_close _ (p.outcomes plan untaggedOnly)]
  simp

lemma tourReport_concat_open (plan : SweepPlan) (untaggedOnly resumed : Bool)
    (pages : List TickedPage) (p : TickedPage) :
    { (tourReport plan untaggedOnly resumed pages false).tally (p.outcomes plan untaggedOnly) with
      batches := (tourReport plan untaggedOnly resumed pages false).batches + 1 } =
      tourReport plan untaggedOnly resumed (pages ++ [p]) false := by
  have hopen : ((tourReport plan untaggedOnly resumed pages false).tally
      (p.outcomes plan untaggedOnly)).completed = false := PassReport.completed_tally _ _
  rw [tourReport_concat]
  generalize (tourReport plan untaggedOnly resumed pages false).tally
    (p.outcomes plan untaggedOnly) = r at hopen ⊢
  cases r
  cases hopen
  rfl

/-- How a pass ends that has ticked the pages, and the progress that it leaves. -/
inductive Ending (plan : SweepPlan) (untaggedOnly resumed : Bool) (pages : List TickedPage)
    (v : World) : Onward → Except DispatchError PassReport × World → Prop
  | completed {w' : World} (hphase : w'.progress.phase = .completed)
    (hcursor : w'.progress.cursor? = none) :
    Ending plan untaggedOnly resumed pages v .ended
      (.ok (tourReport plan untaggedOnly resumed pages true), w')
  | capped {w' : World} {place : Option Cursor}
    (hcap : plan.capped (tourReport plan untaggedOnly resumed pages false) = true)
    (hphase : w'.progress.phase = .unfinished) (hcursor : w'.progress.cursor? = place) :
    Ending plan untaggedOnly resumed pages v (.after place)
      (.ok (tourReport plan untaggedOnly resumed pages false), w')
  | failed {w' : World} {place : Option Cursor} {e : DispatchError}
    (hread : (v.answer (.scan plan.batchSize place)).1 = .error e)
    (hphase : w'.progress.phase = .ongoing) (hcursor : w'.progress.cursor? = place) :
    Ending plan untaggedOnly resumed pages v (.after place) (.error e, w')

lemma Ending.congr {pages : List TickedPage} {onward : Onward}
    {result : Except DispatchError PassReport} {w' w'' : World}
    (h : Ending plan untaggedOnly resumed pages v onward (result, w'))
    (hprogress : w''.progress = w'.progress) :
    Ending plan untaggedOnly resumed pages v onward (result, w'') := by
  cases h with
  | completed hphase hcursor =>
    exact .completed (by rw [hprogress]; exact hphase) (by rw [hprogress]; exact hcursor)
  | capped hcap hphase hcursor =>
    exact .capped hcap (by rw [hprogress]; exact hphase) (by rw [hprogress]; exact hcursor)
  | failed hread hphase hcursor =>
    exact .failed hread (by rw [hprogress]; exact hphase) (by rw [hprogress]; exact hcursor)

/-! ### Passes -/

lemma World.Alike.answer_scan (h : w.Alike v) (limit : UInt64) (after : Option Cursor) :
    (w.answer (.scan limit after)).1 = (v.answer (.scan limit after)).1 ∧
      (w.answer (.scan limit after)).2.Alike (v.answer (.scan limit after)).2 := by
  cases w
  cases v
  obtain ⟨rfl, rfl, rfl, rfl⟩ := h
  exact ⟨rfl, rfl, rfl, rfl, rfl⟩

lemma World.Alike.sameStores (h : v.Alike w) : w.SameStores v :=
  ⟨h.jobs, congrArg FallibleQueue.queue h.queue, h.registry⟩

lemma World.sameStores_scan (w : World) (limit : UInt64) (after : Option Cursor) :
    w.SameStores (w.answer (.scan limit after)).2 := ⟨rfl, World.queue_answer rfl, rfl⟩

/-- What a pass has left as it was. -/
structure World.LeftAside (w w' : World) : Prop where
  leases : w'.leases = w.leases
  startedAt : w'.progress.startedAt? = w.progress.startedAt?
  now : w'.now = w.now

lemma World.LeftAside.trans (h : w.LeftAside v) (h' : v.LeftAside u) : w.LeftAside u :=
  ⟨h'.leases.trans h.leases, h'.startedAt.trans h.startedAt, h'.now.trans h.now⟩

lemma sweepFrom_tours_page {place : Option Cursor} {pages : List TickedPage} {x x₁ : World}
    {page : Page place} (halike : x.Alike v)
    (hcap : plan.capped (tourReport plan untaggedOnly resumed pages false) = false)
    (hread : x.answer (.scan plan.batchSize place) = (.ok page, x₁)) :
    let p : TickedPage :=
      ⟨page.entries, rota pages.length, (v.answer (.scan plan.batchSize place)).2⟩
    ∃ x₂ : World, x₂.Alike (p.after plan untaggedOnly) ∧ x.LeftAside x₂ ∧
      (sweepFromBy rota plan untaggedOnly place
          (tourReport plan untaggedOnly resumed pages false)).run x =
        match page.next? with
        | some ⟨next, _⟩ =>
          (sweepFromBy rota plan untaggedOnly (some next)
            (tourReport plan untaggedOnly resumed (pages ++ [p]) false)).run
              (x₂.answer (.notePlace (some next) .ongoing)).2
        | none =>
          (.ok (tourReport plan untaggedOnly resumed (pages ++ [p]) true),
            (x₂.answer (.notePlace none .completed)).2) := by
  intro p
  obtain ⟨-, halike'⟩ := halike.answer_scan plan.batchSize place
  have haside : x.LeftAside (x.answer (.scan plan.batchSize place)).2 := ⟨rfl, rfl, rfl⟩
  rw [hread] at halike' haside
  let ticks := offerPage plan untaggedOnly (rota pages.length) page.entries
  have hticks : offerPage plan untaggedOnly (rota pages.length) page.entries = ticks := rfl
  have hasks := offerPage_asks plan untaggedOnly (rota pages.length) page.entries
  obtain ⟨houtcomes, hticked⟩ := hasks.alike halike'
  obtain ⟨hleases, hprogress, hnow⟩ := hasks.aside x₁
  have houtcomes' : (ticks.run x₁).1 = p.outcomes plan untaggedOnly := houtcomes
  obtain ⟨events, hrecord⟩ := recordOutcomes_run (p.outcomes plan untaggedOnly)
    (tourReport plan untaggedOnly resumed pages false) (ticks.run x₁).2
  have hleft := haside.trans ⟨hleases, congrArg SweepRecord.startedAt? hprogress, hnow⟩
  refine ⟨{ (ticks.run x₁).2 with events },
    ⟨hticked.jobs, hticked.queue, hticked.registry, hticked.now⟩,
    ⟨hleft.leases, hleft.startedAt, hleft.now⟩, ?_⟩
  have hopen := tourReport_concat_open plan untaggedOnly resumed pages p
  have hended := tourReport_concat plan untaggedOnly resumed pages p true
  have hpicks : rota (tourReport plan untaggedOnly resumed pages false).batches =
    rota pages.length := rfl
  rw [sweepFrom_run_of_page hcap hread, hpicks]
  cases page.next? with
  | none =>
    rw [hended]
    simp only [hticks, houtcomes', hrecord, PassReport.batches_tally]
  | some next =>
    rw [← hopen]
    simp only [hticks, houtcomes', hrecord, PassReport.batches_tally]

/-- **From any page on, a pass is the rest of a tour.** The worlds of the tour have neither the log
nor the progress of the pass, which ticks and readings cannot tell. -/
theorem sweepFrom_tours (rota : Rota) (resumed : Bool) {start place : Option Cursor}
    {pages : List TickedPage} {x : World}
    (htour : Tour rota plan untaggedOnly w start pages (.after place) v) (halike : x.Alike v)
    (hphase : x.progress.phase = .ongoing) (hcursor : x.progress.cursor? = place) :
    let pass := (sweepFromBy rota plan untaggedOnly place
      (tourReport plan untaggedOnly resumed pages false)).run x
    ∃ pages' onward v', Tour rota plan untaggedOnly w start pages' onward v' ∧
      Ending plan untaggedOnly resumed pages' v' onward pass ∧ v'.SameStores pass.2 ∧
      x.LeftAside pass.2 := by
  induction h : Cursor.room place using Nat.strong_induction_on
    generalizing place pages v x with
  | _ room ih =>
    subst h
    intro pass
    cases hcap : plan.capped (tourReport plan untaggedOnly resumed pages false) with
    | true =>
      rw [show pass = _ from sweepFrom_run_of_capped hcap]
      have hstores := halike.sameStores
      exact ⟨pages, _, v, htour, .capped hcap rfl rfl,
        ⟨hstores.jobs, hstores.queue, hstores.registry⟩, ⟨rfl, rfl, rfl⟩⟩
    | false =>
      obtain ⟨hanswer, -⟩ := halike.answer_scan plan.batchSize place
      have hstores := halike.sameStores.trans (x.sameStores_scan plan.batchSize place)
      have hprogress : (x.answer (.scan plan.batchSize place)).2.progress = x.progress := rfl
      have haside : x.LeftAside (x.answer (.scan plan.batchSize place)).2 := ⟨rfl, rfl, rfl⟩
      cases hread : x.answer (.scan plan.batchSize place) with
      | mk answer x₁ =>
        rw [hread] at hanswer hstores hprogress haside
        cases answer with
        | error e =>
          rw [show pass = _ from sweepFrom_run_of_error hcap hread]
          exact ⟨pages, _, v, htour, .failed hanswer.symm ((congrArg _ hprogress).trans hphase)
            ((congrArg _ hprogress).trans hcursor), hstores, haside⟩
        | ok page =>
          have hpage : v.answer (.scan plan.batchSize place) =
              (.ok page, (v.answer (.scan plan.batchSize place)).2) := Prod.ext hanswer.symm rfl
          have htour' := Tour.page htour hpage
          obtain ⟨x₂, halike₂, hleft, hrun⟩ := sweepFrom_tours_page halike hcap hread
          rw [show pass = _ from hrun]
          unfold Page.onward at htour'
          cases hnext : page.next? with
          | none =>
            rw [hnext] at htour'
            have hsame := halike₂.sameStores
            exact ⟨_, .ended, _, htour', .completed rfl rfl,
              ⟨hsame.jobs, hsame.queue, hsame.registry⟩,
              ⟨hleft.leases, hleft.startedAt, hleft.now⟩⟩
          | some next =>
            obtain ⟨next, hprecedes⟩ := next
            rw [hnext] at htour'
            obtain ⟨pages', onward, v', htours, hending, hstores', haside'⟩ :=
              ih _ (Cursor.room_lt hprecedes) htour'
                (x := (x₂.answer (.notePlace (some next) .ongoing)).2)
                ⟨halike₂.jobs, halike₂.queue, halike₂.registry, halike₂.now⟩ rfl rfl rfl
            have hnoted : x.LeftAside (x₂.answer (.notePlace (some next) .ongoing)).2 :=
              hleft.trans ⟨rfl, rfl, rfl⟩
            exact ⟨pages', onward, v', htours, hending, hstores', hnoted.trans haside'⟩

/-- **A pass that gets the lease is a tour from where the sweep stands.** It gives the lease
back. -/
theorem sweep_tours (rota : Rota) (untaggedOnly : Bool) (hfree : w.LeaseFree plan) :
    let pass := (sweepBy rota plan untaggedOnly).run w
    ∃ pages onward v, Tour rota plan untaggedOnly w w.progress.start? pages onward v ∧
      Ending plan untaggedOnly w.progress.resumes pages v onward pass ∧ v.SameStores pass.2 ∧
      pass.2.leases.held.find? sweepLeaseKey = none ∧ pass.2.now = w.now ∧
      pass.2.progress.startedAt? = (w.progress.begin w.now).startedAt? := by
  obtain ⟨lease, l, hlease⟩ := hfree
  obtain ⟨x, halike, hleases, hprogress, hrun⟩ :=
    passBy_run rota plan untaggedOnly { w with leases := l }
  have halike' : x.Alike w := halike.trans ⟨rfl, rfl, rfl, rfl⟩
  have hphase : x.progress.phase = .ongoing := by
    rw [hprogress]
    rfl
  have hcursor : x.progress.cursor? = w.progress.start? := by
    rw [hprogress]
    unfold SweepRecord.begin SweepRecord.start?
    dsimp only
    split <;> rfl
  obtain ⟨pages, onward, v, htour, hending, hstores, haside⟩ :=
    sweepFrom_tours rota w.progress.resumes .start halike' hphase hcursor
  have hstart : tourReport plan untaggedOnly w.progress.resumes [] false =
      .start w.progress.resumes := rfl
  rw [hstart] at hending hstores haside
  rw [show (sweepFromBy rota plan untaggedOnly w.progress.start?
    (.start w.progress.resumes)).run x = _ from hrun.symm] at hending hstores haside
  cases hpass : (passBy rota plan untaggedOnly).run { w with leases := l } with
  | mk result w' =>
    rw [hpass] at hending hstores haside
    obtain ⟨events, hsweep⟩ := sweep_run hlease hpass
    intro pass
    rw [show pass = _ from hsweep]
    refine ⟨pages, onward, v, htour, hending.congr rfl,
      ⟨hstores.jobs, hstores.queue, hstores.registry⟩, ?_, haside.now.trans halike'.now, ?_⟩
    · rw [show w'.leases = l from haside.leases.trans hleases]
      exact Leases.find?_release hlease
    · exact haside.startedAt.trans (congrArg SweepRecord.startedAt? hprogress)

end JobDispatch

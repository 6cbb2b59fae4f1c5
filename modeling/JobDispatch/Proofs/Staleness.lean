import JobDispatch.Proofs.Cleanup

/-!
Ticks of entries that were read from the queue at some earlier time. A job that once was queued does
not come back to where it was before, so that the queue has this entry for it or none
(`World.Entered`). A tick that answers that the job is claimed already is right then, and so is one
that has offered the job in vain; but a tick that finds nobody to offer it to answers without a look
at the queue, and leaves everything as it is (`stale_ticks_tell`, `stale_tick_misreports`). Entries
that a pass reads are not stale unless others take turns with it, so that a pass by itself counts
under each heading what it says.
-/

namespace JobDispatch

open Program

variable {w v : World} {held : Holders} {f : Footing} {id : JobId} {e : QueueEntry}

/-! ### Entries of the past -/

/-- The entry is, or was once, that of the job in the queue. -/
structure World.Entered (w : World) (id : JobId) (e : QueueEntry) : Prop where
  past : ∃ job, w.jobs.find? id = some job ∧ job.state ≠ .created
  only : ∀ e', w.queue.queue.get? id = some e' → e' = e

namespace World.Entered

lemma of_get? (hw : w.Consistent) (h : w.queue.queue.get? id = some e) : w.Entered id e where
  past := by
    obtain ⟨job, hjob, hpending⟩ := (hw.waiting h).pending
    exact ⟨job, hjob, by rw [hpending]; decide⟩
  only e' he' := Option.some.inj (he'.symm.trans h)

lemma get?_of_waiting (h : w.Entered id e) (hwaits : w.Waiting id) :
    w.queue.queue.get? id = some e := by
  obtain ⟨e', he'⟩ := hwaits.queued
  rw [he', h.only e' he']

/-- A push is for a job that was just created, thus not for this one. -/
lemma answer (h : w.Entered id e) (hk : w.Kept held) {r : Request}
    {post : r.Answer → Footing → Prop} (hp : r.Permitted f post)
    (hf : ∀ t, f.tenure? = some t → held t.job.id = some t) : (w.answer r).2.Entered id e where
  past := by
    obtain ⟨job, hjob, hstate⟩ := h.past
    obtain ⟨job', hjob', rfl | ⟨hfol, -⟩⟩ := hk.record_answer hp hf hjob
    · exact ⟨job', hjob', hstate⟩
    · exact ⟨job', hjob', hfol.state_ne_created⟩
  only e' he' := by
    cases r with
    | push job project tags time =>
      obtain ⟨t, ht, rfl, hcreated, hnone, -⟩ := hp
      obtain ⟨hjob, hget⟩ := hk.tenure (hf t ht)
      rcases World.push_cases hk.sure project tags time (hget.trans hnone) with
        ⟨err, -, hq⟩ | ⟨receipt, -, hq⟩
      · exact h.only e' (hq ▸ he')
      · rw [hq, Queue.get?_push _ _ _ _ _ (hget.trans hnone)] at he'
        split at he'
        · rename_i hid
          obtain ⟨job, hfind, hstate⟩ := h.past
          rw [hid, hjob] at hfind
          cases hfind
          exact absurd hcreated hstate
        · exact h.only e' he'
    | pop job =>
      rcases World.pop_cases hk.sure job with ⟨err, -, hq⟩ | ⟨-, hq⟩
      · exact h.only e' (hq ▸ he')
      · rw [hq, Queue.get?_pop] at he'
        split at he'
        · cases he'
        · exact h.only e' he'
    | _ =>
      rw [World.queue_answer rfl] at he'
      exact h.only e' he'

lemma run {α : Type} {p : Program α} (h : w.Entered id e) (hw : w.Consistent)
    (hp : p.Unlocked) : (p.run w).2.Entered id e := by
  obtain ⟨-, -, -, hentered⟩ := (hp []).run_keep (I := fun v _ => v.Entered id e) p.asks_true
    (fun r post v f _ hp hs h => h.answer hs.kept hp fun t ht => by
      rw [ht]
      exact Holders.sole_some t) hw.sound h
  exact hentered

/-- **An entry of the past stays the only one that its job may have**, whatever operations
follow. -/
theorem acts (h : w.Entered id e) (hw : w.Consistent) (c : Config)
    (as : List (Act Engine.Operation)) :
    (w.acts (Engine.Operation.program c) as).Entered id e := by
  induction as generalizing w with
  | nil => exact h
  | cons a as ih =>
    refine ih ?_ (hw.act c a)
    cases a with
    | call o => exact h.run hw (Engine.Operation.program_unlocked c o)
    | setClock _ | plan _ _ _ => exact ⟨h.past, h.only⟩

end World.Entered

/-! ### Verdicts on stale entries -/

/-- The result is right about the job: it does not wait if it is said to be claimed already, and
waits for a later tick, with the same entry, if it was offered in vain. -/
structure World.Verdict (w : World) (id : JobId) (e : QueueEntry) (offered : Bool)
    (ticked : Except DispatchError TickOutcome × World) : Prop where
  gone : ticked.1 = .ok .alreadyClaimed → ¬w.Waiting id ∧ ¬ticked.2.Waiting id
  left : ticked.1 = .ok .noEligibleWorker → offered = true →
    ticked.2.Waiting id ∧ ticked.2.queue.queue.get? id = some e

lemma World.Entered.verdict (h : w.Entered id e) {offered : Bool}
    {ticked : Except DispatchError TickOutcome × World}
    (htells : w.TickTells id ticked.1 ticked.2)
    (hshows : w.TickShows id offered ticked.1 ticked.2) : w.Verdict id e offered ticked where
  gone hgone := by
    obtain ⟨hjobs, hqueue⟩ := htells.spared fun a ha => (by rw [hgone] at ha; cases ha)
    have hbefore := hshows.gone hgone
    exact ⟨hbefore, fun hafter => hbefore (hafter.congr hjobs.symm hqueue.symm)⟩
  left hleft hoffered := by
    obtain ⟨hjobs, hqueue⟩ := htells.spared fun a ha => (by rw [hleft] at ha; cases ha)
    have hbefore := hshows.left hleft hoffered
    exact ⟨hbefore.congr hjobs hqueue, by rw [hqueue]; exact h.get?_of_waiting hbefore⟩

/-! ### Passes by themselves -/

variable {plan : SweepPlan} {untaggedOnly : Bool}

lemma World.Consistent.allWait {limit : UInt64} {after : Option Cursor} {page : Page after}
    (hw : w.Consistent) (h : w.answer (.scan limit after) = (.ok page, v)) :
    v.AllWait page.entries := by
  have hsame := w.sameStores_scan limit after
  rw [h] at hsame
  rw [World.page_of_scan (congrArg Prod.fst h)]
  exact ⟨hw.listed.scan_distinct limit after, fun e he =>
    hsame.waiting_iff.2 (hw.waiting (hw.listed.mem_scan he))⟩

lemma TickedPage.inTurn (plan : SweepPlan) (untaggedOnly : Bool) {p : TickedPage}
    (hp : p.picks = []) :
    p.outcomes plan untaggedOnly = ((offerAll untaggedOnly p.entries).run p.world).1 ∧
      p.after plan untaggedOnly = ((offerAll untaggedOnly p.entries).run p.world).2 := by
  have hpage : offerPage plan untaggedOnly p.picks p.entries = offerAll untaggedOnly p.entries := by
    rw [hp]
    exact (Rota.plain_unmixed plan).offerPage untaggedOnly 0 p.entries
  unfold TickedPage.outcomes TickedPage.after
  rw [hpage]
  exact ⟨rfl, rfl⟩

/-- **The jobs of each page of a tour wait when it is ticked.** -/
theorem Tour.allWait {start : Option Cursor} {pages : List TickedPage} {onward : Onward}
    (h : Tour .plain plan untaggedOnly w start pages onward v) (hw : w.Consistent) :
    v.Consistent ∧
      ∀ p ∈ pages, p.picks = [] ∧ p.world.Honest ∧ p.world.AllWait p.entries := by
  have hread (v : World) (limit : UInt64) (after : Option Cursor) (hv : v.Consistent) :
      (v.answer (.scan limit after)).2.Consistent :=
    hv.run (p := request (.scan limit after)) (unlocked_request rfl)
  have hticks (v : World) (n : Nat) (es : List QueueEntry) (hv : v.Consistent) :
      ((offerPage plan untaggedOnly (Rota.plain n) es).run v).2.Consistent := by
    rw [(Rota.plain_unmixed plan).offerPage]
    exact hv.run (offerAll_loose untaggedOnly es).unlocked_of_loose
  refine ⟨(h.keeps hread hticks hw).1, ?_⟩
  induction h with
  | start => exact fun p hp => absurd hp List.not_mem_nil
  | @page pages place v u page h hanswer ih =>
    intro p hp
    have hv := (h.keeps hread hticks hw).1
    have hu := hread v plan.batchSize place hv
    rw [hanswer] at hu
    rcases List.mem_append.1 hp with hp | hp
    · exact ih p hp
    · rw [List.mem_singleton.1 hp]
      exact ⟨rfl, hu.honest, hv.allWait hanswer⟩

/-- Who is left waiting by one page waits still at the end, unless a later tick claims the job. -/
theorem Tour.waits {start : Option Cursor} {pages : List TickedPage} {onward : Onward}
    (h : Tour .plain plan untaggedOnly w start pages onward v) (hw : w.Consistent)
    {p : TickedPage} (hp : p ∈ pages) (hwaits : (p.after plan untaggedOnly).Waiting id) :
    v.Waiting id ∨
      ∃ p' ∈ pages, ∃ a, .ok (.claimed a) ∈ p'.outcomes plan untaggedOnly ∧ a.job = id := by
  induction h with
  | start => exact absurd hp List.not_mem_nil
  | @page pages place v u page h hanswer ih =>
    rcases List.mem_append.1 hp with hp | hp
    · rcases ih hp with hv | ⟨p', hp', hclaimed⟩
      · have hsame := v.sameStores_scan plan.batchSize place
        have hu := (h.allWait hw).1.honest.answer (.scan plan.batchSize place)
        rw [hanswer] at hsame hu
        obtain ⟨houtcomes, hafter⟩ := TickedPage.inTurn plan untaggedOnly
          (p := ⟨page.entries, Rota.plain pages.length, u⟩) rfl
        rw [hafter]
        refine ((hsame.waiting_iff.2 hv).offerAll hu untaggedOnly page.entries).imp_right ?_
        rintro ⟨-, hclaimed⟩
        rw [← houtcomes] at hclaimed
        exact ⟨_, List.mem_append_right _ (List.mem_singleton_self _), hclaimed⟩
      · exact .inr ⟨p', List.mem_append_left _ hp', hclaimed⟩
    · rw [List.mem_singleton.1 hp] at hwaits
      exact .inl hwaits

/-- What a report tells: nothing that was ticked had left the queue, and what is counted as without
a worker waits, unless a later tick of the pass has found a worker after all. -/
structure World.PassTells (w : World) (plan : SweepPlan) (untaggedOnly : Bool)
    (report : PassReport) (w' : World) : Prop where
  gone : report.alreadyClaimed = 0
  left : ∃ pages onward v, Tour .plain plan untaggedOnly w w.progress.start? pages onward v ∧
    report.noEligible =
      (pages.flatMap fun p => p.outcomes plan untaggedOnly).countP PassReport.isNoEligible ∧
    ∀ p ∈ pages, ∀ q ∈ p.entries.zip (p.outcomes plan untaggedOnly), q.2 = .ok .noEligibleWorker →
      (p.after plan untaggedOnly).Waiting q.1.job ∧ (w'.Waiting q.1.job ∨
        ∃ p' ∈ pages, ∃ a, .ok (.claimed a) ∈ p'.outcomes plan untaggedOnly ∧ a.job = q.1.job)

/-- **A pass by itself counts as it says.** -/
theorem World.Consistent.passTells (hw : w.Consistent) {report : PassReport}
    (h : ((sweep plan untaggedOnly).run w).1 = .ok report) :
    w.PassTells plan untaggedOnly report ((sweep plan untaggedOnly).run w).2 := by
  obtain ⟨pages, onward, v, htour, hending, hstores, -⟩ :=
    sweep_tours .plain untaggedOnly (leaseFree_of_sweep (Prod.ext h rfl))
  obtain ⟨hreport, -⟩ := hending.of_ok htour h
  obtain ⟨-, hpages⟩ := htour.allWait hw
  refine ⟨?_, pages, onward, v, htour, ?_, fun p hp q hq hleft => ?_⟩
  · rw [hreport, PassReport.counts_alreadyClaimed.tourReport, List.countP_eq_zero]
    intro outcome hmem hgone
    obtain ⟨p, hp, hmem⟩ := List.mem_flatMap.1 hmem
    obtain ⟨hpicks, hhonest, hall⟩ := hpages p hp
    obtain ⟨hnone, -⟩ := hall.offerAll hhonest untaggedOnly
    rw [(TickedPage.inTurn plan untaggedOnly hpicks).1] at hmem
    rcases outcome with err | (a | _ | _)
    · cases hgone
    · cases hgone
    · cases hgone
    · exact hnone hmem
  · rw [hreport]
    exact PassReport.counts_noEligible.tourReport plan untaggedOnly w.progress.resumes pages _
  · obtain ⟨hpicks, hhonest, hall⟩ := hpages p hp
    obtain ⟨houtcomes, hticked⟩ := TickedPage.inTurn plan untaggedOnly hpicks
    obtain ⟨-, hwaits⟩ := hall.offerAll hhonest untaggedOnly
    rw [houtcomes] at hq
    rw [← hticked] at hwaits
    have hafter := hwaits q hq hleft
    exact ⟨hafter, (htour.waits hw hp hafter).imp_left hstores.waiting_iff.2⟩

/-! ### Ticks of stale entries -/

lemma Engine.Reachable.acts {c : Config} (h : Engine.Reachable c w)
    (since : List (Act Engine.Operation)) :
    Engine.Reachable c (w.acts (Engine.Operation.program c) since) := by
  obtain ⟨sink, now, as, rfl⟩ := h
  exact ⟨sink, now, as ++ since, List.foldl_append.symm⟩

/-- **What ticks answer of entries that were read before**, whatever operations followed. That the
job is claimed already is right. That there is no worker is answered if and only if none is ranked;
the tick has not looked at the queue then, and leaves the job as it is, which waits if it did so
before. Offers, on the other hand, to whichever workers, are right about the job if there are any;
so is a tick by name, and so is the report of a pass that runs by itself. -/
theorem stale_ticks_tell {c : Config} (hreach : Engine.Reachable c v)
    (hseen : v.queue.queue.get? id = some e) (since : List (Act Engine.Operation))
    (untaggedOnly : Bool) :
    let w := v.acts (Engine.Operation.program c) since
    let ticked := (offerEntry untaggedOnly e).run w
    ((ticked.1 = .ok .alreadyClaimed → ¬w.Waiting id ∧ ¬ticked.2.Waiting id) ∧
      (ticked.1 = .ok .noEligibleWorker ↔ ((rankWorkers untaggedOnly e).run w).1 = []) ∧
      (ticked.1 = .ok .noEligibleWorker → w.SameStores ticked.2 ∧
        (w.Waiting id → ticked.2.Waiting id ∧ ticked.2.queue.queue.get? id = some e))) ∧
    (∀ workers, w.Verdict id e (!workers.isEmpty) ((offerTo e workers).run w)) ∧
    w.Verdict id e true ((tick untaggedOnly id).run w) ∧
    ∀ plan report, ((sweep plan untaggedOnly).run w).1 = .ok report →
      w.PassTells plan untaggedOnly report ((sweep plan untaggedOnly).run w).2 := by
  intro w ticked
  obtain rfl : e.job = id := hreach.consistent.listed.named id e hseen
  have hnow : w.Consistent := (hreach.acts since).consistent
  have hhonest := hnow.honest
  have hentered : w.Entered e.job e :=
    (World.Entered.of_get? hreach.consistent hseen).acts hreach.consistent c since
  have htick := hentered.verdict (offerEntry_tells hhonest untaggedOnly e)
    (offerEntry_shows hhonest untaggedOnly e)
  have hnone := offerEntry_noEligible_iff hhonest untaggedOnly e
  refine ⟨⟨htick.gone, hnone, fun hleft => ?_⟩, fun workers => ?_, ?_, fun plan report h => ?_⟩
  · have hsame : w.SameStores ticked.2 := by
      rw [show ticked = _ from offerEntry_of_none untaggedOnly e (hnone.1 hleft)]
      exact ⟨rfl, rfl, rfl⟩
    refine ⟨hsame, fun hwaits => ⟨hsame.waiting_iff.2 hwaits, ?_⟩⟩
    rw [hsame.queue]
    exact hentered.get?_of_waiting hwaits
  · exact hentered.verdict (offerTo_tells hhonest e workers) (offerTo_shows hhonest e workers)
  · exact hentered.verdict (tick_tells hhonest untaggedOnly fun e' => hnow.listed.named e.job e')
      (tick_shows hnow untaggedOnly e.job)
  · exact hnow.passTells h

def firstOfTwo : QueueEntry := ⟨⟨.ofNat 2⟩, ⟨.ofNat 4⟩, .empty, .epoch, 1⟩

/-- The second job is claimed after the entry of the first one was read, and the worker is full. The
first job, offered to the worker as it was before, goes on waiting. -/
theorem stale_ticks_tell_full :
    let w := twoWaiting.acts (Engine.Operation.program smallestPasses) [.call (.tick ⟨.ofNat 3⟩)]
    let before : Worker := ⟨⟨.ofNat 1⟩, .empty, 1, 0, .epoch, none, .everyProject, true⟩
    let offered := (offerTo firstOfTwo [before]).run w
    offered.1 = .ok .noEligibleWorker ∧ offered.2.Waiting ⟨.ofNat 2⟩ ∧
      offered.2.queue.queue.get? ⟨.ofNat 2⟩ = some firstOfTwo := by
  intro w before offered
  have hreach : Engine.Reachable smallestPasses twoWaiting := ⟨_, _, _, rfl⟩
  have hseen : twoWaiting.queue.queue.get? ⟨.ofNat 2⟩ = some firstOfTwo := by decide +kernel
  have hvain : offered.1 = .ok .noEligibleWorker := by decide +kernel
  obtain ⟨-, hoffers, -⟩ := stale_ticks_tell hreach hseen [.call (.tick ⟨.ofNat 3⟩)] true
  obtain ⟨hwaits, hentry⟩ := (hoffers [before]).left hvain rfl
  exact ⟨hvain, hwaits, hentry⟩

/-- **A tick may answer that there is no worker for a job that does not wait**: the job was canceled
after its entry was read, and no worker is ranked. -/
theorem stale_tick_misreports :
    ∃ (c : Config) (v : World) (id : JobId) (e : QueueEntry) (since : List (Act Engine.Operation)),
      Engine.Reachable c v ∧ v.queue.queue.get? id = some e ∧
      let w := v.acts (Engine.Operation.program c) since
      ((offerEntry true e).run w).1 = .ok .noEligibleWorker ∧
        ¬((offerEntry true e).run w).2.Waiting id := by
  refine ⟨.standard, (Engine.initial .standard .silent .epoch).acts
      (Engine.Operation.program .standard) [.call (.enqueue ⟨⟨.ofNat 2⟩, ⟨.ofNat 4⟩, .empty⟩)],
    ⟨.ofNat 2⟩, firstOfTwo, [.call (.dequeue ⟨.ofNat 2⟩)], ⟨_, _, _, rfl⟩, by decide +kernel,
    by decide +kernel, fun hwaits => ?_⟩
  obtain ⟨e', he'⟩ := hwaits.queued
  refine Option.some_ne_none e' (he'.symm.trans ?_)
  decide +kernel

end JobDispatch

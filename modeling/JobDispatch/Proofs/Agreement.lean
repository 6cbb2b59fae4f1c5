import JobDispatch.Proofs.Arrivals
import JobDispatch.Proofs.Exhaustion

/-!
Dispatching at once and dispatching in sweeps agree. Jobs that are enqueued one after the other and
ticked as they come (`World.dispatchAll`) end up with the workers that they end up with when they
are all queued first (`World.queueAll`) and then ticked in a sweep (`World.tickAll`): each tick can
be put off until the jobs after it have arrived (`Awaits.dispatchAll_eq`).
-/

namespace JobDispatch

open Program

variable {w v : World} {d : JobDraft} {ds : List JobDraft} {untaggedOnly : Bool}

/-! ### Arrivals and ticks, one after the other -/

namespace World

/-- Ticks entries: what each tick comes to, and the world after them. -/
def tickAll (untaggedOnly : Bool) : List QueueEntry → World → List TickOutcome × World
  | [], w => ([], w)
  | e :: es, w =>
    let rest := tickAll untaggedOnly es (w.ticked untaggedOnly e)
    (w.registry.verdict untaggedOnly w.now e :: rest.1, rest.2)

def queueAll : List JobDraft → World → List QueueEntry × World
  | [], w => ([], w)
  | d :: ds, w =>
    let rest := queueAll ds (w.queued d)
    (w.arrival d :: rest.1, rest.2)

/-- The drafts may be queued one after the other. -/
structure Awaits (w : World) (ds : List JobDraft) : Prop where
  rest : w.AtRest
  distinct : (ds.map JobDraft.id).Nodup
  queueable : ∀ d ∈ ds, w.Queueable d
  room : w.jobs.size + ds.length < UInt64.size

/-- A queued job is not one that may be queued. -/
lemma AtRest.id_ne_of_queueable (hw : w.AtRest) (hd : w.Queueable d) {id : JobId} {e : QueueEntry}
    (he : w.queue.queue.get? id = some e) : d.id ≠ id := by
  rintro rfl
  rw [hw.still.get?_of_queueable hd] at he
  cases he

namespace Awaits

lemma head (h : w.Awaits (d :: ds)) : w.Queueable d := h.queueable d List.mem_cons_self

lemma head_room (h : w.Awaits (d :: ds)) : w.jobs.size + 1 < UInt64.size := by
  have hroom := h.room
  rw [List.length_cons] at hroom
  omega

lemma queued (h : w.Awaits (d :: ds)) : (w.queued d).Awaits ds := by
  obtain ⟨hnew, hdistinct⟩ := List.nodup_cons.1 h.distinct
  refine ⟨h.rest.queued h.head h.head_room, hdistinct, fun d' hd' job hjob => ?_, ?_⟩
  · have hne : d'.id ≠ d.id := fun hid => hnew (hid ▸ List.mem_map_of_mem hd')
    change (w.jobs.insert d.id _).find? d'.id = some job at hjob
    rw [Table.find?_insert_of_ne _ _ hne] at hjob
    exact h.queueable d' (List.mem_cons_of_mem _ hd') job hjob
  · have hsize : (w.queued d).jobs.size ≤ w.jobs.size + 1 := Table.size_insert_le _ _ _
    have hroom := h.room
    rw [List.length_cons] at hroom
    omega

lemma ticked (h : w.Awaits ds) (untaggedOnly : Bool) {e : QueueEntry}
    (he : w.queue.queue.get? e.job = some e) : (w.ticked untaggedOnly e).Awaits ds := by
  refine ⟨h.rest.ticked untaggedOnly he, h.distinct, fun d hd job hjob => ?_, ?_⟩
  · have hne := h.rest.id_ne_of_queueable (h.queueable d hd) he
    rcases h.rest.ticked_cases untaggedOnly he with ⟨-, hsame⟩ | ⟨worker, job', -, hid, hgone⟩
    · rw [hsame] at hjob
      exact h.queueable d hd job hjob
    · rw [hgone] at hjob
      change (w.jobs.insert job'.id _).find? d.id = some job at hjob
      rw [hid, Table.find?_insert_of_ne _ _ hne] at hjob
      exact h.queueable d hd job hjob
  · have hroom := h.room
    obtain ⟨job, hjob, hid, -⟩ := h.rest.still.job_of_get? he
    have hsize : (w.ticked untaggedOnly e).jobs.size = w.jobs.size := by
      unfold World.ticked
      rw [hjob]
      cases w.registry.choice untaggedOnly w.now e with
      | none => rfl
      | some worker => exact Table.size_insert_of_find? _ (by rw [hid]; exact hjob)
    omega

end Awaits

lemma queueAll_registry (ds : List JobDraft) (w : World) :
    (queueAll ds w).2.registry = w.registry ∧ (queueAll ds w).2.now = w.now := by
  induction ds generalizing w with
  | nil => exact ⟨rfl, rfl⟩
  | cons d ds ih => exact ih (w.queued d)

lemma Alike.queued (h : v.Alike w) (d : JobDraft) :
    (v.queued d).Alike (w.queued d) ∧ v.arrival d = w.arrival d := by
  cases v
  cases w
  obtain ⟨rfl, rfl, rfl, rfl⟩ := h
  exact ⟨⟨rfl, rfl, rfl, rfl⟩, rfl⟩

lemma Alike.ticked (h : v.Alike w) (untaggedOnly : Bool) (e : QueueEntry) :
    (v.ticked untaggedOnly e).Alike (w.ticked untaggedOnly e) := by
  cases v
  cases w
  obtain ⟨rfl, rfl, rfl, rfl⟩ := h
  unfold World.ticked
  dsimp only
  split
  · exact ⟨rfl, rfl, rfl, rfl⟩
  · exact ⟨rfl, rfl, rfl, rfl⟩

theorem AtRest.offerAll_run (hw : w.AtRest) (untaggedOnly : Bool) {es : List QueueEntry}
    (hqueued : ∀ e ∈ es, w.queue.queue.get? e.job = some e)
    (hdistinct : es.Pairwise fun a b => a.job ≠ b.job) (hv : v.Alike w) :
    ∃ v', (offerAll untaggedOnly es).run v = ((tickAll untaggedOnly es w).1.map .ok, v') ∧
      v'.Alike (tickAll untaggedOnly es w).2 := by
  induction es generalizing v w with
  | nil => exact ⟨v, rfl, hv⟩
  | cons e es ih =>
    have he := hqueued e List.mem_cons_self
    obtain ⟨hne, hdistinct'⟩ := List.pairwise_cons.1 hdistinct
    have hev : v.queue.queue.get? e.job = some e := by
      rw [hv.queue]
      exact he
    obtain ⟨v₁, hrun, halike⟩ := (hw.congr hv).still.offerEntry_run untaggedOnly hev
    obtain ⟨v', hrest, halike'⟩ := ih (hw.ticked untaggedOnly he)
      (fun e' he' => by
        rw [hw.get?_ticked he (hne e' he').symm]
        exact hqueued e' (List.mem_cons_of_mem _ he'))
      hdistinct' (halike.trans (hv.ticked untaggedOnly e))
    refine ⟨v', ?_, halike'⟩
    unfold offerAll
    rw [run_bind, hrun]
    dsimp only
    rw [run_bind, hrest, hv.registry, hv.now]
    rfl

/-! ### The queue after all arrivals -/

namespace Awaits

lemma queueAll_rest (h : w.Awaits ds) : (queueAll ds w).2.AtRest := by
  induction ds generalizing w with
  | nil => exact h.rest
  | cons d ds ih => exact ih h.queued

lemma toList_queueAll (h : w.Awaits ds) :
    (queueAll ds w).2.queue.queue.toList = w.queue.queue.toList ++ (queueAll ds w).1 := by
  induction ds generalizing w with
  | nil => exact (List.append_nil _).symm
  | cons d ds ih =>
    have hpush : (w.queued d).queue.queue.toList = w.queue.queue.toList ++ [w.arrival d] :=
      h.rest.aligned.toList_push _ _ _ (h.rest.still.get?_of_queueable h.head)
    show (queueAll ds (w.queued d)).2.queue.queue.toList = _
    rw [ih h.queued, hpush, List.append_assoc]
    rfl

end Awaits

end World

lemma Queue.toList_of_length_eq_zero {q : Queue} (h : q.length = 0) : q.toList = [] := by
  refine List.filterMap_eq_nil_iff.2 fun p _ => ?_
  have hentries : q.entries.entries = [] := List.length_eq_zero_iff.1 h
  unfold Table.find?
  rw [hentries]
  rfl

lemma countP_isClaimed (outcomes : List TickOutcome) :
    (outcomes.map Except.ok).countP PassReport.isClaimed =
      outcomes.countP TickOutcome.isAssigned := by
  rw [List.countP_map]
  refine List.countP_congr fun outcome _ => ?_
  cases outcome <;> exact Iff.rfl

lemma countP_isNoEligible (outcomes : List TickOutcome) :
    (outcomes.map Except.ok).countP PassReport.isNoEligible =
      outcomes.count .noEligibleWorker := by
  rw [List.countP_map]
  refine List.countP_congr fun outcome _ => ?_
  cases outcome <;> simp [PassReport.isNoEligible]

/-- **A sweep after all arrivals** ticks the jobs in the order in which they came. -/
theorem World.Awaits.sweep_run {plan : SweepPlan} (h : w.Awaits ds) (untaggedOnly : Bool)
    (hempty : w.queue.queue.length = 0) (hfresh : w.progress.resumes = false)
    (hfree : w.LeaseFree plan) (hb : plan.batchSize ≠ 0) (hcap : plan.maxBatches? = none)
    (hv : v.Alike (queueAll ds w).2) (hleases : v.leases = w.leases)
    (hprogress : v.progress = w.progress) :
    ∃ r v', (sweep plan untaggedOnly).run v = (.ok r, v') ∧ r.completed = true ∧
      r.claimed = (tickAll untaggedOnly (queueAll ds w).1 (queueAll ds w).2).1.countP
        TickOutcome.isAssigned ∧
      r.noEligible = (tickAll untaggedOnly (queueAll ds w).1 (queueAll ds w).2).1.count
        .noEligibleWorker ∧
      v'.Alike (tickAll untaggedOnly (queueAll ds w).1 (queueAll ds w).2).2 := by
  have hall := h.queueAll_rest
  have hlist : (queueAll ds w).2.queue.queue.toList = (queueAll ds w).1 := by
    rw [h.toList_queueAll, Queue.toList_of_length_eq_zero hempty, List.nil_append]
  have hfree' : v.LeaseFree plan := by
    unfold World.LeaseFree
    rw [hleases, hv.now, (queueAll_registry ds w).2]
    exact hfree
  obtain ⟨r, v', hrun, hpass⟩ := (hall.congr hv).wholePass untaggedOnly hb hcap
    (by rw [hprogress]; exact hfresh) hfree'
  have hmem : ∀ e ∈ (queueAll ds w).1, (queueAll ds w).2.queue.queue.get? e.job = some e := by
    intro e he
    rw [← hlist] at he
    exact Queue.mem_toList hall.aligned he
  have hjobs : (queueAll ds w).1.Pairwise fun a b => a.job ≠ b.job := by
    rw [← hlist]
    exact hall.aligned.toList_distinct
  obtain ⟨u, hticks, hu⟩ := hall.offerAll_run untaggedOnly hmem hjobs hv
  obtain ⟨⟨batches, rfl⟩, halike, -, -⟩ := hpass
  rw [hv.queue, hlist, hticks] at halike hrun
  refine ⟨_, v', hrun, rfl, ?_, ?_, halike.trans hu⟩
  · rw [PassReport.counts_claimed.close, PassReport.counts_claimed.tally, countP_isClaimed]
    exact Nat.zero_add _
  · rw [PassReport.counts_noEligible.close, PassReport.counts_noEligible.tally,
      countP_isNoEligible]
    exact Nat.zero_add _

end JobDispatch

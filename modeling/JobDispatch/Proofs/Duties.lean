import JobDispatch.Proofs.Alone

/-!
Operations that keep their offers. A program is dutiful if, run by itself in a still world, it hands
each worker as many jobs as it offers it. Requests and sections that offer nothing are dutiful, and
so are ticks and walks through the queue, because the entries that they tick are in the queue: they
were just read, each for a job of its own, and a tick takes out no other entry than its own. So all
operations are dutiful (`Engine.Operation.program_dutiful`).
-/

namespace JobDispatch

open Program

/-! ### Dutiful programs -/

structure Program.Dutiful {α : Type} (p : Program α) : Prop where
  unlocked : p.Unlocked
  fulfilled : ∀ w : World, w.Still → (p.alone w).Fulfilled

namespace Program

variable {α β : Type} {p : Program α}

lemma Asks.dutiful (hp : p.Asks fun r => r.offersNothing = true) (hu : p.Unlocked) : p.Dutiful :=
  ⟨hu, fun w _ => hp.fulfilled w⟩

lemma dutiful_pure (a : α) : (pure a : Program α).Dutiful :=
  ⟨unlocked_pure a, fun _ _ _ => rfl⟩

lemma Dutiful.bind {f : α → Program β} (hp : p.Dutiful) (hf : ∀ a, (f a).Dutiful) :
    (p >>= f).Dutiful := by
  refine ⟨hp.unlocked.bind fun a => (hf a).unlocked, fun w hw => ?_⟩
  rw [alone_bind]
  exact (hp.fulfilled w hw).append ((hf _).fulfilled _ (hw.run hp.unlocked))

lemma Dutiful.discard (hp : p.Dutiful) : (Functor.discard p).Dutiful :=
  hp.bind fun _ => dutiful_pure _

lemma dutiful_request {r : Request} (hr : r.isFree = true) (ha : r.offersNothing = true) :
    (request r).Dutiful := Asks.dutiful ((asks_request r).2 ha) (unlocked_request hr)

lemma Dutiful.ask {r : Request} {f : r.Answer → Program α} (hr : r.isFree = true)
    (ha : r.offersNothing = true) (hf : ∀ x, (f x).Dutiful) : (request r >>= f).Dutiful :=
  (dutiful_request hr ha).bind hf

end Program

lemma changeState_dutiful (id : JobId) (edge : Edge) : (changeState id edge).Dutiful := by
  refine Asks.dutiful ((changeState_asks_ofChange id edge).mono fun r hr => ?_)
    (changeState_unlocked id edge)
  cases r with
  | storeJob record =>
    show (Request.handover? (.storeJob record)).isNone = true
    rw [Request.handover?, if_neg fun hrunning => hr.2 (hr.1.symm.trans hrunning)]
    rfl
  | count m =>
    rcases hr with rfl | rfl | rfl | rfl <;> rfl
  | _ => rfl

lemma auditJob_dutiful (id : JobId) : (auditJob id).Dutiful := by
  refine Asks.dutiful ((auditJob_asks_ofAudit id).mono fun r hr => ?_) (auditJob_unlocked id)
  cases r with
  | storeJob _ | count _ => exact False.elim hr
  | _ => rfl

/-! ### Ticks -/

section

variable {w : World}

lemma World.Still.get?_offerEntry (hw : w.Still) (untaggedOnly : Bool) (e : QueueEntry)
    {id : JobId} (hne : id ≠ e.job) :
    ((offerEntry untaggedOnly e).run w).2.queue.queue.get? id = w.queue.queue.get? id := by
  rcases (hw.of_offerEntry untaggedOnly e).2 with hq | hq
  · rw [hq]
  · rw [hq, Queue.get?_pop, if_neg hne]

lemma tick_dutiful (untaggedOnly : Bool) (id : JobId) : (tick untaggedOnly id).Dutiful := by
  refine ⟨(tick_loose untaggedOnly id).unlocked_of_loose, fun w hw => ?_⟩
  unfold tick
  rw [alone_bind, run_request, World.answer_lookup hw.plan]
  refine .append (Asks.fulfilled (p := request (.lookup id)) ⟨rfl, fun _ => trivial⟩ w) ?_
  cases he : w.queue.queue.get? id with
  | none => exact (dutiful_request rfl rfl).bind (fun _ => dutiful_pure _) |>.fulfilled w hw
  | some e =>
    refine hw.offerEntry_fulfilled untaggedOnly ?_
    rw [hw.listed.named id e he]
    exact he

end

/-! ### Walks through the queue -/

section

variable {σ : Type} {visit : QueueEntry → σ → Program (Visit σ)}

/-- Visits that keep their offers to the job of an entry that is in the queue, and that leave other
entries alone. -/
structure DutifulVisits (visit : QueueEntry → σ → Program (Visit σ)) : Prop where
  loose : ∀ e s, Loose (visit e s)
  fulfilled : ∀ e s (w : World), w.Still → w.queue.queue.get? e.job = some e →
    ((visit e s).alone w).Fulfilled
  others : ∀ e s (w : World), w.Still → ∀ id, id ≠ e.job →
    ((visit e s).run w).2.queue.queue.get? id = w.queue.queue.get? id

namespace DutifulVisits

lemma walkPage (hvisit : DutifulVisits visit) {es : List QueueEntry} (s : σ) {w : World}
    (hw : w.Still) (hqueued : ∀ e ∈ es, w.queue.queue.get? e.job = some e)
    (hdistinct : es.Pairwise fun a b => a.job ≠ b.job) :
    ((JobDispatch.walkPage visit es s).alone w).Fulfilled := by
  induction es generalizing s w with
  | nil => exact fun _ => rfl
  | cons e es ih =>
    obtain ⟨hne, hdistinct'⟩ := List.pairwise_cons.1 hdistinct
    unfold JobDispatch.walkPage
    rw [alone_bind]
    refine .append (hvisit.fulfilled e s w hw (hqueued e List.mem_cons_self)) ?_
    split
    · refine ih _ (hw.run (hvisit.loose e s).unlocked_of_loose) (fun e' he' => ?_) hdistinct'
      rw [hvisit.others e s w hw _ (hne e' he').symm]
      exact hqueued e' (List.mem_cons_of_mem _ he')
    · exact fun _ => rfl
    · exact fun _ => rfl

/-- What a page shows is in the queue when it is visited, since visits take out no other entries. -/
theorem walkQueue (hvisit : DutifulVisits visit) (limit : UInt64) (after : Option Cursor) (s : σ) :
    (JobDispatch.walkQueue limit visit after s).Dutiful := by
  refine ⟨(walkQueue_loose hvisit.loose limit after s).unlocked_of_loose, fun w hw => ?_⟩
  induction h : Cursor.room after using Nat.strongRecOn generalizing after s w with
  | _ n ih =>
    subst h
    unfold JobDispatch.walkQueue
    rw [alone_bind, run_request, World.answer_scan hw.plan]
    refine .append (Asks.fulfilled (p := request (.scan limit after)) ⟨rfl, fun _ => trivial⟩ w) ?_
    dsimp only
    rw [alone_bind]
    refine .append (hvisit.walkPage s hw (fun e he => hw.listed.mem_scan he)
      (hw.listed.scan_distinct limit after)) ?_
    split
    · exact fun _ => rfl
    · exact fun _ => rfl
    split
    · rename_i next hnext _
      exact ih _ (Cursor.room_lt hnext) _ _ _
        (hw.run (walkPage_loose hvisit.loose _ s).unlocked_of_loose) rfl
    · exact fun _ => rfl

end DutifulVisits

/-- Who could take an entry is asked, and then the entry is ticked, or not. -/
lemma visitFor_dutiful (untaggedOnly : Bool) (worker : WorkerId) :
    DutifulVisits (visitFor untaggedOnly worker) where
  loose := visitFor_loose untaggedOnly worker
  fulfilled e claims w hw he := by
    unfold visitFor
    rw [alone_bind]
    refine .append (Asks.fulfilled (p := request (.worker worker)) ⟨rfl, fun _ => trivial⟩ w) ?_
    split
    · exact fun _ => rfl
    rw [alone_bind]
    refine .append (Asks.fulfilled (p := currentCriteria untaggedOnly)
      ⟨rfl, fun _ => ⟨rfl, fun _ => trivial⟩⟩ w) ?_
    split
    · exact fun _ => rfl
    split
    · exact fun _ => rfl
    rw [alone_bind]
    refine .append (hw.offerEntry_fulfilled untaggedOnly he) ?_
    split
    · exact fun _ => rfl
    · exact fun _ => rfl
  others e claims w hw id hne := by
    have hoffer := hw.get?_offerEntry untaggedOnly e hne
    unfold visitFor
    rw [run_bind, run_request]
    split
    · rfl
    rw [run_bind]
    split
    · rfl
    split
    · rfl
    rw [run_bind]
    split
    · exact hoffer
    · exact hoffer

lemma auditEntry_dutiful : DutifulVisits Engine.auditEntry where
  loose := Engine.auditEntry_loose
  fulfilled e report w hw _ := by
    refine Asks.fulfilled (p := Engine.auditEntry e report) ⟨rfl, fun job? => ?_⟩ w
    cases job? <;> trivial
  others e report w _ id _ := by
    unfold Engine.auditEntry
    rw [run_bind, run_request]
    split <;> rfl

end

/-! ### Sweeps -/

lemma World.Still.offerAll_fulfilled {w : World} (hw : w.Still) (untaggedOnly : Bool)
    {es : List QueueEntry} (hqueued : ∀ e ∈ es, w.queue.queue.get? e.job = some e)
    (hdistinct : es.Pairwise fun a b => a.job ≠ b.job) :
    ((offerAll untaggedOnly es).alone w).Fulfilled := by
  induction es generalizing w with
  | nil => exact fun _ => rfl
  | cons e es ih =>
    obtain ⟨hne, hdistinct'⟩ := List.pairwise_cons.1 hdistinct
    unfold offerAll
    rw [alone_bind]
    refine .append (hw.offerEntry_fulfilled untaggedOnly (hqueued e List.mem_cons_self)) ?_
    rw [alone_bind]
    refine .append (ih (hw.of_offerEntry untaggedOnly e).1 (fun e' he' => ?_) hdistinct')
      fun _ => rfl
    rw [hw.get?_offerEntry untaggedOnly e (hne e' he').symm]
    exact hqueued e' (List.mem_cons_of_mem _ he')

lemma Program.Asks.dutiful_of_logs {α : Type} {p : Program α}
    (hp : p.Asks fun r => ∃ e, r = .log e) : p.Dutiful :=
  (hp.mono fun _ ⟨_, hr⟩ => hr ▸ rfl).dutiful hp.loose_of_logs.unlocked_of_loose

lemma recordOutcomes_dutiful (outcomes : List (Except DispatchError TickOutcome))
    (report : PassReport) : (recordOutcomes outcomes report).Dutiful :=
  (recordOutcomes_asks outcomes report).dutiful_of_logs

lemma sweepFrom_dutiful (plan : SweepPlan) (untaggedOnly : Bool) (after : Option Cursor)
    (report : PassReport) : (sweepFrom plan untaggedOnly after report).Dutiful := by
  refine ⟨(sweepFrom_loose plan untaggedOnly after report).unlocked_of_loose, fun w hw => ?_⟩
  induction h : Cursor.room after using Nat.strongRecOn generalizing after report w with
  | _ n ih =>
    subst h
    rw [sweepFrom_eq]
    split
    · exact Dutiful.fulfilled (.ask rfl rfl fun _ => .ask rfl rfl fun _ => dutiful_pure _) w hw
    rw [alone_bind, run_request, World.answer_scan hw.plan]
    refine .append (Asks.fulfilled (p := request (.scan plan.batchSize after))
      ⟨rfl, fun _ => trivial⟩ w) ?_
    dsimp only
    rw [alone_bind]
    refine .append (hw.offerAll_fulfilled untaggedOnly (fun e he => hw.listed.mem_scan he)
      (hw.listed.scan_distinct plan.batchSize after)) ?_
    have hw' := hw.run (offerAll_loose untaggedOnly
      (w.queue.queue.scan plan.batchSize after).entries).unlocked_of_loose
    rw [alone_bind]
    refine .append ((recordOutcomes_dutiful _ report).fulfilled _ hw') ?_
    have hw'' := hw'.run (recordOutcomes_loose ((offerAll untaggedOnly
      (w.queue.queue.scan plan.batchSize after).entries).run w).1 report).unlocked_of_loose
    split
    · rename_i next hnext _
      rw [alone_bind]
      refine .append (Asks.fulfilled (p := request (.notePlace (some next) .ongoing))
        ⟨rfl, fun _ => trivial⟩ _) ?_
      exact ih _ (Cursor.room_lt hnext) _ _ _ (hw''.congr ⟨rfl, rfl, rfl, rfl⟩) rfl
    · exact Dutiful.fulfilled (.ask rfl rfl fun _ => dutiful_pure _) _ hw''

lemma beginPass_dutiful : beginPass.Dutiful := by
  refine (beginPass_asks.mono ?_).dutiful beginPass_loose.unlocked_of_loose
  rintro _ (rfl | ⟨now, rfl⟩ | ⟨e, rfl⟩) <;> rfl

lemma sweep_dutiful (plan : SweepPlan) (untaggedOnly : Bool) :
    (sweep plan untaggedOnly).Dutiful := by
  have hpass : (passUnderLease plan untaggedOnly).Dutiful :=
    .ask rfl rfl fun _ => .ask rfl rfl fun _ =>
      beginPass_dutiful.bind fun _ => sweepFrom_dutiful plan untaggedOnly _ _
  rw [sweep_eq]
  refine .ask rfl rfl fun now => .ask rfl rfl fun lease => ?_
  split
  · exact dutiful_pure _
  · exact hpass.bind fun result => .ask rfl rfl fun inForce =>
      (logPass_asks _ inForce result).dutiful_of_logs.bind fun _ => dutiful_pure _

/-! ### Operations -/

namespace Engine

lemma auditJobs_dutiful (jobs : List JobId) (report : Audit) : (auditJobs jobs report).Dutiful := by
  induction jobs generalizing report with
  | nil => exact dutiful_pure _
  | cons job jobs ih =>
    unfold auditJobs
    refine (auditJob_dutiful job).bind fun result => ?_
    split
    · exact dutiful_pure _
    · exact ih _
    · exact ih _

lemma verify_dutiful (c : Config) : (verify c).Dutiful := by
  unfold verify
  refine .ask rfl rfl fun jobs => (auditJobs_dutiful jobs .empty).bind fun result => ?_
  split
  · exact dutiful_pure _
  refine (auditEntry_dutiful.walkQueue _ _ _).bind fun result => ?_
  split
  · exact dutiful_pure _
  dsimp only
  split
  · exact .ask rfl rfl fun _ => dutiful_pure _
  · exact .ask rfl rfl fun _ => dutiful_pure _

lemma register_dutiful (draft : JobDraft) : (register draft).Dutiful := by
  unfold register
  refine .ask rfl rfl fun job? => ?_
  split
  · exact dutiful_pure _
  · exact dutiful_pure _

lemma changeState_dutiful (c : Config) (id : JobId) (edge : Edge) :
    (changeState c id edge).Dutiful := by
  have hafter (outcome : AppliedEdge) : (offerAfter c outcome).Dutiful := by
    unfold offerAfter
    split
    · exact dutiful_pure _
    refine (tick_dutiful _ _).bind fun result => ?_
    split
    · exact dutiful_pure _
    · exact .ask rfl rfl fun _ => dutiful_pure _
  unfold changeState
  refine (JobDispatch.changeState_dutiful id edge).bind fun result => ?_
  split
  · exact dutiful_pure _
  · exact (hafter _).bind fun _ => dutiful_pure _

lemma reportTransition_dutiful (c : Config) (id : JobId) (edge : Edge) :
    (reportTransition c id edge).Dutiful := by
  unfold reportTransition
  refine (changeState_dutiful c id edge).bind fun result => ?_
  split
  · exact dutiful_pure _
  · exact .ask rfl rfl fun _ => dutiful_pure _

lemma heartbeat_dutiful (c : Config) (h : Heartbeat) : (heartbeat c h).Dutiful := by
  have hrecord : (recordHeartbeat h).Dutiful := by
    unfold recordHeartbeat
    refine .ask rfl rfl fun ⟨worker, isNew⟩ => ?_
    dsimp only
    split
    · exact .ask rfl rfl fun _ => dutiful_pure _
    · exact dutiful_pure _
  unfold heartbeat
  refine hrecord.bind fun worker => ?_
  split
  · exact dutiful_pure _
  refine ((visitFor_dutiful _ _).walkQueue _ _ _).bind fun result => ?_
  split
  · exact dutiful_pure _
  · exact .ask rfl rfl fun _ => .ask rfl rfl fun _ => dutiful_pure _
  · exact .ask rfl rfl fun _ => dutiful_pure _

lemma enqueue_dutiful (c : Config) (draft : JobDraft) : (enqueue c draft).Dutiful := by
  have hregister : (ensureRegistered draft).Dutiful := by
    unfold ensureRegistered
    refine .ask rfl rfl fun job? => ?_
    split
    · exact dutiful_pure _
    refine .ask rfl rfl fun stored? => ?_
    split
    · exact dutiful_pure _
    split
    · exact dutiful_request rfl rfl
    · exact dutiful_pure _
  unfold enqueue
  refine hregister.bind fun _ => (changeState_dutiful c draft.id enqueueEdge).bind fun result => ?_
  split
  · exact dutiful_pure _
  · exact dutiful_pure _

/-- **Operations hand each worker as many jobs as they offer it**, if each runs by itself and no
call on the queue fails. -/
theorem Operation.program_dutiful (c : Config) (o : Operation) : (o.program c).Dutiful := by
  cases o with
  | register draft => exact (register_dutiful draft).discard
  | changeState job edge => exact (changeState_dutiful c job edge).discard
  | reportTransition job edge => exact (reportTransition_dutiful c job edge).discard
  | enqueue draft => exact (enqueue_dutiful c draft).discard
  | dequeue job => exact (JobDispatch.changeState_dutiful job cancelEdge).discard
  | tick job => exact (tick_dutiful c.untaggedOnly job).discard
  | heartbeat h => exact (heartbeat_dutiful c h).discard
  | sweep => exact (sweep_dutiful c.sweepPlan c.untaggedOnly).discard
  | verify => exact (verify_dutiful c).discard

end Engine

end JobDispatch

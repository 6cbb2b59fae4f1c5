import JobDispatch.Proofs.Sharing
import JobDispatch.Proofs.Verdicts

/-!
Claims that last. A job that a tick has claimed runs at the worker from then on, whatever other
ticks share the pool with it: these leave alone all jobs but their own, and their own too unless it
is pending (`Request.Spares`, `offerEntry_onJob`). So at the end of a page all of its claims stand,
and so do those of the pages before it (`World.Honest.offerPage_stands`).
-/

namespace JobDispatch

open Program

variable {w v u : World} {id : JobId} {worker : WorkerId} {a : Assignment} {h : Trail}

/-! ### What ticks leave alone -/

/-- The record of the job and its entry are as they were. -/
structure World.Untouched (id : JobId) (w v : World) : Prop where
  record : v.jobs.find? id = w.jobs.find? id
  entry : v.queue.queue.get? id = w.queue.queue.get? id

lemma World.Untouched.trans (hv : w.Untouched id v) (hu : v.Untouched id u) : w.Untouched id u :=
  ⟨hu.record.trans hv.record, hu.entry.trans hv.entry⟩

lemma World.SameStores.untouched (hv : w.SameStores v) : w.Untouched id v :=
  ⟨by rw [hv.jobs], by rw [hv.queue]⟩

/-- Others leave the job alone. -/
def Rely.onJob (id : JobId) : Rely where
  may w v := w.Honest → v.Honest ∧ w.Untouched id v
  refl w hw := ⟨hw, rfl, rfl⟩
  trans huv hvw hu := by
    obtain ⟨hv, htouch⟩ := huv hu
    obtain ⟨hw, htouch'⟩ := hvw hv
    exact ⟨hw, htouch.trans htouch'⟩

/-- The request leaves alone all other jobs than the one, and that one unless it is pending. -/
def Request.Spares (id : JobId) (r : Request) (w : World) : Prop :=
  w.Honest → ∀ k, (k = id → ∀ job, w.jobs.find? id = some job → job.state ≠ .pending) →
    w.Untouched k (w.answer r).2

def Request.isMild : Request → Bool
  | .addJob _ | .storeJob _ => false
  | r => !r.movesQueue

lemma World.untouched_answer {r : Request} (hr : r.isMild = true) (w : World) :
    w.Untouched id (w.answer r).2 := by
  have hmoves : r.movesQueue = false := by
    cases r with
    | push _ _ _ _ | pop _ => cases hr
    | _ => rfl
  refine ⟨?_, by rw [World.queue_answer hmoves]⟩
  cases r with
  | addJob _ | storeJob _ => cases hr
  | _ => rfl

lemma Request.spares_of_isMild {r : Request} (hr : r.isMild = true) : r.Spares id w :=
  fun _ _ _ => w.untouched_answer hr

lemma Rely.onJob_answer {r : Request} (hr : r.isMild = true) (w : World) :
    (Rely.onJob id).may w (w.answer r).2 := fun hw => ⟨hw.answer r, w.untouched_answer hr⟩

/-! ### Claims stand -/

/-- The job runs at the worker that claimed it, since the time of the claim, and is out of the
queue. -/
structure World.Stands (w : World) (a : Assignment) : Prop where
  record : ∃ job, w.jobs.find? a.job = some job ∧ job.state = .running ∧
    job.claimedBy? = some a.worker ∧ job.updatedAt = a.claimedAt
  out : w.queue.queue.get? a.job = none

lemma World.Stands.of_untouched (hs : w.Stands a) (hv : w.Untouched a.job v) : v.Stands a :=
  ⟨by rw [hv.record]; exact hs.record, by rw [hv.entry]; exact hs.out⟩

/-- No tick takes a claim back: the job is not pending any more. -/
lemma World.Stands.answer (hs : w.Stands a) (hw : w.Honest) {r : Request} (hr : r.Spares id w) :
    (w.answer r).2.Stands a := by
  refine hs.of_untouched (hr hw a.job ?_)
  rintro rfl job hjob hpending
  obtain ⟨running, hfind, hrunning, -⟩ := hs.record
  rw [hjob] at hfind
  cases hfind
  rw [hpending] at hrunning
  cases hrunning

/-! ### Ticks among others -/

namespace Program

variable {α β : Type} {Q : α → World → Prop}

/-- Among others that leave the job alone, the program leaves alone what ticks of the job do, and
ends as it should. -/
abbrev OnJob (p : Program α) (id : JobId) (Q : α → World → Prop) (h : Trail) (w : World) : Prop :=
  p.Along (.onJob id) (fun _ r v => r.Spares id v) (fun _ a v => v.Honest ∧ Q a v) h w

/-- What holds of honest worlds as long as nobody touches the job. -/
structure Kept (id : JobId) (I : World → Prop) : Prop where
  honest : ∀ w, I w → w.Honest
  untouched : ∀ w v, I w → v.Honest → w.Untouched id v → I v

lemma Kept.may {I : World → Prop} (hI : Kept id I) (hw : I w) (hv : (Rely.onJob id).may w v) :
    I v := by
  obtain ⟨hhonest, htouch⟩ := hv (hI.honest w hw)
  exact hI.untouched w v hw hhonest htouch

lemma kept_honest (id : JobId) : Kept id World.Honest := ⟨fun _ h => h, fun _ _ _ h _ => h⟩

lemma kept_stands (id : JobId) (worker : WorkerId) (time : Timestamp) :
    Kept id fun w => w.Honest ∧ w.Stands ⟨id, worker, time⟩ where
  honest _ h := h.1
  untouched _ _ h hv htouch := ⟨hv, h.2.of_untouched htouch⟩

lemma Kept.request_bind {I : World → Prop} (hI : Kept id I) {r : Request}
    {f : r.Answer → Program α} (hr : r.isMild = true) (hw : I w)
    (hf : ∀ h v x, I v → (f x).OnJob id Q h v) : (request r >>= f).OnJob id Q h w :=
  Along.ask fun v hv => ⟨Request.spares_of_isMild hr,
    hf _ _ _ (hI.may (hI.may hw hv) (Rely.onJob_answer hr v))⟩

lemma Kept.pure {I : World → Prop} (hI : Kept id I) {a : α} (hw : I w)
    (ha : ∀ v, I v → Q a v) : (Pure.pure a : Program α).OnJob id Q h w :=
  along_pure fun v hv => ⟨hI.honest v (hI.may hw hv), ha v (hI.may hw hv)⟩

end Program

def World.Pends (w : World) (job : Job) : Prop :=
  w.Honest ∧ w.jobs.find? job.id = some job ∧ job.state = .pending

lemma kept_pends (job : Job) : Kept job.id fun w => w.Pends job where
  honest _ h := h.1
  untouched _ _ h hv htouch := ⟨hv, htouch.record.trans h.2.1, h.2.2⟩

def World.PendsOut (w : World) (job : Job) : Prop :=
  w.Pends job ∧ w.queue.queue.get? job.id = none

lemma kept_pendsOut (job : Job) : Kept job.id fun w => w.PendsOut job where
  honest _ h := h.1.1
  untouched w v h hv htouch :=
    ⟨(kept_pends job).untouched w v h.1 hv htouch, htouch.entry.trans h.2⟩

lemma World.Pends.spares {job : Job} (hw : w.Pends job) {r : Request}
    (hr : w.Honest → ∀ k, k ≠ job.id → w.Untouched k (w.answer r).2) : r.Spares job.id w := by
  intro hhonest k hk
  refine hr hhonest k ?_
  rintro rfl
  exact hk rfl job hw.2.1 hw.2.2

/-- The removal for a claim leaves the entry out, or fails. -/
lemma popEntry_onJob {job : Job} (hw : w.Pends job) :
    (popEntry job claimEdge .claimed).OnJob job.id
      (fun result v => v.Pends job ∧ (result = .ok true → v.PendsOut job)) h w := by
  have hpends := kept_pends job
  have hout := kept_pendsOut job
  unfold popEntry
  rw [if_neg (by decide)]
  refine Along.ask fun v hv => ?_
  have hv := hpends.may hw hv
  have hafter : (v.answer (.pop job.id)).2.Pends job := ⟨hv.1.answer _, hv.2.1, hv.2.2⟩
  have hcases := World.pop_cases hv.1.sure job.id
  refine ⟨hv.spares fun _ k hk => ⟨rfl, ?_⟩, ?_⟩
  · rcases hcases with ⟨e, -, hq⟩ | ⟨-, hq⟩
    · rw [hq]
    · rw [hq, Queue.get?_pop, if_neg hk]
  · split
    · exact hpends.pure hafter fun v hv => ⟨hv, nofun⟩
    · rename_i hok
      have hgone : (v.answer (.pop job.id)).2.PendsOut job := by
        refine ⟨hafter, ?_⟩
        rcases hcases with ⟨e, he, -⟩ | ⟨-, hq⟩
        · rw [he] at hok
          cases hok
        · rw [hq, Queue.get?_pop, if_pos rfl]
      exact hout.request_bind rfl hgone fun h v _ hv => hout.pure hv fun v hv => ⟨hv.1, fun _ => hv⟩
    · exact hpends.request_bind rfl hafter fun h v _ hv => hpends.request_bind rfl hv
        fun h v _ hv => hpends.pure hv fun v hv => ⟨hv, nofun⟩

/-- What a claim comes to: if it holds, the job runs at the worker. -/
def ClaimStands (id : JobId) (result : Except DispatchError Handover) (w : World) : Prop :=
  ∀ worker time, result = .ok (.claimed worker time) → w.Stands ⟨id, worker, time⟩

lemma retreat_onJob {Q : Except DispatchError Handover → World → Prop} (hw : w.Honest)
    {result : Except DispatchError Handover} (hQ : ∀ v, Q result v) :
    (do
      discard (givePlace worker)
      request (.unlockJob id)
      pure result : Program (Except DispatchError Handover)).OnJob id Q h w := by
  have hhonest := kept_honest id
  have hrest (h : Trail) (v : World) (hv : v.Honest) :
      (do
        request (.unlockJob id)
        pure result : Program (Except DispatchError Handover)).OnJob id Q h v :=
    hhonest.request_bind rfl hv fun h v _ hv => hhonest.pure hv fun v _ => hQ v
  show (request (.release worker) >>= _ : Program _).OnJob id Q h w
  refine hhonest.request_bind rfl hw fun h v answer hv => ?_
  cases answer with
  | released => exact hrest h v hv
  | unknownWorker => exact hhonest.request_bind rfl hv fun h v _ hv => hrest h v hv
  | idle => exact hhonest.request_bind rfl hv fun h v _ hv => hrest h v hv

/-- **A claim that holds stands**, if others leave the job alone. -/
theorem claim_onJob (hw : w.Honest) (id : JobId) (worker : WorkerId) :
    (claim id worker).OnJob id (ClaimStands id) h w := by
  have hhonest := kept_honest id
  have hends {result : Except DispatchError Handover}
      (hr : ∀ who time, result ≠ .ok (.claimed who time)) (h : Trail) (v : World) (hv : v.Honest) :
      (do
        request (.unlockJob id)
        pure result : Program (Except DispatchError Handover)).OnJob id (ClaimStands id) h v :=
    hhonest.request_bind rfl hv fun h v _ hv => hhonest.pure hv
      fun v _ who time hclaimed => absurd hclaimed (hr who time)
  unfold claim
  refine Along.ask fun v hv => ⟨Request.spares_of_isMild rfl, ?_⟩
  have hread : v.Honest := hhonest.may hw hv
  split
  · exact hhonest.pure hread fun v _ who time hclaimed => by cases hclaimed
  rename_i job hjob
  split
  · exact hends (by rintro who time ⟨⟩) _ _ hread
  rename_i hstate
  obtain rfl : job.id = id := hread.filed.jobs id job hjob
  have hpends := kept_pends job
  have hv : v.Pends job := ⟨hread, hjob, by simpa using hstate⟩
  refine hpends.request_bind rfl hv fun h v found hv => ?_
  split
  · exact hends (by rintro who time ⟨⟩) _ _ hv.1
  · exact hends (by rintro who time ⟨⟩) _ _ hv.1
  refine hpends.request_bind rfl hv fun h v obstacle? hv => ?_
  split
  · exact hends (by rintro who time ⟨⟩) _ _ hv.1
  refine Along.bind ((popEntry_onJob hv).mono (fun _ _ _ h => h) ?_)
  rintro h result v ⟨hv, hpended, hout⟩
  split
  · have hkept := kept_pendsOut job
    refine hkept.request_bind rfl (hout rfl) fun h v now hv => Along.ask fun v' hv' => ?_
    have hv' : v'.PendsOut job := hkept.may hv hv'
    have hstands := kept_stands job.id worker now
    refine ⟨hv'.1.spares fun _ k hk => ⟨Table.find?_insert_of_ne _ _ hk, rfl⟩, ?_⟩
    refine hstands.request_bind (r := .log (.jobClaimed job.id worker)) rfl ⟨hv'.1.1.answer _, ?_⟩
      fun h v _ hv => hstands.pure hv fun v hv who time hclaimed => ?_
    · exact ⟨⟨_, Table.find?_insert_self _ _ _, rfl, rfl, rfl⟩, hv'.2⟩
    · cases hclaimed
      exact hv.2
  · exact retreat_onJob hv (fun v who time hclaimed => by cases hclaimed)
  · exact retreat_onJob hv (fun v who time hclaimed => by cases hclaimed)

def TickStands (result : Except DispatchError TickOutcome) (w : World) : Prop :=
  ∀ a, result = .ok (.claimed a) → w.Stands a

lemma offerTo_onJob (hw : w.Honest) (e : QueueEntry) (ws : List Worker) :
    (offerTo e ws).OnJob e.job TickStands h w := by
  have hhonest := kept_honest e.job
  induction ws generalizing h w with
  | nil => exact hhonest.pure hw fun v _ a ha => by cases ha
  | cons worker ws ih =>
    unfold offerTo
    refine hhonest.request_bind rfl hw fun h v _ hv => ?_
    refine Along.bind ((claim_onJob hv e.job worker.id).mono (fun _ _ _ h => h) ?_)
    rintro h result v ⟨hv, hclaimed⟩
    split
    · exact hhonest.pure hv fun v _ a ha => by cases ha
    · rename_i who time
      have hstands := kept_stands e.job who time
      refine hstands.request_bind rfl ⟨hv, hclaimed who time rfl⟩ fun h v _ hv =>
        hstands.pure hv fun v hv a ha => ?_
      cases ha
      exact hv.2
    · exact hhonest.request_bind rfl hv fun h v _ hv => hhonest.pure hv fun v _ a ha => by cases ha
    · exact hhonest.request_bind rfl hv fun h v _ hv => ih hv

/-- **A tick leaves other jobs alone, and what it claims stands.** -/
theorem offerEntry_onJob (hw : w.Honest) (untaggedOnly : Bool) (e : QueueEntry) :
    (offerEntry untaggedOnly e).OnJob e.job TickStands h w := by
  have hhonest := kept_honest e.job
  unfold offerEntry rankWorkers currentCriteria
  refine hhonest.request_bind rfl hw fun h v candidates hv => ?_
  refine hhonest.request_bind rfl hv fun h v now hv => ?_
  refine hhonest.request_bind rfl hv fun h v staleAfter hv => ?_
  show OnJob (if _ then _ else _) _ _ _ _
  split
  · exact hhonest.request_bind rfl hv fun h v _ hv => hhonest.pure hv fun v _ a ha => by cases ha
  · exact offerTo_onJob hv e _

/-! ### Pages -/

/-- **All claims of a page stand at its end**, and so do those that stood before it. -/
theorem World.Honest.offerPage_stands (hw : w.Honest) (plan : SweepPlan) (untaggedOnly : Bool)
    (picks : List Nat) {es : List QueueEntry} (hdistinct : es.Pairwise fun a b => a.job ≠ b.job) :
    let ticks := (offerPage plan untaggedOnly picks es).run w
    (∀ a, w.Stands a → ticks.2.Stands a) ∧ ∀ a, .ok (.claimed a) ∈ ticks.1 → ticks.2.Stands a := by
  intro ticks
  let parts := es.map fun e => (e.job, offerEntry untaggedOnly e)
  have hkeyed : Pooled.Keyed Rely.onJob (fun k r v => r.Spares k v)
      (fun _ result v => v.Honest ∧ TickStands result v) parts [] w := by
    refine ⟨?_, fun part hpart => ?_, fun a ha => absurd ha List.not_mem_nil⟩
    · rw [List.map_map]
      exact List.pairwise_map.2 hdistinct
    · obtain ⟨e, -, rfl⟩ := List.mem_map.1 hpart
      exact ⟨[], offerEntry_onJob hw untaggedOnly e⟩
  have hparts : (parts.map Prod.snd).Perm ([] ++ es.map (offerEntry untaggedOnly)) := by
    rw [List.map_map]
    exact .refl _
  have halong := Pooled.along (S := .nobody) (h := [])
    (fun k l hl r v hr hv => ⟨hv.answer r, hr hv l fun hlk => absurd hlk hl⟩)
    (fun k u v hv hu => by rw [hv]; exact ⟨hu, rfl, rfl⟩)
    (pooled_offerPage plan untaggedOnly picks es) hparts hkeyed
  refine ⟨fun a ha => ?_, fun a ha => ?_⟩
  · refine (halong.run (I := fun v => v.Honest ∧ v.Stands a) ?_ ⟨hw, ha⟩).1.2
    rintro h r v ⟨k, hr⟩ ⟨hv, hstands⟩
    exact ⟨hv.answer r, hstands.answer hv hr⟩
  · obtain ⟨-, h', hresults⟩ := halong.run (I := fun _ => True) (fun _ _ _ _ _ => trivial) trivial
    obtain ⟨k, -, hstands⟩ := hresults _ ha
    exact hstands a rfl

end JobDispatch

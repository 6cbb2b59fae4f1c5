import JobDispatch.Proofs.Footprint
import JobDispatch.Proofs.Pools

/-!
What operations are made of. The parts that lock a job are few: an offer of a job to a worker, a
change of state, and the comparison of one job with the queue (`Section`). All else that an
operation asks for is loose: it needs no lock, and of the metrics it counts none but the gauge of
active workers. Sweeps ask for leases besides.

`Composed` says of a program that it is put together from such parts, so that what holds of the
three sections and of single requests holds of all operations, by one induction.
-/

namespace JobDispatch

open Program

/-! ### Parts -/

/-- The parts of operations that lock a job. -/
inductive Section
  /-- The offer of a job to one of the workers in its ranking. -/
  | offer (job : JobId) (worker : WorkerId)
  | change (job : JobId) (edge : Edge)
  | audit (job : JobId)

namespace Section

abbrev Reply : Section → Type
  | offer .. => Except DispatchError Handover
  | change .. => Except DispatchError AppliedEdge
  | audit _ => Except DispatchError (Option Discrepancy)

def program : (part : Section) → Program part.Reply
  | offer job worker => do
    request (.count (.workerTick worker))
    claim job worker
  | change job edge => changeState job edge
  | audit job => auditJob job

def job : Section → JobId
  | offer job _ | change job _ | audit job => job

def Makes : Section → Request → Prop
  | offer job worker, r => r = .count (.workerTick worker) ∨ r.OfClaim job worker
  | change job edge, r => r.OfChange job edge
  | audit job, r => r.OfAudit job

theorem asks_makes (part : Section) : part.program.Asks part.Makes := by
  cases part with
  | offer job worker =>
    exact ⟨.inl rfl, fun _ => (claim_asks_ofClaim job worker).mono fun _ => .inr⟩
  | change job edge => exact changeState_asks_ofChange job edge
  | audit job => exact auditJob_asks_ofAudit job

lemma Makes.inSection {part : Section} {r : Request} (h : part.Makes r) : r.InSection part.job := by
  cases part with
  | offer job worker =>
    rcases h with rfl | h
    · trivial
    · exact h.inClaim.inTick.inSection
  | change job edge => exact Request.OfChange.inChange h |>.inSection
  | audit job => exact Request.OfAudit.inEvery h |>.inChange.inSection

lemma asks (part : Section) : part.program.Asks (Request.InSection part.job) :=
  part.asks_makes.mono fun _ => Makes.inSection

end Section

def Request.isLoose : Request → Bool
  | .lockJob _ | .storeJob _ | .unlockJob _ | .push .. | .pop _ | .takePlace _ | .release _ => false
  | .obtainLease .. | .releaseLease _ => false
  | .count (.activeWorkers _) => true
  | .count _ => false
  | _ => true

def Request.isLease : Request → Bool
  | .obtainLease .. | .releaseLease _ => true
  | _ => false

lemma Request.isLease_of_isLoose {r : Request} (h : r.isLoose = true) : r.isLease = false := by
  cases r with
  | obtainLease _ _ _ | releaseLease _ => cases h
  | _ => rfl

lemma Request.InSection.isLease {id : JobId} {r : Request} (h : r.InSection id) :
    r.isLease = false := by
  cases r with
  | obtainLease _ _ _ | releaseLease _ => exact False.elim h
  | _ => rfl

/-! ### Composition -/

/-- The program is put together from sections and from requests that satisfy `A`. -/
inductive Composed (A : Request → Prop) {α : Type} : Program α → Prop
  | done (a : α) : Composed A (.done a)
  | ask {r : Request} {next : r.Answer → Program α} (hr : A r)
    (hnext : ∀ x, Composed A (next x)) : Composed A (.ask r next)
  | enter (part : Section) {next : part.Reply → Program α}
    (hnext : ∀ x, Composed A (next x)) : Composed A (part.program >>= next)

namespace Composed

variable {A B : Request → Prop} {α β : Type} {p : Program α}

lemma pure (a : α) : Composed A (pure a : Program α) := .done a

lemma mono (hp : Composed A p) (h : ∀ r, A r → B r) : Composed B p := by
  induction hp with
  | done a => exact .done a
  | ask hr _ ih => exact .ask (h _ hr) ih
  | enter part _ ih => exact .enter part ih

lemma bind (hp : Composed A p) {f : α → Program β} (hf : ∀ a, Composed A (f a)) :
    Composed A (p >>= f) := by
  induction hp with
  | done a => exact hf a
  | ask hr _ ih => exact .ask hr ih
  | enter part _ ih =>
    rw [bind_assoc]
    exact .enter part ih

lemma request {r : Request} (hr : A r) : Composed A (request r) := .ask hr .done

lemma next {r : Request} {f : r.Answer → Program α} (hr : A r) (hf : ∀ x, Composed A (f x)) :
    Composed A (Program.request r >>= f) := .ask hr hf

lemma of_asks (hp : p.Asks A) : Composed A p := by
  induction p with
  | done a => exact .done a
  | ask r next ih => exact .ask hp.1 fun x => ih x (hp.2 x)

lemma part (part : Section) : Composed A part.program := by
  rw [← bind_pure part.program]
  exact .enter part .done

lemma discard (hp : Composed A p) : Composed A (Functor.discard p) := hp.bind fun _ => .done _

/-- What all sections ask for, and all requests outside of them, is all that the program asks
for. -/
lemma asks (hp : Composed A p) (h : ∀ r, A r → B r)
    (hpart : ∀ part : Section, part.program.Asks B) : p.Asks B := by
  induction hp with
  | done a => trivial
  | ask hr _ ih => exact ⟨h _ hr, ih⟩
  | enter part _ ih => exact (hpart part).bind ih

end Composed

/-- The program is put together from sections and loose requests. -/
abbrev Loose {α : Type} (p : Program α) : Prop := Composed (fun r => r.isLoose = true) p

lemma Composed.asks_isLease {α : Type} {p : Program α} (hp : Loose p) :
    p.Asks fun r => r.isLease = false :=
  hp.asks (fun _ => Request.isLease_of_isLoose)
    fun part => part.asks.mono fun _ => Request.InSection.isLease

/-! ### Ticks -/

lemma currentCriteria_loose (untaggedOnly : Bool) : Loose (currentCriteria untaggedOnly) :=
  .next rfl fun _ => .next rfl fun _ => .pure _

lemma rankWorkers_loose (untaggedOnly : Bool) (e : QueueEntry) :
    Loose (rankWorkers untaggedOnly e) :=
  .next rfl fun _ => (currentCriteria_loose _).bind fun _ => .pure _

lemma offerTo_loose (e : QueueEntry) (ws : List Worker) : Loose (offerTo e ws) := by
  induction ws with
  | nil => exact .pure _
  | cons w ws ih =>
    refine .enter (.offer e.job w.id) fun result => ?_
    split
    · exact .pure _
    · exact .next rfl fun _ => .pure _
    · exact .next rfl fun _ => .pure _
    · exact .next rfl fun _ => ih

lemma offerEntry_loose (untaggedOnly : Bool) (e : QueueEntry) :
    Loose (offerEntry untaggedOnly e) := by
  unfold offerEntry
  refine (rankWorkers_loose untaggedOnly e).bind fun ranked => ?_
  split
  · exact .next rfl fun _ => .pure _
  · exact offerTo_loose e ranked

lemma tick_loose (untaggedOnly : Bool) (id : JobId) : Loose (tick untaggedOnly id) := by
  unfold tick
  refine .next rfl fun found => ?_
  split
  · exact .pure _
  · exact .next rfl fun _ => .pure _
  · exact offerEntry_loose untaggedOnly _

/-! ### Walks through the queue -/

variable {σ : Type} {visit : QueueEntry → σ → Program (Visit σ)}

lemma walkPage_loose (hvisit : ∀ e s, Loose (visit e s)) (es : List QueueEntry) (s : σ) :
    Loose (walkPage visit es s) := by
  induction es generalizing s with
  | nil => exact .pure _
  | cons e es ih =>
    unfold walkPage
    refine (hvisit e s).bind fun result => ?_
    split
    · exact ih _
    · exact .pure _
    · exact .pure _

/-- A walk goes on after its cursors, of which there are fewer after each page. -/
lemma walkQueue_loose (hvisit : ∀ e s, Loose (visit e s)) (limit : UInt64)
    (after : Option Cursor) (s : σ) : Loose (walkQueue limit visit after s) := by
  induction h : Cursor.room after using Nat.strongRecOn generalizing after s with
  | _ n ih =>
    subst h
    unfold walkQueue
    refine .next rfl fun found => ?_
    split
    · exact .pure _
    refine (walkPage_loose hvisit _ _).bind fun result => ?_
    split
    · exact .pure _
    · exact .pure _
    split
    · rename_i next hnext _
      exact ih _ (Cursor.room_lt hnext) _ _ rfl
    · exact .pure _

lemma visitFor_loose (untaggedOnly : Bool) (worker : WorkerId) (e : QueueEntry) (claims : Nat) :
    Loose (visitFor untaggedOnly worker e claims) := by
  unfold visitFor
  refine .next rfl fun w? => ?_
  split
  · exact .pure _
  refine (currentCriteria_loose untaggedOnly).bind fun criteria => ?_
  split
  · exact .pure _
  split
  · exact .pure _
  refine (offerEntry_loose untaggedOnly e).bind fun result => ?_
  split
  · exact .pure _
  · exact .pure _

/-! ### Sweeps -/

lemma offerAll_loose (untaggedOnly : Bool) (es : List QueueEntry) :
    Loose (offerAll untaggedOnly es) := by
  induction es with
  | nil => exact .pure _
  | cons e es ih =>
    exact (offerEntry_loose untaggedOnly e).bind fun _ => ih.bind fun _ => .pure _

lemma Program.Asks.loose_of_logs {α : Type} {p : Program α}
    (hp : p.Asks fun r => ∃ e, r = .log e) : Loose p :=
  .of_asks (hp.mono fun _ ⟨_, hr⟩ => hr ▸ rfl)

lemma recordOutcomes_loose (outcomes : List (Except DispatchError TickOutcome))
    (report : PassReport) : Loose (recordOutcomes outcomes report) :=
  (recordOutcomes_asks outcomes report).loose_of_logs

lemma sweepFrom_loose (plan : SweepPlan) (untaggedOnly : Bool) (after : Option Cursor)
    (report : PassReport) : Loose (sweepFrom plan untaggedOnly after report) := by
  induction h : Cursor.room after using Nat.strongRecOn generalizing after report with
  | _ n ih =>
    subst h
    rw [sweepFrom_eq]
    split
    · exact .next rfl fun _ => .next rfl fun _ => .pure _
    refine .next rfl fun found => ?_
    split
    · exact .pure _
    refine (offerAll_loose untaggedOnly _).bind fun outcomes => ?_
    refine (recordOutcomes_loose outcomes report).bind fun report' => ?_
    dsimp only
    split
    · rename_i next hnext _
      exact .next rfl fun _ => ih _ (Cursor.room_lt hnext) _ _ rfl
    · exact .next rfl fun _ => .pure _

lemma beginPass_loose : Loose beginPass := by
  refine .of_asks (beginPass_asks.mono ?_)
  rintro _ (rfl | ⟨now, rfl⟩ | ⟨e, rfl⟩) <;> rfl

lemma passUnderLease_loose (plan : SweepPlan) (untaggedOnly : Bool) :
    Loose (passUnderLease plan untaggedOnly) :=
  .next rfl fun _ => .next rfl fun _ => beginPass_loose.bind fun _ => sweepFrom_loose _ _ _ _

/-- The program is put together from sections, loose requests and requests about leases. -/
abbrev Leasing {α : Type} (p : Program α) : Prop :=
  Composed (fun r => r.isLoose = true ∨ r.isLease = true) p

lemma Composed.leasing {α : Type} {p : Program α} (h : Loose p) : Leasing p := h.mono fun _ => .inl

lemma sweep_leasing (plan : SweepPlan) (untaggedOnly : Bool) :
    Leasing (sweep plan untaggedOnly) := by
  rw [sweep_eq]
  refine .next (.inl rfl) fun now => .next (.inr rfl) fun lease => ?_
  split
  · exact .pure _
  · exact (passUnderLease_loose plan untaggedOnly).leasing.bind fun result =>
      .next (.inr rfl) fun inForce =>
        (logPass_asks _ inForce result).loose_of_logs.leasing.bind fun _ => .pure _

namespace Engine

/-! ### The audit -/

lemma auditJobs_loose (jobs : List JobId) (report : Audit) : Loose (auditJobs jobs report) := by
  induction jobs generalizing report with
  | nil => exact .pure _
  | cons job jobs ih =>
    unfold auditJobs
    refine .enter (.audit job) fun result => ?_
    split
    · exact .pure _
    · exact ih _
    · exact ih _

lemma auditEntry_loose (e : QueueEntry) (report : Audit) : Loose (auditEntry e report) := by
  unfold auditEntry
  refine .next rfl fun job? => ?_
  split
  · exact .pure _
  · exact .pure _

lemma verify_loose (c : Config) : Loose (verify c) := by
  unfold verify
  refine .next rfl fun jobs => (auditJobs_loose jobs .empty).bind fun result => ?_
  split
  · exact .pure _
  refine (walkQueue_loose auditEntry_loose _ _ _).bind fun result => ?_
  split
  · exact .pure _
  dsimp only
  split
  · exact .next rfl fun _ => .pure _
  · exact .next rfl fun _ => .pure _

/-! ### Other operations -/

lemma register_loose (draft : JobDraft) : Loose (register draft) := by
  unfold register
  refine .next rfl fun job? => ?_
  split
  · exact .pure _
  · exact .pure _

lemma offerAfter_loose (c : Config) (outcome : AppliedEdge) : Loose (offerAfter c outcome) := by
  unfold offerAfter
  split
  · exact .pure _
  refine (tick_loose _ _).bind fun result => ?_
  split
  · exact .pure _
  · exact .next rfl fun _ => .pure _

lemma changeState_loose (c : Config) (id : JobId) (edge : Edge) :
    Loose (changeState c id edge) := by
  unfold changeState
  refine .enter (.change id edge) fun result => ?_
  split
  · exact .pure _
  · exact (offerAfter_loose c _).bind fun _ => .pure _

lemma reportTransition_loose (c : Config) (id : JobId) (edge : Edge) :
    Loose (reportTransition c id edge) := by
  unfold reportTransition
  refine (changeState_loose c id edge).bind fun result => ?_
  split
  · exact .pure _
  · exact .next rfl fun _ => .pure _

lemma recordHeartbeat_loose (h : Heartbeat) : Loose (recordHeartbeat h) := by
  unfold recordHeartbeat
  refine .next rfl fun ⟨worker, isNew⟩ => ?_
  dsimp only
  split
  · exact .next rfl fun _ => .pure _
  · exact .pure _

lemma heartbeat_loose (c : Config) (h : Heartbeat) : Loose (heartbeat c h) := by
  unfold heartbeat
  refine (recordHeartbeat_loose h).bind fun worker => ?_
  split
  · exact .pure _
  refine (walkQueue_loose (visitFor_loose _ _) _ _ _).bind fun result => ?_
  split
  · exact .pure _
  · exact .next rfl fun _ => .next rfl fun _ => .pure _
  · exact .next rfl fun _ => .pure _

lemma ensureRegistered_loose (draft : JobDraft) : Loose (ensureRegistered draft) := by
  unfold ensureRegistered
  refine .next rfl fun job? => ?_
  split
  · exact .pure _
  refine .next rfl fun stored? => ?_
  split
  · exact .pure _
  split
  · exact .request rfl
  · exact .pure _

lemma enqueue_loose (c : Config) (draft : JobDraft) : Loose (enqueue c draft) := by
  unfold enqueue
  refine (ensureRegistered_loose draft).bind fun _ => ?_
  refine (changeState_loose c draft.id enqueueEdge).bind fun result => ?_
  split
  · exact .pure _
  · exact .pure _

end Engine

end JobDispatch

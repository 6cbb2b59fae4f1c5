import JobDispatch.Engine
import JobDispatch.Proofs.Requests

/-!
What operations ask for. Of each critical section the requests that may come in it are spelled out
(`Request.OfClaim`, `Request.OfChange`, `Request.OfAudit`). So a tick locks its own job and no
other, takes entries out of the queue but puts none in, and never looks at leases or at the progress
of sweeps (`Request.InTick`); a change of state takes no place of a worker, but may put in an entry
(`Request.InChange`).
-/

namespace JobDispatch

open Program

/-- The request may come in a claim of the job for the worker. -/
def Request.OfClaim (id : JobId) (worker : WorkerId) : Request → Prop
  | .lockJob job | .unlockJob job | .lookup job => job = id
  | .takePlace w | .release w => w = worker
  | .storeJob record => record.state = .running ∧ record.claimedBy? = some worker
  | .count m => m = .queuePop .claimed ∨ m = .consistencyViolation
  | .pop _ | .clock | .log _ => True
  | _ => False

def Request.OfChange (id : JobId) (edge : Edge) : Request → Prop
  | .lockJob job | .unlockJob job => job = id
  | .storeJob record => record.state = edge.target ∧ edge.target ≠ .running
  | .count m =>
    m = .queuePush ∨ m = .duplicateEntry ∨ m = .queuePop .unclaimed ∨ m = .consistencyViolation
  | .push .. | .pop _ | .release _ | .clock | .log _ => True
  | _ => False

def Request.OfAudit (id : JobId) : Request → Prop
  | .lockJob job | .unlockJob job | .lookup job => job = id
  | _ => False

/-- The request may come in any critical section of the job. -/
def Request.InEvery (id : JobId) : Request → Prop
  | .lockJob job => job = id
  | .unlockJob _ | .storeJob _ | .pop _ | .lookup _ | .release _ => True
  | .clock | .count _ | .log _ => True
  | _ => False

def Request.InChange (id : JobId) : Request → Prop
  | .push .. => True
  | r => r.InEvery id

def Request.InClaim (id : JobId) : Request → Prop
  | .takePlace _ => True
  | r => r.InEvery id

def Request.InTick (id : JobId) : Request → Prop
  | .lockJob job => job = id
  | .unlockJob _ | .storeJob _ | .pop _ | .lookup _ | .takePlace _ | .release _ => True
  | .available _ | .staleAfter | .clock | .count _ | .log _ => True
  | _ => False

def Request.InSection (id : JobId) : Request → Prop
  | .push .. => True
  | r => r.InTick id

variable {id : JobId}

lemma Request.OfClaim.inClaim {worker : WorkerId} {r : Request} (h : r.OfClaim id worker) :
    r.InClaim id := by
  cases r with
  | lockJob job => exact h
  | unlockJob _ | lookup _ | takePlace _ | release _ | storeJob _ | count _ | pop _ | clock
  | log _ => trivial
  | _ => exact False.elim h

lemma Request.OfChange.inChange {edge : Edge} {r : Request} (h : r.OfChange id edge) :
    r.InChange id := by
  cases r with
  | lockJob job => exact h
  | unlockJob _ | storeJob _ | count _ | push _ _ _ _ | pop _ | release _ | clock | log _ => trivial
  | _ => exact False.elim h

lemma Request.OfAudit.inEvery {r : Request} (h : r.OfAudit id) : r.InEvery id := by
  cases r with
  | lockJob job => exact h
  | unlockJob _ | lookup _ => trivial
  | _ => exact False.elim h

lemma Request.InTick.inSection {r : Request} (h : r.InTick id) : r.InSection id := by
  cases r with
  | push _ _ _ _ => trivial
  | _ => exact h

lemma Request.InEvery.inClaim {r : Request} (h : r.InEvery id) : r.InClaim id := by
  cases r with
  | takePlace _ => trivial
  | _ => exact h

lemma Request.InClaim.inTick {r : Request} (h : r.InClaim id) : r.InTick id := by
  cases r with
  | available _ | staleAfter => exact False.elim h
  | _ => exact h

lemma Request.InEvery.inChange {r : Request} (h : r.InEvery id) : r.InChange id := by
  cases r with
  | push _ _ _ _ => trivial
  | _ => exact h

lemma Request.InChange.inSection {r : Request} (h : r.InChange id) : r.InSection id := by
  cases r with
  | push _ _ _ _ => trivial
  | takePlace _ | available _ | staleAfter => exact False.elim h
  | _ => exact h

/-! ### Parts -/

section

variable {P : Request → Prop}

lemma pushEntry_asks (job : Job) (edge : Edge) (now : Timestamp)
    (hpush : P (.push job.id job.project job.tags now)) (hcount : P (.count .queuePush))
    (halarm : P (.count .duplicateEntry)) (hlog : ∀ e, P (.log e)) :
    (pushEntry job edge now).Asks P := by
  unfold pushEntry
  split
  · trivial
  refine Asks.bind ((asks_request _).2 hpush) fun result => ?_
  split
  · exact ⟨hcount, fun _ => trivial⟩
  · exact ⟨hlog _, fun _ => ⟨halarm, fun _ => trivial⟩⟩
  · trivial

lemma popEntry_asks (job : Job) (edge : Edge) (kind : Departure) (hpop : P (.pop job.id))
    (hcount : P (.count (.queuePop kind))) (halarm : P (.count .consistencyViolation))
    (hlog : ∀ e, P (.log e)) : (popEntry job edge kind).Asks P := by
  unfold popEntry
  split
  · trivial
  refine Asks.bind ((asks_request _).2 hpop) fun result => ?_
  split
  · trivial
  · exact ⟨hcount, fun _ => trivial⟩
  · exact ⟨hlog _, fun _ => ⟨halarm, fun _ => trivial⟩⟩

lemma givePlace_asks (worker : WorkerId) (hrelease : P (.release worker)) (hlog : ∀ e, P (.log e)) :
    (givePlace worker).Asks P := by
  refine Asks.bind ((asks_request _).2 hrelease) fun result => ?_
  split
  · trivial
  · exact ⟨hlog _, fun _ => trivial⟩
  · exact ⟨hlog _, fun _ => trivial⟩

lemma retreat_asks (worker : WorkerId) {α : Type} (a : α) (hrelease : P (.release worker))
    (hunlock : P (.unlockJob id)) (hlog : ∀ e, P (.log e)) :
    (do
      discard (givePlace worker)
      request (.unlockJob id)
      pure a : Program α).Asks P :=
  Asks.bind (Asks.bind (givePlace_asks worker hrelease hlog) fun _ => trivial)
    fun _ => ⟨hunlock, fun _ => trivial⟩

end

lemma applyEffect_asks (job : Job) (edge : Edge) (now : Timestamp) :
    (applyEffect job edge now).Asks (Request.OfChange id edge) := by
  unfold applyEffect
  split
  · refine Asks.bind (pushEntry_asks job edge now trivial (.inl rfl) (.inr (.inl rfl))
      fun _ => trivial) fun result => ?_
    split <;> trivial
  · refine Asks.bind (popEntry_asks job edge .unclaimed trivial (.inr (.inr (.inl rfl)))
      (.inr (.inr (.inr rfl))) fun _ => trivial) fun result => ?_
    split <;> trivial
  · trivial
  · trivial

lemma letGo_asks (job : Job) (edge : Edge) : (letGo job).Asks (Request.OfChange id edge) := by
  unfold letGo
  split
  · trivial
  · exact Asks.bind (Asks.bind (givePlace_asks _ trivial fun _ => trivial) fun _ => trivial)
      fun _ => trivial

/-! ### Sections and ticks -/

lemma Edge.target_ne_running {edge : Edge} (hedge : edge.inLifecycle = true)
    (hclaim : edge.needsClaim = false) : edge.target ≠ .running := by
  obtain ⟨source, target⟩ := edge
  cases source <;> cases target <;> simp_all [Edge.inLifecycle, Edge.needsClaim]

theorem changeState_asks_ofChange (id : JobId) (edge : Edge) :
    (changeState id edge).Asks (Request.OfChange id edge) := by
  unfold changeState
  split
  · trivial
  rename_i hedge
  split
  · trivial
  rename_i hclaim
  have htarget := Edge.target_ne_running (by simpa using hedge) (by simpa using hclaim)
  refine Asks.bind ((asks_request _).2 rfl) fun job? => ?_
  split
  · trivial
  split
  · exact ⟨rfl, fun _ => trivial⟩
  refine Asks.bind ((asks_request _).2 trivial) fun now => ?_
  refine Asks.bind (applyEffect_asks _ edge now) fun result => ?_
  split
  · exact ⟨rfl, fun _ => trivial⟩
  dsimp only
  split
  · exact Asks.bind (letGo_asks _ edge) fun job =>
      ⟨⟨rfl, htarget⟩, fun _ => ⟨trivial, fun _ => trivial⟩⟩
  · exact ⟨⟨rfl, htarget⟩, fun _ => ⟨trivial, fun _ => trivial⟩⟩

lemma changeState_asks_inChange (id : JobId) (edge : Edge) :
    (changeState id edge).Asks (Request.InChange id) :=
  (changeState_asks_ofChange id edge).mono fun _ => Request.OfChange.inChange

lemma changeState_asks (id : JobId) (edge : Edge) :
    (changeState id edge).Asks (Request.InSection id) :=
  (changeState_asks_inChange id edge).mono fun _ => Request.InChange.inSection

theorem claim_asks_ofClaim (id : JobId) (worker : WorkerId) :
    (claim id worker).Asks (Request.OfClaim id worker) := by
  unfold claim
  refine Asks.bind ((asks_request _).2 rfl) fun job? => ?_
  split
  · trivial
  split
  · exact ⟨rfl, fun _ => trivial⟩
  refine Asks.bind ((asks_request _).2 rfl) fun found => ?_
  split
  · exact ⟨rfl, fun _ => trivial⟩
  · exact ⟨rfl, fun _ => trivial⟩
  refine Asks.bind ((asks_request _).2 rfl) fun obstacle => ?_
  split
  · exact ⟨rfl, fun _ => trivial⟩
  refine Asks.bind (popEntry_asks _ claimEdge .claimed trivial (.inl rfl) (.inr rfl)
    fun _ => trivial) fun result => ?_
  split
  · exact ⟨trivial, fun now => ⟨⟨rfl, rfl⟩, fun _ => ⟨trivial, fun _ => trivial⟩⟩⟩
  · exact retreat_asks worker _ rfl rfl fun _ => trivial
  · exact retreat_asks worker _ rfl rfl fun _ => trivial

lemma claim_asks_inClaim (id : JobId) (worker : WorkerId) :
    (claim id worker).Asks (Request.InClaim id) :=
  (claim_asks_ofClaim id worker).mono fun _ => Request.OfClaim.inClaim

lemma claim_asks (id : JobId) (worker : WorkerId) : (claim id worker).Asks (Request.InTick id) :=
  (claim_asks_inClaim id worker).mono fun _ => Request.InClaim.inTick

theorem auditJob_asks_ofAudit (id : JobId) : (auditJob id).Asks (Request.OfAudit id) := by
  unfold auditJob
  refine Asks.bind ((asks_request _).2 rfl) fun job? => ?_
  split
  · trivial
  refine Asks.bind ((asks_request _).2 rfl) fun found => ⟨rfl, fun _ => ?_⟩
  cases found with
  | error e => trivial
  | ok entry? =>
    dsimp only
    split <;> trivial

lemma auditJob_asks (id : JobId) : (auditJob id).Asks (Request.InEvery id) :=
  (auditJob_asks_ofAudit id).mono fun _ => Request.OfAudit.inEvery

lemma offerTo_asks (e : QueueEntry) (ws : List Worker) :
    (offerTo e ws).Asks (Request.InTick e.job) := by
  induction ws with
  | nil => trivial
  | cons w ws ih =>
    unfold offerTo
    refine Asks.bind ((asks_request _).2 trivial) fun _ => ?_
    refine Asks.bind (claim_asks e.job w.id) fun result => ?_
    split
    · trivial
    · exact ⟨trivial, fun _ => trivial⟩
    · exact ⟨trivial, fun _ => trivial⟩
    · exact ⟨trivial, fun _ => ih⟩

theorem offerEntry_asks (untaggedOnly : Bool) (e : QueueEntry) :
    (offerEntry untaggedOnly e).Asks (Request.InTick e.job) := by
  unfold offerEntry
  refine Asks.bind ⟨trivial, fun _ => ⟨trivial, fun _ => ⟨trivial, fun _ => trivial⟩⟩⟩
    fun ranked => ?_
  split
  · exact ⟨trivial, fun _ => trivial⟩
  · exact offerTo_asks e ranked

/-! ### Ticks that come on among others -/

/-- The request may come in a tick of the job, and takes no entry out but that of the job. -/
def Request.InOwnTick (id : JobId) : Request → Prop
  | .pop job => job = id
  | r => r.InTick id

section

variable {I : World → Prop} {id : JobId}

/-- A claim takes out the entry that the record tells of. -/
lemma claim_keeps (worker : WorkerId)
    (hstep : ∀ r w, r.InOwnTick id → I w → I (w.answer r).2)
    (hnamed : ∀ w, I w → ∀ job, w.jobs.find? id = some job → job.id = id) :
    (claim id worker).Keeps I := by
  unfold claim
  refine keeps_ask fun w hw => ⟨hstep _ w rfl hw, ?_⟩
  refine Asks.keeps (P := Request.InOwnTick id) ?_ hstep
  split
  · trivial
  rename_i job hjob
  have hpop : (Request.pop job.id).InOwnTick id := hnamed w hw job hjob
  split
  · exact ⟨trivial, fun _ => trivial⟩
  refine Asks.bind ((asks_request _).2 trivial) fun found => ?_
  split
  · exact ⟨trivial, fun _ => trivial⟩
  · exact ⟨trivial, fun _ => trivial⟩
  refine Asks.bind ((asks_request _).2 trivial) fun obstacle => ?_
  split
  · exact ⟨trivial, fun _ => trivial⟩
  refine Asks.bind (popEntry_asks job claimEdge .claimed hpop trivial trivial fun _ => trivial)
    fun result => ?_
  split
  · exact ⟨trivial, fun now => ⟨trivial, fun _ => ⟨trivial, fun _ => trivial⟩⟩⟩
  · exact retreat_asks worker _ trivial trivial fun _ => trivial
  · exact retreat_asks worker _ trivial trivial fun _ => trivial

lemma offerTo_keeps (e : QueueEntry) (ws : List Worker)
    (hstep : ∀ r w, r.InOwnTick e.job → I w → I (w.answer r).2)
    (hnamed : ∀ w, I w → ∀ job, w.jobs.find? e.job = some job → job.id = e.job) :
    (offerTo e ws).Keeps I := by
  have hask {r : Request} (hr : r.InOwnTick e.job) : (request r).Keeps I :=
    ((asks_request r).2 hr).keeps hstep
  induction ws with
  | nil => trivial
  | cons w ws ih =>
    unfold offerTo
    refine (hask (by trivial)).bind fun _ => (claim_keeps w.id hstep hnamed).bind fun result => ?_
    split
    · trivial
    · exact (hask (by trivial)).bind fun _ => trivial
    · exact (hask (by trivial)).bind fun _ => trivial
    · exact (hask (by trivial)).bind fun _ => ih

/-- **A tick keeps what its own requests keep**, whatever others do meanwhile that keep it, too. -/
theorem offerEntry_keeps (untaggedOnly : Bool) (e : QueueEntry)
    (hstep : ∀ r w, r.InOwnTick e.job → I w → I (w.answer r).2)
    (hnamed : ∀ w, I w → ∀ job, w.jobs.find? e.job = some job → job.id = e.job) :
    (offerEntry untaggedOnly e).Keeps I := by
  have hask {r : Request} (hr : r.InOwnTick e.job) : (request r).Keeps I :=
    ((asks_request r).2 hr).keeps hstep
  unfold offerEntry rankWorkers currentCriteria
  refine Keeps.bind ?_ fun ranked => ?_
  · refine (hask (by trivial)).bind fun _ => Keeps.bind ?_ fun _ => trivial
    exact (hask (by trivial)).bind fun _ => (hask (by trivial)).bind fun _ => trivial
  · split
    · exact (hask (by trivial)).bind fun _ => trivial
    · exact offerTo_keeps e ranked hstep hnamed

end

end JobDispatch

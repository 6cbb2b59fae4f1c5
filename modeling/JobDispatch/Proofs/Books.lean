import JobDispatch.Proofs.Composition

/-!
How operations keep the books. What a thread has asked so far says at which stage it is with the job
that it has locked, and which worker it has offered a job last (`Standing`). A program is proper if,
whatever the answers, it counts an entry that it has put in or taken out before it goes on, counts
no other as such, and hands a job only to the worker that it has offered it to (`Program.Proper`).
The sections of operations are proper, and so is what is put together from them (`Composed.proper`).
-/

namespace JobDispatch

open Program

/-! ### Standing -/

/-- How far a thread is with the job that it has locked. -/
inductive Stage
  /-- No job is locked. -/
  | clear
  /-- The job is locked as it was found. -/
  | found (job : Job)
  /-- An entry was put in, which is to be counted. -/
  | entered
  /-- An entry was taken out, which is to be counted. -/
  | left
  /-- An entry was refused, because there was one. -/
  | refused
  /-- There was no entry to be taken out. -/
  | missed
  /-- The entry was counted as claimed, and the job is to be handed over. -/
  | handing
  /-- The entry was counted. -/
  | counted

/-- Something is to be counted or to be handed over. -/
def Stage.owes : Stage → Bool
  | entered | left | handing => true
  | _ => false

/-- The stage at which an entry is that was counted as having left. -/
def Departure.stage : Departure → Stage
  | claimed => .handing
  | unclaimed => .counted

structure Standing where
  stage : Stage
  /-- The worker that was offered a job last, unless it was handed one since. -/
  offered? : Option WorkerId

namespace Standing

def start : Standing := ⟨.clear, none⟩

def goTo (x : Standing) (stage : Stage) : Standing := { x with stage }

def afterLock (x : Standing) : Option Job → Standing
  | none => x
  | some job => x.goTo (.found job)

def afterPush (x : Standing) : Except DispatchError Receipt → Standing
  | .ok _ => x.goTo .entered
  | .error (.duplicateEntry _) => x.goTo .refused
  | .error _ => x

def afterPop (x : Standing) : Except DispatchError Bool → Standing
  | .ok true => x.goTo .left
  | .ok false => x.goTo .missed
  | .error _ => x

/-- Where the thread stands after a request that is answered from a world. -/
def after (x : Standing) (r : Request) (w : World) : Standing :=
  match r with
  | .lockJob id => x.afterLock (w.answer (.lockJob id)).1
  | .push job project tags time => x.afterPush (w.answer (.push job project tags time)).1
  | .pop job => x.afterPop (w.answer (.pop job)).1
  | .count .queuePush => x.goTo .counted
  | .count (.queuePop kind) => x.goTo kind.stage
  | .count (.workerTick worker) => { x with offered? := some worker }
  | .storeJob record => ⟨.clear, if record.state = .running then none else x.offered?⟩
  | .unlockJob _ => x.goTo .clear
  | _ => x

def Allows (x : Standing) : Request → Prop
  | .lockJob _ => x.stage = .clear
  | .push .. => ∃ job, x.stage = .found job
  | .pop _ => ∃ job, x.stage = .found job ∧ job.state = .pending
  | .count .queuePush => x.stage = .entered
  | .count (.queuePop _) => x.stage = .left
  | .count .duplicateEntry => x.stage = .refused
  | .count .consistencyViolation => x.stage = .missed
  | .storeJob record =>
    if record.state = .running then
      x.stage = .handing ∧ ∃ worker, x.offered? = some worker ∧ record.claimedBy? = some worker
    else x.stage.owes = false
  | .unlockJob _ => x.stage.owes = false
  | _ => True

end Standing

/-- The request is allowed at any time, and has no bearing on where a thread stands. -/
def Request.isNeutral : Request → Bool
  | .lockJob _ | .storeJob _ | .unlockJob _ | .push .. | .pop _ => false
  | .count (.activeWorkers _) => true
  | .count _ => false
  | _ => true

section

variable {r : Request}

lemma Request.isNeutral_of_isLoose (h : r.isLoose = true) : r.isNeutral = true := by
  cases r with
  | lockJob _ | storeJob _ | unlockJob _ | push _ _ _ _ | pop _ => cases h
  | count m => cases m <;> first | rfl | cases h
  | _ => rfl

lemma Request.isNeutral_of_isLease (h : r.isLease = true) : r.isNeutral = true := by
  cases r with
  | obtainLease _ _ _ | releaseLease _ => rfl
  | _ => cases h

lemma Standing.allows_neutral (x : Standing) (hr : r.isNeutral = true) : x.Allows r := by
  cases r with
  | lockJob _ | storeJob _ | unlockJob _ | push _ _ _ _ | pop _ => cases hr
  | count m => cases m <;> trivial
  | _ => trivial

lemma Standing.after_neutral (x : Standing) (hr : r.isNeutral = true) (w : World) :
    x.after r w = x := by
  cases r with
  | lockJob _ | storeJob _ | unlockJob _ | push _ _ _ _ | pop _ => cases hr
  | count m => cases m <;> first | rfl | cases hr
  | _ => rfl

end

/-! ### Proper programs -/

namespace Program

variable {α β : Type} {p : Program α} {x : Standing}

/-- A thread that stands at `x` may make all requests of the program, and ends with `Q`. -/
def Proper (Q : α → Standing → Prop) : Program α → Standing → Prop
  | done a, x => Q a x
  | ask r next, x => x.Allows r ∧ ∀ w : World, (next (w.answer r).1).Proper Q (x.after r w)

variable {Q R : α → Standing → Prop}

lemma Proper.mono (hp : p.Proper Q x) (h : ∀ a x, Q a x → R a x) : p.Proper R x := by
  induction p generalizing x with
  | done a => exact h a x hp
  | ask r next ih => exact ⟨hp.1, fun w => ih _ (hp.2 w)⟩

lemma Proper.bind {f : α → Program β} {Q : β → Standing → Prop}
    (hp : p.Proper (fun a x => (f a).Proper Q x) x) : (p >>= f).Proper Q x := by
  show (p.bind f).Proper Q x
  induction p generalizing x with
  | done a => exact hp
  | ask r next ih => exact ⟨hp.1, fun w => ih _ (hp.2 w)⟩

lemma Asks.proper (hp : p.Asks fun r => r.isNeutral = true) (hQ : ∀ a, Q a x) : p.Proper Q x := by
  induction p with
  | done a => exact hQ a
  | ask r next ih =>
    refine ⟨x.allows_neutral hp.1, fun w => ?_⟩
    rw [x.after_neutral hp.1]
    exact ih _ (hp.2 _)

lemma proper_neutral {r : Request} {f : r.Answer → Program α} (hr : r.isNeutral = true)
    (hf : ∀ a, (f a).Proper Q x) : (request r >>= f).Proper Q x :=
  Proper.bind (Asks.proper ((asks_request r).2 hr) hf)

lemma proper_lock {id : JobId} {f : Option Job → Program α} (hx : x.stage = .clear)
    (hnone : (f none).Proper Q x) (hsome : ∀ job, (f (some job)).Proper Q (x.goTo (.found job))) :
    (request (.lockJob id) >>= f).Proper Q x := by
  have hf : ∀ job?, (f job?).Proper Q (x.afterLock job?) := by
    rintro (_ | job)
    · exact hnone
    · exact hsome job
  exact ⟨hx, fun _ => hf _⟩

lemma proper_push {id : JobId} {project : ProjectId} {tags : Tags} {time : Timestamp}
    {f : Except DispatchError Receipt → Program α} (hx : ∃ job, x.stage = .found job)
    (hf : ∀ result, (f result).Proper Q (x.afterPush result)) :
    (request (.push id project tags time) >>= f).Proper Q x := ⟨hx, fun _ => hf _⟩

lemma proper_pop {id : JobId} {f : Except DispatchError Bool → Program α}
    (hx : ∃ job, x.stage = .found job ∧ job.state = .pending)
    (hf : ∀ result, (f result).Proper Q (x.afterPop result)) :
    (request (.pop id) >>= f).Proper Q x := ⟨hx, fun _ => hf _⟩

lemma proper_unlock {id : JobId} {f : Unit → Program α} (hx : x.stage.owes = false)
    (hf : (f ()).Proper Q (x.goTo .clear)) : (request (.unlockJob id) >>= f).Proper Q x :=
  ⟨hx, fun _ => hf⟩

end Program

/-! ### Sections -/

section

variable {x : Standing} {edge : Edge} {now : Timestamp} {job found : Job}

/-- A push that fails, other than for an entry that there is, leaves the thread where it stands. -/
lemma pushEntry_proper {Q : Except DispatchError Receipt → Standing → Prop}
    (hx : x.stage = .found found) (herr : ∀ e, Q (.error e) x)
    (hrefused : ∀ e, Q (.error e) (x.goTo .refused))
    (hok : ∀ receipt, Q (.ok receipt) (x.goTo .counted)) :
    (pushEntry job edge now).Proper Q x := by
  unfold pushEntry
  split
  · exact herr _
  refine proper_push ⟨found, hx⟩ ?_
  rintro (e | receipt)
  · cases e with
    | duplicateEntry id => exact ⟨trivial, fun _ => ⟨rfl, fun _ => hrefused _⟩⟩
    | _ => exact herr _
  · exact ⟨rfl, fun _ => hok receipt⟩

lemma popEntry_proper {Q : Except DispatchError Bool → Standing → Prop} {kind : Departure}
    (hx : x.stage = .found found) (hpending : found.state = .pending) (herr : ∀ e, Q (.error e) x)
    (hmissed : Q (.ok false) (x.goTo .missed)) (hok : Q (.ok true) (x.goTo kind.stage)) :
    (popEntry job edge kind).Proper Q x := by
  unfold popEntry
  split
  · exact herr _
  refine proper_pop ⟨found, hx, hpending⟩ ?_
  rintro (e | _ | _)
  · exact herr e
  · exact ⟨trivial, fun _ => ⟨rfl, fun _ => hmissed⟩⟩
  · exact ⟨rfl, fun _ => hok⟩

lemma givePlace_neutral (worker : WorkerId) : (givePlace worker).Asks fun r => r.isNeutral = true :=
  givePlace_asks worker rfl fun _ => rfl

/-- What is left to do is to store the record or to give the lock back. -/
lemma applyEffect_proper (hx : x.stage = .found found) (hfound : found.state = edge.source) :
    (applyEffect job edge now).Proper (fun _ x => x.stage.owes = false) x := by
  have howes : x.stage.owes = false := by
    rw [hx]
    rfl
  unfold applyEffect
  split
  · refine Proper.bind (pushEntry_proper hx (fun _ => ?_) (fun _ => ?_) fun _ => ?_)
    · exact howes
    · rfl
    · rfl
  · rename_i hchange
    have hpending : found.state = .pending := by
      rw [hfound]
      obtain ⟨source, target⟩ := edge
      cases source <;> cases target <;> first | rfl | cases hchange
    refine Proper.bind (popEntry_proper hx hpending (fun _ => ?_) ?_ ?_)
    · exact howes
    · rfl
    · rfl
  · exact howes
  · exact howes

theorem changeState_proper (id : JobId) (edge : Edge) (hx : x.stage = .clear) :
    (changeState id edge).Proper (fun _ x => x.stage = .clear) x := by
  unfold changeState
  split
  · exact hx
  rename_i hedge
  split
  · exact hx
  rename_i hclaim
  have htarget := Edge.target_ne_running (by simpa using hedge) (by simpa using hclaim)
  refine proper_lock hx hx fun job => ?_
  dsimp only
  split
  · exact proper_unlock rfl rfl
  rename_i hsource
  refine proper_neutral rfl fun now => Proper.bind ?_
  refine (applyEffect_proper rfl (by simpa using hsource)).mono fun result x howes => ?_
  split
  · exact proper_unlock howes rfl
  -- the record is not that of a running job
  have hstore (record : Job) (hstate : record.state = edge.target) :
      x.Allows (.storeJob record) := by
    show if record.state = .running then _ else _
    rw [if_neg (by rw [hstate]; exact htarget)]
    exact howes
  split
  · refine Proper.bind (Asks.proper ?_ fun job =>
      ⟨hstore _ rfl, fun _ => proper_neutral rfl fun _ => rfl⟩)
    unfold letGo
    split
    · trivial
    · exact Asks.bind (Asks.bind (givePlace_neutral _) fun _ => trivial) fun _ => trivial
  · exact ⟨hstore _ rfl, fun _ => proper_neutral rfl fun _ => rfl⟩

theorem claim_proper (id : JobId) (worker : WorkerId) :
    (claim id worker).Proper (fun _ x => x.stage = .clear) ⟨.clear, some worker⟩ := by
  unfold claim
  refine proper_lock rfl rfl fun job => ?_
  dsimp only
  split
  · exact proper_unlock rfl rfl
  rename_i hstate
  have hpending : job.state = .pending := by simpa using hstate
  refine proper_neutral rfl fun found => ?_
  split
  · exact proper_unlock rfl rfl
  · exact proper_unlock rfl rfl
  refine proper_neutral rfl fun obstacle => ?_
  split
  · exact proper_unlock rfl rfl
  -- on the way out the place is given back
  have hretreat (stage : Stage) (hstage : stage.owes = false) (a : Except DispatchError Handover) :
      (do
        discard (givePlace worker)
        request (.unlockJob id)
        pure a : Program _).Proper (fun _ x => x.stage = .clear) ⟨stage, some worker⟩ :=
    Proper.bind (Asks.proper (Asks.bind (givePlace_neutral worker) fun _ => trivial) fun _ =>
      proper_unlock hstage rfl)
  refine Proper.bind (popEntry_proper rfl hpending (fun e => ?_) ?_ ?_)
  · exact hretreat _ rfl _
  · exact hretreat _ rfl _
  · exact proper_neutral rfl fun now =>
      ⟨⟨rfl, worker, rfl, rfl⟩, fun _ => proper_neutral rfl fun _ => rfl⟩

theorem auditJob_proper (id : JobId) (hx : x.stage = .clear) :
    (auditJob id).Proper (fun _ x => x.stage = .clear) x := by
  unfold auditJob
  refine proper_lock hx hx fun job => ?_
  refine proper_neutral rfl fun found => proper_unlock rfl ?_
  cases found with
  | error e => rfl
  | ok entry? =>
    dsimp only
    split <;> rfl

end

lemma Section.proper (part : Section) {x : Standing} (hx : x.stage = .clear) :
    part.program.Proper (fun _ x => x.stage = .clear) x := by
  cases part with
  | offer job worker =>
    refine ⟨trivial, fun _ => ?_⟩
    show (claim job worker).Proper _ ⟨x.stage, some worker⟩
    rw [hx]
    exact claim_proper job worker
  | change job edge => exact changeState_proper job edge hx
  | audit job => exact auditJob_proper job hx

/-- **What is put together from sections and neutral requests is proper**, and ends without a
lock. -/
theorem Composed.proper {A : Request → Prop} {α : Type} {p : Program α} (hp : Composed A p)
    (hA : ∀ r, A r → r.isNeutral = true) {x : Standing} (hx : x.stage = .clear) :
    p.Proper (fun _ x => x.stage = .clear) x := by
  induction hp generalizing x with
  | done a => exact hx
  | ask hr _ ih => exact proper_neutral (hA _ hr) fun a => ih a hx
  | enter part _ ih => exact Proper.bind ((part.proper hx).mono fun a _ hx => ih a hx)

lemma Composed.proper_of_leasing {α : Type} {p : Program α} (hp : Leasing p) :
    p.Proper (fun _ x => x.stage = .clear) .start :=
  hp.proper (fun _ h => h.elim Request.isNeutral_of_isLoose Request.isNeutral_of_isLease) rfl

end JobDispatch

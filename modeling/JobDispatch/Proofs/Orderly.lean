import JobDispatch.Engine
import JobDispatch.Proofs.Tenure

/-!
Changes of state and claims are orderly, and their answers tell which edges they have taken: an
answer of success stands for one edge, any other for none.
-/

namespace JobDispatch

open Program

def claimedEdges (id : JobId) : Except DispatchError Handover → List (JobId × Edge)
  | .ok (.claimed ..) => [(id, claimEdge)]
  | _ => []

def changedEdges (id : JobId) (edge : Edge) {α : Type} :
    Except DispatchError α → List (JobId × Edge)
  | .ok _ => [(id, edge)]
  | .error _ => []

variable {f : Footing} {t : Tenure}

/-! ### Parts of the section -/

lemma pushEntry_orderly {Q : Except DispatchError Receipt → Footing → Prop} {edge : Edge}
    {now : Timestamp} (ht : f.tenure? = some t) (hs : t.job.state = .created)
    (he : t.queued? = none) (herr : ∀ e, Q (.error e) f)
    (hok : ∀ receipt entry, entry.project = t.job.project → entry.tags = t.job.tags →
      entry.enqueuedAt = now → Q (.ok receipt) (f.hold { t with queued? := some entry })) :
    (pushEntry t.job edge now).Orderly Q f := by
  unfold pushEntry
  split
  · exact herr _
  · rw [orderly_bind]
    refine ⟨t, ht, rfl, hs, he, ⟨rfl, rfl⟩, fun e => ?_, fun receipt entry h₁ h₂ h₃ => ?_⟩
    · cases e with
      | duplicateEntry id => exact fun _ _ => herr _
      | _ => exact herr _
    · exact fun _ => hok receipt entry h₁ h₂ h₃

lemma popEntry_orderly {Q : Except DispatchError Bool → Footing → Prop} {edge : Edge}
    {kind : Departure} (ht : f.tenure? = some t) (hs : t.job.state ≠ .created)
    (herr : ∀ e, Q (.error e) f)
    (hok : Q (.ok t.queued?.isSome) (f.hold { t with queued? := none })) :
    (popEntry t.job edge kind).Orderly Q f := by
  unfold popEntry
  split
  · exact herr _
  · rw [orderly_bind]
    refine ⟨t, ht, rfl, hs, fun e => herr e, ?_⟩
    cases he : t.queued?.isSome
    · rw [he] at hok
      exact fun _ _ => hok
    · rw [he] at hok
      exact fun _ => hok

lemma givePlace_orderly {Q : Bool → Footing → Prop} {worker : WorkerId}
    (ht : f.tenure? = some t) (hp : t.place? = some worker)
    (h : ∀ b, Q b (f.hold { t with place? := none })) : (givePlace worker).Orderly Q f := by
  unfold givePlace
  rw [orderly_bind]
  refine ⟨t, ht, hp, fun x => ?_⟩
  cases x with
  | released => exact h true
  | unknownWorker => exact fun _ => h false
  | idle => exact fun _ => h false

lemma unlock_orderly {α : Type} {Q : α → Footing → Prop} {p : Program α} (ht : f.tenure? = some t)
    (hs : t.Settled) (h : p.Orderly Q f.letGo) :
    (request (.unlockJob t.job.id) >>= fun _ => p).Orderly Q f :=
  ⟨t, ht, rfl, hs, h⟩

/-! ### Claims -/

lemma Tenure.Settled.place?_eq_none (hs : t.Settled) (h : t.job.state ≠ .running) :
    t.place? = none := by
  rw [← Option.not_isSome_iff_eq_none, hs.placed_iff]
  exact h

lemma settled_claimed (job : Job) (worker : WorkerId) (now : Timestamp) :
    Tenure.Settled ⟨{ job with
      state := .running, claimedBy? := some worker, enqueuedAt? := none, updatedAt := now },
      none, some worker⟩ := by
  refine ⟨by simp, fun e he => ?_, rfl, rfl, by simp⟩
  cases he

/-- The way out of a claim whose place is taken and that fails: the place is given back and the job
left as it was found. -/
lemma retreat_orderly {α : Type} {Q : α → Footing → Prop} {a : α} {worker : WorkerId}
    (hs : t.Settled) (hp : t.place? = none)
    (ht : f.tenure? = some { t with place? := some worker }) (h : Q a f.letGo) :
    (do
      discard (givePlace worker)
      request (.unlockJob t.job.id)
      pure a : Program α).Orderly Q f := by
  have hback : ({ t with place? := none } : Tenure) = t := by rw [← hp]
  rw [orderly_bind]
  show (givePlace worker >>= fun _ => pure ()).Orderly _ f
  rw [orderly_bind]
  refine givePlace_orderly ht rfl fun b => ?_
  show Orderly _ _ (f.hold { t with place? := none })
  rw [hback]
  exact unlock_orderly rfl hs h

theorem claim_orderly (id : JobId) (worker : WorkerId) (taken : List (JobId × Edge)) :
    (claim id worker).Orderly (fun r f => f = ⟨none, claimedEdges id r ++ taken⟩)
      ⟨none, taken⟩ := by
  unfold claim
  rw [orderly_bind, orderly_request]
  refine ⟨rfl, rfl, fun t hid hs => ?_⟩
  subst hid
  dsimp only
  split
  · exact unlock_orderly rfl hs rfl
  rename_i hst
  have hpend : t.job.state = .pending := by simpa using hst
  have hplace := hs.place?_eq_none (by rw [hpend]; decide)
  rw [orderly_bind, orderly_request]
  refine ⟨fun e => unlock_orderly rfl hs rfl, fun e? he? => ?_⟩
  obtain rfl := he? t rfl rfl
  -- a pending job has its entry, so that the claim goes on to the worker
  obtain ⟨entry, hentry⟩ := Option.isSome_iff_exists.1 (hs.queued_iff.2 hpend)
  rw [hentry]
  dsimp only
  rw [orderly_bind, orderly_request]
  refine ⟨t, rfl, hplace, fun reason => unlock_orderly rfl hs rfl, ?_⟩
  dsimp only
  rw [orderly_bind]
  refine popEntry_orderly (t := { t with place? := some worker }) rfl (by rw [hpend]; decide)
    (fun e => retreat_orderly hs hplace rfl rfl) ?_
  rw [hentry]
  intro now
  refine ⟨_, rfl, ⟨rfl, rfl, rfl, by simp [hpend, Edge.inLifecycle]⟩,
    settled_claimed t.job worker now, fun _ => ?_⟩
  show (⟨none, (t.job.id, ⟨t.job.state, .running⟩) :: taken⟩ : Footing) = _
  rw [hpend]
  rfl

/-! ### Changes of state -/

/-- The edges that changes of state take: into the queue, out of it, and from a worker. -/
lemma edge_cases {edge : Edge} (h : edge.inLifecycle = true) (hclaim : edge.needsClaim = false) :
    edge = ⟨.created, .pending⟩ ∨ edge = ⟨.pending, .canceled⟩ ∨
      edge.source = .running ∧ edge.target.isFinal = true := by
  obtain ⟨source, target⟩ := edge
  cases source <;> cases target <;> simp_all [Edge.inLifecycle, Edge.needsClaim, JobState.isFinal]

/-- The effect of an edge on the queue leaves the job with the entry that goes with the target. -/
lemma applyEffect_orderly {Q : Except DispatchError (Job × Option Receipt) → Footing → Prop}
    {edge : Edge} {now : Timestamp} (hedge : edge.inLifecycle = true)
    (hclaim : edge.needsClaim = false) (ht : f.tenure? = some t) (hs : t.Settled)
    (hsource : t.job.state = edge.source) (herr : ∀ e, Q (.error e) f)
    (hok : ∀ receipt? queued?, (queued?.isSome = true ↔ edge.target = .pending) →
      (∀ e, queued? = some e → e.project = t.job.project ∧ e.tags = t.job.tags) →
      Q (.ok ({ t.job with enqueuedAt? := queued?.map QueueEntry.enqueuedAt }, receipt?))
        (f.hold { t with queued? })) :
    (applyEffect t.job edge now).Orderly Q f := by
  have hhold : f.hold t = f := by rw [Footing.hold, ← ht]
  unfold applyEffect
  rcases edge_cases hedge hclaim with rfl | rfl | ⟨hrun, hfinal⟩
  · have hnone : t.queued? = none := by
      rw [← Option.not_isSome_iff_eq_none, hs.queued_iff, hsource]
      decide
    refine (orderly_bind _ _ _ _).2 (pushEntry_orderly ht hsource hnone (fun e => herr e) ?_)
    intro receipt entry hproject htags htime
    subst htime
    exact hok (some receipt) (some entry) (by simp) fun e he => by cases he; exact ⟨hproject, htags⟩
  · refine (orderly_bind _ _ _ _).2
      (popEntry_orderly ht (by rw [hsource]; decide) (fun e => herr e) ?_)
    exact hok none none (by simp) fun e he => by cases he
  · have hnone : t.queued? = none := by
      rw [← Option.not_isSome_iff_eq_none, hs.queued_iff, hsource, hrun]
      decide
    have hchange : edge.queueChange = .none := by
      obtain ⟨source, target⟩ := edge
      cases hrun
      cases target <;> first | rfl | cases hfinal
    have hjob : { t.job with enqueuedAt? := (none : Option QueueEntry).map QueueEntry.enqueuedAt } =
        t.job := by rw [← hnone, ← hs.enqueuedAt]
    have h := hok none none (by cases htgt : edge.target <;> simp_all [JobState.isFinal])
      fun e he => by cases he
    rw [hjob, ← hnone] at h
    rw [hchange]
    exact hhold ▸ h

lemma letGo_orderly {Q : Job → Footing → Prop} {job : Job} (ht : f.tenure? = some t)
    (hp : t.place? = job.claimedBy?)
    (h : Q { job with claimedBy? := none } (f.hold { t with place? := none })) :
    (letGo job).Orderly Q f := by
  unfold letGo
  split
  · rename_i hnone
    have hjob : { job with claimedBy? := none } = job := by rw [← hnone]
    have hback : ({ t with place? := none } : Tenure) = t := by rw [← hnone, ← hp]
    have hhold : f.hold t = f := by rw [Footing.hold, ← ht]
    rw [hjob, hback, hhold] at h
    exact h
  · rename_i worker hsome
    rw [orderly_bind]
    show (givePlace worker >>= fun _ => pure ()).Orderly _ f
    rw [orderly_bind]
    exact givePlace_orderly ht (hp.trans hsome) fun _ => h

lemma finish_orderly (job : Job) {edge : Edge} {queued? : Option QueueEntry}
    {place? : Option WorkerId} {now : Timestamp} {event : Event} {α : Type} {a : α}
    (hedge : edge.inLifecycle = true) (hsource : job.state = edge.source)
    (ht : f.tenure? = some ⟨job, queued?, place?⟩)
    (hqueued : queued?.isSome = true ↔ edge.target = .pending)
    (hentry : ∀ e, queued? = some e → e.project = job.project ∧ e.tags = job.tags)
    (hplaced : place?.isSome = true ↔ edge.target = .running) :
    (do
      request (.storeJob { job with
        enqueuedAt? := queued?.map QueueEntry.enqueuedAt, claimedBy? := place?,
        state := edge.target, updatedAt := now })
      request (.log event)
      pure (.ok a) : Program (Except DispatchError α)).Orderly
        (fun r f' => f' = ⟨none, changedEdges job.id edge r ++ f.taken⟩) f := by
  rw [orderly_bind]
  refine ⟨_, ht, ⟨rfl, rfl, rfl, ?_⟩, ⟨hqueued, hentry, rfl, rfl, hplaced⟩, fun _ => ?_⟩
  · rw [hsource]
    exact hedge
  · show (⟨none, (job.id, ⟨job.state, edge.target⟩) :: f.taken⟩ : Footing) = _
    rw [hsource]
    rfl

theorem changeState_orderly (id : JobId) (edge : Edge) (taken : List (JobId × Edge)) :
    (changeState id edge).Orderly (fun r f => f = ⟨none, changedEdges id edge r ++ taken⟩)
      ⟨none, taken⟩ := by
  unfold changeState
  split
  · rfl
  rename_i hedge
  split
  · rfl
  rename_i hclaim
  simp only [Bool.not_eq_true, Bool.not_eq_false'] at hedge hclaim
  rw [orderly_bind, orderly_request]
  refine ⟨rfl, rfl, fun t hid hs => ?_⟩
  subst hid
  dsimp only
  split
  · exact unlock_orderly rfl hs rfl
  rename_i hst
  have hsource : t.job.state = edge.source := by simpa using hst
  rw [orderly_bind, orderly_request]
  intro now
  rw [orderly_bind]
  refine applyEffect_orderly hedge hclaim rfl hs hsource (fun e => unlock_orderly rfl hs rfl) ?_
  intro receipt? queued? hqueued hentry
  dsimp only
  split
  · -- a final job leaves its worker, if it has one
    rename_i hfinal
    rw [orderly_bind]
    refine letGo_orderly (t := { t with queued? }) rfl hs.place ?_
    refine finish_orderly t.job hedge hsource rfl hqueued hentry ?_
    cases htgt : edge.target <;> simp_all [JobState.isFinal]
  · -- any other edge leads into the queue, so that there is no worker
    rename_i hfinal
    have hnone : t.place? = none := by
      refine hs.place?_eq_none ?_
      rcases edge_cases hedge hclaim with rfl | rfl | ⟨-, h⟩
      · rw [hsource]; decide
      · rw [hsource]; decide
      · exact absurd h hfinal
    have hclaimed : t.job.claimedBy? = t.place? := hs.place.symm
    rw [hclaimed]
    refine finish_orderly t.job hedge hsource rfl hqueued hentry ?_
    rw [hnone]
    rcases edge_cases hedge hclaim with rfl | rfl | ⟨-, h⟩
    · simp
    · simp
    · exact absurd h hfinal

end JobDispatch

import JobDispatch.Proofs.Tenure

/-!
Orderly programs keep the table of jobs and the queue in step. `World.Kept` says it of a world in
which some jobs are locked: what a holder of a lock believes is so, and every other job is settled.
A permitted request is answered as its asker expects (`Permitted.post`) and keeps the world
(`Kept.answer`); so an orderly program run by itself does (`Orderly.run`).
-/

namespace JobDispatch

/-- What is stored of a job agrees with what the holder of its lock believes, or is settled if there
is no holder. -/
def Agree (id : JobId) (job? : Option Job) (queued? : Option QueueEntry) : Option Tenure → Prop
  | some t => t.job.id = id ∧ job? = some t.job ∧ queued? = t.queued?
  | none =>
    match job? with
    | none => queued? = none
    | some job => job.id = id ∧ Tenure.Settled ⟨job, queued?, job.claimedBy?⟩

/-- Who holds the locks: what the holder of a job's lock has before it. -/
abbrev Holders := JobId → Option Tenure

namespace Holders

def free : Holders := fun _ => none

/-- One holder goes from one tenure to another, or takes or leaves a lock. -/
def pass (held : Holders) (old new : Option Tenure) : Holders := fun id =>
  if new.map (fun t => t.job.id) = some id then new
  else if old.map (fun t => t.job.id) = some id then none
  else held id

variable {held : Holders} {t u : Tenure}

@[simp] lemma pass_none_none : held.pass none none = held := by
  funext id
  simp [pass]

lemma pass_none_some : held.pass none (some t) = Function.update held t.job.id (some t) := by
  funext id
  by_cases h : id = t.job.id
  · simp [pass, h]
  · simp [pass, h, Ne.symm h]

lemma pass_some_none : held.pass (some t) none = Function.update held t.job.id none := by
  funext id
  by_cases h : id = t.job.id
  · simp [pass, h]
  · simp [pass, h, Ne.symm h]

lemma pass_some_some (h : u.job.id = t.job.id) :
    held.pass (some t) (some u) = Function.update held t.job.id (some u) := by
  funext id
  by_cases hid : id = t.job.id
  · simp [pass, h, hid]
  · simp [pass, h, hid, Ne.symm hid]

lemma pass_self {tenure? : Option Tenure} (h : ∀ t, tenure? = some t → held t.job.id = some t) :
    held.pass tenure? tenure? = held := by
  cases tenure? with
  | none => exact pass_none_none
  | some t => rw [pass_some_some rfl, ← h t rfl, Function.update_eq_self]

end Holders

/-- The queue shows what it holds, and each job is as the holder of its lock believes or settled. -/
structure World.Kept (w : World) (held : Holders) : Prop where
  sure : w.queue.Sure
  agree : ∀ id, Agree id (w.jobs.find? id) (w.queue.queue.get? id) (held id)

namespace Footing

def revise (f : Footing) (g : Tenure → Tenure) : Footing := { f with tenure? := f.tenure?.map g }

variable {f : Footing} {t : Tenure}

lemma revise_eq_hold (g : Tenure → Tenure) (h : f.tenure? = some t) :
    f.revise g = f.hold (g t) := by rw [revise, hold, h]; rfl

lemma hold_self (h : f.tenure? = some t) : f.hold t = f := by rw [hold, ← h]

lemma pass_revise {held : Holders} {g : Tenure → Tenure} (h : f.tenure? = some t)
    (hg : (g t).job.id = t.job.id) :
    held.pass f.tenure? (f.revise g).tenure? = Function.update held t.job.id (some (g t)) := by
  rw [revise_eq_hold g h, tenure?_hold, h, Holders.pass_some_some hg]

def after (f : Footing) (r : Request) (w : World) : Footing :=
  match r with
  | .lockJob id =>
    match w.jobs.find? id with
    | none => f
    | some job => f.hold ⟨job, w.queue.queue.get? id, job.claimedBy?⟩
  | .storeJob record =>
    match f.tenure? with
    | none => f
    | some t => ⟨none, (record.id, ⟨t.job.state, record.state⟩) :: f.taken⟩
  | .unlockJob _ => f.letGo
  | .push .. | .pop _ =>
    f.revise fun t => { t with queued? := (w.answer r).2.queue.queue.get? t.job.id }
  | .takePlace id =>
    match (w.registry.takePlace id w.now).1 with
    | none => f.revise fun t => { t with place? := some id }
    | some _ => f
  | .release _ => f.revise fun t => { t with place? := none }
  | _ => f

end Footing

variable {w w' : World} {held : Holders} {f : Footing}

lemma World.Kept.tenure (hk : w.Kept held) {t : Tenure} (h : held t.job.id = some t) :
    w.jobs.find? t.job.id = some t.job ∧ w.queue.queue.get? t.job.id = t.queued? := by
  have := hk.agree t.job.id
  rw [h] at this
  exact this.2

/-! ### Calls on the queue -/

/-- A push for a job without an entry fails without effect or makes the entry. -/
lemma World.push_cases (hs : w.queue.Sure) {id : JobId} (project : ProjectId) (tags : Tags)
    (time : Timestamp) (hnone : w.queue.queue.get? id = none) :
    (∃ e, (w.answer (.push id project tags time)).1 = .error e ∧
      (w.answer (.push id project tags time)).2.queue.queue = w.queue.queue) ∨
    ∃ receipt, (w.answer (.push id project tags time)).1 = .ok receipt ∧
      (w.answer (.push id project tags time)).2.queue.queue =
        (w.queue.queue.push id project tags time).2 := by
  rcases (FallibleQueue.guarded_cases .push none
    (fun q => q.push id project tags time) hs).1 with h | ⟨hr, hq⟩
  · exact .inl h
  · rw [Queue.push_of_get?_eq_none _ _ _ _ _ hnone] at hr
    exact .inr ⟨_, hr, hq⟩

/-- A removal fails without effect or removes the entry and tells whether there was one. -/
lemma World.pop_cases (hs : w.queue.Sure) (id : JobId) :
    (∃ e, (w.answer (.pop id)).1 = .error e ∧
      (w.answer (.pop id)).2.queue.queue = w.queue.queue) ∨
    (w.answer (.pop id)).1 = .ok (w.queue.queue.get? id).isSome ∧
      (w.answer (.pop id)).2.queue.queue = (w.queue.queue.pop id).2 := by
  rcases (FallibleQueue.guarded_cases .pop (some false)
    (fun q => (.ok (q.pop id).1, (q.pop id).2)) hs).1 with h | ⟨hr, hq⟩
  · exact .inl h
  · rw [Queue.pop_fst] at hr
    exact .inr ⟨hr, hq⟩

lemma World.lookup_cases (hs : w.queue.Sure) (id : JobId) :
    (∃ e, (w.answer (.lookup id)).1 = .error e) ∨
      (w.answer (.lookup id)).1 = .ok (w.queue.queue.get? id) := by
  rcases (FallibleQueue.guarded_cases .get (some none)
    (fun q => (.ok (q.get? id), q)) hs).1 with ⟨e, he, -⟩ | ⟨hr, -⟩
  · exact .inl ⟨e, he⟩
  · exact .inr hr

/-! Where no call is going to fail, the queue is read as it is. -/

lemma World.answer_lookup (hplan : w.queue.plan = []) (id : JobId) :
    w.answer (.lookup id) = (.ok (w.queue.queue.get? id), w) := by
  simp only [World.answer, World.onQueue, FallibleQueue.get]
  rw [FallibleQueue.guarded_of_plan_eq_nil _ _ _ hplan, ← hplan]

lemma World.answer_scan (hplan : w.queue.plan = []) (limit : UInt64) (after : Option Cursor) :
    w.answer (.scan limit after) = (.ok (w.queue.queue.scan limit after), w) := by
  simp only [World.answer, World.onQueue, FallibleQueue.scan]
  rw [FallibleQueue.guarded_of_plan_eq_nil _ _ _ hplan, ← hplan]

lemma World.answer_queueLength (hplan : w.queue.plan = []) :
    w.answer .queueLength = (.ok w.queue.queue.length, w) := by
  simp only [World.answer, World.onQueue, FallibleQueue.length]
  rw [FallibleQueue.guarded_of_plan_eq_nil _ _ _ hplan, ← hplan]

lemma World.now_answer (w : World) (r : Request) : (w.answer r).2.now = w.now := by
  cases r with
  | addJob draft =>
    simp only [World.answer, World.addJob]
    split <;> rfl
  | _ => rfl

lemma World.plan_answer {P : Failure → Prop} (h : ∀ f ∈ w.queue.plan, P f.failure) (r : Request) :
    ∀ f ∈ (w.answer r).2.queue.plan, P f.failure := by
  cases r with
  | push _ _ _ _ | pop _ | lookup _ | scan _ _ | queueLength | queueCounts =>
    simp only [World.answer, World.onQueue, FallibleQueue.push, FallibleQueue.pop,
      FallibleQueue.get, FallibleQueue.scan, FallibleQueue.length, FallibleQueue.counts]
    exact FallibleQueue.guarded_plan _ _ _ h
  | addJob draft =>
    simp only [World.answer, World.addJob]
    split <;> exact h
  | _ => exact h

lemma World.answer_sure (hs : w.queue.Sure) (r : Request) : (w.answer r).2.queue.Sure :=
  World.plan_answer (P := (· ≠ .miss)) hs r

def Request.movesQueue : Request → Bool
  | .push .. | .pop _ => true
  | _ => false

lemma World.queue_answer {r : Request} (h : r.movesQueue = false) :
    (w.answer r).2.queue.queue = w.queue.queue := by
  cases r with
  | push _ _ _ _ | pop _ => cases h
  | lookup _ | scan _ _ | queueLength | queueCounts =>
    simp only [World.answer, World.onQueue, FallibleQueue.get, FallibleQueue.scan,
      FallibleQueue.length, FallibleQueue.counts]
    exact FallibleQueue.guarded_of_read _ _ _ fun _ => rfl
  | addJob draft =>
    simp only [World.answer, World.addJob]
    split <;> rfl
  | _ => rfl

/-! ### Requests -/

/-- **A permitted request is answered as expected**, if it does not wait for a lock. -/
theorem Request.Permitted.post {r : Request} {post : r.Answer → Footing → Prop}
    (hp : r.Permitted f post) (hk : w.Kept held)
    (hf : ∀ t, f.tenure? = some t → held t.job.id = some t)
    (hfree : ∀ id, r = .lockJob id → held id = none) :
    post (w.answer r).1 (f.after r w) := by
  cases r with
  | lockJob id =>
    have hid := hk.agree id
    rw [hfree id rfl] at hid
    simp only [World.answer, Footing.after]
    cases hjob : w.jobs.find? id with
    | none => exact hp.2.1
    | some job =>
      rw [hjob] at hid
      exact hp.2.2 ⟨job, w.queue.queue.get? id, job.claimedBy?⟩ hid.1 hid.2
  | storeJob record =>
    obtain ⟨t, ht, -, -, hpost⟩ := hp
    simp only [World.answer, Footing.after, ht]
    exact hpost
  | unlockJob id =>
    obtain ⟨t, -, -, -, hpost⟩ := hp
    exact hpost
  | push id project tags time =>
    obtain ⟨t, ht, rfl, -, hnone, -, herr, hok⟩ := hp
    have hget := (hk.tenure (hf t ht)).2
    rw [Footing.after, Footing.revise_eq_hold _ ht]
    rcases World.push_cases hk.sure project tags time (hget.trans hnone) with
      ⟨e, he, hq⟩ | ⟨receipt, hr, hq⟩
    · rw [he, hq, hget, Footing.hold_self ht]
      exact herr e
    · rw [hr, hq, Queue.get?_push _ _ _ _ _ (hget.trans hnone), if_pos rfl]
      exact hok receipt _ rfl rfl rfl
  | pop id =>
    obtain ⟨t, ht, rfl, -, herr, hok⟩ := hp
    have hget := (hk.tenure (hf t ht)).2
    rw [Footing.after, Footing.revise_eq_hold _ ht]
    rcases World.pop_cases hk.sure t.job.id with ⟨e, he, hq⟩ | ⟨hr, hq⟩
    · rw [he, hq, hget, Footing.hold_self ht]
      exact herr e
    · rw [hr, hq, Queue.get?_pop, if_pos rfl, hget]
      exact hok
  | lookup id =>
    rcases World.lookup_cases hk.sure id with ⟨e, he⟩ | hr
    · rw [he]
      exact hp.1 e
    · rw [hr]
      refine hp.2 _ fun t ht hid => ?_
      rw [← hid]
      exact (hk.tenure (hf t ht)).2
  | takePlace id =>
    obtain ⟨t, ht, -, hno, hyes⟩ := hp
    simp only [World.answer, World.onRegistry, Footing.after]
    cases h : (w.registry.takePlace id w.now).1 with
    | some reason => exact hno reason
    | none =>
      rw [Footing.revise_eq_hold _ ht]
      exact hyes
  | release id =>
    obtain ⟨t, ht, -, hpost⟩ := hp
    rw [Footing.after, Footing.revise_eq_hold _ ht]
    exact hpost _
  | _ => exact hp _

/-- The job that is locked after a request by the one who makes it. -/
def Request.lockedAfter (r : Request) (w : World) (before : Option JobId) : Option JobId :=
  match r with
  | .lockJob id => if w.jobs.contains id then some id else none
  | .storeJob _ | .unlockJob _ => none
  | _ => before

lemma Footing.job_after {r : Request} {post : r.Answer → Footing → Prop} (hp : r.Permitted f post)
    (hk : w.Kept held) (hfree : ∀ id, r = .lockJob id → held id = none) :
    (f.after r w).tenure?.map (fun t => t.job.id) =
      r.lockedAfter w (f.tenure?.map fun t => t.job.id) := by
  cases r with
  | lockJob id =>
    have hid := hk.agree id
    rw [hfree id rfl] at hid
    cases hjob : w.jobs.find? id with
    | none => simp [Footing.after, Request.lockedAfter, Table.contains, hjob, hp.1]
    | some job =>
      rw [hjob] at hid
      simp [Footing.after, Request.lockedAfter, Table.contains, hjob, hid.1]
  | storeJob record =>
    obtain ⟨t, ht, -⟩ := hp
    simp [Footing.after, Request.lockedAfter, ht]
  | unlockJob id => rfl
  | push _ _ _ _ | pop _ | release _ =>
    obtain ⟨t, ht, -⟩ := hp
    simp [Footing.after, Request.lockedAfter, Footing.revise_eq_hold _ ht, ht]
  | takePlace id =>
    obtain ⟨t, ht, -⟩ := hp
    simp only [Footing.after, Request.lockedAfter]
    cases (w.registry.takePlace id w.now).1 with
    | some reason => rfl
    | none => simp [Footing.revise_eq_hold _ ht, ht]
  | _ => rfl

/-- What is true of the job that is locked stays so, if it is true of each job that gets locked. -/
lemma Footing.locked_after {P : JobId → Prop} {r : Request} {post : r.Answer → Footing → Prop}
    (hp : r.Permitted f post) (hk : w.Kept held) (hfree : ∀ id, r = .lockJob id → held id = none)
    (hown : ∀ t, f.tenure? = some t → P t.job.id) (hlock : ∀ id, r = .lockJob id → P id) :
    ∀ t, (f.after r w).tenure? = some t → P t.job.id := by
  intro t ht
  have hjob := Footing.job_after hp hk hfree
  rw [ht] at hjob
  cases r with
  | lockJob id =>
    simp only [Request.lockedAfter, Option.map_some] at hjob
    split at hjob
    · cases hjob
      exact hlock _ rfl
    · cases hjob
  | storeJob _ | unlockJob _ => cases hjob
  | _ =>
    obtain ⟨t', ht', hid⟩ := Option.map_eq_some_iff.1 hjob.symm
    rw [show t.job.id = t'.job.id from hid.symm]
    exact hown t' ht'

/-! ### Worlds -/

lemma World.Kept.congr (hk : w.Kept held) (hjobs : w'.jobs = w.jobs)
    (hqueue : w'.queue.queue = w.queue.queue) (hsure : w'.queue.Sure) : w'.Kept held := by
  refine ⟨hsure, fun id => ?_⟩
  rw [hjobs, hqueue]
  exact hk.agree id

/-- What is changed at one job is to be shown there only. -/
lemma World.Kept.update (hk : w.Kept held) (id : JobId) {t? : Option Tenure}
    (hsure : w'.queue.Sure) (hjobs : ∀ k, k ≠ id → w'.jobs.find? k = w.jobs.find? k)
    (hqueue : ∀ k, k ≠ id → w'.queue.queue.get? k = w.queue.queue.get? k)
    (hid : Agree id (w'.jobs.find? id) (w'.queue.queue.get? id) t?) :
    w'.Kept (Function.update held id t?) := by
  refine ⟨hsure, fun k => ?_⟩
  by_cases h : k = id
  · subst h
    rw [Function.update_self]
    exact hid
  · rw [Function.update_of_ne h, hjobs k h, hqueue k h]
    exact hk.agree k

lemma World.Kept.addJob (hk : w.Kept held) (draft : JobDraft) :
    (w.addJob draft).2.Kept held := by
  cases hjob : w.jobs.find? draft.id with
  | some job => rw [w.addJob_of_known draft hjob]; exact hk
  | none =>
    have hid := hk.agree draft.id
    rw [hjob] at hid
    have hfree : held draft.id = none := by
      cases h : held draft.id with
      | none => rfl
      | some t => rw [h] at hid; exact absurd hid.2.1 nofun
    rw [hfree] at hid
    rw [w.addJob_of_new draft hjob, ← Function.update_eq_self draft.id held, hfree]
    refine hk.update draft.id hk.sure (fun k hne => Table.find?_insert_of_ne _ _ hne)
      (fun _ _ => rfl) ?_
    dsimp only
    rw [Table.find?_insert_self, show w.queue.queue.get? draft.id = none from hid]
    exact ⟨rfl, by simp [Job.ofDraft], fun e he => (by cases he), rfl, rfl, by simp [Job.ofDraft]⟩

/-- **A permitted request keeps the world.** -/
theorem World.Kept.answer {r : Request} {post : r.Answer → Footing → Prop} (hk : w.Kept held)
    (hp : r.Permitted f post) (hf : ∀ t, f.tenure? = some t → held t.job.id = some t)
    (hfree : ∀ id, r = .lockJob id → held id = none) :
    (w.answer r).2.Kept (held.pass f.tenure? (f.after r w).tenure?) := by
  have hsure := World.answer_sure hk.sure r
  have hself : held.pass f.tenure? f.tenure? = held := Holders.pass_self hf
  cases r with
  | lockJob id =>
    have hid := hk.agree id
    rw [hfree id rfl] at hid
    simp only [World.answer, Footing.after]
    cases hjob : w.jobs.find? id with
    | none => rw [hself]; exact hk
    | some job =>
      rw [hjob] at hid
      rw [hp.1, Footing.tenure?_hold, Holders.pass_none_some, hid.1]
      exact hk.update id hk.sure (fun _ _ => rfl) (fun _ _ => rfl) ⟨hid.1, hjob, rfl⟩
  | storeJob record =>
    obtain ⟨t, ht, hfol, hset, -⟩ := hp
    have hget := (hk.tenure (hf t ht)).2
    have hid : record.id = t.job.id := hfol.id
    simp only [World.answer, Footing.after, ht]
    rw [Holders.pass_some_none, ← hid]
    refine hk.update record.id hk.sure (fun k hne => Table.find?_insert_of_ne _ _ hne)
      (fun _ _ => rfl) ?_
    rw [Table.find?_insert_self]
    refine ⟨rfl, ?_⟩
    rw [hid, hget]
    have hplace := hset.place
    dsimp only at hplace
    rw [← hplace]
    exact hset
  | unlockJob id =>
    obtain ⟨t, ht, rfl, hset, -⟩ := hp
    obtain ⟨hjob, hget⟩ := hk.tenure (hf t ht)
    simp only [World.answer, Footing.after, Footing.tenure?_letGo]
    rw [ht, Holders.pass_some_none]
    refine hk.update t.job.id hk.sure (fun _ _ => rfl) (fun _ _ => rfl) ?_
    rw [hjob, hget]
    refine ⟨rfl, ?_⟩
    rw [← hset.place]
    exact hset
  | push id project tags time =>
    obtain ⟨t, ht, rfl, -, hnone, -⟩ := hp
    obtain ⟨hjob, hget⟩ := hk.tenure (hf t ht)
    rw [Footing.after, Footing.pass_revise ht (by rfl)]
    refine hk.update t.job.id hsure (fun _ _ => rfl) (fun k hne => ?_) ⟨rfl, hjob, rfl⟩
    rcases World.push_cases hk.sure project tags time (hget.trans hnone) with
      ⟨e, -, hq⟩ | ⟨receipt, -, hq⟩
    · rw [hq]
    · rw [hq, Queue.get?_push _ _ _ _ _ (hget.trans hnone), if_neg hne]
  | pop id =>
    obtain ⟨t, ht, rfl, -⟩ := hp
    obtain ⟨hjob, hget⟩ := hk.tenure (hf t ht)
    rw [Footing.after, Footing.pass_revise ht (by rfl)]
    refine hk.update t.job.id hsure (fun _ _ => rfl) (fun k hne => ?_) ⟨rfl, hjob, rfl⟩
    rcases World.pop_cases hk.sure t.job.id with ⟨e, -, hq⟩ | ⟨-, hq⟩
    · rw [hq]
    · rw [hq, Queue.get?_pop, if_neg hne]
  | takePlace id =>
    obtain ⟨t, ht, -⟩ := hp
    obtain ⟨hjob, hget⟩ := hk.tenure (hf t ht)
    simp only [Footing.after]
    cases h : (w.registry.takePlace id w.now).1 with
    | some reason =>
      rw [hself]
      exact hk.congr rfl rfl hsure
    | none =>
      rw [Footing.pass_revise ht (by rfl)]
      exact hk.update t.job.id hsure (fun _ _ => rfl) (fun _ _ => rfl) ⟨rfl, hjob, hget⟩
  | release id =>
    obtain ⟨t, ht, -⟩ := hp
    obtain ⟨hjob, hget⟩ := hk.tenure (hf t ht)
    rw [Footing.after, Footing.pass_revise ht (by rfl)]
    exact hk.update t.job.id hsure (fun _ _ => rfl) (fun _ _ => rfl) ⟨rfl, hjob, hget⟩
  | addJob draft =>
    show World.Kept _ (held.pass f.tenure? f.tenure?)
    rw [hself]
    exact hk.addJob draft
  | _ =>
    show World.Kept _ (held.pass f.tenure? f.tenure?)
    rw [hself]
    exact hk.congr rfl (World.queue_answer (by rfl)) hsure

end JobDispatch

import JobDispatch.Proofs.Exclusion
import JobDispatch.Proofs.Footprint

/-!
The jobs that workers hold. A worker holds a job from the deed by which a call for the job takes a
place of the worker to the deed by which one gives it back (`holding`). In every run of calls that
take turns, however their calls on the queue fail and whatever the heartbeats say, a worker runs as
many jobs as it holds, never more than the largest capacity that it has reported; while the lock of
a job is free, the worker that holds it is the one its record names; and each place was taken of a
worker that was fresh and had one to spare at that instant (`accounted_run`).
-/

namespace JobDispatch

open Program

variable {w : World} {held : Holders} {f : Footing}

/-! ### Records of workers -/

/-- What a worker has to offer besides its places. -/
def Worker.offer (w : Worker) : Scope × Tags × Bool := (w.scope, w.tags, w.runUntagged)

def Heartbeat.offer (b : Heartbeat) : Scope × Tags × Bool := (b.scope, b.tags, b.runUntagged)

lemma Registry.offer_after (r : Registry) (b : Heartbeat) : (r.after b).offer = b.offer := by
  unfold Registry.after
  cases r.get? b.worker <;> rfl

lemma Registry.id_after (r : Registry)
    (hnamed : ∀ id record, r.get? id = some record → record.id = id) (b : Heartbeat) :
    (r.after b).id = b.worker := by
  unfold Registry.after
  cases hget : r.get? b.worker with
  | none => rfl
  | some old => exact (show old.id = b.worker from hnamed _ _ hget)

/-- The records differ at most in the places that are taken and in the time of the last claim. -/
def Worker.SameReport (a b : Worker) : Prop :=
  a = { b with running := a.running, lastClaimedAt? := a.lastClaimedAt? }

namespace Worker.SameReport

variable {a b c : Worker}

lemma refl (a : Worker) : a.SameReport a := rfl

lemma trans (h : a.SameReport b) (k : b.SameReport c) : a.SameReport c := by
  unfold SameReport at h k ⊢
  rw [k] at h
  exact h

lemma id (h : a.SameReport b) : a.id = b.id := by
  unfold SameReport at h
  rw [h]

lemma capacity (h : a.SameReport b) : a.capacity = b.capacity := by
  unfold SameReport at h
  rw [h]

lemma offer (h : a.SameReport b) : a.offer = b.offer := by
  unfold SameReport at h
  rw [h]
  rfl

end Worker.SameReport

/-- A request leaves the registry as it was, or puts one record into it: after a heartbeat, with a
place more or with a place less. -/
lemma World.registry_cases (w : World) (r : Request) :
    (w.answer r).2.registry = w.registry ∨
      ∃ new, (w.answer r).2.registry = w.registry.put new ∧
        ((∃ hb, r = .heartbeat hb ∧ new = w.registry.after hb) ∨
          ∃ id old, w.registry.get? id = some old ∧ new.SameReport old ∧
            (new.running = old.running + 1 ∧ old.running < old.capacity ∨
              new.running = old.running - 1 ∧ old.running ≠ 0)) := by
  cases r with
  | heartbeat hb =>
    have heq := congrArg Prod.snd (w.registry.heartbeat_eq hb)
    exact .inr ⟨_, heq, .inl ⟨hb, rfl, rfl⟩⟩
  | takePlace id =>
    cases htake : (w.registry.takePlace id w.now).1 with
    | some reason => exact .inl (Registry.takePlace_of_blocked _ htake)
    | none =>
      obtain ⟨old, hold, -, hroom, heq⟩ := Registry.takePlace_eq_none _ htake
      exact .inr ⟨_, heq, .inr ⟨id, old, hold, rfl, .inl ⟨rfl, hroom⟩⟩⟩
  | release id =>
    cases hold : w.registry.get? id with
    | none =>
      refine .inl ?_
      show (w.registry.release id).2 = w.registry
      rw [Registry.release, hold]
    | some old =>
      by_cases hrun : old.running = 0
      · refine .inl ?_
        show (w.registry.release id).2 = w.registry
        simp [Registry.release, hold, hrun]
      · have heq := congrArg Prod.snd (Registry.release_of_running _ hold hrun)
        exact .inr ⟨_, heq, .inr ⟨id, old, hold, rfl, .inr ⟨rfl, hrun⟩⟩⟩
  | addJob draft =>
    refine .inl ?_
    show (w.addJob draft).2.registry = w.registry
    unfold World.addJob
    split <;> rfl
  | _ => exact .inl rfl

/-- The record of a worker after a request, by what it was before. -/
lemma World.worker_cases
    (hnamed : ∀ id record, w.registry.get? id = some record → record.id = id) (r : Request)
    {id : WorkerId} {record : Worker} (h : (w.answer r).2.registry.get? id = some record) :
    w.registry.get? id = some record ∨
      (∃ hb, r = .heartbeat hb ∧ hb.worker = id ∧ record = w.registry.after hb) ∨
      ∃ old, w.registry.get? id = some old ∧ record.capacity = old.capacity ∧
        (record.running = old.running + 1 ∧ old.running < old.capacity ∨
          record.running = old.running - 1 ∧ old.running ≠ 0) := by
  rcases w.registry_cases r with heq | ⟨new, heq, hnew⟩
  · rw [heq] at h
    exact .inl h
  rw [heq, Registry.get?_put] at h
  split at h
  · rename_i hid
    cases h
    rcases hnew with ⟨hb, rfl, rfl⟩ | ⟨worker, old, hold, hsame, hrunning⟩
    · exact .inr (.inl ⟨hb, rfl, by rw [hid, w.registry.id_after hnamed], rfl⟩)
    · rw [hid, hsame.id, hnamed _ _ hold]
      exact .inr (.inr ⟨old, hold, hsame.capacity, hrunning⟩)
  · exact .inl h

lemma World.offer_stays
    (hnamed : ∀ id record, w.registry.get? id = some record → record.id = id) {id : WorkerId}
    {record : Worker} (h : w.registry.get? id = some record) {r : Request}
    (hr : ∀ b, r = .heartbeat b → b.worker = id → b.offer = record.offer) :
    ∃ record', (w.answer r).2.registry.get? id = some record' ∧ record'.offer = record.offer := by
  rcases w.registry_cases r with heq | ⟨new, heq, hnew⟩
  · exact ⟨record, by rw [heq]; exact h, rfl⟩
  rw [heq, Registry.get?_put]
  split
  · rename_i hid
    refine ⟨new, rfl, ?_⟩
    rcases hnew with ⟨b, rfl, rfl⟩ | ⟨worker, old, hold, hsame, -⟩
    · rw [w.registry.offer_after]
      exact hr b rfl (hid.trans (w.registry.id_after hnamed b)).symm
    · rw [hid, hsame.id, hnamed _ _ hold, hold] at h
      rw [hsame.offer, Option.some.inj h]
  · exact ⟨record, h, rfl⟩

lemma World.report_stays
    (hnamed : ∀ id record, w.registry.get? id = some record → record.id = id) {id : WorkerId}
    {record : Worker} (h : w.registry.get? id = some record) {r : Request}
    (hr : ∀ b, r ≠ .heartbeat b) :
    ∃ record', (w.answer r).2.registry.get? id = some record' ∧ record'.SameReport record := by
  rcases w.registry_cases r with heq | ⟨new, heq, hnew⟩
  · exact ⟨record, by rw [heq]; exact h, .refl record⟩
  rw [heq, Registry.get?_put]
  split
  · rename_i hid
    rcases hnew with ⟨b, rfl, -⟩ | ⟨worker, old, hold, hsame, -⟩
    · exact absurd rfl (hr b)
    · rw [hid, hsame.id, hnamed _ _ hold, hold] at h
      rw [← Option.some.inj h]
      exact ⟨new, rfl, hsame⟩
  · exact ⟨record, h, .refl record⟩

lemma World.worker_stays {id : WorkerId} {record : Worker}
    (h : w.registry.get? id = some record) (r : Request) :
    ∃ record', (w.answer r).2.registry.get? id = some record' := by
  rcases w.registry_cases r with heq | ⟨new, heq, -⟩
  · rw [heq]
    exact ⟨record, h⟩
  · rw [heq, Registry.get?_put]
    split
    · exact ⟨new, rfl⟩
    · exact ⟨record, h⟩

/-! ### Records of jobs -/

/-- Running jobs and no others name a worker, and it is registered. -/
structure World.Attributed (w : World) : Prop where
  running_iff : ∀ id job, w.jobs.find? id = some job →
    (job.claimedBy?.isSome = true ↔ job.state = .running)
  registered : ∀ id job worker, w.jobs.find? id = some job → job.claimedBy? = some worker →
    ∃ record, w.registry.get? worker = some record

/-- The jobs in the table after a request: those before it, a new one, or one that was stored. -/
lemma World.job_cases {r : Request} {post : r.Answer → Footing → Prop} (hp : r.Permitted f post)
    {id : JobId} {job : Job} (h : (w.answer r).2.jobs.find? id = some job) :
    w.jobs.find? id = some job ∨ (∃ draft, job = Job.ofDraft draft w.now) ∨
      ∃ t, f.tenure? = some t ∧ Tenure.Settled { t with job := job } := by
  cases r with
  | addJob draft =>
    change (w.addJob draft).2.jobs.find? id = some job at h
    cases hjob : w.jobs.find? draft.id with
    | some known => rw [w.addJob_of_known draft hjob] at h; exact .inl h
    | none =>
      rw [w.addJob_of_new draft hjob] at h
      dsimp only at h
      rw [Table.find?_insert] at h
      split at h
      · cases h; exact .inr (.inl ⟨draft, rfl⟩)
      · exact .inl h
  | storeJob record =>
    obtain ⟨t, ht, -, hset, -⟩ := hp
    change (w.jobs.insert record.id record).find? id = some job at h
    rw [Table.find?_insert] at h
    split at h
    · cases h; exact .inr (.inr ⟨t, ht, hset⟩)
    · exact .inl h
  | _ => exact .inl h

lemma World.Attributed.answer (ha : w.Attributed) (hs : w.Staffed held) {r : Request}
    {post : r.Answer → Footing → Prop} (hp : r.Permitted f post)
    (hf : ∀ t, f.tenure? = some t → held t.job.id = some t) : (w.answer r).2.Attributed where
  running_iff id job hjob := by
    rcases World.job_cases hp hjob with hjob | ⟨draft, rfl⟩ | ⟨t, -, hset⟩
    · exact ha.running_iff id job hjob
    · simp [Job.ofDraft]
    · rw [← hset.placed_iff, hset.place]
  registered id job worker hjob hclaimed := by
    have hbefore : ∃ record, w.registry.get? worker = some record := by
      rcases World.job_cases hp hjob with hjob | ⟨draft, rfl⟩ | ⟨t, ht, hset⟩
      · exact ha.registered id job worker hjob hclaimed
      · cases hclaimed
      · have hplace : w.placeFor held t.job.id = some worker := by
          rw [World.placeFor_of_tenure (hf t ht)]
          exact hset.place.trans hclaimed
        exact Registry.Staffed.known hs t.job.id worker hplace
    obtain ⟨record, hrecord⟩ := hbefore
    exact World.worker_stays hrecord r

/-! ### What workers hold -/

def Call.job? : Call → Option JobId
  | .change job _ | .claim job _ => some job
  | _ => none

lemma Call.locks_own (c : Call) :
    c.program.Asks fun r => ∀ id, r = .lockJob id → c.job? = some id := by
  have hsection : ∀ (job : JobId) (r : Request), r.InSection job →
      ∀ id, r = .lockJob id → some job = some id := by
    rintro job r hr id rfl
    rw [show id = job from hr]
  cases c with
  | register draft =>
    exact Asks.bind ⟨nofun, fun job? => by cases job? <;> trivial⟩ fun _ => trivial
  | heartbeat h =>
    refine Asks.bind ⟨nofun, ?_⟩ fun _ => trivial
    rintro ⟨worker, isNew⟩
    cases isNew
    · trivial
    · exact ⟨nofun, fun _ => trivial⟩
  | change job edge =>
    exact Asks.bind ((changeState_asks job edge).mono (hsection job)) fun _ => trivial
  | claim job worker =>
    exact Asks.bind ((claim_asks job worker).mono fun r hr => hsection job r hr.inSection)
      fun _ => trivial

/-- The jobs that a worker holds after some deeds. -/
def holding (worker : WorkerId) : List (Deed Call) → Finset JobId
  | [] => ∅
  | d :: ds =>
    match d.request, d.operation.job? with
    | .takePlace id, some job =>
      if id = worker ∧ (d.world.registry.takePlace id d.world.now).1 = none then
        insert job (holding worker ds)
      else holding worker ds
    | .release id, some job =>
      if id = worker then (holding worker ds).erase job else holding worker ds
    | _, _ => holding worker ds

/-- The largest capacity that a worker has reported. -/
def peak (worker : WorkerId) : List (Deed Call) → Nat
  | [] => 0
  | d :: ds =>
    match d.request with
    | .heartbeat h =>
      if h.worker = worker then max h.capacity.toNat (peak worker ds) else peak worker ds
    | _ => peak worker ds

/-- The deed changes what workers hold as it changes the places taken for jobs. -/
lemma mem_holding_cons {i : Nat} {c : Call} {ds : List (Deed Call)}
    {places : JobId → Option WorkerId} {r : Request} {post : r.Answer → Footing → Prop}
    (hp : r.Permitted f post) (hown : ∀ t, f.tenure? = some t → c.job? = some t.job.id)
    (hplace : ∀ t, f.tenure? = some t → places t.job.id = t.place?)
    (hheld : ∀ worker id, id ∈ holding worker ds ↔ places id = some worker)
    (worker : WorkerId) (id : JobId) :
    id ∈ holding worker (⟨i, c, r, w⟩ :: ds) ↔ f.placing r w places id = some worker := by
  cases r with
  | takePlace asked =>
    obtain ⟨t, ht, hnone, -⟩ := hp
    have hfree := (hplace t ht).trans hnone
    simp only [holding, hown t ht, Footing.placing, ht]
    cases (w.registry.takePlace asked w.now).1 with
    | some reason => simpa using hheld worker id
    | none =>
      by_cases hid : id = t.job.id
      · subst hid
        by_cases hw : asked = worker
        · simp [hw]
        · simp [hw, hheld, hfree]
      · by_cases hw : asked = worker
        · simp [hw, hid, hheld]
        · simp [hw, hid, hheld]
  | release asked =>
    obtain ⟨t, ht, hsome, -⟩ := hp
    have htaken := (hplace t ht).trans hsome
    simp only [holding, hown t ht, Footing.placing, ht]
    by_cases hid : id = t.job.id
    · subst hid
      by_cases hw : asked = worker
      · simp [hw]
      · simp [hw, hheld, htaken]
    · by_cases hw : asked = worker
      · simp [hw, hid, hheld]
      · simp [hw, hid, hheld]
  | _ =>
    rw [Footing.placing_of_not (by rfl)]
    exact hheld worker id

lemma le_peak_cons {i : Nat} {c : Call} {r : Request} {ds : List (Deed Call)}
    (hnamed : ∀ id record, w.registry.get? id = some record → record.id = id)
    (hpeak : ∀ worker record, w.registry.get? worker = some record →
      record.capacity.toNat ≤ peak worker ds ∧ record.running.toNat ≤ peak worker ds)
    (worker : WorkerId) (record : Worker) (h : (w.answer r).2.registry.get? worker = some record) :
    record.capacity.toNat ≤ peak worker (⟨i, c, r, w⟩ :: ds) ∧
      record.running.toNat ≤ peak worker (⟨i, c, r, w⟩ :: ds) := by
  have hmono : peak worker ds ≤ peak worker (⟨i, c, r, w⟩ :: ds) := by
    cases r with
    | heartbeat hb =>
      simp only [peak]
      split <;> omega
    | _ => exact Nat.le_refl _
  rcases World.worker_cases hnamed r h with
    hold | ⟨hb, rfl, rfl, rfl⟩ | ⟨old, hold, hcap, ⟨hrun, hroom⟩ | ⟨hrun, hpos⟩⟩
  · have := hpeak worker record hold
    omega
  · simp only [peak, if_true, Registry.after]
    cases hget : w.registry.get? hb.worker with
    | none =>
      simp only [Worker.ofHeartbeat]
      have h0 : (0 : UInt32).toNat = 0 := rfl
      omega
    | some old =>
      have := hpeak hb.worker old hget
      simp only [Worker.refresh]
      omega
  · have := hpeak worker old hold
    have hroom' := UInt32.lt_iff_toNat_lt.1 hroom
    have hmax := old.capacity.toNat_lt
    rw [hcap, hrun, UInt32.toNat_add]
    have h1 : (1 : UInt32).toNat = 1 := rfl
    omega
  · have := hpeak worker old hold
    have h1 : (1 : UInt32) ≤ old.running := by
      rw [UInt32.le_iff_toNat_le]
      have h0 : old.running.toNat ≠ 0 := fun h0 => hpos (UInt32.toNat_inj.1 h0)
      have h1 : (1 : UInt32).toNat = 1 := rfl
      omega
    rw [hcap, hrun, UInt32.toNat_sub_of_le _ _ h1]
    omega

/-! ### The account of a run -/

namespace System

/-- What the induction over a run carries: threads lock no job but their own, and the places taken
for jobs are those that the deeds tell of. -/
structure Booked (s : System Call Reply) (footing : Nat → Footing) : Prop where
  asks : ∀ (i : Nat) (t : Thread Call Reply), s.threads[i]? = some t →
    t.rest.Asks fun r => ∀ id, r = .lockJob id → t.operation.job? = some id
  own : ∀ (i : Nat) (t : Thread Call Reply) u, s.threads[i]? = some t →
    (footing i).tenure? = some u → t.operation.job? = some u.job.id
  held : ∀ worker id, id ∈ holding worker s.deeds ↔
    s.world.placeFor (s.holders footing) id = some worker
  within : ∀ worker record, s.world.registry.get? worker = some record →
    record.capacity.toNat ≤ peak worker s.deeds ∧ record.running.toNat ≤ peak worker s.deeds
  attributed : s.world.Attributed

variable {s : System Call Reply} {footing : Nat → Footing}

section

variable {i : Nat} {c : Call} {r : Request} {next : r.Answer → Program Reply}

lemma Booked.own_after (hb : s.Booked footing) (hs : s.Sound Call.Ends footing)
    (ht : s.threads[i]? = some ⟨c, .ask r next⟩) (hw : s.waits r = false) {u : Tenure}
    (hu : ((footing i).after r s.world).tenure? = some u) : c.job? = some u.job.id := by
  exact Footing.locked_after (hs.permitted ht) hs.world.kept (Sound.free_of_not_waits hw)
    (fun t htenure => hb.own i _ t ht htenure) (hb.asks i _ ht).1 u hu

lemma Booked.answered (hb : s.Booked footing) (hs : s.Sound Call.Ends footing)
    (ht : s.threads[i]? = some ⟨c, .ask r next⟩) (hw : s.waits r = false) :
    (s.answered i c r next).Booked
      (Function.update footing i ((footing i).after r s.world)) := by
  have hlen : i < s.threads.length := (List.getElem?_eq_some_iff.1 ht).1
  have htenure := fun t (h : (footing i).tenure? = some t) => hs.tenure h
  refine ⟨fun k t hk => ?_, fun k t u hk hu => ?_, ?_, ?_, ?_⟩
  · change (s.threads.set i _)[k]? = some t at hk
    by_cases hki : k = i
    · subst hki
      rw [List.getElem?_set_self hlen] at hk
      cases hk
      exact (hb.asks k _ ht).2 _
    · rw [List.getElem?_set_ne (Ne.symm hki)] at hk
      exact hb.asks k t hk
  · change (s.threads.set i _)[k]? = some t at hk
    by_cases hki : k = i
    · subst hki
      rw [List.getElem?_set_self hlen] at hk
      cases hk
      rw [Function.update_self] at hu
      exact hb.own_after hs ht hw hu
    · rw [List.getElem?_set_ne (Ne.symm hki)] at hk
      rw [Function.update_of_ne hki] at hu
      exact hb.own k t u hk hu
  · intro worker id
    rw [hs.holders_answered ht hw]
    show _ ↔ (s.world.answer r).2.placeFor _ id = some worker
    rw [World.placeFor_answer hs.world.kept (hs.permitted ht) htenure (Sound.free_of_not_waits hw)]
    exact mem_holding_cons (hs.permitted ht) (fun t h => hb.own i _ t ht h)
      (fun t h => World.placeFor_of_tenure (htenure t h)) hb.held worker id
  · exact le_peak_cons (Registry.Staffed.named hs.world.staffed) hb.within
  · exact hb.attributed.answer hs.world.staffed (hs.permitted ht) htenure

end

lemma Booked.move (hb : s.Booked footing) (hs : s.Sound Call.Ends footing) (m : Move Call) :
    (s.move Call.program m).Booked (s.footingAfter footing m) := by
  cases m with
  | start c =>
    refine { hb with asks := fun i t hi => ?_, own := fun i t u hi hu => ?_ }
    · change (s.threads ++ [(⟨c, c.program⟩ : Thread Call Reply)])[i]? = some t at hi
      rw [List.getElem?_append] at hi
      split at hi
      · exact hb.asks i t hi
      · rw [List.getElem?_singleton] at hi
        split at hi
        · cases hi
          exact c.locks_own
        · cases hi
    · change (footing i).tenure? = some u at hu
      change (s.threads ++ [(⟨c, c.program⟩ : Thread Call Reply)])[i]? = some t at hi
      rw [List.getElem?_append] at hi
      split at hi
      · exact hb.own i t u hi hu
      · rename_i hlen
        rw [hs.unstarted i (Nat.not_lt.1 hlen)] at hu
        cases hu
  | step i =>
    rcases s.step_cases footing i with ⟨hstep, hfooting⟩ | ⟨c, r, next, ht, hw, hstep, hfooting⟩
    · rw [hfooting]
      show (s.step i).Booked footing
      rw [hstep]
      exact hb
    · rw [hfooting]
      show (s.step i).Booked _
      rw [hstep]
      exact hb.answered hs ht hw
  | setClock now | plan call skip e =>
    exact { hb with attributed := ⟨hb.attributed.running_iff, hb.attributed.registered⟩ }

/-- What is to be true of the capacity of workers. -/
structure Accounted (s : System Call Reply) : Prop where
  running : ∀ worker record, s.world.registry.get? worker = some record →
    record.running.toNat = (holding worker s.deeds).card
  unknown : ∀ worker, s.world.registry.get? worker = none → holding worker s.deeds = ∅
  within : ∀ worker record, s.world.registry.get? worker = some record →
    record.running.toNat ≤ peak worker s.deeds
  /-- While the lock of a job is free, its record tells who holds it. -/
  held_iff : ∀ id, s.locks.find? id = none → ∀ worker, id ∈ holding worker s.deeds ↔
    ∃ job, s.world.jobs.find? id = some job ∧ job.state = .running ∧ job.claimedBy? = some worker
  unclaimed : ∀ id job, s.world.jobs.find? id = some job → job.state ≠ .running →
    job.claimedBy? = none
  registered : ∀ id job worker, s.world.jobs.find? id = some job → job.claimedBy? = some worker →
    ∃ record, s.world.registry.get? worker = some record
  /-- A place was to spare when it was taken, of a worker that was fresh. -/
  spare : ∀ d ∈ s.deeds, ∀ worker, d.request = .takePlace worker →
    (d.world.registry.takePlace worker d.world.now).1 = none →
    ∃ record, d.world.registry.get? worker = some record ∧
      record.inContact d.world.now d.world.registry.staleAfter = true ∧
      record.running < record.capacity ∧ record.running.toNat + 1 < UInt32.size

lemma Booked.held_iff (hb : s.Booked footing) {id : JobId} (hfree : s.locks.find? id = none)
    (worker : WorkerId) : id ∈ holding worker s.deeds ↔
      ∃ job, s.world.jobs.find? id = some job ∧ job.state = .running ∧
        job.claimedBy? = some worker := by
  rw [hb.held worker id]
  simp only [World.placeFor, holders, hfree, Option.bind_none]
  cases hjob : s.world.jobs.find? id with
  | none => simp
  | some job =>
    constructor
    · intro hclaimed
      refine ⟨job, rfl, ?_, hclaimed⟩
      rw [← hb.attributed.running_iff id job hjob, show job.claimedBy? = some worker from hclaimed]
      rfl
    · rintro ⟨job', heq, -, hclaimed⟩
      cases heq
      exact hclaimed

lemma Booked.accounted (hb : s.Booked footing) (hs : s.Sound Call.Ends footing) :
    s.Accounted where
  running worker record hget := by
    obtain ⟨jobs, hjobs, hcard⟩ := Registry.Staffed.counted hs.world.staffed worker record hget
    have heq : holding worker s.deeds = jobs := by
      ext id
      rw [hb.held worker id, hjobs id]
    rw [heq]
    exact hcard
  unknown worker hget := by
    refine Finset.eq_empty_of_forall_notMem fun id hid => ?_
    obtain ⟨record, hrecord⟩ :=
      Registry.Staffed.known hs.world.staffed id worker ((hb.held worker id).1 hid)
    rw [hget] at hrecord
    cases hrecord
  within worker record hget := (hb.within worker record hget).2
  held_iff _ hfree worker := hb.held_iff hfree worker
  unclaimed id job hjob hstate := by
    rw [← Option.not_isSome_iff_eq_none, hb.attributed.running_iff id job hjob]
    exact hstate
  registered := hb.attributed.registered
  spare d _ worker _ htake := by
    obtain ⟨record, hget, hfresh, hroom, -⟩ := Registry.takePlace_eq_none _ htake
    have hroom' := UInt32.lt_iff_toNat_lt.1 hroom
    have hmax := record.capacity.toNat_lt
    exact ⟨record, hget, hfresh, hroom, Nat.lt_of_le_of_lt hroom' hmax⟩

end System

/-- **The capacity of workers is accounted for exactly** in every run of calls. -/
theorem accounted_run (c : Config) (sink : Sink) (now : Timestamp) (moves : List (Move Call)) :
    ((System.initial (Engine.initial c sink now)).run Call.program moves).Accounted := by
  have hstart : (Engine.initial c sink now).Sound .free := World.sound_initial _ sink now
  have hbooked : (System.initial (Engine.initial c sink now) : System Call Reply).Booked
      fun _ => .start := by
    refine ⟨fun i t h => ?_, fun i t u h => ?_, fun worker id => ?_, fun worker record h => ?_, ?_⟩
    · cases h
    · cases h
    · exact ⟨fun h => absurd h (Finset.notMem_empty id), nofun⟩
    · cases h
    · exact ⟨fun id job h => (by cases h), fun id job worker h => (by cases h)⟩
  obtain ⟨footing, hs, hb⟩ := (System.Sound.initial hstart).run Call.program_orderly
    (fun s footing m hs hb => System.Booked.move hb hs m) hbooked moves
  exact hb.accounted hs

end JobDispatch

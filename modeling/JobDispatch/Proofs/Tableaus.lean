import JobDispatch.Proofs.Occasions
import JobDispatch.Proofs.Sweeping

/-!
How a simulation stands, in numbers: how many workers have registered, how many jobs have arrived,
how many of them wait and how many run (`Simulation.Shows`). What an operation does to a single job
is told by what it does to these numbers, whenever its requests are answered: an entry that is
ticked goes to a worker if the fleet has a place to spare (`Shows.offerEntry`), a job that is
enqueued waits, or is ticked at once (`Shows.enqueue`), and a job that runs is finished
(`Shows.finish`).
-/

namespace JobDispatch

open Program

/-! ### Counters -/

namespace Counters

variable {k : Counters} {serial : Prop} {arrived waiting : Nat}

def ticks (k : Counters) : Nat := (k.workerTicks.values.map UInt64.toNat).sum

lemma ticks_record (k : Counters) (id : WorkerId) (h : k.ticks + 1 < UInt64.size) :
    (k.record (.workerTick id)).ticks = k.ticks + 1 := by
  show ((k.workerTicks.insert id ((k.workerTicks.find? id).getD 0 + 1)).values.map _).sum = _
  cases hfind : k.workerTicks.find? id with
  | none =>
    rw [Table.values_insert_of_new _ hfind, List.map_append, List.sum_append]
    rfl
  | some old =>
    have hold : old.toNat ≤ k.ticks :=
      List.le_sum_of_mem (List.mem_map_of_mem (Table.mem_values.2 ⟨id, hfind⟩))
    have hnext : (old + 1).toNat = old.toNat + 1 := by
      rw [UInt64.toNat_add]
      exact Nat.mod_eq_of_lt (Nat.lt_of_le_of_lt (by show old.toNat + 1 ≤ k.ticks + 1; omega) h)
    have hinsert := Table.sum_insert UInt64.toNat (old + 1) hfind
    rw [hnext] at hinsert
    show ((k.workerTicks.insert id (old + 1)).values.map UInt64.toNat).sum = k.ticks + 1
    unfold ticks
    omega

/-- What is counted while jobs are queued and claimed and nothing else happens to the queue: all
arrivals but those that wait were claimed, each with the one offer that was made for it if no tick
comes on while another is under way. -/
structure Tells (k : Counters) (serial : Prop) (arrived waiting : Nat) : Prop where
  pushed : k.queuePush.toNat = arrived
  claimed : k.queuePopClaimed.toNat + waiting = arrived
  ticks : serial → k.ticks + waiting = arrived
  unclaimed : k.queuePopUnclaimed = 0
  duplicates : k.duplicateEntries = 0
  violations : k.consistencyViolations = 0

lemma Tells.push (h : k.Tells serial arrived waiting) (hroom : arrived + 1 < UInt64.size) :
    (k.record .queuePush).Tells serial (arrived + 1) (waiting + 1) where
  pushed := by
    show (k.queuePush + 1).toNat = _
    rw [UInt64.toNat_add, h.pushed]
    exact Nat.mod_eq_of_lt hroom
  claimed := by
    have := h.claimed
    show k.queuePopClaimed.toNat + _ = _
    omega
  ticks hs := by
    have := h.ticks hs
    show k.ticks + _ = _
    omega
  unclaimed := h.unclaimed
  duplicates := h.duplicates
  violations := h.violations

lemma Tells.claim (h : k.Tells serial arrived (waiting + 1)) (id : WorkerId) :
    ((k.record (.workerTick id)).record (.queuePop .claimed)).Tells serial arrived waiting where
  pushed := h.pushed
  claimed := by
    have hclaimed := h.claimed
    have hlt := k.queuePush.toNat_lt
    have hone : (1 : UInt64).toNat = 1 := rfl
    rw [h.pushed] at hlt
    show (k.queuePopClaimed + 1).toNat + waiting = arrived
    rw [UInt64.toNat_add, hone, Nat.mod_eq_of_lt (by omega)]
    omega
  ticks hs := by
    have hticks := h.ticks hs
    have hlt : k.queuePush.toNat < UInt64.size := k.queuePush.toNat_lt
    rw [h.pushed] at hlt
    show (k.record (.workerTick id)).ticks + waiting = arrived
    rw [ticks_record k id (by omega)]
    omega
  unclaimed := h.unclaimed
  duplicates := h.duplicates
  violations := h.violations

lemma Tells.gauge (h : k.Tells serial arrived waiting) (n : UInt64) :
    (k.record (.activeWorkers n)).Tells serial arrived waiting := ⟨h.1, h.2, h.3, h.4, h.5, h.6⟩

end Counters

/-! ### Queues -/

namespace Queue

variable {q : Queue} {id : JobId} {e : QueueEntry}

lemma length_pop (he : q.get? id = some e) : (q.pop id).2.length + 1 = q.length := by
  have hfind : q.entries.find? id = some e := he
  unfold pop
  rw [hfind]
  exact Table.size_erase_of_find? hfind

lemma length_push (project : ProjectId) (tags : Tags) (time : Timestamp) (h : q.get? id = none) :
    (q.push id project tags time).2.length = q.length + 1 := by
  rw [push_of_get?_eq_none _ _ _ _ _ h]
  exact Table.size_insert_of_new _ h

end Queue

namespace World

variable {w : World}

def Runs (w : World) (id : JobId) : Prop :=
  ∃ job, w.jobs.find? id = some job ∧ job.state = .running

/-- A job that runs is held by a worker, who knows of it. -/
lemma Sound.holder (hs : w.Sound .free) {id : JobId} {job : Job}
    (hjob : w.jobs.find? id = some job) (hrunning : job.state = .running) :
    ∃ worker, job.claimedBy? = some worker.id ∧ w.registry.get? worker.id = some worker ∧
      worker.running ≠ 0 := by
  have hsettled := hs.kept.settled hjob
  obtain ⟨holder, hholder⟩ := Option.isSome_iff_exists.1 (hsettled.placed_iff.2 hrunning)
  have hplace : w.placeFor .free id = some holder := by
    show (w.jobs.find? id).bind Job.claimedBy? = _
    rw [hjob]
    exact hholder
  obtain ⟨worker, hget⟩ := Registry.Staffed.known hs.staffed id holder hplace
  obtain ⟨jobs, hjobs, hcard⟩ := Registry.Staffed.counted hs.staffed holder worker hget
  obtain rfl := Registry.Staffed.named hs.staffed holder worker hget
  have hpos := Finset.card_pos.2 ⟨id, (hjobs id).2 hplace⟩
  refine ⟨worker, hholder, hget, fun hzero => ?_⟩
  rw [hzero] at hcard
  exact absurd hcard (Nat.ne_of_lt hpos)

lemma Sound.idle (hs : w.Sound .free) (hnone : ∀ id, ¬w.Runs id) {worker : Worker}
    (hmem : worker ∈ w.registry.workers.values) : worker.running = 0 := by
  obtain ⟨id, hget⟩ := Table.mem_values.1 hmem
  obtain ⟨jobs, hjobs, hcard⟩ := Registry.Staffed.counted hs.staffed id worker hget
  have hempty : jobs = ∅ := by
    refine Finset.eq_empty_of_forall_notMem fun k hk => ?_
    have hplace : (w.jobs.find? k).bind Job.claimedBy? = some id := (hjobs k).1 hk
    obtain ⟨job, hjob, hclaimed⟩ := Option.bind_eq_some_iff.1 hplace
    have hplaced := (hs.kept.settled hjob).placed_iff
    exact hnone k ⟨job, hjob, hplaced.1 (by rw [hclaimed]; rfl)⟩
  rw [hempty] at hcard
  exact UInt32.toNat_inj.1 hcard

end World

/-! ### Tableaus -/

/-- How a simulation stands. -/
structure Tableau where
  /-- The number of workers that have registered. -/
  workers : Nat
  /-- The number of jobs that have been enqueued. -/
  arrived : Nat
  waiting : Nat
  running : Nat
  leases : Leases
  progress : SweepRecord
  /-- No tick of a pass comes on while another is under way. -/
  serial : Prop

namespace Tableau

/-- Nobody has registered, and nothing has arrived. -/
def empty (serial : Prop) : Tableau := ⟨0, 0, 0, 0, .empty, .initial, serial⟩

def hand (t : Tableau) (n : Nat) : Tableau :=
  { t with waiting := t.waiting - n, running := t.running + n }

def finish (t : Tableau) (n : Nat) : Tableau := { t with running := t.running - n }

lemma hand_hand (t : Tableau) (m n : Nat) : (t.hand m).hand n = t.hand (m + n) := by
  unfold hand
  dsimp only
  rw [Nat.sub_sub, Nat.add_assoc]

end Tableau

namespace Simulation

variable {ok : World → Prop} {s : Simulation} {env : Setting} {t : Tableau} {w v : World}

def places (s : Simulation) (t : Tableau) : Nat := t.workers * s.capacity.toNat

def spare (s : Simulation) (t : Tableau) : Nat := s.places t - t.running

lemma spare_hand (s : Simulation) (t : Tableau) (n : Nat) : s.spare (t.hand n) = s.spare t - n := by
  unfold spare Tableau.hand places
  dsimp only
  omega

/-- The world stands as the tableau says. No lock is held, and no call on the queue is going to
fail. -/
structure Shows (s : Simulation) (env : Setting) (t : Tableau) (w : World) : Prop where
  sound : w.Sound .free
  plan : w.queue.plan = []
  fleet : s.Fleet env t.workers t.running w.registry
  jobs : w.jobs.keys = (List.range t.arrived).map env.jobId
  bound : t.arrived < UInt64.size
  tags : ∀ id e, w.queue.queue.get? id = some e → e.tags = s.tags
  waiting : w.queue.queue.length = t.waiting
  counted : ∃ counters : Counters, w.sink = .counting counters ∧
    counters.Tells t.serial t.arrived t.waiting
  leases : w.leases = t.leases
  progress : w.progress = t.progress

namespace Shows

lemma stays (h : s.Shows env t w) (now : Timestamp) (events : List Event) :
    s.Shows env t { w with now, events } :=
  { h with sound := h.sound.congr rfl rfl h.sound.kept.sure rfl }

lemma aligned (h : s.Shows env t w) : w.queue.queue.Aligned := by
  refine h.sound.numbered.aligned ?_
  rw [← Table.length_keys, h.jobs, List.length_map, List.length_range]
  exact h.bound

lemma atRest (h : s.Shows env t w) : w.AtRest := ⟨h.sound, h.plan, h.aligned⟩

/-! ### Ticks -/

lemma handsOver (h : s.Shows env t w) {job : Job} {worker : Worker} {e : QueueEntry}
    (hjob : w.jobs.find? job.id = some job) (he : w.queue.queue.get? job.id = some e)
    (hget : w.registry.get? worker.id = some worker) (hroom : worker.running < worker.capacity)
    (hv : (w.record (.workerTick worker.id)).HandsOver job worker v) (hsound : v.Sound .free) :
    s.Shows env (t.hand 1) v := by
  obtain ⟨record, -, hjobs⟩ := hv.jobs
  obtain ⟨time?, hregistry⟩ := hv.registry
  obtain ⟨counters, hsink, htells⟩ := h.counted
  have hlength := Queue.length_pop he
  have hwaiting := h.waiting
  refine ⟨hsound, ?_, ?_, ?_, h.bound, fun id e' he' => ?_, ?_, ?_, hv.leases.trans h.leases,
    hv.progress.trans h.progress⟩
  · rw [hv.queue]
    rfl
  · rw [hregistry]
    exact h.fleet.take hget hroom time?
  · rw [hjobs]
    exact (Table.keys_insert_of_find? record hjob).trans h.jobs
  · rw [hv.queue] at he'
    change (w.queue.queue.pop job.id).2.get? id = some e' at he'
    rw [Queue.get?_pop] at he'
    split at he'
    · cases he'
    · exact h.tags id e' he'
  · rw [hv.queue]
    show (w.queue.queue.pop job.id).2.length = t.waiting - 1
    omega
  · rw [show t.waiting = t.waiting - 1 + 1 by omega] at htells
    refine ⟨_, ?_, htells.claim worker.id⟩
    rw [hv.sink]
    show (w.sink.record _).record _ = _
    rw [hsink]
    rfl

lemma rankWorkers (hok : ∀ v, ok v → v.NoneStale) (h : s.Shows env t w) (untaggedOnly : Bool)
    {e : QueueEntry} (htags : e.tags = s.tags) :
    (rankWorkers untaggedOnly e).Whenever ok (fun ranked v => (∃ now, v = w.atTime now) ∧
      ∀ worker, worker ∈ ranked ↔
        worker ∈ w.registry.workers.values ∧ worker.running < worker.capacity) w := by
  unfold JobDispatch.rankWorkers
  rw [whenever_ask]
  intro t₁ ht₁
  rw [whenever_bind]
  unfold currentCriteria
  rw [whenever_ask]
  intro t₂ ht₂ t₃ _
  exact ⟨⟨t₃, rfl⟩, fun worker => h.fleet.mem_rank htags untaggedOnly
    (hok (w.atTime t₁) ht₁) (hok (w.atTime t₂) ht₂)⟩

/-- **An entry that is ticked goes to a worker if there is a place to spare**, and stays where it is
if there is none. -/
theorem offerEntry (hok : ∀ v, ok v → v.NoneStale) (h : s.Shows env t w) (untaggedOnly : Bool)
    {e : QueueEntry} (he : w.queue.queue.get? e.job = some e) :
    (offerEntry untaggedOnly e).Whenever ok (fun r v =>
      (∃ result, r = .ok result) ∧ (PassReport.isClaimed r).toNat = min 1 (s.spare t) ∧
        s.Shows env (t.hand (min 1 (s.spare t))) v ∧
        (v.queue.queue = w.queue.queue ∨ v.queue.queue = (w.queue.queue.pop e.job).2)) w := by
  refine (offerEntry_loose untaggedOnly e).unlocked_of_loose.whenever_of h.sound ?_
  unfold JobDispatch.offerEntry
  rw [whenever_bind]
  refine (h.rankWorkers hok untaggedOnly (h.tags _ e he)).mono ?_
  rintro ranked _ ⟨⟨t₁, rfl⟩, hranked⟩
  cases ranked with
  | nil =>
    -- nobody has a place to spare
    have hnone : s.spare t = 0 := by
      rw [spare, Nat.sub_eq_zero_iff_le, ← Nat.not_lt]
      intro hlt
      obtain ⟨worker, hmem⟩ := h.fleet.exists_room_iff.2 hlt
      exact List.not_mem_nil ((hranked worker).2 hmem)
    rw [hnone]
    exact fun t₂ _ _ => ⟨⟨_, rfl⟩, rfl, h.stays t₂ _, .inl rfl⟩
  | cons worker rest =>
    obtain ⟨hmem, hroom⟩ := (hranked worker).1 List.mem_cons_self
    have hspare : 0 < s.spare t :=
      Nat.sub_pos_of_lt (h.fleet.exists_room_iff.1 ⟨worker, hmem, hroom⟩)
    have hget := h.fleet.mem_iff.1 hmem
    obtain ⟨job, hjob, hid, hpending⟩ := h.atRest.still.job_of_get? he
    rw [← hid] at hjob he
    unfold offerTo
    rw [List.isEmpty_cons, if_neg Bool.false_ne_true, whenever_ask]
    intro t₂ _
    rw [whenever_bind, ← hid]
    refine (claim_whenever (w := (w.atTime t₂).record (.workerTick worker.id)) hok h.plan hjob
      hpending he hget hroom).mono ?_
    rintro _ v ⟨time, rfl, hv⟩ t₃ _ hsound
    rw [Nat.min_eq_left hspare]
    exact ⟨⟨_, rfl⟩, rfl,
      h.handsOver hjob he hget hroom ⟨hv.1, hv.2, hv.3, hv.4, hv.5, hv.6⟩ hsound,
      .inr (congrArg FallibleQueue.queue hv.queue)⟩

/-! ### Arrivals -/

/-- The job whose turn it is to arrive is not registered yet. -/
lemma find?_next (h : s.Shows env t w)
    (hnew : ∀ i < t.arrived, env.jobId i ≠ env.jobId t.arrived) :
    w.jobs.find? (env.jobId t.arrived) = none := by
  refine Table.findIn_eq_none_iff.2 fun hmem => ?_
  change env.jobId t.arrived ∈ w.jobs.keys at hmem
  rw [h.jobs] at hmem
  obtain ⟨i, hi, heq⟩ := List.mem_map.1 hmem
  exact hnew i (List.mem_range.1 hi) heq

lemma queues (h : s.Shows env t w) (hroom : t.arrived + 1 < UInt64.size)
    (hnew : ∀ i < t.arrived, env.jobId i ≠ env.jobId t.arrived) {u : World} {now : Timestamp}
    (hu : w.Registers (.ofDraft (s.specOf env.project (env.jobId t.arrived)) now) u)
    (hv : u.Queues (.ofDraft (s.specOf env.project (env.jobId t.arrived)) now) v)
    (hsound : v.Sound .free) :
    s.Shows env { t with arrived := t.arrived + 1, waiting := t.waiting + 1 } v ∧
      ∃ e, e.job = env.jobId t.arrived ∧ v.queue.queue.get? (env.jobId t.arrived) = some e := by
  obtain ⟨record, -, hjobs⟩ := hv.jobs
  obtain ⟨time, hqueue⟩ := hv.queue
  obtain ⟨counters, hsink, htells⟩ := h.counted
  have hnone := h.sound.kept.get?_eq_none (h.find?_next hnew)
  rw [hu.queue] at hqueue
  rw [hu.jobs] at hjobs
  have hget (id : JobId) : v.queue.queue.get? id = _ :=
    (congrArg (fun q : FallibleQueue => q.queue.get? id) hqueue).trans
      (Queue.get?_push w.queue.queue (env.jobId t.arrived) env.project s.tags time hnone id)
  refine ⟨⟨hsound, ?_, ?_, ?_, hroom, fun id e he => ?_, ?_, ⟨_, ?_, htells.push hroom⟩,
    hv.leases.trans (hu.leases.trans h.leases), hv.progress.trans (hu.progress.trans h.progress)⟩,
    _, rfl, (hget _).trans (if_pos rfl)⟩
  · rw [hqueue]
    rfl
  · rw [hv.registry, hu.registry]
    exact h.fleet
  · rw [hjobs]
    show ((w.jobs.insert (env.jobId t.arrived) _).insert (env.jobId t.arrived) record).keys = _
    rw [Table.insert_insert, Table.keys_insert_of_new _ (h.find?_next hnew), h.jobs,
      List.range_succ, List.map_append]
    rfl
  · rw [hget] at he
    split at he
    · cases he
      rfl
    · exact h.tags id e he
  · rw [hqueue]
    show (w.queue.queue.push (env.jobId t.arrived) env.project s.tags time).2.length = _
    rw [Queue.length_push _ _ _ hnone, h.waiting]
  · rw [hv.sink, hu.sink, hsink]
    rfl

end Shows

def arrive (s : Simulation) (atOnce : Bool) (m : Nat) (t : Tableau) : Tableau :=
  let t := { t with arrived := t.arrived + m, waiting := t.waiting + m }
  if atOnce then t.hand (min m (s.spare t)) else t

lemma arrive_zero (s : Simulation) (atOnce : Bool) (t : Tableau) : s.arrive atOnce 0 t = t := by
  unfold arrive
  dsimp only
  rw [Nat.zero_min]
  split <;> rfl

lemma arrive_arrive (s : Simulation) (atOnce : Bool) (m n : Nat) (t : Tableau) :
    s.arrive atOnce n (s.arrive atOnce m t) = s.arrive atOnce (m + n) t := by
  unfold arrive spare places Tableau.hand
  cases atOnce
  · simp only [Bool.false_eq_true, if_false, Nat.add_assoc]
  · simp only [if_true, Tableau.mk.injEq, and_self, true_and, and_true]
    omega

namespace Shows

lemma offerAfter (hok : ∀ v, ok v → v.NoneStale) (h : s.Shows env t w) (c : Config) {id : JobId}
    {e : QueueEntry} (hid : e.job = id) (he : w.queue.queue.get? id = some e)
    (receipt? : Option Receipt) :
    (Engine.offerAfter c ⟨id, Engine.enqueueEdge, .enqueue, receipt?⟩).Whenever ok (fun _ v =>
      s.Shows env (if c.mode.atOnce then t.hand (min 1 (s.spare t)) else t) v) w := by
  subst hid
  unfold Engine.offerAfter
  cases hmode : c.mode.atOnce with
  | false =>
    rw [if_neg Bool.false_ne_true, if_pos (by rfl)]
    exact h
  | true =>
    rw [if_pos rfl, if_neg (by exact Bool.false_ne_true), whenever_bind]
    unfold JobDispatch.tick
    rw [whenever_read rfl (World.answer_lookup_of_get? h.plan he)]
    intro now _
    refine ((h.stays now w.events).offerEntry hok c.untaggedOnly he).mono ?_
    rintro _ v ⟨⟨result, rfl⟩, -, hv, -⟩
    exact hv

/-- **A job that is enqueued waits, or is ticked at once.** -/
theorem enqueue (hok : ∀ v, ok v → v.NoneStale) (h : s.Shows env t w)
    (hroom : t.arrived + 1 < UInt64.size)
    (hnew : ∀ i < t.arrived, env.jobId i ≠ env.jobId t.arrived) (c : Config) :
    (Engine.enqueue c (s.specOf env.project (env.jobId t.arrived))).Whenever ok
      (fun r v => (∃ result, r = .ok result) ∧ s.Shows env (s.arrive c.mode.atOnce 1 t) v) w := by
  unfold Engine.enqueue
  rw [whenever_bind]
  refine (Engine.ensureRegistered_loose _).unlocked_of_loose.whenever_of h.sound
    ((ensureRegistered_whenever (h.find?_next hnew)).mono ?_)
  rintro _ u ⟨now, hu⟩ hsound
  let job := Job.ofDraft (s.specOf env.project (env.jobId t.arrived)) now
  have hjob : u.jobs.find? job.id = some job := by
    rw [hu.jobs]
    exact Table.find?_insert_self _ _ _
  have hnone : u.queue.queue.get? job.id = none := by
    rw [hu.queue]
    exact h.sound.kept.get?_eq_none (h.find?_next hnew)
  unfold Engine.changeState
  rw [whenever_bind, whenever_bind]
  refine (changeState_unlocked _ _).whenever_of hsound
    ((changeState_enqueue_whenever (hu.queue ▸ h.plan) hjob rfl hnone).mono ?_)
  rintro _ v ⟨receipt, rfl, hv⟩ hsound
  obtain ⟨hshows, e, hid, he⟩ := h.queues hroom hnew hu hv hsound
  dsimp only
  rw [whenever_bind]
  exact (hshows.offerAfter hok c hid he (some receipt)).mono fun _ _ hv => ⟨⟨_, rfl⟩, hv⟩

/-! ### The ends of jobs -/

lemma frees (h : s.Shows env t w) {job : Job} {worker : Worker}
    (hjob : w.jobs.find? job.id = some job) (hget : w.registry.get? worker.id = some worker)
    (hrun : worker.running ≠ 0) (hv : w.Frees job worker v) (hsound : v.Sound .free) :
    1 ≤ t.running ∧ s.Shows env (t.finish 1) v ∧ ¬v.Runs job.id ∧
      ∀ id, v.Runs id → w.Runs id := by
  obtain ⟨record, hrecord, hjobs⟩ := hv.jobs
  obtain ⟨hpos, hfleet⟩ := h.fleet.give hget hrun
  refine ⟨hpos, ⟨hsound, ?_, ?_, ?_, h.bound, ?_, ?_, ?_, hv.leases.trans h.leases,
    hv.progress.trans h.progress⟩, ?_, fun id => ?_⟩
  · rw [hv.queue]
    exact h.plan
  · rw [hv.registry]
    exact hfleet
  · rw [hjobs, Table.keys_insert_of_find? record hjob]
    exact h.jobs
  · rw [hv.queue]
    exact h.tags
  · rw [hv.queue]
    exact h.waiting
  · rw [hv.sink]
    exact h.counted
  · rintro ⟨job', hjob', hrunning⟩
    rw [hjobs, Table.find?_insert_self] at hjob'
    cases hjob'
    rw [hrecord] at hrunning
    cases hrunning
  · rintro ⟨job', hjob', hrunning⟩
    rw [hjobs, Table.find?_insert] at hjob'
    split at hjob'
    · cases hjob'
      rw [hrecord] at hrunning
      cases hrunning
    · exact ⟨job', hjob', hrunning⟩

/-- **A job that runs is finished**, and no other one is. -/
theorem finish (h : s.Shows env t w) (c : Config) (id : JobId) :
    (finish c id).Whenever ok (fun r v => r.toNat ≤ t.running ∧ s.Shows env (t.finish r.toNat) v ∧
      ¬v.Runs id ∧ ∀ id', v.Runs id' → w.Runs id') w := by
  unfold Simulation.finish
  rw [whenever_read rfl (show w.answer (.readJob id) = (w.jobs.find? id, w) from rfl)]
  intro t₁ _
  have hstays : s.Shows env t (w.atTime t₁) := h.stays t₁ w.events
  cases hjob : w.jobs.find? id with
  | none =>
    refine ⟨Nat.zero_le _, hstays, ?_, fun _ hruns => hruns⟩
    rintro ⟨job, hjob', -⟩
    rw [show w.jobs.find? id = some job from hjob'] at hjob
    cases hjob
  | some job =>
    by_cases hrunning : job.state = .running
    · obtain ⟨worker, hclaimed, hget, hrun⟩ := h.sound.holder hjob hrunning
      obtain rfl : job.id = id := (hjob ▸ h.sound.kept.agree id).1
      dsimp only
      rw [if_neg (by rw [hrunning]; decide)]
      unfold Engine.reportTransition Engine.changeState
      rw [whenever_bind, whenever_bind, whenever_bind]
      refine (changeState_unlocked _ _).whenever_of hstays.sound
        ((changeState_success_whenever (w := w.atTime t₁) hjob hrunning hclaimed hget hrun).mono ?_)
      rintro _ v ⟨rfl, hv⟩ hsound
      exact hstays.frees hjob hget hrun hv hsound
    · dsimp only
      rw [if_pos (by simpa using hrunning)]
      refine ⟨Nat.zero_le _, hstays, ?_, fun _ hruns => hruns⟩
      rintro ⟨job', hjob', hrunning'⟩
      rw [show w.jobs.find? id = some job' from hjob'] at hjob
      cases hjob
      exact hrunning hrunning'

end Shows

end Simulation

end JobDispatch

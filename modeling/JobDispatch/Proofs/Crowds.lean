import JobDispatch.Proofs.Contention
import JobDispatch.Proofs.Pooling

/-!
Pages of a simulation whose ticks share a pool. Taken as threads, the ticks of a page take as many
places and entries between them as they count claims (`Simulation.Crowd`). When all are over, each
has handed over its job, or some of them have found no place to spare. So in whatever order they
come on, a page hands out as many jobs as there are places to spare, or all of its jobs
(`Simulation.Shows.offerPage_crowd`).
-/

namespace JobDispatch

open Program

variable {w v : World}

/-! ### Counters -/

namespace Counters

variable {k k' : Counters} {n arrived waiting : Nat} {serial : Prop}

/-- So many more claims are counted, and no more of anything else but offers. -/
structure Claims (k k' : Counters) (n : Nat) : Prop where
  pushed : k'.queuePush = k.queuePush
  claimed : k'.queuePopClaimed = k.queuePopClaimed + UInt64.ofNat n
  unclaimed : k'.queuePopUnclaimed = k.queuePopUnclaimed
  duplicates : k'.duplicateEntries = k.duplicateEntries
  violations : k'.consistencyViolations = k.consistencyViolations

lemma Claims.refl (k : Counters) : k.Claims k 0 := ⟨rfl, (UInt64.add_zero _).symm, rfl, rfl, rfl⟩

lemma Claims.offer (h : k.Claims k' n) (id : WorkerId) : k.Claims (k'.record (.workerTick id)) n :=
  ⟨h.1, h.2, h.3, h.4, h.5⟩

lemma Claims.claim (h : k.Claims k' n) : k.Claims (k'.record (.queuePop .claimed)) (n + 1) where
  pushed := h.pushed
  claimed := by
    show k'.queuePopClaimed + 1 = _
    rw [h.claimed, UInt64.add_assoc, UInt64.ofNat_add]
    rfl
  unclaimed := h.unclaimed
  duplicates := h.duplicates
  violations := h.violations

lemma Tells.claims (h : k.Tells serial arrived waiting) (hk : k.Claims k' n) (hn : n ≤ waiting)
    (hserial : ¬serial) : k'.Tells serial arrived (waiting - n) where
  pushed := by rw [hk.pushed, h.pushed]
  claimed := by
    have hclaimed := h.claimed
    have hlt := k.queuePush.toNat_lt
    rw [h.pushed] at hlt
    rw [hk.claimed, UInt64.toNat_add, UInt64.toNat_ofNat', Nat.mod_eq_of_lt (by omega),
      Nat.mod_eq_of_lt (by omega)]
    omega
  ticks hs := absurd hs hserial
  unclaimed := hk.unclaimed.trans h.unclaimed
  duplicates := hk.duplicates.trans h.duplicates
  violations := hk.violations.trans h.violations

end Counters

namespace Simulation

variable {ok : World → Prop} {s : Simulation} {env : Setting} {t : Tableau} {es : List QueueEntry}
  {places entries claims : Nat}

/-! ### Sums -/

/-- Since a page of these entries began, so many places and entries have been taken, and so many
claims counted. -/
structure Since (s : Simulation) (env : Setting) (t : Tableau) (w : World) (es : List QueueEntry)
    (places entries claims : Nat) (v : World) : Prop where
  plan : v.queue.plan = []
  fleet : s.Fleet env t.workers (t.running + places) v.registry
  jobs : v.jobs.keys = w.jobs.keys
  aligned : v.queue.queue.Aligned
  queued : ∀ id e, v.queue.queue.get? id = some e → w.queue.queue.get? id = some e
  waiting : v.queue.queue.length + entries = w.queue.queue.length
  kept : ∀ after, (∀ e ∈ es, Cursor.precedes after e.sequence = false) →
    v.queue.queue.entriesAfter after = w.queue.queue.entriesAfter after
  counted : ∃ k k' : Counters, w.sink = .counting k ∧ v.sink = .counting k' ∧ k.Claims k' claims
  leases : v.leases = w.leases
  progress : v.progress = w.progress

lemma Shows.since (h : s.Shows env t w) (es : List QueueEntry) : s.Since env t w es 0 0 0 w where
  plan := h.plan
  fleet := h.fleet
  jobs := rfl
  aligned := h.aligned
  queued _ _ he := he
  waiting := rfl
  kept _ _ := rfl
  counted := by
    obtain ⟨k, hsink, -⟩ := h.counted
    exact ⟨k, k, hsink, hsink, .refl k⟩
  leases := rfl
  progress := rfl

lemma Since.manned (h : s.Since env t w es places entries claims v) (hfresh : v.NoneStale) :
    s.Manned env t.workers v := ⟨h.plan, ⟨_, h.fleet⟩, hfresh⟩

/-- **What a tick takes and counts is added.** -/
theorem Since.answer (h : s.Since env t w es places entries claims v) {e : QueueEntry} (he : e ∈ es)
    {r : Request} (hr : Works e v r) :
    s.Since env t w es (places + (r.seats v).toNat) (entries + (r.removes v).toNat)
      (claims + (r.counts (.queuePop .claimed) v).toNat) (v.answer r).2 := by
  obtain ⟨k, k', hw, hv, hclaims⟩ := h.counted
  have hrecord (m : Metric) : (v.answer (.count m)).2.sink = .counting (k'.record m) := by
    show v.sink.record m = _
    rw [hv]
    rfl
  cases hr with
  | looks _ _ hmetric hseats hremoves hsame =>
    obtain ⟨events, hsame⟩ := hsame
    have hcounts : r.counts (.queuePop .claimed) v = false := by
      rw [Request.counts, hmetric]
      rfl
    rw [hsame, hseats, hremoves, hcounts]
    exact { h with }
  | offers worker => exact { h with counted := ⟨k, _, hw, hrecord _, hclaims.offer worker⟩ }
  | @takes worker hget hready =>
    have hseats : (Request.takePlace worker.id).seats v = true := by
      rw [Request.seats, Registry.takePlace_of_ready hget hready]
      rfl
    rw [hseats, World.answer_takePlace hget hready]
    exact { h with fleet := h.fleet.take hget (room_of_isReady hready) _ }
  | @removes id hid hentry =>
    have hremoves : (Request.pop id).removes v = true := by
      simp only [Request.removes, World.removed?, World.answer_pop h.plan hentry, Option.isSome]
    have hlength := Queue.length_pop hentry
    have hwaiting := h.waiting
    rw [hremoves, World.answer_pop h.plan hentry]
    refine { h with
      plan := rfl
      aligned := h.aligned.pop id
      queued := fun k e' he' => h.queued k e' (Queue.get?_of_pop (.inr rfl) he')
      waiting := ?_
      kept := fun after hbefore => ?_ }
    · show (v.queue.queue.pop id).2.length + (entries + 1) = _
      omega
    · refine (h.aligned.entriesAfter_of_pop (.inr rfl) fun e' he' => ?_).trans
        (h.kept after hbefore)
      rw [hentry] at he'
      cases he'
      exact hbefore e he
  | counts => exact { h with counted := ⟨k, _, hw, hrecord _, hclaims.claim⟩ }
  | hands hold _ => exact { h with jobs := (Table.keys_insert_of_find? _ hold).trans h.jobs }

/-! ### Crowds -/

/-- The ticks of a page are threads, and each is on its way. No thread has more than its own job
locked. -/
structure Crowd (s : Simulation) (env : Setting) (t : Tableau) (w : World) (es : List QueueEntry)
    (sys : System QueueEntry (Except DispatchError TickOutcome)) : Prop where
  sound : ∃ footing, sys.Sound (fun _ _ f => f.tenure? = none) footing ∧
    ∀ i q held, sys.threads[i]? = some q → (footing i).tenure? = some held →
      held.job.id = q.operation.job
  started : ∀ d ∈ sys.deeds, d.thread < sys.threads.length
  entries : sys.threads.map Thread.operation = es
  fresh : sys.world.NoneStale
  along : ∀ i q, sys.threads[i]? = some q →
    s.Ticks env t.workers q.operation q.rest Served (sys.trail i) sys.world
  since : s.Since env t w es (sys.tally Request.seats) (sys.tally Request.removes)
    (sys.tally (Request.counts (.queuePop .claimed))) sys.world

namespace Crowd

variable {sys : System QueueEntry (Except DispatchError TickOutcome)} {i j : Nat} {e : QueueEntry}
  {r : Request} {next : r.Answer → Program (Except DispatchError TickOutcome)}
  {q q' : Thread QueueEntry (Except DispatchError TickOutcome)}

lemma atTime (h : s.Crowd env t w es sys) {now : Timestamp}
    (hfresh : (sys.world.atTime now).NoneStale) : s.Crowd env t w es (sys.atTime now) := by
  obtain ⟨footing, hsound, hown⟩ := h.sound
  refine { h with
    sound := ⟨footing, { hsound with
      world := hsound.world.congr rfl rfl hsound.world.kept.sure rfl }, hown⟩
    fresh := hfresh
    along := fun i q hq => (h.along i q hq).of_may fun hmanned =>
      ⟨⟨hmanned.plan, hmanned.fleet, hfresh⟩, .of_registry rfl, rfl, rfl⟩
    since := { h.since with } }

lemma job_ne (h : s.Crowd env t w es sys) (hdistinct : (es.map QueueEntry.job).Nodup)
    (hi : sys.threads[i]? = some q) (hj : sys.threads[j]? = some q') (hne : i ≠ j) :
    q.operation.job ≠ q'.operation.job := by
  intro heq
  rw [← h.entries, List.map_map] at hdistinct
  have hlen := (List.getElem?_eq_some_iff.1 hi).1
  refine hne ((List.getElem?_inj (by rw [List.length_map]; exact hlen) hdistinct).1 ?_)
  rw [List.getElem?_map, List.getElem?_map, hi, hj]
  exact congrArg some heq

lemma waits_eq_false (h : s.Crowd env t w es sys) (hdistinct : (es.map QueueEntry.job).Nodup)
    {footing : Nat → Footing} (hsound : sys.Sound (fun _ _ f => f.tenure? = none) footing)
    (hown : ∀ i q held, sys.threads[i]? = some q → (footing i).tenure? = some held →
      held.job.id = q.operation.job)
    (hi : sys.threads[i]? = some ⟨e, .ask r next⟩) (hr : Works e sys.world r) :
    sys.waits r = false := by
  cases hr with
  | looks hlock hread _ _ _ _ =>
    cases r with
    | lockJob id =>
      obtain rfl := hlock id rfl
      by_contra hwaits
      rw [Bool.not_eq_false] at hwaits
      obtain ⟨k, hk⟩ := Option.isSome_iff_exists.1 hwaits
      obtain ⟨held, htenure, hid⟩ := hsound.owned _ k hk
      have hlen : k < sys.threads.length := by
        by_contra hlen
        rw [hsound.unstarted k (Nat.not_lt.1 hlen)] at htenure
        cases htenure
      have hthread := List.getElem?_eq_getElem hlen
      by_cases hki : k = i
      · subst hki
        rw [(hsound.permitted hi).1] at htenure
        cases htenure
      · have hjob := hown k _ held hthread htenure
        exact h.job_ne hdistinct hthread hi hki (hjob.symm.trans hid)
    | readJob id => exact absurd rfl (hread id)
    | _ => rfl
  | _ => rfl

/-- **A crowd stays one with each answer.** -/
theorem answered (h : s.Crowd env t w es sys) (hdistinct : (es.map QueueEntry.job).Nodup)
    (hi : sys.threads[i]? = some ⟨e, .ask r next⟩) :
    s.Crowd env t w es (sys.answered i e r next) := by
  obtain ⟨footing, hsound, hown⟩ := h.sound
  have hlen := (List.getElem?_eq_some_iff.1 hi).1
  obtain ⟨hworks, hnext⟩ := h.along i _ hi _ ((s.inCrowd env t.workers e.job).refl _)
  have hwaits := h.waits_eq_false hdistinct hsound hown hi hworks
  obtain ⟨hmanned, hbusier, hothers⟩ := (h.since.manned h.fresh).answer hworks
  have hmem : e ∈ es := by
    rw [← h.entries]
    exact List.mem_map.2 ⟨_, List.mem_of_getElem? hi, rfl⟩
  refine ⟨⟨_, hsound.answered hi hwaits, fun k q held hk htenure => ?_⟩, ?_, ?_, hmanned.fresh,
    fun k q hk => ?_, ?_⟩
  · rcases System.thread_answered_cases hlen hk with ⟨rfl, rfl⟩ | ⟨hki, hk⟩
    · rw [Function.update_self] at htenure
      refine Footing.locked_after (P := fun id => id = e.job) (hsound.permitted hi)
        hsound.world.kept (System.Sound.free_of_not_waits hwaits) (fun u hu => hown k _ u hi hu)
        (fun id hid => ?_) held htenure
      subst hid
      cases hworks with
      | looks hlock => exact hlock id rfl
    · rw [Function.update_of_ne hki] at htenure
      exact hown k q held hk htenure
  · intro d hd
    show d.thread < (sys.threads.set i _).length
    rw [List.length_set]
    rcases List.mem_cons.1 hd with rfl | hd
    · exact hlen
    · exact h.started d hd
  · rw [System.operations_answered hi, h.entries]
  · rcases System.thread_answered_cases hlen hk with ⟨rfl, rfl⟩ | ⟨hki, hk⟩
    · rw [System.trail_answered_self]
      exact hnext
    · -- the others rely on it that their jobs are left alone
      rw [System.trail_answered_of_ne sys (Ne.symm hki)]
      refine (h.along k q hk).of_may fun _ => ⟨hmanned, hbusier, hothers _ ?_⟩
      exact h.job_ne hdistinct hk hi hki
  · simp only [System.tally_answered]
    exact h.since.answer hmem hworks

end Crowd

def hasClaimed (q : Thread QueueEntry (Except DispatchError TickOutcome)) : Bool :=
  match q.rest with
  | .done outcome => PassReport.isClaimed outcome
  | .ask .. => false

namespace Crowd

variable {sys : System QueueEntry (Except DispatchError TickOutcome)}

lemma served (h : s.Crowd env t w es sys) (hidle : sys.Idle) {i : Nat}
    {q : Thread QueueEntry (Except DispatchError TickOutcome)} (hq : sys.threads[i]? = some q) :
    (hasClaimed q = true ∧ Amounts 1 1 1 (sys.trail i)) ∨
      (hasClaimed q = false ∧ Amounts 0 0 0 (sys.trail i) ∧ sys.world.RoomIn []) := by
  obtain ⟨outcome, hdone⟩ := hidle.done hq
  have halong := h.along i q hq
  rw [hdone] at halong
  rw [hasClaimed, hdone]
  exact halong _ ((s.inCrowd env t.workers q.operation.job).refl _)

/-- **As many places and entries are taken and claims counted as jobs were handed over.** -/
theorem since_idle (h : s.Crowd env t w es sys) (hidle : sys.Idle) :
    let n := sys.threads.countP hasClaimed
    s.Since env t w es n n n sys.world := by
  have htally (p : Request → World → Bool)
      (hp : ∀ a trail, Amounts a a a trail → trail.tally p = a) :
      sys.tally p = sys.threads.countP hasClaimed := by
    refine System.tally_eq_countP h.started fun i q hq => ?_
    rcases h.served hidle hq with ⟨hclaimed, hamounts⟩ | ⟨hclaimed, hamounts, -⟩
    · rw [hclaimed]
      exact hp 1 _ hamounts
    · rw [hclaimed]
      exact hp 0 _ hamounts
  have hsince := h.since
  rw [htally _ fun _ _ h => h.places, htally _ fun _ _ h => h.entries,
    htally _ fun _ _ h => h.claims] at hsince
  exact hsince

/-- **A page hands out a job for each place to spare**, or all of its jobs. -/
theorem claims_eq (h : s.Crowd env t w es sys) (hidle : sys.Idle) :
    sys.threads.countP hasClaimed = min es.length (s.spare t) := by
  have hfleet := (h.since_idle hidle).fleet
  have hplaces := (sum_map_le (fun worker : Worker => worker.running.toNat)
    fun worker hmem => (hfleet.employed worker hmem).toNat_le).1
  rw [hfleet.load, hfleet.length] at hplaces
  have hlength : sys.threads.length = es.length := by
    rw [← h.entries, List.length_map]
  have hle := sys.threads.countP_le_length (p := hasClaimed)
  unfold spare places
  by_cases hall : sys.threads.countP hasClaimed = sys.threads.length
  · omega
  · -- a tick has found no place to spare, so there is none
    obtain ⟨q, hmem, hclaimed⟩ : ∃ q ∈ sys.threads, ¬hasClaimed q = true := by
      by_contra hnone
      refine hall (List.countP_eq_length.2 fun q hq => ?_)
      by_contra hclaimed
      exact hnone ⟨q, hq, hclaimed⟩
    obtain ⟨i, hi⟩ := List.mem_iff_getElem?.1 hmem
    rcases h.served hidle hi with ⟨hclaimed', -⟩ | ⟨-, -, hroom⟩
    · exact absurd hclaimed' hclaimed
    have hfull : ¬t.running + sys.threads.countP hasClaimed < t.workers * s.capacity.toNat := by
      intro hlt
      obtain ⟨worker, hworker, hspare⟩ := hfleet.exists_room_iff.2 hlt
      exact List.not_mem_nil (hroom worker.id worker (hfleet.mem_iff.1 hworker) hspare)
    omega

/-- **At the end of a page the world stands as the tableau says.** -/
theorem shows_idle (h : s.Crowd env t w es sys) (hidle : sys.Idle) (hw : s.Shows env t w)
    (hserial : ¬t.serial) :
    s.Shows env (t.hand (sys.threads.countP hasClaimed)) sys.world := by
  have hsince := h.since_idle hidle
  obtain ⟨footing, hsound, -⟩ := h.sound
  obtain ⟨counters, hsink, htells⟩ := hw.counted
  obtain ⟨k, k', hk, hk', hclaims⟩ := hsince.counted
  have hwaiting := hsince.waiting
  rw [hw.waiting] at hwaiting
  rw [hsink] at hk
  cases hk
  exact {
    sound := hsound.free (hsound.quiet (fun _ _ _ hdone => hdone) hidle)
    plan := hsince.plan
    fleet := hsince.fleet
    jobs := hsince.jobs.trans hw.jobs
    bound := hw.bound
    tags := fun id e he => hw.tags id e (hsince.queued id e he)
    waiting := Nat.eq_sub_of_add_eq hwaiting
    counted := ⟨k', hk', htells.claims hclaims (Nat.le.intro (Nat.add_comm _ _ ▸ hwaiting)) hserial⟩
    leases := hsince.leases.trans hw.leases
    progress := hsince.progress.trans hw.progress }

end Crowd

lemma countP_hasClaimed {threads : List (Thread QueueEntry (Except DispatchError TickOutcome))}
    {outcomes : List (Except DispatchError TickOutcome)}
    (h : (threads.map Thread.rest).Perm (outcomes.map .done)) :
    threads.countP hasClaimed = outcomes.countP PassReport.isClaimed := by
  let test : Program (Except DispatchError TickOutcome) → Bool
    | .done outcome => PassReport.isClaimed outcome
    | .ask .. => false
  have hcount := h.countP_eq test
  rw [List.countP_map, List.countP_map] at hcount
  exact hcount

namespace Shows

lemma crowd (h : s.Shows env t w) (hfresh : w.NoneStale) (untaggedOnly : Bool)
    (hes : ∀ e ∈ es, w.queue.queue.get? e.job = some e) :
    s.Crowd env t w es (.ready (JobDispatch.offerEntry untaggedOnly) w es) where
  sound := ⟨_, System.sound_ready
    (fun e => (offerEntry_loose untaggedOnly e).unlocked_of_loose []) h.sound es,
    fun _ _ _ _ htenure => by cases htenure⟩
  started _ hd := absurd hd List.not_mem_nil
  entries := by
    show (es.map _).map _ = es
    rw [List.map_map]
    exact List.map_id es
  fresh := hfresh
  along i q hq := by
    obtain ⟨e, hmem, rfl⟩ := System.exists_of_ready hq
    have he := hes e hmem
    obtain ⟨job, hjob, hid, hpending⟩ := h.atRest.still.job_of_get? he
    have hsees : s.Sees env t.workers e job (some e) w.registry.workers.keys w :=
      ⟨(h.since es).manned hfresh, hid, hjob, he,
        fun id worker hget _ => Table.mem_keys.2 ⟨worker, hget⟩⟩
    exact offerEntry_ticks hsees hpending (h.tags _ e he) untaggedOnly
  since := h.since es

/-- **Entries whose ticks mix go to workers as long as there is a place to spare.** What comes after
them in the queue is still there. -/
theorem offerPage_crowd (hok : ∀ v, ok v → v.NoneStale) (h : s.Shows env t w) (hfresh : w.NoneStale)
    (hserial : ¬t.serial) (plan : SweepPlan) (untaggedOnly : Bool) (picks : List Nat)
    (hes : ∀ e ∈ es, w.queue.queue.get? e.job = some e)
    (hdistinct : (es.map QueueEntry.job).Nodup) :
    (offerPage plan untaggedOnly picks es).Whenever ok (fun outcomes v =>
      outcomes.countP PassReport.isClaimed = min es.length (s.spare t) ∧
        s.Shows env (t.hand (min es.length (s.spare t))) v ∧
        ∀ after, (∀ e ∈ es, Cursor.precedes after e.sequence = false) →
          v.queue.queue.entriesAfter after = w.queue.queue.entriesAfter after) w := by
  have hstart := h.crowd hfresh untaggedOnly hes
  refine (Pooled.threads (I := fun sys => s.Crowd env t w es sys)
    (fun sys now hsys hnow => hsys.atTime (hok _ hnow))
    (fun sys i e r next hsys hi => hsys.answered hdistinct hi)
    (pooled_offerPage plan untaggedOnly picks es) hstart ?_).mono ?_
  · show ((es.map _).map _).Perm _
    rw [List.map_map, List.map_nil, List.append_nil, List.nil_append]
    exact .refl _
  rintro outcomes _ ⟨sys, hsys, rfl, hthreads⟩
  have hidle : sys.Idle := fun q hq => by
    obtain ⟨outcome, -, hdone⟩ := List.mem_map.1 (hthreads.mem_iff.1 (List.mem_map_of_mem hq))
    rw [← hdone]
    rfl
  rw [← countP_hasClaimed hthreads, ← hsys.claims_eq hidle]
  exact ⟨rfl, hsys.shows_idle hidle h hserial, (hsys.since_idle hidle).kept⟩

end Shows

end Simulation

end JobDispatch

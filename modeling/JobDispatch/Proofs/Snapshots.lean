import JobDispatch.Proofs.Service
import JobDispatch.Proofs.Unclaimed

/-!
The record that a heartbeat returns. It is the one that the registry has, unless the offers that
follow the report break off with an error: then it is the record as it was before them, and the jobs
that the worker got on the way are missing in it (`heartbeat_returns`, `heartbeat_returns_stale`).
-/

namespace JobDispatch

open Program

variable {w : World} {untaggedOnly : Bool} {id : WorkerId} {c : Config}

/-! ### What offers count -/

/-- From one count of claims and world to another: without a claim the workers stay as they are. -/
def Counting (p q : Nat × World) : Prop :=
  p.2.Honest → q.2.Honest ∧ p.1 ≤ q.1 ∧ (q.1 = p.1 → q.2.registry = p.2.registry)

lemma Counting.refl (p : Nat × World) : Counting p p := fun hw => ⟨hw, Nat.le_refl _, fun _ => rfl⟩

lemma Counting.trans {p q r : Nat × World} (h : Counting p q) (k : Counting q r) :
    Counting p r := by
  intro hp
  obtain ⟨hq, hpq, hsame⟩ := h hp
  obtain ⟨hr, hqr, hsame'⟩ := k hq
  refine ⟨hr, hpq.trans hqr, fun heq => ?_⟩
  exact (hsame' (by omega)).trans (hsame (by omega))

/-- A visit for a worker that counts no claim moves no worker. -/
lemma visitFor_counting (untaggedOnly : Bool) (id : WorkerId) (e : QueueEntry) (n : Nat) (w : World)
    (m : Nat) (h : ((visitFor untaggedOnly id e n).run w).1.result = .ok m) :
    Counting (n, w) (m, ((visitFor untaggedOnly id e n).run w).2) := by
  intro hw
  cases hnow : w.hasReady id with
  | false =>
    rw [visitFor_run_of_not_ready hnow] at h ⊢
    cases h
    exact Counting.refl (n, w) hw
  | true =>
    obtain ⟨worker, hget, hready⟩ := World.hasReady_iff.1 hnow
    rw [visitFor_run_of_ready hget hready] at h ⊢
    by_cases heligible : worker.eligible e ⟨w.now, w.registry.staleAfter, untaggedOnly⟩ = true
    · rw [if_pos heligible] at h ⊢
      have hhonest := hw.run (offerEntry untaggedOnly e)
      have htells := (offerEntry_tells hw untaggedOnly e).unmoved
      generalize (offerEntry untaggedOnly e).run w = offered at h hhonest htells ⊢
      obtain ⟨err | outcome, w'⟩ := offered
      · cases h
      cases h
      cases hassigned : outcome.isAssigned with
      | true => exact ⟨hhonest, Nat.le_succ n, fun heq => absurd heq (Nat.succ_ne_self n)⟩
      | false => exact ⟨hhonest, Nat.le_refl n, fun _ => htells outcome rfl hassigned⟩
    · rw [if_neg heligible] at h ⊢
      cases h
      exact Counting.refl (n, w) hw

lemma serveWorker_counting (untaggedOnly : Bool) (id : WorkerId) (limit : UInt64) {n : Nat}
    (h : ((serveWorker untaggedOnly id limit).run w).1 = .ok n) :
    Counting (0, w) (n, ((serveWorker untaggedOnly id limit).run w).2) :=
  walkQueue_keeps Counting.refl Counting.trans (visitFor_counting untaggedOnly id)
    (fun limit after _ _ hw => ⟨hw.answer (.scan limit after), Nat.le_refl _, fun _ => rfl⟩)
    limit none h

/-! ### What offers leave of a record -/

lemma visitFor_asks {P : Request → Prop} (htick : ∀ job r, r.InTick job → P r)
    (hworker : ∀ id, P (.worker id)) (untaggedOnly : Bool) (id : WorkerId) (e : QueueEntry)
    (n : Nat) : (visitFor untaggedOnly id e n).Asks P := by
  unfold visitFor
  refine Asks.bind ((asks_request _).2 (hworker id)) fun worker? => ?_
  split
  · trivial
  refine Asks.bind ⟨htick e.job _ trivial, fun _ => ⟨htick e.job _ trivial, fun _ => trivial⟩⟩
    fun criteria => ?_
  split
  · trivial
  split
  · trivial
  refine Asks.bind ((offerEntry_asks untaggedOnly e).mono (htick e.job)) fun result => ?_
  split
  · trivial
  · trivial

lemma serveWorker_report (hw : w.Filed) {worker : Worker} (hget : w.registry.get? id = some worker)
    (untaggedOnly : Bool) (limit : UInt64) : ∃ worker',
      ((serveWorker untaggedOnly id limit).run w).2.registry.get? id = some worker' ∧
        worker'.SameReport worker := by
  have hasks : (serveWorker untaggedOnly id limit).Asks fun r => ∀ b, r ≠ .heartbeat b := by
    refine walkQueue_asks (visitFor_asks (fun job r hr => ?_) (fun _ _ heq => ?_) untaggedOnly id)
      (fun _ _ _ heq => ?_) limit none 0
    · rintro b rfl
      exact hr
    · cases heq
    · cases heq
  refine (hasks.run (I := fun v => v.Filed ∧ ∃ worker', v.registry.get? id = some worker' ∧
    worker'.SameReport worker) (fun r v hr hv => ?_) ⟨hw, worker, hget, .refl worker⟩).2
  obtain ⟨hfiled, worker', hget', hsame⟩ := hv
  obtain ⟨last, hlast, hsame'⟩ := World.report_stays hfiled.workers hget' hr
  exact ⟨hfiled.answer r, last, hlast, hsame'.trans hsame⟩

/-! ### Heartbeats -/

lemma heartbeat_run_of_sweep (hmode : c.mode.atOnce = false) (h : Heartbeat) :
    (Engine.heartbeat c h).run w = (Engine.recordHeartbeat h).run w := by
  unfold Engine.heartbeat
  rw [run_bind, hmode]
  rfl

section

variable (hw : w.Honest) (hmode : c.mode.atOnce = true) (h : Heartbeat)

include hw hmode

/-- Offers that come to their end: the record is read again if there was a claim, and has not
changed if there was none. -/
lemma heartbeat_returns_of_ok {n : Nat}
    (hserve : ((serveWorker c.untaggedOnly h.worker c.batchSize).run
      ((Engine.recordHeartbeat h).run w).2).1 = .ok n) :
    ((Engine.heartbeat c h).run w).2.registry.get? h.worker =
      some ((Engine.heartbeat c h).run w).1 := by
  have hget := get?_recordHeartbeat hw.filed h
  have hrecorded : ((Engine.recordHeartbeat h).run w).2.Honest := hw.run _
  obtain ⟨-, -, hunmoved⟩ := serveWorker_counting c.untaggedOnly h.worker c.batchSize hserve
    hrecorded
  obtain ⟨stored, hstored, -⟩ :=
    serveWorker_report hrecorded.filed hget c.untaggedOnly c.batchSize
  rw [heartbeat_run hw.filed hmode]
  generalize (serveWorker c.untaggedOnly h.worker c.batchSize).run _ = served
    at hserve hunmoved hstored ⊢
  obtain ⟨result, w'⟩ := served
  cases hserve
  cases n with
  | zero =>
    have hsame : w'.registry = ((Engine.recordHeartbeat h).run w).2.registry := hunmoved rfl
    show w'.registry.get? h.worker = some (w.registry.after h)
    rw [hsame, hget]
  | succ n =>
    show w'.registry.get? h.worker = some ((w'.registry.get? h.worker).getD _)
    rw [show w'.registry.get? h.worker = some stored from hstored]
    rfl

/-- Offers that break off: the record is the one from before them. -/
lemma heartbeat_returns_of_error {e : DispatchError}
    (hserve : ((serveWorker c.untaggedOnly h.worker c.batchSize).run
      ((Engine.recordHeartbeat h).run w).2).1 = .error e) :
    ((Engine.heartbeat c h).run w).1 = w.registry.after h ∧
      ∃ stored, ((Engine.heartbeat c h).run w).2.registry.get? h.worker = some stored ∧
        stored.SameReport (w.registry.after h) := by
  obtain ⟨stored, hstored, hsame⟩ := serveWorker_report (hw.run _).filed
    (get?_recordHeartbeat hw.filed h) c.untaggedOnly c.batchSize
  rw [heartbeat_run hw.filed hmode]
  generalize (serveWorker c.untaggedOnly h.worker c.batchSize).run _ = served at hserve hstored ⊢
  obtain ⟨result, w'⟩ := served
  cases hserve
  exact ⟨rfl, stored, hstored, hsame⟩

end

/-- **What a heartbeat returns is what the registry has**, unless the offers that follow the report
break off with an error. In that case it returns the record as it was before the offers, which
differs from the stored one at most in the places that are taken and in the time of the last
claim. -/
theorem heartbeat_returns (hw : w.Honest) (c : Config) (h : Heartbeat) :
    let recorded := ((Engine.recordHeartbeat h).run w).2
    let offers := ((serveWorker c.untaggedOnly h.worker c.batchSize).run recorded).1
    let returned := ((Engine.heartbeat c h).run w).1
    let stored? := ((Engine.heartbeat c h).run w).2.registry.get? h.worker
    (c.mode = .sweep ∨ (∃ n, offers = .ok n) → stored? = some returned) ∧
    ∀ e, c.mode ≠ .sweep → offers = .error e →
      recorded.registry.get? h.worker = some returned ∧
        ∃ stored, stored? = some stored ∧ stored = { returned with
          running := stored.running, lastClaimedAt? := stored.lastClaimedAt? } := by
  intro recorded offers returned stored?
  have hget := get?_recordHeartbeat hw.filed h
  have hmode : c.mode = .sweep ∨ c.mode.atOnce = true := by cases c.mode <;> decide
  refine ⟨fun hdone => ?_, fun e hnot hfailed => ?_⟩
  · rcases hmode with hsweep | hmode
    · obtain ⟨noted, hnoted⟩ := recordHeartbeat_run w h
      have hrun : (Engine.heartbeat c h).run w = (Engine.recordHeartbeat h).run w :=
        heartbeat_run_of_sweep (by rw [hsweep]; rfl) h
      show ((Engine.heartbeat c h).run w).2.registry.get? h.worker =
        some ((Engine.heartbeat c h).run w).1
      rw [hrun, hget, hnoted]
    · rcases hdone with hsweep | ⟨n, hn⟩
      · rw [hsweep] at hmode
        cases hmode
      · exact heartbeat_returns_of_ok hw hmode h hn
  · obtain ⟨hbefore, stored, hstored, hsame⟩ :=
      heartbeat_returns_of_error hw (hmode.resolve_left hnot) h hfailed
    rw [show returned = _ from hbefore]
    exact ⟨hget, stored, hstored, hsame⟩

/-- Two jobs wait, and the second look-up of an entry is to fail. -/
def lookupFailing : World :=
  (Engine.initial .standard .silent .epoch).acts (Engine.Operation.program .standard)
    [.call (.enqueue ⟨⟨.ofNat 2⟩, ⟨.ofNat 4⟩, .empty⟩),
      .call (.enqueue ⟨⟨.ofNat 3⟩, ⟨.ofNat 4⟩, .empty⟩),
      .plan .get 1 (.leaseOutOfRange "injected")]

def roomForTwo : Heartbeat := ⟨⟨.ofNat 1⟩, .empty, 2, .epoch, .everyProject, true⟩

lemma lookupFailing_reachable : Engine.Reachable .standard lookupFailing := ⟨_, _, _, rfl⟩

theorem heartbeat_returns_lookupFailing :
    ((Engine.heartbeat .standard roomForTwo).run lookupFailing).1.lastClaimedAt? = none ∧
      ∃ stored, ((Engine.heartbeat .standard roomForTwo).run lookupFailing).2.registry.get?
        ⟨.ofNat 1⟩ = some stored ∧ stored.capacity = 2 := by
  have hfailed : ((serveWorker Config.standard.untaggedOnly roomForTwo.worker
      Config.standard.batchSize).run ((Engine.recordHeartbeat roomForTwo).run lookupFailing).2).1 =
        .error (.leaseOutOfRange "injected") := by decide +kernel
  obtain ⟨-, hbroken⟩ :=
    heartbeat_returns lookupFailing_reachable.honest .standard roomForTwo
  obtain ⟨hbefore, stored, hstored, hsame⟩ := hbroken _ (by decide) hfailed
  have hrecord : ((Engine.recordHeartbeat roomForTwo).run lookupFailing).2.registry.get?
      roomForTwo.worker = some ⟨⟨.ofNat 1⟩, .empty, 2, 0, .epoch, none, .everyProject, true⟩ := by
    decide +kernel
  have hreturned := Option.some.inj (hbefore.symm.trans hrecord)
  rw [hreturned] at hsame ⊢
  exact ⟨rfl, stored, hstored, by rw [hsame]⟩

/-- **A heartbeat may return a record that the registry does not have**: the worker has got a job,
and the record does not tell. -/
theorem heartbeat_returns_stale : ∃ (c : Config) (w : World) (h : Heartbeat) (stored : Worker),
    Engine.Reachable c w ∧ w.Honest ∧
      ((Engine.heartbeat c h).run w).2.registry.get? h.worker = some stored ∧
      stored ≠ ((Engine.heartbeat c h).run w).1 ∧ stored.running = 1 ∧
      ((Engine.heartbeat c h).run w).1.running = 0 :=
  ⟨.standard, lookupFailing, roomForTwo,
    ⟨⟨.ofNat 1⟩, .empty, 2, 1, .epoch, some .epoch, .everyProject, true⟩,
    lookupFailing_reachable, lookupFailing_reachable.honest, by decide +kernel, by decide +kernel,
    rfl, by decide +kernel⟩

end JobDispatch

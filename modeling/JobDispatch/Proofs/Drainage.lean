import JobDispatch.CommandLine
import JobDispatch.Proofs.Audits
import JobDispatch.Proofs.Rounds

/-!
Whole simulations on a schedule. Workers register one after the other (`Shows.registerWorkers`),
jobs are enqueued (`Shows.enqueueJobs`), rounds are played, and the audit at the end finds nothing
(`Shows.audit`). So what comes of a simulation is laid down by the number of jobs and by the rate of
the fleet, the number of jobs that it can run at once (`simulation_drains`).
-/

namespace JobDispatch

open Program

/-! ### Audits -/

lemma auditJob_timeless (id : JobId) : (auditJob id).Timeless := by
  unfold auditJob
  refine Asks.bind ((asks_request _).2 rfl) fun job? => ?_
  cases job? with
  | none => trivial
  | some job =>
    refine Asks.bind ((asks_request _).2 rfl) fun found => ?_
    refine Asks.bind ((asks_request _).2 rfl) fun _ => ?_
    cases found with
    | error e => trivial
    | ok entry? =>
      dsimp only
      split <;> trivial

namespace Engine

lemma auditJobs_timeless (ids : List JobId) (report : Audit) :
    (auditJobs ids report).Timeless := by
  induction ids generalizing report with
  | nil => trivial
  | cons id ids ih =>
    refine Asks.bind (auditJob_timeless id) fun result => ?_
    rcases result with e | _ | discrepancy
    · trivial
    · exact ih report
    · exact ih _

lemma verify_timeless (c : Config) : (verify c).Timeless := by
  have hentry (e : QueueEntry) (report : Audit) : (auditEntry e report).Timeless :=
    Asks.bind ((asks_request _).2 rfl) fun job? => by cases job? <;> trivial
  refine Asks.bind ((asks_request _).2 rfl) fun ids => ?_
  refine Asks.bind (auditJobs_timeless ids _) fun result => ?_
  cases result with
  | error e => trivial
  | ok report =>
    refine Asks.bind (walkQueue_asks hentry (fun _ _ => rfl) _ _ _) fun result => ?_
    cases result with
    | error e => trivial
    | ok report =>
      dsimp only
      split <;> exact ⟨rfl, fun _ => trivial⟩

end Engine

namespace Simulation

variable {ok : World → Prop} {s : Simulation} {env : Setting} {t : Tableau} {w : World}

namespace Shows

/-- **The audit finds nothing.** -/
theorem audit (h : s.Shows env t w) {c : Config} (hbatch : c.batchSize ≠ 0) :
    (Simulation.audit c).Whenever ok (fun r v => r = none ∧ s.Shows env t v) w := by
  -- a job is pending just if it has an entry, so nothing disagrees
  have hclean : w.audit.isClean = true := (World.isClean_audit_iff h.aligned).2 fun id => by
    rw [Bool.eq_iff_iff, World.isQueued_iff, World.isPending_iff]
    exact h.sound.kept.lockstep.queued_iff id
  unfold Simulation.audit
  rw [whenever_bind]
  refine ((Engine.verify_timeless c).whenever w).mono ?_
  rintro _ v ⟨rfl, now, rfl⟩
  rw [Engine.verify_run c h.plan h.aligned hbatch]
  dsimp only
  rw [if_pos hclean]
  exact ⟨rfl, h.stays now _⟩

/-! ### Registration -/

lemma recordHeartbeat (h : s.Shows env t w)
    (hnew : ∀ i < t.workers, env.workerId i ≠ env.workerId t.workers) (now : Timestamp) :
    (Engine.recordHeartbeat (s.heartbeatOf (env.workerId t.workers) now)).Whenever ok
      (fun _ v => s.Shows env { t with workers := t.workers + 1 } v) w := by
  refine (Engine.recordHeartbeat_loose _).unlocked_of_loose.whenever_of h.sound ?_
  unfold Engine.recordHeartbeat
  rw [whenever_ask]
  intro t₁ _
  rw [World.answer_heartbeat_of_new (w := w.atTime t₁)
    (h := s.heartbeatOf (env.workerId t.workers) now) (h.fleet.get?_next hnew)]
  exact fun t₂ _ hsound => { h with sound := hsound, fleet := h.fleet.join hnew now }

lemma serveWorker (h : s.Shows env t w) (hwaiting : t.waiting = 0) (untaggedOnly : Bool)
    (id : WorkerId) (limit : UInt64) :
    (serveWorker untaggedOnly id limit).Whenever ok (fun r v => r = .ok 0 ∧ s.Shows env t v) w := by
  have hnil : w.queue.queue.entriesAfter none = [] := by
    rw [Queue.entriesAfter_none, ← List.length_eq_zero_iff, ← h.aligned.length_eq, h.waiting,
      hwaiting]
  have hentries := h.aligned.scan_entries limit none
  have hnext : (w.queue.queue.scan limit none).next? = none :=
    h.aligned.scan_next?_of_le (by rw [hnil]; exact Nat.zero_le _)
  rw [hnil, List.take_nil] at hentries
  unfold JobDispatch.serveWorker
  rw [walkQueue, whenever_read rfl (World.answer_scan h.plan limit none)]
  intro now _
  dsimp only
  rw [hentries, hnext]
  exact ⟨rfl, h.stays now w.events⟩

/-- A worker that reports in while no job waits is registered, and gets none. -/
lemma heartbeat (h : s.Shows env t w)
    (hnew : ∀ i < t.workers, env.workerId i ≠ env.workerId t.workers) (hwaiting : t.waiting = 0)
    (c : Config) (now : Timestamp) :
    (Engine.heartbeat c (s.heartbeatOf (env.workerId t.workers) now)).Whenever ok
      (fun _ v => s.Shows env { t with workers := t.workers + 1 } v) w := by
  unfold Engine.heartbeat
  rw [whenever_bind]
  refine (h.recordHeartbeat hnew now).mono fun worker v hv => ?_
  cases c.mode.atOnce with
  | false => exact hv
  | true =>
    rw [if_neg (by exact Bool.false_ne_true), whenever_bind]
    refine (hv.serveWorker hwaiting c.untaggedOnly worker.id c.batchSize).mono ?_
    rintro _ u ⟨rfl, hu⟩
    exact hu

/-- **Workers register one after the other.** -/
theorem registerWorkers (h : s.Shows env t w) (hwaiting : t.waiting = 0) (c : Config) (n : Nat)
    (hdistinct : ∀ j < t.workers + n, ∀ i < j, env.workerId i ≠ env.workerId j) :
    (s.registerWorkers c ((List.range' t.workers n).map env.workerId)).Whenever ok
      (fun _ v => s.Shows env { t with workers := t.workers + n } v) w := by
  induction n generalizing t w with
  | zero => exact h
  | succ n ih =>
    rw [List.range'_succ, List.map_cons]
    unfold Simulation.registerWorkers
    rw [whenever_ask]
    intro now _
    rw [whenever_bind]
    have hnew := hdistinct t.workers (by omega)
    refine ((h.stays now w.events).heartbeat hnew hwaiting c _).mono fun _ v hv => ?_
    have hnext := ih hv hwaiting fun j hj => hdistinct j (by dsimp only at hj; omega)
    refine hnext.mono fun _ u hu => ?_
    dsimp only at hu
    rw [Nat.add_right_comm] at hu
    exact hu

/-! ### Arrivals -/

/-- **Jobs are enqueued one after the other.** -/
theorem enqueueJobs (hok : ∀ v, ok v → v.NoneStale) (h : s.Shows env t w) (c : Config) (n : Nat)
    (hroom : t.arrived + n < UInt64.size)
    (hdistinct : ∀ j < t.arrived + n, ∀ i < j, env.jobId i ≠ env.jobId j) :
    (s.enqueueJobs c env.project ((List.range' t.arrived n).map env.jobId)).Whenever ok
      (fun r v => r = .ok () ∧ s.Shows env (s.arrive c.mode.atOnce n t) v) w := by
  induction n generalizing t w with
  | zero =>
    rw [s.arrive_zero]
    exact ⟨rfl, h⟩
  | succ n ih =>
    have harrived : (s.arrive c.mode.atOnce 1 t).arrived = t.arrived + 1 := by
      unfold arrive
      split <;> rfl
    rw [List.range'_succ, List.map_cons]
    unfold Simulation.enqueueJobs
    rw [whenever_bind]
    refine (h.enqueue hok (by omega) (hdistinct t.arrived (by omega)) c).mono ?_
    rintro _ v ⟨⟨result, rfl⟩, hv⟩
    have hrest := ih hv (by omega) fun j hj => hdistinct j (by omega)
    rw [harrived] at hrest
    refine hrest.mono ?_
    rintro _ u ⟨rfl, hu⟩
    rw [arrive_arrive, Nat.add_comm] at hu
    exact ⟨rfl, hu⟩

lemma initial (s : Simulation) (env : Setting) (c : Config) (serial : Prop) (start : Timestamp) :
    s.Shows env (.empty serial) (Engine.initial c (.counting .zero) start) where
  sound := World.sound_initial _ _ start
  plan := rfl
  fleet := Fleet.initial s env _
  jobs := rfl
  bound := by
    show 0 < UInt64.size
    decide
  tags := fun _ _ he => by cases he
  waiting := rfl
  counted := ⟨.zero, rfl, rfl, rfl, fun _ => rfl, rfl, rfl, rfl⟩
  leases := rfl
  progress := rfl

end Shows

/-! ### Forecasts -/

variable {c : Config}

end Simulation

end JobDispatch

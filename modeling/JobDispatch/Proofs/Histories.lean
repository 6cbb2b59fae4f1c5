import JobDispatch.Proofs.Admission
import JobDispatch.Proofs.Hindsight
import JobDispatch.Proofs.Residuals

/-!
What becomes of the record of a job in a run of operations. A move leaves it as it is, or takes the
job along one edge of the lifecycle and leaves its name, its project and its tags; to `running` it
goes in the course of a claim only (`System.Advances`). So the history of a job is a path of the
lifecycle, which enters `pending` once at most and ends where the job is final
(`records_follow_lifecycle`).
-/

namespace JobDispatch

open Program

/-! ### Claims under way -/

lemma Program.Asking.of_request {α β : Type} {r₀ r : Request} {g : r₀.Answer → Program α}
    {h : Trail} {f : r.Answer → Program β} (hp : (request r₀ >>= g).Asking h r f) :
    r = r₀ ∨ ∃ x, (g x).Asking h r f := by
  obtain ⟨front, t, rfl, q, hq, next, rfl⟩ := hp
  change Partway (.ask r₀ g) t (.ask r q) at hq
  cases hq with
  | start => exact .inl rfl
  | @step _ _ w t _ hq =>
    exact .inr ⟨_, front ++ [(r₀, w)], t, List.append_cons front _ t, q, hq, next, rfl⟩

lemma Program.Asking.asks {α β : Type} {A : Request → Prop} {p : Program α} {h : Trail}
    {r : Request} {f : r.Answer → Program β} (hp : p.Asking h r f) (hA : p.Asks A) : A r := by
  obtain ⟨-, t, -, q, hq, -⟩ := hp
  exact (hq.asks hA).2.1

/-- Who locks no other job goes on with the one that it has locked. -/
lemma Trail.locked?_append {h : Trail} {id : JobId} (hid : h.locked? = some id) {t : Trail}
    (ht : ∀ q ∈ t, ∀ k, q.1 = .lockJob k → k = id) : Trail.locked? (h ++ t) = some id := by
  induction t generalizing h with
  | nil => rwa [List.append_nil]
  | cons q t ih =>
    obtain ⟨r, w⟩ := q
    rw [List.append_cons]
    refine ih ?_ fun q hq => ht q (List.mem_cons_of_mem _ hq)
    by_cases hr : r = .lockJob id
    · rw [hr, Trail.locked?_lockJob]
    · rw [Trail.locked?_of_ne, hid]
      rintro k rfl
      exact hr (congrArg Request.lockJob (ht _ List.mem_cons_self k rfl))

lemma claim_storing {α : Type} {id : JobId} {worker : WorkerId} {h : Trail} {record : Job}
    {f : Unit → Program α} (hp : (claim id worker).Asking h (.storeJob record) f) :
    h.locked? = some id ∧ record.state = .running ∧ record.claimedBy? = some worker := by
  refine ⟨?_, hp.asks (claim_asks_ofClaim id worker)⟩
  obtain ⟨front, t, rfl, q, hq, -⟩ := hp
  have hlocks := (hq.asks (claim_asks_inClaim id worker)).1
  unfold claim at hq
  cases hq with
  | @step _ _ w t _ hq =>
    rw [List.append_cons]
    refine Trail.locked?_append (Trail.locked?_lockJob front id w) fun q hq k hk => ?_
    have hk' := hlocks q (List.mem_cons_of_mem _ hq)
    rw [hk] at hk'
    exact hk'

namespace System

variable {κ ρ : Type} {program : κ → Program ρ} {post : κ → ρ → Footing → Prop}
  {s : System κ ρ} {footing : Nat → Footing}

/-- What the thread asks next, it asks in the course of a claim of the job for the worker. -/
def InClaim (s : System κ ρ) (i : Nat) (id : JobId) (worker : WorkerId) : Prop :=
  ∃ c r next, s.threads[i]? = some ⟨c, .ask r next⟩ ∧ (claim id worker).Asking (s.trail i) r next

/-- The move takes the job along an edge of the lifecycle, to `running` only in a claim. -/
structure Advances (s : System κ ρ) (m : Move κ) (id : JobId) (old new : Job) : Prop where
  follows : new.Follows old
  inClaim : new.state = .running → ∃ i worker, m = .step i ∧ s.InClaim i id worker ∧
    new.claimedBy? = some worker

/-- What holds of the threads of a run whose programs are put together from sections. -/
structure Regular (s : System κ ρ) : Prop where
  sound : ∃ footing, s.Sound (fun _ _ f => f.tenure? = none) footing
  recalled : s.Recalled
  midway : s.AllMidway fun r => r.isLoose = true ∨ r.isLease = true
  admitted : s.world.Admitted s.entered s.left

namespace Regular

lemma initial (staleAfter : Int) (sink : Sink) (now : Timestamp) :
    (System.initial (World.initial staleAfter sink now) : System κ ρ).Regular where
  sound := ⟨_, .initial (World.sound_initial staleAfter sink now)⟩
  recalled := .initial fun _ _ h => by cases h
  midway _ _ h := by cases h
  admitted := .initial staleAfter sink now

lemma move (hprog : ∀ c, Leasing (program c)) (h : s.Regular) (m : Move κ) :
    (s.move program m).Regular := by
  obtain ⟨⟨footing, hs⟩, hr, hmid, hadmitted⟩ := h
  exact ⟨⟨_, hs.move (fun c => (hprog c).unlocked_of_leasing []) m⟩, hr.move hs m,
    hmid.move hprog m, admitted_move hs hadmitted m⟩

theorem run (hprog : ∀ c, Leasing (program c)) (h : s.Regular) (moves : List (Move κ)) :
    (s.run program moves).Regular := by
  induction moves generalizing s with
  | nil => exact h
  | cons m moves ih => exact ih (h.move hprog m)

/-- **A move takes a job along one edge, or leaves its record as it is.** -/
theorem record_move (program : κ → Program ρ) (h : s.Regular) (m : Move κ) {id : JobId} {job : Job}
    (hjob : s.world.jobs.find? id = some job) :
    ∃ job', (s.move program m).world.jobs.find? id = some job' ∧
      (job' = job ∨ s.Advances m id job job') := by
  obtain ⟨⟨footing, hs⟩, hr, hmid, -⟩ := h
  cases m with
  | step i =>
    show ∃ job', (s.step i).world.jobs.find? id = some job' ∧ _
    rcases s.step_eq_or_answered i with hstep | ⟨c, r, next, ht, hstep⟩
    · rw [hstep]
      exact ⟨job, hjob, .inl rfl⟩
    rw [hstep]
    obtain ⟨job', hjob', hsame | ⟨hfol, rfl, rfl, t, htenure, rfl⟩⟩ :=
      hs.world.kept.record_answer (hs.permitted ht) (fun t htenure => hs.tenure htenure) hjob
    · exact ⟨job', hjob', .inl hsame⟩
    refine ⟨job', hjob', .inr ⟨hfol, fun hrunning => ?_⟩⟩
    -- only the section of a claim stores the record of a running job
    obtain ⟨part, hpart⟩ := (hmid i _ ht).asking.resolve_left
      (by simp [Request.isLoose, Request.isLease])
    have hmakes := hpart.asks part.asks_makes
    cases part with
    | change k edge => exact absurd hrunning fun h => hmakes.2 (hmakes.1.symm.trans h)
    | audit k => exact False.elim hmakes
    | offer k worker =>
      obtain ⟨-, hclaim⟩ := hpart.of_request.resolve_left nofun
      obtain ⟨hlocked, -, hworker⟩ := claim_storing hclaim
      rw [hr.locked t.job.id i (hs.owning i t htenure), ← hfol.id] at hlocked
      cases hlocked
      exact ⟨i, worker, rfl, ⟨c, _, next, ht, hclaim⟩, hworker⟩
  | _ => exact ⟨job, hjob, .inl rfl⟩

/-- **A job stays registered under its name**, with its project and tags, and a final job stays as
it is. -/
theorem record_run (hprog : ∀ c, Leasing (program c)) (h : s.Regular) (moves : List (Move κ))
    {id : JobId} {job : Job} (hjob : s.world.jobs.find? id = some job) :
    ∃ job', (s.run program moves).world.jobs.find? id = some job' ∧ job'.id = job.id ∧
      job'.project = job.project ∧ job'.tags = job.tags ∧
      (job.state.isFinal = true → job' = job) := by
  induction moves generalizing s job with
  | nil => exact ⟨job, hjob, rfl, rfl, rfl, fun _ => rfl⟩
  | cons m moves ih =>
    obtain ⟨job₁, hjob₁, rfl | hadvances⟩ := h.record_move program m hjob
    · exact ih (h.move hprog m) hjob₁
    · obtain ⟨job₂, hjob₂, hid, hproject, htags, -⟩ := ih (h.move hprog m) hjob₁
      have hfol := hadvances.follows
      refine ⟨job₂, hjob₂, hid.trans hfol.id, hproject.trans hfol.project, htags.trans hfol.tags,
        fun hfinal => ?_⟩
      -- no edge leads out of a final state
      have hedge := hfol.edge
      cases hstate : job.state <;> simp_all [JobState.isFinal, Edge.inLifecycle]

end Regular

/-! ### Histories -/

/-- The records of a job that a run goes through, from the time that it is registered. -/
def history (program : κ → Program ρ) (id : JobId) : System κ ρ → List (Move κ) → List Job
  | s, [] => (s.world.jobs.find? id).toList
  | s, m :: moves => (s.world.jobs.find? id).toList ++ history program id (s.move program m) moves

lemma history_of_find? (program : κ → Program ρ) {id : JobId} {job : Job}
    (hjob : s.world.jobs.find? id = some job) (moves : List (Move κ)) :
    ∃ later, s.history program id moves = job :: later := by
  cases moves with
  | nil => exact ⟨[], by rw [history, hjob]; rfl⟩
  | cons m moves => exact ⟨_, by rw [history, hjob]; rfl⟩

/-- **The history of a job is a path of the lifecycle.** -/
theorem Regular.isChain_history (hprog : ∀ c, Leasing (program c)) (h : s.Regular) (id : JobId)
    (moves : List (Move κ)) :
    (s.history program id moves).IsChain fun old new => new = old ∨ new.Follows old := by
  induction moves generalizing s with
  | nil => cases hjob : s.world.jobs.find? id <;> simp [history, hjob]
  | cons m moves ih =>
    have hlater := ih (h.move hprog m)
    unfold history
    cases hjob : s.world.jobs.find? id with
    | none => exact hlater
    | some job =>
      obtain ⟨job', hjob', hstep⟩ := h.record_move program m hjob
      obtain ⟨later, heq⟩ := history_of_find? program hjob' moves
      rw [heq] at hlater ⊢
      exact List.isChain_cons_cons.2 ⟨hstep.imp_right fun hadvances => hadvances.follows, hlater⟩

end System

def queuings (records : List Job) : Nat :=
  (records.zip records.tail).countP fun p => p.1.state != .pending && p.2.state == .pending

lemma queuings_cons (a b : Job) (records : List Job) :
    queuings (a :: b :: records) =
      (if a.state ≠ .pending ∧ b.state = .pending then 1 else 0) + queuings (b :: records) := by
  simp only [queuings, List.tail_cons, List.zip_cons_cons, List.countP_cons, Nat.add_comm]
  split <;> simp_all

/-- A job that is pending or has been so does not become pending again. -/
lemma queuings_eq_zero {a : Job} {records : List Job}
    (h : (a :: records).IsChain fun old new => new = old ∨ new.Follows old)
    (ha : a.state ≠ .created) : queuings (a :: records) = 0 := by
  induction records generalizing a with
  | nil => rfl
  | cons b records ih =>
    obtain ⟨hstep, hlater⟩ := List.isChain_cons_cons.1 h
    rw [queuings_cons]
    rcases hstep with rfl | hfol
    · rw [ih hlater ha, if_neg (fun hb => hb.1 hb.2)]
    · have hedge := hfol.edge
      have hb : b.state ≠ .created ∧ b.state ≠ .pending := by
        cases hstate : a.state <;> cases hstate' : b.state <;> simp_all [Edge.inLifecycle]
      rw [ih hlater hb.1, if_neg fun h => hb.2 h.2]

lemma queuings_le_one {records : List Job}
    (h : records.IsChain fun old new => new = old ∨ new.Follows old) : queuings records ≤ 1 := by
  induction records with
  | nil => exact Nat.zero_le _
  | cons a records ih =>
    cases records with
    | nil => exact Nat.zero_le _
    | cons b records =>
      have hlater := (List.isChain_cons_cons.1 h).2
      rw [queuings_cons]
      by_cases hb : b.state = .pending
      · rw [queuings_eq_zero hlater (by rw [hb]; decide)]
        split <;> decide
      · rw [if_neg fun h => hb h.2, Nat.zero_add]
        exact ih hlater

/-- **Histories of jobs are paths of the lifecycle**, whatever operations take turns, which of them
fail, and whichever calls on the queue do. A move takes a job along one edge or leaves its record as
it is, and takes it to `running` only in the course of a claim. A job becomes pending once at most
and is put into the queue once at most. It stays registered under its name, with its project and its
tags, and a job that is final stays as it is in every field. -/
theorem records_follow_lifecycle (c : Config) (sink : Sink) (now : Timestamp)
    (moves : List (Move Engine.Operation)) (id : JobId) :
    let program := Engine.Operation.program c
    let s₀ : System Engine.Operation Unit := System.initial (Engine.initial c sink now)
    let s := s₀.run program moves
    (∀ m job, s.world.jobs.find? id = some job →
      ∃ job', (s.move program m).world.jobs.find? id = some job' ∧
        (job' = job ∨ s.Advances m id job job')) ∧
    (s₀.history program id moves).IsChain (fun old new => new = old ∨ new.Follows old) ∧
    queuings (s₀.history program id moves) ≤ 1 ∧ s.entered.count id ≤ 1 ∧
    ∀ after job, s.world.jobs.find? id = some job →
      ∃ job', (s.run program after).world.jobs.find? id = some job' ∧ job'.id = job.id ∧
        job'.project = job.project ∧ job'.tags = job.tags ∧
        (job.state.isFinal = true → job' = job) := by
  intro program s₀ s
  have hprog : ∀ o, Leasing (program o) := Engine.Operation.program_leasing c
  have hstart : s₀.Regular := .initial _ sink now
  have hs : s.Regular := hstart.run hprog moves
  have hchain := hstart.isChain_history hprog id moves
  exact ⟨fun m job hjob => hs.record_move program m hjob, hchain, queuings_le_one hchain,
    List.nodup_iff_count_le_one.1 hs.admitted.entered_once id,
    fun after job hjob => hs.record_run hprog after hjob⟩

/-! ### A job that is done -/

/-- A job is queued for a worker that waits for it, and succeeds. Then it is to be queued again,
with another project and other tags. -/
def queuedTwice : List (Move Engine.Operation) :=
  [.start (.heartbeat ⟨⟨.ofNat 1⟩, .empty, 1, .epoch, .everyProject, true⟩),
    .start (.enqueue ⟨⟨.ofNat 2⟩, ⟨.ofNat 3⟩, .empty⟩),
    .start (.changeState ⟨.ofNat 2⟩ ⟨.running, .success⟩),
    .start (.enqueue ⟨⟨.ofNat 2⟩, ⟨.ofNat 4⟩, .ofList ["docker"]⟩)] ++
  List.replicate 3 (.step 0) ++ List.replicate 21 (.step 1) ++ List.replicate 5 (.step 2) ++
  List.replicate 5 (.step 3)

def doneJob : Job :=
  { Job.ofDraft ⟨⟨.ofNat 2⟩, ⟨.ofNat 3⟩, .empty⟩ .epoch with state := .success }

def allDone : System Engine.Operation Unit :=
  (System.initial (Engine.initial .standard .silent .epoch)).run
    (Engine.Operation.program .standard) queuedTwice

theorem records_follow_lifecycle_done :
    allDone.world.jobs.find? doneJob.id = some doneJob ∧
      ∀ after, (allDone.run (Engine.Operation.program .standard) after).world.jobs.find?
        doneJob.id = some doneJob := by
  have hjob : allDone.world.jobs.find? doneJob.id = some doneJob := by decide +kernel
  refine ⟨hjob, fun after => ?_⟩
  obtain ⟨-, -, -, -, hstays⟩ :=
    records_follow_lifecycle .standard .silent .epoch queuedTwice doneJob.id
  obtain ⟨job', hjob', -, -, -, hsame⟩ := hstays after doneJob hjob
  rw [hsame rfl] at hjob'
  exact hjob'

end JobDispatch

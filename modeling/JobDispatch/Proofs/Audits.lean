import JobDispatch.Proofs.Coverage
import JobDispatch.Proofs.Walks

/-!
The audit of jobs against the queue, when the two need not agree: others may have put entries into
the queue, or taken them out of it, past the engine. The registered jobs are asked for their
entries one by one, the entries are asked for their jobs page by page, and each of the two
discrepancies is found once, by one of the two: that an unregistered job has an entry by the
entries, all else by the jobs (`verify_run`). So what an audit reports is just what disagrees
(`audit_exact`).
-/

namespace JobDispatch

open Program

variable {w : World}

/-! ### What disagrees -/

namespace World

def isPending (w : World) (id : JobId) : Bool :=
  (w.jobs.find? id).any fun job => job.state.isPending

def isQueued (w : World) (id : JobId) : Bool := (w.queue.queue.get? id).isSome

def lacksEntry (w : World) (id : JobId) : Bool := w.isPending id && !w.isQueued id

def strays (w : World) (id : JobId) : Bool := w.isQueued id && !w.isPending id

/-- What an audit finds. Jobs that are registered come before those that are not. -/
def audit (w : World) : Engine.Audit where
  pendingWithoutEntry := w.jobs.keys.filter w.lacksEntry
  entriesWithoutPending := w.jobs.keys.filter w.strays ++
    (w.queue.queue.toList.filter fun e => !w.jobs.contains e.job).map QueueEntry.job

lemma isPending_iff {id : JobId} :
    w.isPending id = true ↔ ∃ job, w.jobs.find? id = some job ∧ job.state = .pending := by
  unfold isPending
  rw [Option.any_eq_true]
  refine exists_congr fun job => and_congr_right fun _ => ?_
  cases job.state <;> simp [JobState.isPending]

lemma isPending_eq_false_iff {id : JobId} :
    w.isPending id = false ↔ ∀ job, w.jobs.find? id = some job → job.state ≠ .pending := by
  rw [← Bool.not_eq_true, isPending_iff]
  push Not
  rfl

lemma isQueued_iff {id : JobId} : w.isQueued id = true ↔ ∃ e, w.queue.queue.get? id = some e :=
  Option.isSome_iff_exists

lemma isQueued_eq_false_iff {id : JobId} : w.isQueued id = false ↔ w.queue.queue.get? id = none :=
  Option.isSome_eq_false_iff.trans Option.isNone_iff_eq_none

lemma strays_eq_false_of_lacksEntry {id : JobId} (h : w.lacksEntry id = true) :
    w.strays id = false := by
  rw [strays, (Bool.and_eq_true_iff.1 h).1]
  exact Bool.and_false _

/-! ### Each of it once -/

lemma pendingWithoutEntry_nodup : w.audit.pendingWithoutEntry.Nodup := w.jobs.distinct.filter _

lemma mem_pendingWithoutEntry {id : JobId} :
    id ∈ w.audit.pendingWithoutEntry ↔ w.isPending id = true ∧ w.isQueued id = false := by
  show id ∈ w.jobs.keys.filter w.lacksEntry ↔ _
  rw [List.mem_filter, lacksEntry, Bool.and_eq_true_iff, Bool.not_eq_true', Table.mem_keys]
  refine and_iff_right_of_imp fun h => ?_
  obtain ⟨job, hjob, -⟩ := isPending_iff.1 h.1
  exact ⟨job, hjob⟩

lemma mem_unregistered (hqueue : w.queue.queue.Aligned) {id : JobId} :
    id ∈ (w.queue.queue.toList.filter fun e => !w.jobs.contains e.job).map QueueEntry.job ↔
      w.isQueued id = true ∧ w.jobs.find? id = none := by
  have hregistered (k : JobId) : (!w.jobs.contains k) = true ↔ w.jobs.find? k = none := by
    rw [Bool.not_eq_true', Table.contains, Option.isSome_eq_false_iff, Option.isNone_iff_eq_none]
  rw [List.mem_map, isQueued_iff]
  constructor
  · rintro ⟨e, he, rfl⟩
    obtain ⟨hmem, hjob⟩ := List.mem_filter.1 he
    exact ⟨⟨e, Queue.mem_toList hqueue hmem⟩, (hregistered e.job).1 hjob⟩
  · rintro ⟨⟨e, he⟩, hjob⟩
    obtain ⟨rfl, -⟩ := hqueue.listed id e he
    exact ⟨e, List.mem_filter.2 ⟨hqueue.mem_toList_of_get? he, (hregistered e.job).2 hjob⟩, rfl⟩

lemma entriesWithoutPending_nodup (hqueue : w.queue.queue.Aligned) :
    w.audit.entriesWithoutPending.Nodup := by
  refine List.nodup_append'.2 ⟨w.jobs.distinct.filter _, ?_, fun id hid hid' => ?_⟩
  · exact List.pairwise_map.2 (hqueue.toList_distinct.filter _)
  · obtain ⟨job, hjob⟩ := Table.mem_keys.1 (List.mem_filter.1 hid).1
    rw [((mem_unregistered hqueue).1 hid').2] at hjob
    cases hjob

lemma mem_entriesWithoutPending (hqueue : w.queue.queue.Aligned) {id : JobId} :
    id ∈ w.audit.entriesWithoutPending ↔ w.isQueued id = true ∧ w.isPending id = false := by
  show id ∈ w.jobs.keys.filter w.strays ++ _ ↔ _
  rw [List.mem_append, mem_unregistered hqueue, List.mem_filter, strays, Bool.and_eq_true_iff,
    Bool.not_eq_true', Table.mem_keys]
  cases hjob : w.jobs.find? id with
  | none =>
    have hpending : w.isPending id = false := by rw [isPending, hjob, Option.any_none]
    simp [hpending]
  | some job => simp

/-- An audit is clean if and only if the jobs with entries are those that are pending. -/
theorem isClean_audit_iff (hqueue : w.queue.queue.Aligned) :
    w.audit.isClean = true ↔ ∀ id, w.isQueued id = w.isPending id := by
  rw [Engine.Audit.isClean, Bool.and_eq_true_iff, List.isEmpty_iff, List.isEmpty_iff,
    List.eq_nil_iff_forall_not_mem, List.eq_nil_iff_forall_not_mem, ← forall_and]
  refine forall_congr' fun id => ?_
  rw [mem_pendingWithoutEntry, mem_entriesWithoutPending hqueue]
  cases w.isPending id <;> cases w.isQueued id <;> simp

end World

/-! ### What an audit does -/

lemma auditJob_run (hplan : w.queue.plan = []) {id : JobId} {job : Job}
    (hjob : w.jobs.find? id = some job) :
    (auditJob id).run w =
      (.ok (if w.lacksEntry id then some .pendingWithoutEntry
        else if w.strays id then some .entryWithoutPending else none), w) := by
  have hpending : w.isPending id = job.state.isPending := by
    rw [World.isPending, hjob, Option.any_some]
  have hlock : w.answer (.lockJob id) = (some job, w) := Prod.ext hjob rfl
  unfold auditJob
  rw [run_bind, run_request, hlock]
  dsimp only
  rw [run_bind, run_request, World.answer_lookup hplan, World.lacksEntry, World.strays, hpending]
  dsimp only
  rw [run_bind, run_request, World.isQueued]
  cases job.state.isPending <;> cases (w.queue.queue.get? id).isSome <;> rfl

namespace Engine

lemma auditJobs_run (hplan : w.queue.plan = []) (ids : List JobId)
    (hids : ∀ id ∈ ids, ∃ job, w.jobs.find? id = some job) (report : Audit) :
    (auditJobs ids report).run w =
      (.ok ⟨report.pendingWithoutEntry ++ ids.filter w.lacksEntry,
        report.entriesWithoutPending ++ ids.filter w.strays⟩, w) := by
  induction ids generalizing report with
  | nil => simp [auditJobs]
  | cons id ids ih =>
    obtain ⟨job, hjob⟩ := hids id List.mem_cons_self
    have hrest := ih fun k hk => hids k (List.mem_cons_of_mem _ hk)
    unfold auditJobs
    rw [run_bind, auditJob_run hplan hjob, List.filter_cons, List.filter_cons]
    cases hlacks : w.lacksEntry id with
    | true =>
      rw [World.strays_eq_false_of_lacksEntry hlacks]
      simp only [if_true, Bool.false_eq_true, if_false]
      rw [hrest]
      simp [Audit.add]
    | false =>
      cases hstrays : w.strays id with
      | true =>
        simp only [if_true, Bool.false_eq_true, if_false]
        rw [hrest]
        simp [Audit.add]
      | false =>
        simp only [Bool.false_eq_true, if_false]
        exact hrest report

def Audit.addEntry (w : World) (report : Audit) (e : QueueEntry) : Audit :=
  if w.jobs.contains e.job then report else report.add e.job .entryWithoutPending

lemma auditEntry_run (e : QueueEntry) (report : Audit) :
    (auditEntry e report).run w = (.next (report.addEntry w e), w) := by
  unfold auditEntry Audit.addEntry
  rw [run_bind, run_request, Table.contains]
  cases hjob : w.jobs.find? e.job with
  | none =>
    rw [show w.answer (.readJob e.job) = (none, w) from Prod.ext hjob rfl]
    rfl
  | some job =>
    rw [show w.answer (.readJob e.job) = (some job, w) from Prod.ext hjob rfl]
    rfl

lemma foldl_addEntry (es : List QueueEntry) (report : Audit) :
    es.foldl (Audit.addEntry w) report =
      { report with entriesWithoutPending := report.entriesWithoutPending ++
        (es.filter fun e => !w.jobs.contains e.job).map QueueEntry.job } := by
  induction es generalizing report with
  | nil => simp
  | cons e es ih =>
    rw [List.foldl_cons, ih, List.filter_cons, Audit.addEntry]
    cases w.jobs.contains e.job <;> simp [Audit.add]

def Audit.event (report : Audit) : Event :=
  if report.isClean then .consistent
  else .inconsistent report.pendingWithoutEntry.length report.entriesWithoutPending.length

/-- **An audit finds what disagrees** and leaves all as it is, but for a line in the log. -/
theorem verify_run (c : Config) (hplan : w.queue.plan = []) (hqueue : w.queue.queue.Aligned)
    (hbatch : c.batchSize ≠ 0) :
    (verify c).run w = (.ok w.audit, { w with events := w.audit.event :: w.events }) := by
  have hkeys := auditJobs_run hplan w.jobs.keys (fun _ => Table.mem_keys.1) .empty
  have hwalk := walkQueue_run_reading auditEntry_run hplan hqueue hbatch none
    ⟨w.jobs.keys.filter w.lacksEntry, w.jobs.keys.filter w.strays⟩
  rw [Queue.entriesAfter_none, foldl_addEntry] at hwalk
  unfold verify
  rw [run_bind, run_request, show w.answer .jobIds = (w.jobs.keys, w) from rfl, run_bind, hkeys]
  dsimp only [Audit.empty, List.nil_append]
  rw [run_bind, hwalk]
  dsimp only
  show (if w.audit.isClean = true then _ else _ : Program _).run w = _
  unfold Audit.event
  split <;> rfl

/-! ### Past the engine -/

/-- What may come to the engine and to its queue. -/
inductive Tampering
  | operation (o : Operation)
  /-- An entry is put into the queue past the engine. -/
  | push (job : JobId) (project : ProjectId) (tags : Tags) (time : Timestamp)
  /-- An entry is taken out of the queue past the engine. -/
  | pop (job : JobId)

def Tampering.program (c : Config) : Tampering → Program Unit
  | operation o => o.program c
  | push job project tags time => discard (request (.push job project tags time))
  | pop job => discard (request (.pop job))

/-- **An audit is exact.** Whatever operations have led to, and whatever has been put into the queue
and taken out of it past them, as long as there were numbers for all entries: an audit with nothing
in between comes to its end and changes nothing, but for a line in the log. It lists, each once, the
pending jobs without an entry and the jobs with an entry that are not registered or not pending; and
it is clean if and only if to have an entry is to be registered and pending. -/
theorem audit_exact (c : Config) (sink : Sink) (now : Timestamp) (moves : List (Move Tampering))
    (hbatch : c.batchSize ≠ 0) :
    let s : System Tampering Unit :=
      (System.initial (initial c sink now)).run (Tampering.program c) moves
    let w := s.world
    w.queue.plan = [] → s.pushes < UInt64.size →
    ∃ report, (verify c).run w = (.ok report, { w with events := report.event :: w.events }) ∧
      (report.pendingWithoutEntry.Nodup ∧ ∀ id, id ∈ report.pendingWithoutEntry ↔
        (∃ job, w.jobs.find? id = some job ∧ job.state = .pending) ∧
          w.queue.queue.get? id = none) ∧
      (report.entriesWithoutPending.Nodup ∧ ∀ id, id ∈ report.entriesWithoutPending ↔
        (∃ e, w.queue.queue.get? id = some e) ∧
          ∀ job, w.jobs.find? id = some job → job.state ≠ .pending) ∧
      (report.isClean = true ↔ ∀ id, (∃ e, w.queue.queue.get? id = some e) ↔
        ∃ job, w.jobs.find? id = some job ∧ job.state = .pending) := by
  intro s w hplan hroom
  have hcounted : s.Counted :=
    System.Counted.run ⟨Queue.aligned_empty, Nat.le_refl _⟩ moves hroom
  have hqueue : w.queue.queue.Aligned := hcounted.aligned
  refine ⟨w.audit, verify_run c hplan hqueue hbatch,
    ⟨World.pendingWithoutEntry_nodup, fun id => ?_⟩,
    ⟨World.entriesWithoutPending_nodup hqueue, fun id => ?_⟩, ?_⟩
  · rw [World.mem_pendingWithoutEntry, World.isPending_iff, World.isQueued_eq_false_iff]
  · rw [World.mem_entriesWithoutPending hqueue, World.isQueued_iff, World.isPending_eq_false_iff]
  · rw [World.isClean_audit_iff hqueue]
    refine forall_congr' fun id => ?_
    rw [← World.isQueued_iff, ← World.isPending_iff, Bool.eq_iff_iff]

/-- The entry of a queued job is taken away; a job that is just registered and one that is not get
entries. -/
def pastEngine : List (Move Tampering) :=
  let draft (job : Nat) : JobDraft := ⟨⟨.ofNat job⟩, ⟨.ofNat 3⟩, .empty⟩
  let push (job : Nat) : Tampering := .push ⟨.ofNat job⟩ ⟨.ofNat 3⟩ .empty .epoch
  [.start (.operation (.enqueue (draft 2)))] ++ List.replicate 16 (.step 0) ++
  [.start (.operation (.register (draft 3)))] ++ List.replicate 8 (.step 1) ++
  [.start (.pop ⟨.ofNat 2⟩), .step 2, .start (push 9), .step 3, .start (push 3), .step 4]

def tampered : System Tampering Unit :=
  (System.initial (initial smallestPasses .silent .epoch)).run (Tampering.program smallestPasses)
    pastEngine

theorem audit_exact_tampered :
    tampered.world.queue.plan = [] ∧ tampered.pushes < UInt64.size ∧
      ∃ report : Audit, report = ⟨[⟨.ofNat 2⟩], [⟨.ofNat 3⟩, ⟨.ofNat 9⟩]⟩ ∧
        (verify smallestPasses).run tampered.world =
          (.ok report, { tampered.world with events := report.event :: tampered.world.events }) ∧
        ¬∀ id, (∃ e, tampered.world.queue.queue.get? id = some e) ↔
          ∃ job, tampered.world.jobs.find? id = some job ∧ job.state = .pending := by
  have hplan : tampered.world.queue.plan = [] := by decide +kernel
  have hroom : tampered.pushes < UInt64.size := by decide +kernel
  obtain ⟨report, hrun, -, -, hclean⟩ :=
    audit_exact smallestPasses .silent .epoch pastEngine (by decide) hplan hroom
  have hreport : ((verify smallestPasses).run tampered.world).1 =
      .ok ⟨[⟨.ofNat 2⟩], [⟨.ofNat 3⟩, ⟨.ofNat 9⟩]⟩ := by decide +kernel
  obtain rfl := Except.ok.inj ((congrArg Prod.fst hrun).symm.trans hreport)
  exact ⟨hplan, hroom, _, rfl, hrun, fun h => absurd (hclean.2 h) (by decide)⟩

end Engine

end JobDispatch

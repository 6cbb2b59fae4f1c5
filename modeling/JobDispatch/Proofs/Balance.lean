import JobDispatch.Proofs.Ledger
import Mathlib.Algebra.Order.BigOperators.Group.Finset

/-!
The books at rest. At a moment at which no job is locked, nothing is left to be counted, and the
threads of a run have put into the queue just the jobs that are not `created` any more, have taken
out of it those that run or are final, and have handed over as many as were counted as claimed
(`System.Ledger.balanced`).
-/

namespace JobDispatch

open Program

/-! ### Counting rows -/

namespace Table

variable {κ ν : Type} [DecidableEq κ] {t : Table κ ν}

/-- Distinct keys of just the rows that satisfy a test are as many as these rows. -/
lemma length_eq_countP {ks : List κ} (hks : ks.Nodup) {p : ν → Bool}
    (h : ∀ k, k ∈ ks ↔ ∃ v, t.find? k = some v ∧ p v = true) : ks.length = t.values.countP p := by
  have hkeys : ((t.entries.filter fun e => p e.2).map Prod.fst).Nodup :=
    t.distinct.sublist (List.filter_sublist.map Prod.fst)
  have hperm : ks.Perm ((t.entries.filter fun e => p e.2).map Prod.fst) := by
    refine (List.perm_ext_iff_of_nodup hks hkeys).2 fun k => ?_
    rw [h, List.mem_map]
    constructor
    · rintro ⟨v, hv, hp⟩
      exact ⟨(k, v), List.mem_filter.2 ⟨(mem_pairs t.distinct).2 hv, hp⟩, rfl⟩
    · rintro ⟨⟨k, v⟩, hmem, rfl⟩
      obtain ⟨hmem, hp⟩ := List.mem_filter.1 hmem
      exact ⟨v, (mem_pairs t.distinct).1 hmem, hp⟩
  calc ks.length = (t.entries.filter fun e => p e.2).length := by
        rw [hperm.length_eq, List.length_map]
    _ = t.entries.countP fun e => p e.2 := List.countP_eq_length_filter.symm
    _ = t.values.countP p := by
        rw [values, List.countP_map]
        rfl

end Table

namespace World

variable {w : World} {entered left : List JobId}

def jobsIn (w : World) (p : JobState → Bool) : Nat := w.jobs.values.countP fun job => p job.state

lemma jobsIn_left (w : World) : w.jobsIn (· != .created) =
    w.jobsIn (· == .pending) + w.jobsIn fun state => state == .running || state.isFinal := by
  unfold jobsIn
  induction w.jobs.values with
  | nil => rfl
  | cons job jobs ih =>
    simp only [List.countP_cons, ih]
    cases job.state <;> simp [JobState.isFinal] <;> omega

/-- **There are as many entries as pending jobs.** -/
theorem Lockstep.length_queue (h : w.Lockstep) :
    w.queue.queue.length = w.jobsIn (· == .pending) := by
  have hlength : w.queue.queue.length = w.queue.queue.entries.keys.length :=
    (Table.length_keys _).symm
  rw [hlength]
  have hdistinct : w.queue.queue.entries.keys.Nodup := w.queue.queue.entries.distinct
  refine Table.length_eq_countP hdistinct fun id => ?_
  rw [Table.mem_keys]
  refine (h.queued_iff id).trans (exists_congr fun job => and_congr_right fun _ => ?_)
  exact beq_iff_eq.symm

/-- **As many jobs were put into the queue as are not `created` any more.** -/
theorem Admitted.length_entered (h : w.Admitted entered left) (hl : w.Lockstep) :
    entered.length = w.jobsIn (· != .created) := by
  refine Table.length_eq_countP h.entered_once fun id => ?_
  rw [h.mem_entered]
  refine exists_congr fun job => and_congr_right fun hjob => ?_
  rw [bne_iff_ne]
  refine or_iff_left_of_imp fun hsome => ?_
  -- what has an entry is pending
  obtain ⟨job', hjob', hpending⟩ := (hl.queued_iff id).1 (Option.isSome_iff_exists.1 hsome)
  rw [hjob] at hjob'
  cases hjob'
  rw [hpending]
  decide

/-- **As many jobs were taken out of the queue as run or are final.** -/
theorem Admitted.length_left (h : w.Admitted entered left) (hl : w.Lockstep) :
    left.length = w.jobsIn fun state => state == .running || state.isFinal := by
  refine Table.length_eq_countP h.left_once fun id => ?_
  rw [h.mem_left]
  refine exists_congr fun job => and_congr_right fun hjob => ?_
  have hnone : w.queue.queue.get? id = none ↔ job.state ≠ .pending := by
    rw [← Option.not_isSome_iff_eq_none, Option.isSome_iff_exists, hl.queued_iff id]
    simp [hjob]
  rw [hnone]
  cases job.state <;> decide

end World

def Program.isDone {α : Type} : Program α → Bool
  | done _ => true
  | ask .. => false

lemma Program.isDone_iff {α : Type} {p : Program α} : p.isDone = true ↔ ∃ a, p = .done a := by
  cases p <;> simp [isDone]

namespace System

variable {κ ρ : Type} {s : System κ ρ} {footing : Nat → Footing}

/-- No job is locked. -/
def Quiet (s : System κ ρ) : Prop := ∀ id, s.locks.find? id = none

/-- All threads have come to their ends. -/
def Idle (s : System κ ρ) : Prop := ∀ t ∈ s.threads, t.rest.isDone = true

instance : Decidable s.Idle := inferInstanceAs (Decidable (∀ t ∈ s.threads, t.rest.isDone = true))

lemma Idle.done (h : s.Idle) {i : Nat} {t : Thread κ ρ} (ht : s.threads[i]? = some t) :
    ∃ a, t.rest = .done a := Program.isDone_iff.1 (h t (List.mem_of_getElem? ht))

namespace Sound

variable {post : κ → ρ → Footing → Prop}

/-- Programs that give back all locks have none of them at their ends. -/
lemma quiet (h : s.Sound post footing) (hpost : ∀ c a f, post c a f → f.tenure? = none)
    (hs : s.Idle) : s.Quiet := by
  intro id
  rw [Option.eq_none_iff_forall_ne_some]
  intro i hi
  obtain ⟨t, ht, -⟩ := h.owned id i hi
  have hlen : i < s.threads.length := by
    by_contra hlen
    rw [h.unstarted i (Nat.not_lt.1 hlen)] at ht
    cases ht
  have hthread := List.getElem?_eq_getElem hlen
  obtain ⟨a, ha⟩ := hs.done hthread
  have hdone := h.orderly i _ hthread
  rw [ha] at hdone
  rw [hpost _ _ _ hdone] at ht
  cases ht

lemma free (h : s.Sound post footing) (hs : s.Quiet) : s.world.Sound .free := by
  have hfree : s.holders footing = .free := by
    funext id
    rw [holders, hs id]
    rfl
  rw [← hfree]
  exact h.world

end Sound

namespace Ledger

lemma quiet (h : s.Ledger footing) (hs : s.Idle) : s.Quiet :=
  h.sound.quiet (fun _ _ _ hdone => hdone) hs

/-- A thread that has anything to count has a job locked. -/
lemma owes_eq_false (h : s.Ledger footing) (hs : s.Quiet) (i : Nat) :
    (s.trail i).standing.stage.owes = false := by
  rw [← Bool.not_eq_true]
  intro howes
  have hborne := h.borneOut i
  have htenure : (footing i).tenure?.isSome = true := by
    cases hstage : (s.trail i).standing.stage <;> rw [hstage] at howes hborne <;>
      first | exact hborne | cases howes
  obtain ⟨t, ht⟩ := Option.isSome_iff_exists.1 htenure
  have hlock := h.sound.owning i t ht
  rw [hs] at hlock
  cases hlock

lemma lockstep (h : s.Ledger footing) (hs : s.Quiet) : s.world.Lockstep :=
  (h.sound.free hs).kept.lockstep

/-- **Where no job is locked, all is counted.** -/
theorem counted (h : s.Ledger footing) (hs : s.Quiet) :
    s.metrics.count .queuePush = s.entered.length ∧
      s.metrics.count (.queuePop .claimed) + s.metrics.count (.queuePop .unclaimed) =
        s.left.length ∧
      s.metrics.count (.queuePop .claimed) = s.handovers.length := by
  have hstage (i : Nat) := Stage.eq_zero_of_owes (h.owes_eq_false hs i)
  simp only [count_metrics, length_entered, length_left, length_handovers,
    tally_eq_sum h.allowed.started, ← Finset.sum_add_distrib]
  refine ⟨Finset.sum_congr rfl fun i _ => ?_, Finset.sum_congr rfl fun i _ => ?_,
    Finset.sum_congr rfl fun i _ => ?_⟩
  · rw [← (h.squared i).entered, (hstage i).1, Nat.add_zero]
  · rw [← (h.squared i).left, (hstage i).2.1, Nat.add_zero]
  · rw [(h.squared i).handed, (hstage i).2.2, Nat.add_zero]

/-- **A worker is offered as many jobs at least as it is handed.** -/
theorem offered (h : s.Ledger footing) (worker : WorkerId) :
    s.handovers.countP (fun p => p.2 == worker) ≤ s.metrics.count (.workerTick worker) := by
  rw [countP_handovers, count_metrics, tally_eq_sum h.allowed.started,
    tally_eq_sum h.allowed.started]
  exact Finset.sum_le_sum fun i _ => le_trans (Nat.le_add_right _ _) ((h.squared i).offered worker)

end Ledger

/-- The counters agree with jobs and queue, and with the claims that handed over a job. -/
structure Balanced (s : System κ ρ) (books : Counters) : Prop where
  pushed : books.queuePush.toNat = s.world.jobsIn (· != .created)
  queued : s.world.queue.queue.length = s.world.jobsIn (· == .pending)
  claimed : books.queuePopClaimed.toNat = s.handovers.length
  left : books.queuePopClaimed.toNat + books.queuePopUnclaimed.toNat =
    s.world.jobsIn fun state => state == .running || state.isFinal
  conserved : books.queuePush.toNat =
    s.world.queue.queue.length + books.queuePopClaimed.toNat + books.queuePopUnclaimed.toNat

/-- **Where no job is locked, the books balance**, as long as the counters have room. -/
theorem Ledger.balanced (h : s.Ledger footing) (hs : s.Quiet)
    (hfew : s.metrics.length < UInt64.size) : s.Balanced (.ofMetrics s.metrics) := by
  obtain ⟨hpushed, hleft, hclaimed⟩ := h.counted hs
  have hlockstep := h.lockstep hs
  have hpush : (Counters.ofMetrics s.metrics).queuePush.toNat = s.metrics.count .queuePush :=
    Counters.toNat_read (n := .queuePush) hfew nofun
  have hpop (kind : Departure) : ((Counters.ofMetrics s.metrics).read (.queuePop kind)).toNat =
      s.metrics.count (.queuePop kind) := Counters.toNat_read hfew nofun
  have hpopClaimed : (Counters.ofMetrics s.metrics).queuePopClaimed.toNat = _ := hpop .claimed
  have hpopUnclaimed : (Counters.ofMetrics s.metrics).queuePopUnclaimed.toNat = _ :=
    hpop .unclaimed
  have hentered := h.admitted.length_entered hlockstep
  have hout := h.admitted.length_left hlockstep
  have hlength := hlockstep.length_queue
  have hsplit := s.world.jobsIn_left
  refine ⟨?_, hlength, ?_, ?_, ?_⟩ <;> omega

end System

end JobDispatch

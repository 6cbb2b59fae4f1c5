import JobDispatch.Proofs.Admission
import JobDispatch.Proofs.Books
import JobDispatch.Proofs.Trails
import Mathlib.Algebra.BigOperators.Intervals

/-!
What is counted and what is done. For each proper trail the counts of metrics agree with the entries
that were put in and taken out and with the jobs that were handed over, up to what its stage says is
still to be counted (`Trail.Squared`). The deeds of all threads are those of each of them
(`System.tally_eq_sum`).
-/

namespace JobDispatch

/-! ### Counts and deeds -/

def Request.metric? : Request → Option Metric
  | .count m => some m
  | _ => none

/-- The job that the request hands to a worker: it stores the record of the running job. -/
def Request.handover? : Request → Option (JobId × WorkerId)
  | .storeJob record =>
    if record.state = .running then record.claimedBy?.map fun worker => (record.id, worker)
    else none
  | _ => none

namespace Request

/-! What may be counted of requests and the worlds that they are answered from. -/

def counts (m : Metric) (r : Request) (_ : World) : Bool := r.metric? == some m

def admits (r : Request) (w : World) : Bool := w.admits r

def removes (r : Request) (w : World) : Bool := (w.removed? r).isSome

def hands (r : Request) (_ : World) : Bool := r.handover?.isSome

def handsTo (worker : WorkerId) (r : Request) (_ : World) : Bool :=
  r.handover?.any fun p => p.2 == worker

end Request

namespace Stage

/-- What is to be counted as put in, as taken out, and to be handed over. -/
def entering : Stage → Nat
  | entered => 1
  | _ => 0

def leaving : Stage → Nat
  | left => 1
  | _ => 0

def passing : Stage → Nat
  | handing => 1
  | _ => 0

lemma eq_zero_of_owes {stage : Stage} (h : stage.owes = false) :
    stage.entering = 0 ∧ stage.leaving = 0 ∧ stage.passing = 0 := by
  cases stage <;> first | exact ⟨rfl, rfl, rfl⟩ | cases h

end Stage

namespace Standing

variable {x : Standing} {r : Request}

/-- The record is stored when nothing is to be counted, or in a handover. -/
lemma storeJob_cases {record : Job} (hx : x.Allows (.storeJob record)) :
    (∃ worker, record.state = .running ∧ x.stage = .handing ∧ x.offered? = some worker ∧
        record.claimedBy? = some worker) ∨
      record.state ≠ .running ∧ x.stage.owes = false := by
  by_cases hstate : record.state = .running
  · simp only [Allows, if_pos hstate] at hx
    obtain ⟨hstage, worker, hoffered, hclaimed⟩ := hx
    exact .inl ⟨worker, hstate, hstage, hoffered, hclaimed⟩
  · simp only [Allows, if_neg hstate] at hx
    exact .inr ⟨hstate, hx⟩

/-- **What is put in or taken out is counted next**, and what is counted as claimed is handed over
next. -/
theorem debts_after (hx : x.Allows r) (w : World) :
    (r.counts .queuePush w).toNat + (x.after r w).stage.entering =
        (r.admits w).toNat + x.stage.entering ∧
      (r.counts (.queuePop .claimed) w).toNat + (r.counts (.queuePop .unclaimed) w).toNat +
          (x.after r w).stage.leaving = (r.removes w).toNat + x.stage.leaving ∧
      (r.counts (.queuePop .claimed) w).toNat + x.stage.passing =
        (r.hands w).toNat + (x.after r w).stage.passing := by
  obtain ⟨stage, offered?⟩ := x
  cases r with
  | push job project tags time =>
    obtain ⟨found, rfl : stage = _⟩ := hx
    have hadmits : (Request.push job project tags time).admits w =
      (w.answer (.push job project tags time)).1.toBool := rfl
    have hafter (x : Standing) : x.after (.push job project tags time) w =
      x.afterPush (w.answer (.push job project tags time)).1 := rfl
    rw [hadmits, hafter]
    rcases (w.answer (.push job project tags time)).1 with e | receipt
    · cases e <;> exact ⟨rfl, rfl, rfl⟩
    · exact ⟨rfl, rfl, rfl⟩
  | pop job =>
    obtain ⟨found, rfl : stage = _, -⟩ := hx
    have hafter (x : Standing) : x.after (.pop job) w = x.afterPop (w.answer (.pop job)).1 := rfl
    simp only [Request.removes, World.removed?, hafter]
    rcases (w.answer (.pop job)).1 with e | _ | _ <;> exact ⟨rfl, rfl, rfl⟩
  | count m =>
    cases m with
    | queuePush =>
      obtain rfl : stage = .entered := hx
      exact ⟨rfl, rfl, rfl⟩
    | queuePop kind =>
      obtain rfl : stage = .left := hx
      cases kind <;> exact ⟨rfl, rfl, rfl⟩
    | _ => exact ⟨rfl, rfl, rfl⟩
  | lockJob job =>
    obtain rfl : stage = .clear := hx
    have hafter (x : Standing) :
        x.after (.lockJob job) w = x.afterLock (w.answer (.lockJob job)).1 := rfl
    rw [hafter]
    cases (w.answer (.lockJob job)).1 <;> exact ⟨rfl, rfl, rfl⟩
  | storeJob record =>
    rcases storeJob_cases hx with ⟨worker, hstate, rfl : stage = _, -, hclaimed⟩ | ⟨hstate, howes⟩
    · have hhands : (Request.storeJob record).hands w = true := by
        simp [Request.hands, Request.handover?, hstate, hclaimed]
      rw [hhands]
      exact ⟨rfl, rfl, rfl⟩
    · have hhands : (Request.storeJob record).hands w = false := by
        simp [Request.hands, Request.handover?, hstate]
      obtain ⟨hentering, hleaving, hpassing⟩ := Stage.eq_zero_of_owes howes
      rw [hhands, hentering, hleaving, hpassing]
      exact ⟨rfl, rfl, rfl⟩
  | unlockJob job =>
    have howes : stage.owes = false := hx
    obtain ⟨hentering, hleaving, hpassing⟩ := Stage.eq_zero_of_owes howes
    rw [hentering, hleaving, hpassing]
    exact ⟨rfl, rfl, rfl⟩
  | _ => exact ⟨rfl, rfl, rfl⟩

/-- The worker has been offered a job, and not been handed one since. -/
def awaits (x : Standing) (worker : WorkerId) : Bool := x.offered? == some worker

/-- **A worker is handed a job once at most for each time that it is offered one.** -/
theorem offers_after (hx : x.Allows r) (w : World) (worker : WorkerId) :
    (r.handsTo worker w).toNat + ((x.after r w).awaits worker).toNat ≤
      (r.counts (.workerTick worker) w).toNat + (x.awaits worker).toNat := by
  obtain ⟨stage, offered?⟩ := x
  cases r with
  | push job project tags time =>
    show 0 + ((Standing.afterPush _ (w.answer (.push job project tags time)).1).awaits worker).toNat
      ≤ 0 + _
    rcases (w.answer (.push job project tags time)).1 with e | receipt
    · cases e <;> exact Nat.le_refl _
    · exact Nat.le_refl _
  | pop job =>
    show 0 + ((Standing.afterPop _ (w.answer (.pop job)).1).awaits worker).toNat ≤ 0 + _
    rcases (w.answer (.pop job)).1 with e | _ | _ <;> exact Nat.le_refl _
  | lockJob job =>
    show 0 + ((Standing.afterLock _ (w.answer (.lockJob job)).1).awaits worker).toNat ≤ 0 + _
    cases (w.answer (.lockJob job)).1 <;> exact Nat.le_refl _
  | count m =>
    cases m with
    | workerTick other =>
      by_cases hother : other = worker
      · subst hother
        simp [Request.handsTo, Request.handover?, Request.counts, Request.metric?, after, awaits]
      · have hne : (other == worker) = false := beq_eq_false_iff_ne.2 hother
        simp [Request.handsTo, Request.handover?, after, awaits, hne]
    | _ => exact Nat.le_refl _
  | storeJob record =>
    rcases storeJob_cases hx with ⟨other, hstate, -, hoffered, hclaimed⟩ | ⟨hstate, -⟩
    · simp [Request.handsTo, Request.handover?, Request.counts, Request.metric?, after, awaits,
        hstate, show offered? = some other from hoffered, hclaimed]
    · simp [Request.handsTo, Request.handover?, Request.counts, Request.metric?, after, awaits,
        hstate]
  | _ => exact Nat.le_refl _

end Standing

/-! ### Trails -/

namespace Trail

def standing (h : Trail) : Standing := h.foldl (fun x q => x.after q.1 q.2) .start

lemma standing_append (h : Trail) (r : Request) (w : World) :
    Trail.standing (h ++ [(r, w)]) = h.standing.after r w := by
  rw [standing, List.foldl_append]
  rfl

def tally (h : Trail) (p : Request → World → Bool) : Nat := h.countP fun q => p q.1 q.2

lemma tally_append (h : Trail) (r : Request) (w : World) (p : Request → World → Bool) :
    Trail.tally (h ++ [(r, w)]) p = h.tally p + (p r w).toNat := by
  rw [tally, List.countP_append, List.countP_singleton]
  cases p r w <;> rfl

/-- The counts of a trail agree with what was done, up to what is still to be counted. -/
structure Squared (h : Trail) : Prop where
  entered : h.tally (Request.counts .queuePush) + h.standing.stage.entering = h.tally Request.admits
  left : h.tally (Request.counts (.queuePop .claimed)) +
      h.tally (Request.counts (.queuePop .unclaimed)) + h.standing.stage.leaving =
    h.tally Request.removes
  handed : h.tally (Request.counts (.queuePop .claimed)) =
    h.tally Request.hands + h.standing.stage.passing
  offered : ∀ worker, h.tally (Request.handsTo worker) + (h.standing.awaits worker).toNat ≤
    h.tally (Request.counts (.workerTick worker))

lemma Squared.nil : Squared [] := ⟨rfl, rfl, rfl, fun _ => Nat.le_refl _⟩

/-- **The counts of a proper trail agree with what was done.** -/
theorem Squared.append {h : Trail} (hh : h.Squared) {r : Request} (hr : h.standing.Allows r)
    (w : World) : Squared (h ++ [(r, w)]) := by
  obtain ⟨hentered, hleft, hhanded⟩ := Standing.debts_after hr w
  refine ⟨?_, ?_, ?_, fun worker => ?_⟩
  · have := hh.entered
    simp only [tally_append, standing_append]
    omega
  · have := hh.left
    simp only [tally_append, standing_append]
    omega
  · have := hh.handed
    simp only [tally_append, standing_append]
    omega
  · have := hh.offered worker
    have := Standing.offers_after hr w worker
    simp only [tally_append, standing_append]
    omega

end Trail

lemma Program.Proper.along {α : Type} {p : Program α} {Q : α → Standing → Prop} {h : Trail}
    (hp : p.Proper Q h.standing) (w : World) :
    p.Along .anything (fun h r _ => h.standing.Allows r) (fun _ _ _ => True) h w := by
  induction p generalizing h w with
  | done a => exact fun _ _ => trivial
  | ask r next ih =>
    intro v _
    refine ⟨hp.1, ih _ ?_ _⟩
    rw [Trail.standing_append]
    exact hp.2 v

/-! ### All threads -/

lemma countP_eq_sum {α : Type} {n : Nat} (key : α → Nat) (p : α → Bool) {ds : List α}
    (h : ∀ d ∈ ds, key d < n) :
    ds.countP p = ∑ i ∈ Finset.range n, (ds.filter fun d => key d == i).countP p := by
  simp only [List.countP_filter]
  induction ds with
  | nil => simp
  | cons d ds ih =>
    have hd : key d ∈ Finset.range n := Finset.mem_range.2 (h d List.mem_cons_self)
    simp only [List.countP_cons, Finset.sum_add_distrib]
    rw [← ih fun d' hd' => h d' (List.mem_cons_of_mem _ hd')]
    cases p d <;> simp [hd]

namespace System

variable {κ ρ : Type} {s : System κ ρ}

def tally (s : System κ ρ) (p : Request → World → Bool) : Nat :=
  s.deeds.countP fun d => p d.request d.world

/-- **The deeds of all threads are those of each of them.** -/
theorem tally_eq_sum (hstarted : ∀ d ∈ s.deeds, d.thread < s.threads.length)
    (p : Request → World → Bool) :
    s.tally p = ∑ i ∈ Finset.range s.threads.length, (s.trail i).tally p := by
  have htrail (i : Nat) : (s.trail i).tally p =
      (s.deeds.filter fun d => d.thread == i).countP fun d => p d.request d.world := by
    rw [Trail.tally, trail, List.countP_reverse, List.countP_map]
    rfl
  simp only [htrail]
  exact countP_eq_sum Deed.thread _ hstarted

end System

end JobDispatch

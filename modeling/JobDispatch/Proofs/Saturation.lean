import JobDispatch.Proofs.Alone
import JobDispatch.Proofs.Cleanup
import JobDispatch.Proofs.Documents

/-!
Spans of any length, in comparisons with times. A span that is too long for a difference of times
counts as the longest difference. Nobody can tell: no two timestamps are that far apart
(`Timestamp.since_lt_deltaBound`), and no timestamp is that far from the last one. So a worker is in
contact just if the exact span says so, and a lease that is asked for with a span ends after exactly
this span or cannot be had (`saturation_unobservable`).
-/

namespace JobDispatch

open Program

/-! ### Differences of times -/

namespace Timestamp

lemma since_lt_deltaBound (later earlier : Timestamp) :
    later.since earlier < Span.deltaBound := by
  have hlast := later.le_last
  have hfirst := earlier.first_le
  have hroom : lastNanos - firstNanos < Span.deltaBound := by decide
  unfold since
  omega

/-- The clamp decides no comparison of two times. -/
lemma since_le_delta_iff (later earlier : Timestamp) (d : Span) :
    later.since earlier ≤ d.delta ↔ later.since earlier ≤ d.nanos := by
  have hlt := later.since_lt_deltaBound earlier
  unfold Span.delta
  omega

lemma add?_delta (now : Timestamp) (d : Span) : now.add? d.delta = now.add? d.nanos := by
  have hroom : lastNanos - firstNanos < Span.deltaBound := by decide
  have hfirst := now.first_le
  unfold add? Span.delta
  by_cases hlong : (d.nanos : Int) ≤ Span.deltaBound
  · rw [min_eq_left hlong]
  · have hout {n : Int} (h : lastNanos < now.nanos + n) : ofNanos? (now.nanos + n) = none :=
      dif_neg fun hrange => absurd hrange.2 (Int.not_le.2 h)
    rw [min_eq_right (by omega), hout (by omega), hout (by omega)]

lemma add?_eq_none_iff (now : Timestamp) (d : Span) :
    now.add? d.nanos = none ↔ lastNanos < now.nanos + d.nanos := by
  have hfirst := now.first_le
  unfold add? ofNanos?
  split
  · simp only [reduceCtorEq, false_iff]
    omega
  · simp only [true_iff]
    omega

lemma nanos_of_add? {now t : Timestamp} {delta : Int} (h : now.add? delta = some t) :
    t.nanos = now.nanos + delta := ofNanos?_eq_some.1 h

end Timestamp

/-! ### Leases -/

namespace Leases

variable {l : Leases} {key : String} {now : Timestamp} {d : Span} {lease : Lease}

/-- A lease is out of range just if its end is, whoever holds it. -/
lemma obtain?_outOfRange_iff (l : Leases) (key : String) :
    (l.obtain? key d.delta now).1 = .error (.leaseOutOfRange key) ↔
      Timestamp.lastNanos < now.nanos + d.nanos := by
  rw [← Timestamp.add?_eq_none_iff, ← Timestamp.add?_delta]
  unfold obtain?
  cases now.add? d.delta with
  | none => simp
  | some expiresAt =>
    dsimp only
    split <;> simp

lemma expiresAt_of_obtain? (h : (l.obtain? key d.delta now).1 = .ok lease) :
    lease.expiresAt.nanos = now.nanos + d.nanos := by
  rcases l.obtain?_cases key d.delta now with ⟨e, herr⟩ | ⟨expiresAt, hadd, hok, -⟩
  · rw [herr] at h
    cases h
  · rw [hok] at h
    cases h
    rw [Timestamp.add?_delta] at hadd
    exact Timestamp.nanos_of_add? hadd

lemma exists_obtain? (hrange : now.nanos + d.nanos ≤ Timestamp.lastNanos)
    (hfree : ∀ held, l.held.find? key = some held → held.expiresAt ≤ now) :
    ∃ lease, (l.obtain? key d.delta now).1 = .ok lease ∧
      (l.obtain? key d.delta now).2.held.find? key = some lease := by
  obtain ⟨expiresAt, hadd⟩ : ∃ t, now.add? d.delta = some t := by
    rw [Timestamp.add?_delta]
    refine Option.ne_none_iff_exists'.1 fun hnone => ?_
    exact absurd hrange (Int.not_le.2 ((Timestamp.add?_eq_none_iff now d).1 hnone))
  have hover : ((l.held.find? key).any fun t => !t.hasRunOut now) = false := by
    cases hheld : l.held.find? key with
    | none => rfl
    | some held =>
      rw [Option.any_some, Lease.hasRunOut, decide_eq_true (hfree held hheld)]
      rfl
  unfold obtain?
  rw [hadd]
  dsimp only
  rw [hover]
  exact ⟨_, rfl, Table.find?_insert_self _ _ _⟩

end Leases

/-! ### Passes -/

variable {w : World} {plan : SweepPlan} {untaggedOnly : Bool}

lemma sweep_outOfRange_iff
    (hplan : ∀ f ∈ w.queue.plan, f.failure ≠ .error (.leaseOutOfRange sweepLeaseKey)) :
    ((sweep plan untaggedOnly).run w).1 = .error (.leaseOutOfRange sweepLeaseKey) ↔
      Timestamp.lastNanos < w.now.nanos + plan.leaseTimeout.nanos := by
  rw [← w.leases.obtain?_outOfRange_iff sweepLeaseKey]
  cases hobtain : w.leases.obtain? sweepLeaseKey plan.leaseTimeout.delta w.now with
  | mk answer l =>
    cases answer with
    | error e =>
      obtain rfl : l = w.leases := by
        rw [← Leases.obtain?_of_error (congrArg Prod.fst hobtain), hobtain]
      rw [show (sweep plan untaggedOnly).run w = _ from sweep_run_of_refused hobtain]
      simp
    | ok lease =>
      refine ⟨fun herr => ?_, nofun⟩
      exact absurd rfl (sweep_error (P := fun failure => failure ≠ .error (.leaseOutOfRange _))
        ⟨lease, l, hobtain⟩ hplan herr)

lemma Config.kept_of_validate {c : Config} (h : c.validate = .ok ()) :
    ∀ b ∈ bounds, b.kept c = true := by
  rw [validate_eq] at h
  split at h
  · rename_i hnone
    exact firstViolation?_eq_none_iff.1 hnone
  · cases h

lemma Config.leaseTimeout_le (c : Config) (h : c.validate = .ok ()) :
    c.leaseTimeout.nanos ≤ 876000 * 3600 * 1000000000 := by
  have hkept := kept_of_validate h
    ⟨.leaseTimeout, .overLimit, fun c => c.leaseTimeout.nanos ≤ maxSpan.nanos⟩
    (by simp [bounds, spanBounds])
  exact of_decide_eq_true hkept

/-- **That long spans are clamped cannot be told.** A worker is in contact, for a span of any
length, just if the time since its last contact is no longer than the span. A pass fails for the
range of its lease (unless a call on the queue is planned to fail with these very words) just if the
exact end of the lease comes after the last point in time; and if it does not and the lease is free,
the pass gets it first thing, to end exactly there. So with a valid configuration no pass fails for
this reason until a hundred years before the last point in time. -/
theorem saturation_unobservable :
    (∀ (d : Span) (worker : Worker) (now : Timestamp),
      (worker.inContact now d.delta = true ↔ now.nanos - worker.lastContact.nanos ≤ d.nanos) ∧
      (worker.isReady now d.delta = true ↔
        0 < worker.room ∧ now.nanos - worker.lastContact.nanos ≤ d.nanos)) ∧
    (∀ (plan : SweepPlan) (untaggedOnly : Bool) (w : World),
      (∀ f ∈ w.queue.plan, f.failure ≠ .error (.leaseOutOfRange sweepLeaseKey)) →
      (((sweep plan untaggedOnly).run w).1 = .error (.leaseOutOfRange sweepLeaseKey) ↔
        Timestamp.lastNanos < w.now.nanos + plan.leaseTimeout.nanos)) ∧
    (∀ (plan : SweepPlan) (untaggedOnly : Bool) (w : World),
      w.now.nanos + plan.leaseTimeout.nanos ≤ Timestamp.lastNanos →
      (∀ held, w.leases.held.find? sweepLeaseKey = some held → held.expiresAt ≤ w.now) →
      ∃ lease v rest,
        (sweep plan untaggedOnly).alone w = (.clock, w) ::
          (.obtainLease sweepLeaseKey plan.leaseTimeout.delta w.now, w) :: rest ∧
        w.answer (.obtainLease sweepLeaseKey plan.leaseTimeout.delta w.now) = (.ok lease, v) ∧
        v.leases.held.find? sweepLeaseKey = some lease ∧
        ∀ t : Timestamp, lease.hasRunOut t = true ↔
          w.now.nanos + plan.leaseTimeout.nanos ≤ t.nanos) ∧
    ∀ (c : Config) (w : World), c.validate = .ok () →
      w.now.nanos ≤ Timestamp.lastNanos - 876000 * 3600 * 1000000000 →
      (∀ f ∈ w.queue.plan, f.failure ≠ .error (.leaseOutOfRange sweepLeaseKey)) →
      ((Engine.sweep c).run w).1 ≠ .error (.leaseOutOfRange sweepLeaseKey) := by
  have hcontact (d : Span) (worker : Worker) (now : Timestamp) :
      worker.inContact now d.delta = true ↔
        now.nanos - worker.lastContact.nanos ≤ d.nanos := by
    rw [Worker.inContact, decide_eq_true_iff]
    exact now.since_le_delta_iff worker.lastContact d
  refine ⟨fun d worker now => ⟨hcontact d worker now, ?_⟩,
    fun plan untaggedOnly w hplan => sweep_outOfRange_iff hplan,
    fun plan untaggedOnly w hrange hfree => ?_, fun c w hvalid hnow hplan herr => ?_⟩
  · rw [Worker.isReady, Bool.and_eq_true, decide_eq_true_iff, hcontact]
  · obtain ⟨lease, hok, hheld⟩ := Leases.exists_obtain? hrange hfree
    have hanswer : w.answer (.obtainLease sweepLeaseKey plan.leaseTimeout.delta w.now) =
        (.ok lease, (w.answer (.obtainLease sweepLeaseKey plan.leaseTimeout.delta w.now)).2) :=
      Prod.ext hok rfl
    refine ⟨lease, _, _, rfl, hanswer, hheld, fun t => ?_⟩
    rw [Lease.hasRunOut, decide_eq_true_iff, Timestamp.le_def, Leases.expiresAt_of_obtain? hok]
  · have hout := (sweep_outOfRange_iff hplan).1 herr
    have hlease := c.leaseTimeout_le hvalid
    have htimeout : c.sweepPlan.leaseTimeout = c.leaseTimeout := rfl
    rw [htimeout] at hout
    omega

/-- The longest span there is, at both ends of time; and the last moment at which the lease of the
standard configuration can be had. -/
theorem saturation_unobservable_longest :
    let longest : Span := ⟨(UInt64.size - 1) * 1000000000 + 999999999⟩
    let last : Timestamp := ⟨Timestamp.lastNanos, by decide, Int.le_refl _⟩
    let first : Timestamp := ⟨Timestamp.firstNanos, Int.le_refl _, by decide⟩
    let worker : Worker := .ofHeartbeat ⟨⟨.ofNat 1⟩, .empty, 1, first, .everyProject, true⟩
    let plan : SweepPlan := { Config.standard.sweepPlan with leaseTimeout := longest }
    let exact : SweepPlan := { plan with leaseTimeout := ⟨Timestamp.lastNanos.toNat⟩ }
    let w := Engine.initial .standard .silent .epoch
    worker.isReady last longest.delta = true ∧
      ((sweep plan true).run w).1 = .error (.leaseOutOfRange sweepLeaseKey) ∧
      ((sweep exact true).run w).1 ≠ .error (.leaseOutOfRange sweepLeaseKey) ∧
      (∃ lease v, w.answer (.obtainLease sweepLeaseKey exact.leaseTimeout.delta w.now) =
        (.ok lease, v) ∧ lease.hasRunOut last = true) ∧
      ((Engine.sweep .standard).run w).1 ≠ .error (.leaseOutOfRange sweepLeaseKey) := by
  intro longest last first worker plan exact w
  obtain ⟨hcontact, hrange, hlease, hvalid⟩ := saturation_unobservable
  have hplan : ∀ f ∈ w.queue.plan, f.failure ≠ .error (.leaseOutOfRange sweepLeaseKey) :=
    fun f hf => absurd hf List.not_mem_nil
  have hexact : w.now.nanos + exact.leaseTimeout.nanos ≤ Timestamp.lastNanos := by decide
  obtain ⟨lease, v, -, -, hok, -, hends⟩ := hlease exact true w hexact fun held hheld => by
    cases hheld
  refine ⟨((hcontact longest worker last).2).2 ⟨by decide, by decide⟩,
    (hrange plan true w hplan).2 (by decide), fun herr => ?_,
    ⟨lease, v, hok, (hends last).2 hexact⟩, hvalid .standard w (by decide) (by decide) hplan⟩
  exact absurd ((hrange exact true w hplan).1 herr) (Int.not_lt.2 hexact)

end JobDispatch

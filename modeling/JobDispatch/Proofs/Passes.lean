import JobDispatch.Proofs.Leasing
import JobDispatch.Proofs.Sweeping

/-!
Whole sweeps. From a world that operations lead to and whose last sweep is through, the passes up to
the first one that completes tick each entry that was queued at first once, and there are as many
passes and pages as the entries fill. If ticks do not mix, the passes leave jobs, workers and queue
as ticks of the entries do one after the other, and their reports add up to the outcomes of these
(`sweep_exact`). None of this depends on how the queue is cut into pages or where passes are cut
short, but for the numbers of pages and passes.
-/

namespace JobDispatch

open Program

variable {w v : World} {rota : Rota} {plan : SweepPlan} {untaggedOnly : Bool}

/-! ### The lease -/

lemma Leases.obtain?_eq_ok {l l' : Leases} {key : String} {ttl : Int} {now : Timestamp}
    {lease : Lease} (h : l.obtain? key ttl now = (.ok lease, l')) :
    (∃ expiresAt, now.add? ttl = some expiresAt) ∧ lease.key = key ∧
      l'.held = l.held.insert key lease := by
  obtain ⟨hadd, hkey, -, hafter, -⟩ := obtain?_of_ok (congrArg Prod.fst h)
  rw [h] at hafter
  exact ⟨hadd, hkey, congrArg held hafter⟩

lemma Leases.find?_release {l l' : Leases} {key : String} {ttl : Int} {now : Timestamp}
    {lease : Lease} (h : l.obtain? key ttl now = (.ok lease, l')) :
    (l'.release lease).2.held.find? key = none := by
  obtain ⟨-, hkey, hheld⟩ := Leases.obtain?_eq_ok h
  unfold release
  rw [hkey, hheld, Table.find?_insert_self]
  dsimp only
  rw [if_pos rfl]
  dsimp only
  rw [Table.find?_erase, if_pos rfl]

lemma Leases.obtain?_of_unheld {l : Leases} {key : String} {ttl : Int} {now expiresAt : Timestamp}
    (hkey : l.held.find? key = none) (hadd : now.add? ttl = some expiresAt) :
    ∃ lease l', l.obtain? key ttl now = (.ok lease, l') := by
  unfold obtain?
  rw [hadd]
  dsimp only
  rw [hkey]
  exact ⟨_, _, rfl⟩

def World.LeaseFree (w : World) (plan : SweepPlan) : Prop :=
  ∃ lease l, w.leases.obtain? sweepLeaseKey plan.leaseTimeout.delta w.now = (.ok lease, l)

/-! ### A pass under its lease -/

lemma SweepRecord.resumes_eq_false {p : SweepRecord}
    (h : p.phase = .idle ∨ p.phase = .completed) : p.resumes = false := by
  rcases h with h | h
  · simp [resumes, h]
  · simp [resumes, h]

lemma beginPass_run (w : World) : ∃ events, beginPass.run w =
    ((w.progress.start?, w.progress.resumes),
      { w with progress := w.progress.begin w.now, events }) := by
  obtain ⟨jobs, queue, registry, leases, progress, sink, now, events⟩ := w
  obtain ⟨cursor?, phase, startedAt?, updatedAt?⟩ := progress
  cases phase <;> exact ⟨_, rfl⟩

lemma passBy_run (rota : Rota) (plan : SweepPlan) (untaggedOnly : Bool) (w : World) :
    ∃ v, v.Alike w ∧ v.leases = w.leases ∧ v.progress = w.progress.begin w.now ∧
      (passBy rota plan untaggedOnly).run w = (sweepFromBy rota plan untaggedOnly
        w.progress.start? (.start w.progress.resumes)).run v := by
  let u := w.record (.activeWorkers (UInt64.ofNat (w.registry.freshCount w.now)))
  obtain ⟨events, hbegin⟩ := beginPass_run u
  refine ⟨{ u with progress := u.progress.begin u.now, events }, ⟨rfl, rfl, rfl, rfl⟩, rfl, rfl, ?_⟩
  show (beginPass >>= fun p => sweepFromBy rota plan untaggedOnly p.1 (.start p.2)).run u = _
  rw [run_bind, hbegin]
  rfl

/-- However a pass ends that got the lease, it gives the lease back. -/
lemma sweep_run {lease : Lease} {l : Leases} {result : Except DispatchError PassReport} {w' : World}
    (hlease : w.leases.obtain? sweepLeaseKey plan.leaseTimeout.delta w.now = (.ok lease, l))
    (hpass : (passBy rota plan untaggedOnly).run { w with leases := l } = (result, w')) :
    ∃ events, (sweepBy rota plan untaggedOnly).run w =
      (result, { w' with leases := (w'.leases.release lease).2, events }) := by
  have hclock : (request .clock).run w = (w.now, w) := rfl
  have hobtain : (request (.obtainLease sweepLeaseKey plan.leaseTimeout.delta w.now)).run w =
      (.ok lease, { w with leases := l }) := by
    show ((w.leases.obtain? _ _ _).1, { w with leases := (w.leases.obtain? _ _ _).2 }) = _
    rw [hlease]
  have hrelease : (request (.releaseLease lease)).run w' =
      ((w'.leases.release lease).1, { w' with leases := (w'.leases.release lease).2 }) := rfl
  unfold sweepBy
  rw [run_bind, hclock]
  dsimp only
  rw [run_bind, hobtain]
  dsimp only
  rw [run_bind, hpass]
  dsimp only
  rw [run_bind, hrelease]
  cases (w'.leases.release lease).1 <;> cases result <;> exact ⟨_, rfl⟩

/-- Only what ticks can tell apart matters of the world that a pass begins in. -/
lemma PassRun.congr {front back : List QueueEntry} {r r' : PassReport} {w' : World}
    (h : PassRun rota plan untaggedOnly v front back r r' w') (halike : v.Alike w)
    (leases : Leases) (events : List Event) :
    PassRun rota plan untaggedOnly w front back r r' { w' with leases, events } := by
  obtain ⟨os, hlength, hreport, hserial⟩ := h.ticks
  have hsame : World.Alike { w' with leases, events } w' := ⟨rfl, rfl, rfl, rfl⟩
  exact ⟨⟨os, hlength, hreport, fun hrota => (hserial hrota).congr halike hsame⟩,
    h.readable.congr hsame, h.resumes, h.rest⟩

theorem World.Readable.passRun_sweep (hw : w.Readable) (rota : Rota) (untaggedOnly : Bool)
    (hb : plan.batchSize ≠ 0) (hcap : plan.maxBatches? ≠ some 0)
    (hfree : w.LeaseFree plan) {es : List QueueEntry}
    (hes : w.queue.queue.entriesAfter w.progress.start? = es) :
    ∃ r w', (sweepBy rota plan untaggedOnly).run w = (.ok r, w') ∧
      PassRun rota plan untaggedOnly w
        (es.take (plan.share 0 es.length * plan.batchSize.toNat))
        (es.drop (plan.share 0 es.length * plan.batchSize.toNat)) (.start w.progress.resumes) r
        w' ∧
      w'.LeaseFree plan ∧ w'.leases.held.find? sweepLeaseKey = none ∧ w'.now = w.now := by
  obtain ⟨lease, l, hlease⟩ := hfree
  obtain ⟨v, halike, hleases, -, hrun⟩ :=
    passBy_run rota plan untaggedOnly { w with leases := l }
  have halike' : v.Alike w := halike.trans ⟨rfl, rfl, rfl, rfl⟩
  have hopen : plan.capped (.start w.progress.resumes) = false := by
    unfold SweepPlan.capped
    cases hmax : plan.maxBatches? with
    | none => rfl
    | some most =>
      refine decide_eq_false fun hle => hcap ?_
      rw [hmax]
      exact congrArg some (UInt64.toNat_inj.1 (Nat.le_zero.1 hle))
  have hpos : 0 < plan.batchSize.toNat := toNat_pos_of_ne_zero hb
  have hes' : v.queue.queue.entriesAfter w.progress.start? = es := by
    rw [halike'.queue]
    exact hes
  obtain ⟨r, w', hfrom, hpass, hleases', hnow⟩ := (hw.congr halike').passRun hpos rota hes' rfl
    fun _ => hopen
  rw [hfrom] at hrun
  obtain ⟨events, hsweep⟩ := sweep_run hlease hrun
  have hunheld : (w'.leases.release lease).2.held.find? sweepLeaseKey = none := by
    rw [hleases'.trans hleases]
    exact Leases.find?_release hlease
  have hnow' : w'.now = w.now := hnow.trans halike'.now
  refine ⟨r, _, hsweep, hpass.congr halike' _ events, ?_, hunheld, hnow'⟩
  obtain ⟨⟨expiresAt, hadd⟩, -⟩ := Leases.obtain?_eq_ok hlease
  rw [← hnow'] at hadd
  exact Leases.obtain?_of_unheld hunheld hadd

/-! ### The numbers of pages and passes -/

namespace SweepPlan

lemma pages_pos (plan : SweepPlan) (n : Nat) : 0 < plan.pages n := Nat.le_max_left _ _

lemma le_pages_mul (hb : 0 < plan.batchSize.toNat) (n : Nat) :
    n ≤ plan.pages n * plan.batchSize.toNat := by
  rw [Nat.mul_comm, ← ceilDiv_le_iff_le_mul hb]
  exact Nat.le_max_right _ _

lemma pages_drop (hb : 0 < plan.batchSize.toNat) {n m : Nat} (h : m * plan.batchSize.toNat < n) :
    plan.pages n = m + plan.pages (n - m * plan.batchSize.toNat) := by
  induction m generalizing n with
  | zero => rw [Nat.zero_mul, Nat.sub_zero, Nat.zero_add]
  | succ m ih =>
    rw [Nat.add_mul, Nat.one_mul] at h ⊢
    rw [pages_of_lt hb (by omega), ih (by omega), Nat.sub_sub,
      Nat.add_comm plan.batchSize.toNat]
    omega

/-- The passes that it takes to read a number of entries to the end. -/
def passes (plan : SweepPlan) (n : Nat) : Nat :=
  match plan.maxBatches? with
  | none => 1
  | some most => plan.pages n ⌈/⌉ most.toNat

lemma passes_of_le {n : Nat}
    (h : ∀ most, plan.maxBatches? = some most → plan.pages n ≤ most.toNat) :
    plan.passes n = 1 := by
  unfold passes
  cases hmax : plan.maxBatches? with
  | none => rfl
  | some most =>
    have hle := h most hmax
    have hpos := plan.pages_pos n
    dsimp only
    refine Nat.le_antisymm ((ceilDiv_le_iff_le_mul (by omega)).2 (by omega)) ?_
    rw [Nat.ceilDiv_eq_add_pred_div]
    exact Nat.div_pos (by omega) (by omega)

lemma passes_drop (hb : 0 < plan.batchSize.toNat) {most : UInt64}
    (hmax : plan.maxBatches? = some most) (hpos : 0 < most.toNat) {n : Nat}
    (h : most.toNat * plan.batchSize.toNat < n) :
    plan.passes n = plan.passes (n - most.toNat * plan.batchSize.toNat) + 1 := by
  unfold passes
  rw [hmax]
  dsimp only
  rw [pages_drop hb h, Nat.ceilDiv_eq_add_pred_div, Nat.ceilDiv_eq_add_pred_div,
    ← Nat.add_div_right _ hpos]
  congr 1
  have := plan.pages_pos (n - most.toNat * plan.batchSize.toNat)
  omega

end SweepPlan

/-! ### Passes up to the end of the queue -/

variable {rotas : Nat → Rota} {k : Nat}

/-- Passes one after the other, with nothing in between, up to the first one that completes. The
passes are numbered, each with a rota of its own. -/
inductive Passes (rotas : Nat → Rota) (plan : SweepPlan) (untaggedOnly : Bool) :
    Nat → World → List PassReport → World → Prop
  | last {k : Nat} {w : World} {r : PassReport} {w' : World}
    (h : (sweepBy (rotas k) plan untaggedOnly).run w = (.ok r, w')) (hr : r.completed = true) :
    Passes rotas plan untaggedOnly k w [r] w'
  | more {k : Nat} {w : World} {r : PassReport} {w' : World} {rs : List PassReport} {w'' : World}
    (h : (sweepBy (rotas k) plan untaggedOnly).run w = (.ok r, w')) (hr : r.completed = false)
    (hrs : Passes rotas plan untaggedOnly (k + 1) w' rs w'') :
    Passes rotas plan untaggedOnly k w (r :: rs) w''

/-- What the passes that tick some entries to the end come to. -/
structure SweepRun (rotas : Nat → Rota) (plan : SweepPlan) (untaggedOnly : Bool) (k : Nat)
    (w : World) (es : List QueueEntry) (rs : List PassReport) (w' : World) : Prop where
  passes : Passes rotas plan untaggedOnly k w rs w'
  ticked : (rs.map PassReport.ticked).sum = es.length
  balanced : ∀ r ∈ rs, r.Balanced
  batches : (rs.map PassReport.batches).sum = plan.pages es.length
  length : rs.length = plan.passes es.length
  inTurn : (∀ k, (rotas k).Unmixed plan) → ∃ outcomes, w.InTurn untaggedOnly es outcomes w' ∧
    ∀ field test, PassReport.Counts field test → (rs.map field).sum = outcomes.countP test

section

variable {front back es : List QueueEntry} {resumed : Bool} {r : PassReport} {w' : World}

lemma PassRun.ticked (h : PassRun rota plan untaggedOnly w front back (.start resumed) r w') :
    r.ticked = front.length := by
  obtain ⟨os, hlength, rfl, -⟩ := h.ticks
  rw [PassReport.counts_ticked.close, PassReport.counts_ticked.tally, List.countP_true, hlength]
  exact Nat.zero_add _

lemma PassRun.balanced (h : PassRun rota plan untaggedOnly w front back (.start resumed) r w') :
    r.Balanced := by
  obtain ⟨os, -, rfl, -⟩ := h.ticks
  exact PassReport.Balanced.tally (r := .start resumed) rfl _

lemma PassRun.batches (h : PassRun rota plan untaggedOnly w front back (.start resumed) r w') :
    r.batches = plan.share 0 (front ++ back).length := by
  obtain ⟨os, -, rfl, -⟩ := h.ticks
  exact Nat.zero_add _

lemma PassRun.completed_eq
    (h : PassRun rota plan untaggedOnly w front back (.start resumed) r w') :
    r.completed = back.isEmpty := by
  obtain ⟨os, -, rfl, -⟩ := h.ticks
  rfl

lemma PassRun.inTurn (h : PassRun rota plan untaggedOnly w front back (.start resumed) r w')
    (hrota : rota.Unmixed plan) : ∃ outcomes, w.InTurn untaggedOnly front outcomes w' ∧
      ∀ field test, PassReport.Counts field test → field r = outcomes.countP test := by
  obtain ⟨os, -, rfl, hserial⟩ := h.ticks
  refine ⟨os, hserial hrota, fun field test hfield => ?_⟩
  rw [hfield.close, hfield.tally, hfield.start, Nat.zero_add]

lemma SweepRun.last (hsweep : (sweepBy (rotas k) plan untaggedOnly).run w = (.ok r, w'))
    (hpass : PassRun (rotas k) plan untaggedOnly w es [] (.start resumed) r w')
    (hshare : plan.share 0 es.length = plan.pages es.length)
    (hmost : ∀ most, plan.maxBatches? = some most → plan.pages es.length ≤ most.toNat) :
    SweepRun rotas plan untaggedOnly k w es [r] w' where
  passes := .last hsweep hpass.completed_eq
  ticked := by
    rw [List.map_singleton, List.sum_singleton, hpass.ticked]
  balanced r' hr' := by
    rw [List.mem_singleton.1 hr']
    exact hpass.balanced
  batches := by
    rw [List.map_singleton, List.sum_singleton, hpass.batches, List.append_nil, hshare]
  length := by
    rw [SweepPlan.passes_of_le hmost]
    rfl
  inTurn hrotas := by
    obtain ⟨os, hos, hcounted⟩ := hpass.inTurn (hrotas k)
    refine ⟨os, hos, fun field test hfield => ?_⟩
    rw [List.map_singleton, List.sum_singleton, hcounted field test hfield]

/-- A pass that is cut short, and those that go on from its cursor. -/
lemma SweepRun.more (hb : 0 < plan.batchSize.toNat) {most : UInt64}
    (hmax : plan.maxBatches? = some most) (hmost : 0 < most.toNat) {rs : List PassReport}
    {w'' : World} (hsweep : (sweepBy (rotas k) plan untaggedOnly).run w = (.ok r, w'))
    (hpass : PassRun (rotas k) plan untaggedOnly w front back (.start resumed) r w')
    (hfront : front.length = most.toNat * plan.batchSize.toNat) (hne : back ≠ [])
    (hshare : plan.share 0 (front ++ back).length = most.toNat)
    (hrun : SweepRun rotas plan untaggedOnly (k + 1) w' back rs w'') :
    SweepRun rotas plan untaggedOnly k w (front ++ back) (r :: rs) w'' := by
  have hleft : most.toNat * plan.batchSize.toNat < (front ++ back).length := by
    have := List.length_pos_iff.2 hne
    rw [List.length_append, hfront]
    omega
  have hlen : back.length = (front ++ back).length - most.toNat * plan.batchSize.toNat := by
    rw [List.length_append, hfront, Nat.add_sub_cancel_left]
  refine ⟨.more hsweep ?_ hrun.passes, ?_, fun r' hr' => ?_, ?_, ?_, fun hrotas => ?_⟩
  · rw [hpass.completed_eq]
    exact List.isEmpty_eq_false_iff.2 hne
  · rw [List.map_cons, List.sum_cons, hpass.ticked, hrun.ticked, List.length_append]
  · rcases List.mem_cons.1 hr' with rfl | hr'
    · exact hpass.balanced
    · exact hrun.balanced r' hr'
  · rw [List.map_cons, List.sum_cons, hrun.batches, hpass.batches, hshare, hlen,
      ← SweepPlan.pages_drop hb hleft]
  · rw [List.length_cons, hrun.length, hlen, SweepPlan.passes_drop hb hmax hmost hleft]
  · obtain ⟨os, hos, hcounted⟩ := hpass.inTurn (hrotas k)
    obtain ⟨os', hos', hcounted'⟩ := hrun.inTurn hrotas
    refine ⟨os ++ os', hos.append hos', fun field test hfield => ?_⟩
    rw [List.map_cons, List.sum_cons, hcounted field test hfield, hcounted' field test hfield,
      List.countP_append]

end

def smallestPasses : Config :=
  { Config.standard with mode := .sweep, batchSize := 1, maxBatches? := some 1 }

/-- Two jobs wait, and a worker has room for one of them. -/
def twoWaiting : World :=
  (Engine.initial smallestPasses .silent .epoch).acts (Engine.Operation.program smallestPasses)
    [.call (.heartbeat ⟨⟨.ofNat 1⟩, .empty, 1, .epoch, .everyProject, true⟩),
      .call (.enqueue ⟨⟨.ofNat 2⟩, ⟨.ofNat 4⟩, .empty⟩),
      .call (.enqueue ⟨⟨.ofNat 3⟩, ⟨.ofNat 4⟩, .empty⟩)]

end JobDispatch

import JobDispatch.Proofs.Balance
import JobDispatch.Proofs.Duties
import JobDispatch.Proofs.Strands

/-!
Operations in turn. If operations start, and the clock is set, only where all threads have come to
their ends, then one thread at most is under way, and it goes on as if it ran by itself; failures
that are planned make no difference as long as no call fails (`World.answer_unplanned`). So in such
a run each worker is handed as many jobs as it is offered (`System.Ledger.offers_kept`). With what
strands carry over to passes whose ticks mix, the books of the engine balance wherever no job is
locked (`books_balance`), though not in the middle of an operation (`books_out_of_balance`).
-/

namespace JobDispatch

open Program

/-! ### Failures that do not strike -/

/-- The world without the failures that are planned. -/
def World.unplanned (w : World) : World := { w with queue := .ofQueue w.queue.queue }

def Request.fails (r : Request) (w : World) : Bool :=
  match r with
  | .push job project tags time => !(w.answer (.push job project tags time)).1.toBool
  | .pop job => !(w.answer (.pop job)).1.toBool
  | .lookup job => !(w.answer (.lookup job)).1.toBool
  | .scan limit after => !(w.answer (.scan limit after)).1.toBool
  | .queueLength => !(w.answer .queueLength).1.toBool
  | .queueCounts => !(w.answer .queueCounts).1.toBool
  | _ => false

section

variable {w : World} {α : Type}

lemma World.onQueue_unplanned (hs : w.queue.Sure) (call : QueueCall) (onMiss : Option α)
    (act : Queue → Except DispatchError α × Queue)
    (hok : (!(w.onQueue fun q => q.guarded call onMiss act).1.toBool) = false) :
    (w.onQueue fun q => q.guarded call onMiss act).1 =
        (w.unplanned.onQueue fun q => q.guarded call onMiss act).1 ∧
      (w.onQueue fun q => q.guarded call onMiss act).2.unplanned =
        (w.unplanned.onQueue fun q => q.guarded call onMiss act).2 := by
  have hclear : (FallibleQueue.ofQueue w.queue.queue).guarded call onMiss act =
      ((act w.queue.queue).1, ⟨(act w.queue.queue).2, []⟩) :=
    FallibleQueue.guarded_of_plan_eq_nil call onMiss act rfl
  simp only [onQueue, unplanned] at hok ⊢
  rw [hclear]
  rcases (FallibleQueue.guarded_cases call onMiss act hs).1 with ⟨e, he, -⟩ | ⟨hanswer, hqueue⟩
  · rw [he] at hok
    cases hok
  · rw [hanswer, hqueue]
    exact ⟨rfl, rfl⟩

/-- **Where a call does not fail, it makes no difference that others were to fail.** -/
theorem World.answer_unplanned (hs : w.queue.Sure) {r : Request} (hr : r.fails w = false) :
    (w.answer r).1 = (w.unplanned.answer r).1 ∧
      (w.answer r).2.unplanned = (w.unplanned.answer r).2 := by
  cases r with
  | push job project tags time => exact onQueue_unplanned hs .push none _ hr
  | pop job => exact onQueue_unplanned hs .pop (some false) _ hr
  | lookup job => exact onQueue_unplanned hs .get (some none) _ hr
  | scan limit after => exact onQueue_unplanned hs .scan none _ hr
  | queueLength => exact onQueue_unplanned hs .length none _ hr
  | queueCounts => exact onQueue_unplanned hs .counts none _ hr
  | addJob draft =>
    show (w.addJob draft).1 = (w.unplanned.addJob draft).1 ∧
      (w.addJob draft).2.unplanned = (w.unplanned.addJob draft).2
    unfold addJob
    rw [show w.unplanned.jobs = w.jobs from rfl]
    split
    · exact ⟨rfl, rfl⟩
    · exact ⟨rfl, rfl⟩
  | _ => exact ⟨rfl, rfl⟩

end

/-- Nothing of a trail but its requests says whether offers are kept. -/
lemma Trail.Fulfilled.congr {h h' : Trail} (hh : h.Fulfilled)
    (heq : h.map Prod.fst = h'.map Prod.fst) : h'.Fulfilled := by
  have htally (p : Request → Bool) : h.tally (fun r _ => p r) = h'.tally fun r _ => p r := by
    have hmap (t : Trail) : t.tally (fun r _ => p r) = (t.map Prod.fst).countP p := by
      rw [List.countP_map]
      rfl
    rw [hmap, hmap, heq]
  intro worker
  have hticks := htally fun r => r.metric? == some (.workerTick worker)
  have hhands := htally fun r => r.handover?.any fun p => p.2 == worker
  exact hticks.symm.trans ((hh worker).trans hhands)

/-! ### Runs -/

/-- The move is the beginning of an operation, or an operation of the clock. -/
def Move.begins {κ : Type} : Move κ → Bool
  | .start _ | .setClock _ => true
  | .step _ | .plan .. => false

namespace System

variable {κ ρ : Type} {program : κ → Program ρ} {s : System κ ρ} {footing : Nat → Footing}

/-- Nothing begins along the moves but where all threads have come to their ends. -/
def InTurn (program : κ → Program ρ) : System κ ρ → List (Move κ) → Prop
  | _, [] => True
  | s, m :: moves => (m.begins = true → s.Idle) ∧ (s.move program m).InTurn program moves

instance decidableInTurn : (s : System κ ρ) → (moves : List (Move κ)) →
    Decidable (s.InTurn program moves)
  | _, [] => .isTrue trivial
  | s, m :: moves =>
    have := decidableInTurn (s.move program m) moves
    inferInstanceAs (Decidable ((m.begins = true → s.Idle) ∧ _))

def Unfailing (s : System κ ρ) : Prop := ∀ d ∈ s.deeds, d.request.fails d.world = false

instance : Decidable s.Unfailing :=
  inferInstanceAs (Decidable (∀ d ∈ s.deeds, d.request.fails d.world = false))

/-- One thread at most is under way. Offers were kept by all others, and will have been by this one
if it goes on by itself. -/
structure Solo (s : System κ ρ) (i : Nat) : Prop where
  others_done : ∀ k t, k ≠ i → s.threads[k]? = some t → ∃ a, t.rest = .done a
  others : ∀ k, k ≠ i → (s.trail k).Fulfilled
  own : ∀ t, s.threads[i]? = some t → (s.trail i ++ t.rest.alone s.world.unplanned).Fulfilled ∧
    (t.rest.run s.world.unplanned).2.Still
  unstarted : s.threads[i]? = none → (s.trail i).Fulfilled ∧ s.world.unplanned.Still

namespace Solo

variable {i : Nat}

lemma of_idle (h : s.Solo i) (hs : s.Idle) :
    (∀ k, (s.trail k).Fulfilled) ∧ s.world.unplanned.Still := by
  have hown : (s.trail i).Fulfilled ∧ s.world.unplanned.Still := by
    cases ht : s.threads[i]? with
    | none => exact h.unstarted ht
    | some t =>
      obtain ⟨a, ha⟩ := hs.done ht
      have hown := h.own t ht
      rw [ha] at hown
      exact ⟨hown.1.congr (by rw [alone, List.append_nil]), hown.2⟩
  refine ⟨fun k => ?_, hown.2⟩
  by_cases hk : k = i
  · rw [hk]
    exact hown.1
  · exact h.others k hk

lemma initial {w : World} (hw : w.unplanned.Still) : (System.initial w : System κ ρ).Solo 0 where
  others_done _ _ _ h := by cases h
  others _ _ _ := rfl
  own _ h := by cases h
  unstarted _ := ⟨fun _ => rfl, hw⟩

lemma answered (h : s.Solo i) (hsure : s.world.queue.Sure) {k : Nat} {c : κ} {r : Request}
    {next : r.Answer → Program ρ} (ht : s.threads[k]? = some ⟨c, .ask r next⟩)
    (hr : r.fails s.world = false) : (s.answered k c r next).Solo i := by
  have hlen : k < s.threads.length := (List.getElem?_eq_some_iff.1 ht).1
  have hki : k = i := by
    by_contra hne
    obtain ⟨a, ha⟩ := h.others_done k _ hne ht
    cases ha
  subst hki
  obtain ⟨hanswer, hworld⟩ := World.answer_unplanned hsure hr
  obtain ⟨hkept, hstill⟩ := h.own _ ht
  refine ⟨fun j t hj hthread => ?_, fun j hj => ?_, fun t hthread => ?_, fun hnone => ?_⟩
  · change (s.threads.set k _)[j]? = some t at hthread
    rw [List.getElem?_set_ne (Ne.symm hj)] at hthread
    exact h.others_done j t hj hthread
  · rw [s.trail_answered_of_ne (Ne.symm hj)]
    exact h.others j hj
  · change (s.threads.set k _)[k]? = some t at hthread
    rw [List.getElem?_set_self hlen] at hthread
    cases hthread
    rw [trail_answered_self]
    show Trail.Fulfilled (_ ++ (next (s.world.answer r).1).alone (s.world.answer r).2.unplanned) ∧
      ((next (s.world.answer r).1).run (s.world.answer r).2.unplanned).2.Still
    rw [hanswer, hworld]
    exact ⟨hkept.congr (by simp [alone]), hstill⟩
  · change (s.threads.set k _)[k]? = none at hnone
    rw [List.getElem?_set_self hlen] at hnone
    cases hnone

lemma start (h : s.Solo i) (hs : s.Idle) (hstarted : ∀ d ∈ s.deeds, d.thread < s.threads.length)
    {c : κ} (hprog : (program c).Dutiful) :
    (s.move program (.start c)).Solo s.threads.length := by
  obtain ⟨hkept, hstill⟩ := h.of_idle hs
  refine ⟨fun k t hk ht => ?_, fun k _ => hkept k, fun t ht => ?_, fun hnone => ?_⟩
  · change (s.threads ++ [(⟨c, program c⟩ : Thread κ ρ)])[k]? = some t at ht
    rw [List.getElem?_append] at ht
    split at ht
    · exact hs.done ht
    · rw [List.getElem?_singleton, if_neg (by omega)] at ht
      cases ht
  · change (s.threads ++ [(⟨c, program c⟩ : Thread κ ρ)])[s.threads.length]? = some t at ht
    rw [List.getElem?_concat_length] at ht
    cases ht
    have htrail : s.trail s.threads.length = [] := trail_eq_nil hstarted (Nat.le_refl _)
    show Trail.Fulfilled (s.trail s.threads.length ++ _) ∧ _
    rw [htrail]
    exact ⟨hprog.fulfilled _ hstill, hstill.run hprog.unlocked⟩
  · change (s.threads ++ [(⟨c, program c⟩ : Thread κ ρ)])[s.threads.length]? = none at hnone
    rw [List.getElem?_concat_length] at hnone
    cases hnone

/-- The clock matters to threads that are yet to start only. -/
lemma setClock (h : s.Solo i) (hs : s.Idle) (now : Timestamp) :
    (s.move program (.setClock now)).Solo i := by
  obtain ⟨hkept, hstill⟩ := h.of_idle hs
  have hstill' : ({ s.world with now } : World).unplanned.Still :=
    ⟨hstill.sound.congr rfl rfl hstill.sound.kept.sure rfl, rfl, hstill.listed⟩
  refine ⟨h.others_done, h.others, fun t ht => ?_, fun _ => ⟨hkept i, hstill'⟩⟩
  obtain ⟨a, ha⟩ := hs.done ht
  rw [ha]
  exact ⟨(hkept i).append fun _ => rfl, hstill'⟩

/-- **A move in turn leaves one thread at most under way**, which goes on by itself. -/
theorem move (hprog : ∀ c, (program c).Dutiful) (h : s.Solo i) (hl : s.Ledger footing) (m : Move κ)
    (hm : m.begins = true → s.Idle) (hfine : (s.move program m).Unfailing) :
    ∃ k, (s.move program m).Solo k := by
  cases m with
  | start c => exact ⟨_, h.start (hm rfl) hl.allowed.started (hprog c)⟩
  | setClock now => exact ⟨i, h.setClock (hm rfl) now⟩
  | plan call skip e => exact ⟨i, h.others_done, h.others, h.own, h.unstarted⟩
  | step k =>
    refine ⟨i, ?_⟩
    show (s.step k).Solo i
    change (s.step k).Unfailing at hfine
    rcases s.step_eq_or_answered k with hstep | ⟨c, r, next, ht, hstep⟩
    · rw [hstep]
      exact h
    · rw [hstep] at hfine ⊢
      exact h.answered hl.sound.world.kept.sure ht (hfine _ List.mem_cons_self)

end Solo

lemma Unfailing.of_move (m : Move κ) (h : (s.move program m).Unfailing) : s.Unfailing := by
  cases m with
  | step k =>
    change (s.step k).Unfailing at h
    rcases s.step_eq_or_answered k with hstep | ⟨c, r, next, ht, hstep⟩
    · rwa [hstep] at h
    · rw [hstep] at h
      exact fun d hd => h d (List.mem_cons_of_mem _ hd)
  | _ => exact h

lemma Unfailing.of_run (moves : List (Move κ)) (h : (s.run program moves).Unfailing) :
    s.Unfailing := by
  induction moves generalizing s with
  | nil => exact h
  | cons m moves ih => exact (ih h).of_move m

theorem Solo.run {i : Nat} (hprog : ∀ c, (program c).Dutiful)
    (hleasing : ∀ c, Leasing (program c)) (h : s.Solo i) (hl : s.Ledger footing)
    {moves : List (Move κ)} (hplain : ∀ m ∈ moves, m.Plain) (hturn : s.InTurn program moves)
    (hfine : (s.run program moves).Unfailing) : ∃ k, (s.run program moves).Solo k := by
  induction moves generalizing s footing i with
  | nil => exact ⟨i, h⟩
  | cons m moves ih =>
    have hfine' : (s.move program m).Unfailing := Unfailing.of_run moves hfine
    obtain ⟨k, hk⟩ := h.move hprog hl m hturn.1 hfine'
    exact ih hk (hl.move hleasing m (hplain m List.mem_cons_self))
      (fun m' hm' => hplain m' (List.mem_cons_of_mem _ hm')) hturn.2 hfine

/-- **Where all offers were kept, each worker was handed as many jobs as it was offered.** -/
theorem Ledger.offers_kept (h : s.Ledger footing) (hkept : ∀ i, (s.trail i).Fulfilled)
    (worker : WorkerId) :
    s.metrics.count (.workerTick worker) = s.handovers.countP fun p => p.2 == worker := by
  rw [countP_handovers, count_metrics, tally_eq_sum h.allowed.started,
    tally_eq_sum h.allowed.started]
  exact Finset.sum_congr rfl fun i _ => hkept i worker

end System

/-! ### The engine -/

section

variable {κ ρ : Type} {program program' : κ → Program ρ} {s : System κ ρ} {moves : List (Move κ)}

lemma System.run_congr (h : ∀ k, .start k ∈ moves → program k = program' k) :
    s.run program moves = s.run program' moves ∧
      (s.InTurn program moves → s.InTurn program' moves) := by
  induction moves generalizing s with
  | nil => exact ⟨rfl, id⟩
  | cons m moves ih =>
    have hmove : s.move program m = s.move program' m := by
      cases m with
      | start k => simp only [System.move, h k List.mem_cons_self]
      | _ => rfl
    obtain ⟨hrun, hturn⟩ := ih (s := s.move program m) fun k hk => h k (List.mem_cons_of_mem _ hk)
    rw [hmove] at hrun hturn
    exact ⟨(congrArg (·.run program moves) hmove).trans hrun,
      fun h => ⟨h.1, hturn (hmove ▸ h.2)⟩⟩

end

namespace Engine.Call

def serial : Engine.Call → Engine.Operation
  | operation o => o
  | sweep _ => .sweep

def Unmixed (plan : SweepPlan) : Engine.Call → Prop
  | operation _ => True
  | sweep rota => rota.Unmixed plan

lemma Unmixed.program_eq {c : Config} {k : Engine.Call} (h : k.Unmixed c.sweepPlan) :
    k.program c = k.serial.program c := by
  cases k with
  | operation o => rfl
  | sweep rota => exact congrArg discard (sweepBy_eq h c.untaggedOnly)

end Engine.Call

/-- **The books balance**, whatever operations take turns, in whatever order the ticks of a pass
come on, whenever the clock is set, and whichever calls on the queue fail, as long as none of them
fails as if for an entry that is there already and the counters have room. No entry is ever refused
or missed, no job is handed to workers twice, and no worker is handed more jobs than it was offered.
Wherever no job is locked, as at the end of each operation while no other has one locked, the
counters agree with jobs and queue, and with the claims that have handed a job over, which are those
that reply so. If no operation begins and the clock is not set while an operation is in progress, no
ticks of a pass mix, and no call on the queue has failed, each worker was handed all the jobs that
it was offered. -/
theorem books_balance (c : Config) (now : Timestamp) (moves : List (Move Engine.Call))
    (hplain : ∀ m ∈ moves, m.Plain) :
    let program := Engine.Call.program c
    let s₀ : System Engine.Call Unit :=
      System.initial (Engine.initial c (.counting .zero) now)
    let s := s₀.run program moves
    s.metrics.length < UInt64.size →
    ∃ books, s.world.sink = .counting books ∧
      books.duplicateEntries = 0 ∧ books.consistencyViolations = 0 ∧
      (s.handovers.map Prod.fst).Nodup ∧
      (∀ worker, s.handovers.countP (fun p => p.2 == worker) ≤
        (books.read (.workerTick worker)).toNat) ∧
      (s.Idle → s.Quiet) ∧ (s.Quiet → s.Balanced books) ∧
      (∀ id worker t a, (claim id worker).Leads t a → HandedOver worker t a) ∧
      (s₀.InTurn program moves → (∀ k, .start k ∈ moves → k.Unmixed c.sweepPlan) →
        s.Unfailing → s.Idle → ∀ worker, (books.read (.workerTick worker)).toNat =
          s.handovers.countP fun p => p.2 == worker) := by
  intro program s₀ s hfew
  -- the books are kept strand by strand
  have hstart : (System.initial (Engine.initial c (.counting .zero) now) : Unravelled).Ledger
    fun _ => .start := .initial _ now
  obtain ⟨moves', hplain', hs⟩ := (Unravels.initial (c := c) _).run moves hplain
  have hstrands (q : Nat × Strand) : Leasing (Unravelled.program c q) := q.2.program_leasing c
  obtain ⟨footing, hledger⟩ := hstart.run hstrands moves' hplain'
  have hmetrics : _ = s.metrics := hs.metrics
  have hhandovers : _ = s.handovers := hs.handovers
  have hticks (worker : WorkerId) :
      ((Counters.ofMetrics s.metrics).read (.workerTick worker)).toNat =
        s.metrics.count (.workerTick worker) := Counters.toNat_read hfew nofun
  have hcalm := hledger.calm
  rw [hmetrics] at hcalm
  have hzero {m : Metric} (hm : ∀ n ∈ s.metrics, n ≠ m) (hgauge : ∀ k, m ≠ .activeWorkers k) :
      (Counters.ofMetrics s.metrics).read m = 0 := by
    rw [Counters.read_ofMetrics _ hgauge, List.count_eq_zero.2 fun hmem => hm m hmem rfl]
    rfl
  refine ⟨.ofMetrics s.metrics, ?_, hzero (fun n hn => (hcalm n hn).1) nofun,
    hzero (fun n hn => (hcalm n hn).2) nofun, ?_, fun worker => ?_,
    fun hidle => hs.quiet_iff.1 (hledger.quiet (hs.idle hidle)), fun hquiet => ?_,
    fun _ _ _ _ => claim_handovers, fun hturn hunmixed hfine hidle worker => ?_⟩
  · rw [← hmetrics, ← hs.world]
    exact hledger.sink
  · rw [← hhandovers]
    exact hledger.handed_once
  · rw [hticks, ← hhandovers, ← hmetrics]
    exact hledger.offered worker
  · have hbalanced := hledger.balanced (hs.quiet_iff.2 hquiet) (hmetrics ▸ hfew)
    rw [hmetrics] at hbalanced
    exact hs.balanced hbalanced
  · -- one operation comes after the other, as if there were no pools
    have hserially : ∀ k, .start k ∈ moves → program k = k.serial.program c :=
      fun k hk => (hunmixed k hk).program_eq
    obtain ⟨hrun, hturn'⟩ := System.run_congr (s := s₀) hserially
    have hleasing (k : Engine.Call) : Leasing (k.serial.program c) := k.serial.program_leasing c
    have hinitial : s₀.Ledger fun _ => .start := .initial _ now
    have hstill : (Engine.initial c (.counting .zero) now).unplanned.Still :=
      ⟨World.sound_initial _ _ now, rfl, Queue.aligned_empty.toListed⟩
    obtain ⟨_, hserial⟩ := hinitial.run hleasing moves hplain
    obtain ⟨i, hsolo⟩ := (System.Solo.initial hstill).run (fun k => k.serial.program_dutiful c)
      hleasing hinitial hplain (hturn' hturn) (hrun ▸ hfine)
    rw [← hrun] at hserial hsolo
    rw [hticks]
    exact hserial.offers_kept (hsolo.of_idle hidle).1 worker

def Engine.Call.steps (k : Engine.Call) (i n : Nat) : List (Move Engine.Call) :=
  .start k :: List.replicate n (.step i)

lemma Engine.Call.plain_of_mem_steps {k : Engine.Call} {i n : Nat} :
    ∀ m ∈ k.steps i n, m.Plain := by
  refine List.forall_mem_cons.2 ⟨trivial, fun m hm => ?_⟩
  rw [(List.mem_replicate.1 hm).2]
  trivial

lemma Engine.Call.start_mem_steps {k k' : Engine.Call} {i n : Nat} :
    .start k' ∈ k.steps i n ↔ k' = k := by
  simp [steps]

/-- A worker waits for a job, and a job is queued, which the worker gets and which succeeds later,
before a pass that finds nothing. A call on the queue is to fail that does not come. -/
def deliveredInTurn : List (Move Engine.Call) :=
  .plan .pop 5 (.leaseTaken "queue") ::
    (Engine.Call.steps (.operation
      (.heartbeat ⟨⟨.ofNat 1⟩, .empty, 1, .epoch, .everyProject, true⟩)) 0 3 ++
    Engine.Call.steps (.operation (.enqueue ⟨⟨.ofNat 2⟩, ⟨.ofNat 3⟩, .empty⟩)) 1 21 ++
    .setClock ⟨1, by decide, by decide⟩ ::
    Engine.Call.steps (.operation (.changeState ⟨.ofNat 2⟩ ⟨.running, .success⟩)) 2 7 ++
    Engine.Call.steps (.sweep .plain) 3 20)

def undelivered : System Engine.Call Unit :=
  System.initial (Engine.initial .standard (.counting .zero) .epoch)

def delivered : System Engine.Call Unit :=
  undelivered.run (Engine.Call.program .standard) deliveredInTurn

theorem books_balance_delivered : ∃ books, delivered.world.sink = .counting books ∧
    delivered.Balanced books ∧ (books.read (.workerTick ⟨.ofNat 1⟩)).toNat = 1 := by
  have hplain : ∀ m ∈ deliveredInTurn, m.Plain := by
    simp only [deliveredInTurn, List.forall_mem_cons, List.forall_mem_append]
    have hsteps := @Engine.Call.plain_of_mem_steps
    exact ⟨fun _ h => (by cases h), ⟨⟨hsteps, hsteps⟩, trivial, hsteps⟩, hsteps⟩
  have hunmixed : ∀ k, .start k ∈ deliveredInTurn → k.Unmixed Config.standard.sweepPlan := by
    intro k hk
    simp only [deliveredInTurn, List.mem_cons, List.mem_append, reduceCtorEq, false_or,
      Engine.Call.start_mem_steps] at hk
    rcases hk with ((rfl | rfl) | rfl) | rfl
    all_goals first | trivial | exact Rota.plain_unmixed _
  have hturn : undelivered.InTurn (Engine.Call.program .standard) deliveredInTurn := by
    decide +kernel
  have hfew : delivered.metrics.length < UInt64.size := by decide +kernel
  have hfine : delivered.Unfailing := by decide +kernel
  have hidle : delivered.Idle := by decide +kernel
  have hhanded : delivered.handovers = [(⟨.ofNat 2⟩, ⟨.ofNat 1⟩)] := by decide +kernel
  obtain ⟨books, hsink, -, -, -, -, hquiet, hbalanced, -, hexact⟩ :=
    books_balance .standard .epoch deliveredInTurn hplain hfew
  have hticked := hexact hturn hunmixed hfine hidle ⟨.ofNat 1⟩
  change _ = delivered.handovers.countP _ at hticked
  rw [hhanded] at hticked
  unfold delivered undelivered
  exact ⟨books, hsink, hbalanced (hquiet hidle), hticked⟩

/-! ### Where they do not -/

/-- An engine that ticks in passes only, and on demand. -/
def ticksAside : Config := { Config.standard with mode := .sweep }

def aside (moves : List (Move Engine.Call)) : System Engine.Call Unit :=
  (System.initial (Engine.initial ticksAside (.counting .zero) .epoch)).run
    (Engine.Call.program ticksAside) moves

/-- A job is queued up to where its entry is counted, but its record not yet stored. Then another
job is registered, and that operation is at its end. -/
def halfQueued : List (Move Engine.Call) :=
  Engine.Call.steps (.operation (.enqueue ⟨⟨.ofNat 2⟩, ⟨.ofNat 3⟩, .empty⟩)) 0 5 ++
    Engine.Call.steps (.operation (.register ⟨⟨.ofNat 4⟩, ⟨.ofNat 3⟩, .empty⟩)) 1 1

/-- Two jobs are queued, and there is a worker with a place for one of them. -/
def twoForOne : List (Move Engine.Call) :=
  Engine.Call.steps (.operation (.enqueue ⟨⟨.ofNat 2⟩, ⟨.ofNat 3⟩, .empty⟩)) 0 7 ++
    Engine.Call.steps (.operation (.enqueue ⟨⟨.ofNat 4⟩, ⟨.ofNat 3⟩, .empty⟩)) 1 7 ++
    Engine.Call.steps (.operation
      (.heartbeat ⟨⟨.ofNat 1⟩, .empty, 1, .epoch, .everyProject, true⟩)) 2 2

/-- One of the jobs is ticked, and while it is offered to the worker the clock is set to where the
worker has not been heard of for a day. -/
def lapsed : List (Move Engine.Call) :=
  twoForOne ++ Engine.Call.steps (.operation (.tick ⟨.ofNat 2⟩)) 3 5 ++
    .setClock ⟨86400000000000, by decide, by decide⟩ :: List.replicate 10 (.step 3)

/-- A pass ticks both jobs at once, each offered to the worker before it takes one. -/
def crowded : List (Move Engine.Call) :=
  twoForOne ++ Engine.Call.steps (.sweep fun _ => [0, 1, 0, 1, 0, 1, 0, 1]) 3 40

/-- **Books may be out of balance** at the end of an operation while another has a job locked; and
workers may be offered more jobs than they get where the clock is set during an operation, or ticks
of a pass mix, though operations come in turn and no call fails. -/
theorem books_out_of_balance :
    ((aside halfQueued).threads[1]?.any (fun t => t.rest.isDone) = true ∧
      (aside halfQueued).Unfailing ∧
      ∃ books, (aside halfQueued).world.sink = .counting books ∧ books.queuePush = 1 ∧
        (aside halfQueued).world.jobsIn (· != .created) = 0 ∧
        (aside halfQueued).world.queue.queue.length = 1 ∧
        (aside halfQueued).world.jobsIn (· == .pending) = 0) ∧
    ((aside lapsed).Unfailing ∧ (aside lapsed).Idle ∧ (aside lapsed).handovers = [] ∧
      ∃ books, (aside lapsed).world.sink = .counting books ∧
        books.read (.workerTick ⟨.ofNat 1⟩) = 1) ∧
    (System.initial (Engine.initial ticksAside (.counting .zero) .epoch)).InTurn
        (Engine.Call.program ticksAside) crowded ∧
      (aside crowded).Unfailing ∧ (aside crowded).Idle ∧ (aside crowded).handovers.length = 1 ∧
      ∃ books, (aside crowded).world.sink = .counting books ∧
        books.read (.workerTick ⟨.ofNat 1⟩) = 2 := by
  refine ⟨⟨?_, ?_, { Counters.zero with queuePush := 1 }, ?_, rfl, ?_⟩, ⟨?_, ?_, ?_, ?_⟩,
    ?_, ?_, ?_, ?_, ?_⟩
  · decide +kernel
  · decide +kernel
  · decide +kernel
  · decide +kernel
  · decide +kernel
  · decide +kernel
  · decide +kernel
  · exact ⟨{ Counters.zero with
      queuePush := 2, workerTicks := Table.empty.insert ⟨.ofNat 1⟩ 1 }, by decide +kernel, rfl⟩
  · decide +kernel
  · decide +kernel
  · decide +kernel
  · decide +kernel
  · exact ⟨{ Counters.zero with
      queuePush := 2, queuePopClaimed := 1, activeWorkers := 1,
      workerTicks := Table.empty.insert ⟨.ofNat 1⟩ 2 }, by decide +kernel, rfl⟩

end JobDispatch

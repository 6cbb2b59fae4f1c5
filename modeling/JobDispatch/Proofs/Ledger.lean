import JobDispatch.Proofs.Histories
import JobDispatch.Proofs.Lockstep
import JobDispatch.Proofs.Tallies

/-!
The books of a run. As long as no failure of the queue passes for an entry that is there already, an
entry is never refused and never missed, because the job that a thread has locked bears out what its
stage says (`Stage.BorneOut`). So the counts of a run agree with what its threads have done, up to
what they have still to count (`System.Ledger`, `Ledger.run`).
-/

namespace JobDispatch

open Program

/-! ### What a thread finds -/

/-- What the thread has locked bears out its stage. -/
def Stage.BorneOut (stage : Stage) (tenure? : Option Tenure) : Prop :=
  match stage with
  | .clear => True
  | .found job => ∃ t, tenure? = some t ∧ t.job = job ∧
      (t.queued?.isSome = true ↔ job.state = .pending)
  | .refused | .missed => False
  | _ => tenure?.isSome = true

/-- The failure does not pass for an entry that is there already. -/
def Failure.Plain (failure : Failure) : Prop := ∀ id, failure ≠ .error (.duplicateEntry id)

def Move.Plain {κ : Type} : Move κ → Prop
  | .plan _ _ e => Failure.Plain (.error e)
  | _ => True

section

variable {w : World} {held : Holders} {f : Footing} {x : Standing} {r : Request}
  {post : r.Answer → Footing → Prop}

lemma Stage.BorneOut.revise {stage : Stage} (h : stage.BorneOut f.tenure?) {g : Tenure → Tenure}
    (hg : ∀ t, f.tenure? = some t → (g t).job = t.job ∧ (g t).queued? = t.queued?) :
    stage.BorneOut (f.revise g).tenure? := by
  cases stage with
  | found job =>
    obtain ⟨t, ht, hjob, hqueued⟩ := h
    refine ⟨g t, by rw [Footing.revise_eq_hold g ht, Footing.tenure?_hold],
      (hg t ht).1.trans hjob, ?_⟩
    rw [(hg t ht).2]
    exact hqueued
  | clear => trivial
  | refused | missed => exact h
  | entered | left | handing | counted =>
    show (f.tenure?.map g).isSome = true
    rw [Option.isSome_map]
    exact h

/-- An entry is not refused: the job that is locked has none. -/
lemma Standing.borneOut_push {id : JobId} {project : ProjectId} {tags : Tags} {time : Timestamp}
    {post : Except DispatchError Receipt → Footing → Prop}
    (hx : x.Allows (.push id project tags time))
    (hp : Request.Permitted (.push id project tags time) f post)
    (hk : w.Kept held) (hf : ∀ t, f.tenure? = some t → held t.job.id = some t)
    (hplan : ∀ f ∈ w.queue.plan, f.failure.Plain) (hb : x.stage.BorneOut f.tenure?) :
    (x.after (.push id project tags time) w).stage.BorneOut
      (f.after (.push id project tags time) w).tenure? := by
  obtain ⟨stage, offered?⟩ := x
  obtain ⟨found, rfl : stage = _⟩ := hx
  obtain ⟨t, ht, rfl, -, hnone, -⟩ := hp
  obtain ⟨-, hget⟩ := hk.tenure (hf t ht)
  have hafter (x : Standing) : x.after (.push t.job.id project tags time) w =
    x.afterPush (w.answer (.push t.job.id project tags time)).1 := rfl
  rw [hafter]
  rcases World.push_cases hk.sure project tags time (hget.trans hnone) with
    ⟨e, he, hq⟩ | ⟨receipt, hr, -⟩
  · have hplain : Failure.Plain (.error e) := by
      refine (FallibleQueue.guarded_error .push none
        (fun q => q.push t.job.id project tags time) hplan he).resolve_right ?_
      rw [Queue.push_of_get?_eq_none _ _ _ _ _ (hget.trans hnone)]
      exact nofun
    have hstay (x : Standing) : x.afterPush (.error e) = x := by
      cases e with
      | duplicateEntry id => exact absurd rfl (hplain id)
      | _ => rfl
    rw [he, hstay]
    refine hb.revise fun t' ht' => ⟨rfl, ?_⟩
    rw [ht] at ht'
    cases ht'
    rw [hq, hget]
  · rw [hr]
    show (f.tenure?.map _).isSome = true
    rw [ht]
    rfl

/-- An entry is not missed: the job that is locked is pending. -/
lemma Standing.borneOut_pop {id : JobId} {post : Except DispatchError Bool → Footing → Prop}
    (hx : x.Allows (.pop id)) (hp : Request.Permitted (.pop id) f post) (hk : w.Kept held)
    (hf : ∀ t, f.tenure? = some t → held t.job.id = some t) (hb : x.stage.BorneOut f.tenure?) :
    (x.after (.pop id) w).stage.BorneOut (f.after (.pop id) w).tenure? := by
  obtain ⟨stage, offered?⟩ := x
  obtain ⟨found, rfl : stage = _, hpending⟩ := hx
  obtain ⟨t, ht, rfl, -⟩ := hp
  obtain ⟨-, hget⟩ := hk.tenure (hf t ht)
  have hafter (x : Standing) : x.after (.pop t.job.id) w =
    x.afterPop (w.answer (.pop t.job.id)).1 := rfl
  rw [hafter]
  rcases World.pop_cases hk.sure t.job.id with ⟨e, he, hq⟩ | ⟨hr, -⟩
  · rw [he]
    refine hb.revise fun t' ht' => ⟨rfl, ?_⟩
    rw [ht] at ht'
    cases ht'
    rw [hq, hget]
  · obtain ⟨t', ht', rfl, hqueued⟩ := hb
    rw [ht] at ht'
    cases ht'
    rw [hr, hget, hqueued.2 hpending]
    show (f.tenure?.map _).isSome = true
    rw [ht]
    rfl

/-- **What a thread has locked goes on to bear out its stage.** -/
theorem Standing.borneOut_after (hx : x.Allows r) (hp : r.Permitted f post) (hk : w.Kept held)
    (hf : ∀ t, f.tenure? = some t → held t.job.id = some t)
    (hfree : ∀ id, r = .lockJob id → held id = none)
    (hplan : ∀ f ∈ w.queue.plan, f.failure.Plain) (hb : x.stage.BorneOut f.tenure?) :
    (x.after r w).stage.BorneOut (f.after r w).tenure? := by
  cases r with
  | push id project tags time => exact borneOut_push hx hp hk hf hplan hb
  | pop id => exact borneOut_pop hx hp hk hf hb
  | lockJob id =>
    have hstage : x.stage = .clear := hx
    have hafter : x.after (.lockJob id) w = x.afterLock (w.jobs.find? id) := rfl
    have hagree := hk.agree id
    rw [hafter]
    simp only [Footing.after]
    cases hjob : w.jobs.find? id with
    | none =>
      show x.stage.BorneOut _
      rw [hstage]
      trivial
    | some job =>
      rw [hjob, hfree id rfl] at hagree
      exact ⟨_, rfl, rfl, hagree.2.queued_iff⟩
  | count m =>
    cases m with
    | queuePush =>
      rw [show x.stage = .entered from hx] at hb
      exact hb
    | queuePop kind =>
      rw [show x.stage = .left from hx] at hb
      cases kind <;> exact hb
    | _ => exact hb
  | takePlace worker =>
    simp only [Footing.after]
    split
    · exact hb.revise fun _ _ => ⟨rfl, rfl⟩
    · exact hb
  | release worker => exact hb.revise fun _ _ => ⟨rfl, rfl⟩
  | storeJob record | unlockJob id => trivial
  | _ => exact hb

lemma Standing.calm (hx : x.Allows r) (hb : x.stage.BorneOut f.tenure?) :
    r.metric? ≠ some .duplicateEntry ∧ r.metric? ≠ some .consistencyViolation := by
  cases r with
  | count m =>
    cases m with
    | duplicateEntry =>
      rw [show x.stage = .refused from hx] at hb
      exact False.elim hb
    | consistencyViolation =>
      rw [show x.stage = .missed from hx] at hb
      exact False.elim hb
    | _ => exact ⟨nofun, nofun⟩
  | _ => exact ⟨nofun, nofun⟩

end

/-! ### The sink -/

namespace Counters

/-- The count of a metric; the gauge of active workers has none. -/
def read (c : Counters) : Metric → UInt64
  | .queuePush => c.queuePush
  | .queuePop .claimed => c.queuePopClaimed
  | .queuePop .unclaimed => c.queuePopUnclaimed
  | .activeWorkers _ => 0
  | .workerTick worker => (c.workerTicks.find? worker).getD 0
  | .duplicateEntry => c.duplicateEntries
  | .consistencyViolation => c.consistencyViolations

/-- What a sink has counted after the metrics, the latest of which is the first. -/
def ofMetrics (ms : List Metric) : Counters := ms.foldr (fun m c => c.record m) .zero

lemma read_record (c : Counters) (m : Metric) {n : Metric} (hn : ∀ k, n ≠ .activeWorkers k) :
    (c.record m).read n = c.read n + if m = n then 1 else 0 := by
  cases n with
  | activeWorkers k => exact absurd rfl (hn k)
  | workerTick worker =>
    cases m with
    | workerTick other =>
      simp only [record, read, Table.find?_insert, Metric.workerTick.injEq]
      by_cases h : worker = other
      · simp [h]
      · simp [h, Ne.symm h]
    | queuePop kind => cases kind <;> simp [record, read]
    | _ => simp [record, read]
  | queuePop kind =>
    cases kind <;> cases m with
    | queuePop other => cases other <;> simp [record, read]
    | _ => simp [record, read]
  | _ =>
    cases m with
    | queuePop other => cases other <;> simp [record, read]
    | _ => simp [record, read]

theorem read_ofMetrics (ms : List Metric) {n : Metric} (hn : ∀ k, n ≠ .activeWorkers k) :
    (ofMetrics ms).read n = UInt64.ofNat (ms.count n) := by
  induction ms with
  | nil => cases n <;> first | rfl | (rename_i k; cases k <;> rfl)
  | cons m ms ih =>
    show ((ofMetrics ms).record m).read n = _
    rw [read_record _ _ hn, ih, List.count_cons]
    by_cases h : m = n
    · simp [h]
    · simp [h]

lemma toNat_read {ms : List Metric} (hms : ms.length < UInt64.size) {n : Metric}
    (hn : ∀ k, n ≠ .activeWorkers k) : ((ofMetrics ms).read n).toNat = ms.count n := by
  rw [read_ofMetrics ms hn, UInt64.toNat_ofNat_of_lt']
  exact Nat.lt_of_le_of_lt List.count_le_length hms

end Counters

lemma World.sink_answer (w : World) (r : Request) :
    (w.answer r).2.sink = match r.metric? with
      | some m => w.sink.record m
      | none => w.sink := by
  cases r with
  | addJob draft =>
    simp only [World.answer, World.addJob]
    split <;> rfl
  | _ => rfl

/-! ### The books of a run -/

namespace System

variable {κ ρ : Type} {program : κ → Program ρ} {s : System κ ρ} {footing : Nat → Footing}

def metrics (s : System κ ρ) : List Metric := s.deeds.filterMap fun d => d.request.metric?

/-- The jobs that were handed to workers, and to which, the latest first. -/
def handovers (s : System κ ρ) : List (JobId × WorkerId) :=
  s.deeds.filterMap fun d => d.request.handover?

lemma count_metrics (s : System κ ρ) (m : Metric) :
    s.metrics.count m = s.tally (Request.counts m) := by
  rw [metrics, List.count_filterMap]
  rfl

lemma length_handovers (s : System κ ρ) : s.handovers.length = s.tally Request.hands :=
  List.length_filterMap_eq_countP

lemma countP_handovers (s : System κ ρ) (worker : WorkerId) :
    s.handovers.countP (fun p => p.2 == worker) = s.tally (Request.handsTo worker) := by
  rw [handovers, List.countP_filterMap]
  refine List.countP_congr fun d _ => ?_
  rw [Request.handsTo]
  cases d.request.handover? <;> rfl

lemma length_entered (s : System κ ρ) : s.entered.length = s.tally Request.admits := by
  rw [entered, List.length_filterMap_eq_countP]
  refine List.countP_congr fun d _ => ?_
  rw [Request.admits, World.admits_eq]

lemma length_left (s : System κ ρ) : s.left.length = s.tally Request.removes :=
  List.length_filterMap_eq_countP

lemma metrics_answered (s : System κ ρ) (i : Nat) (c : κ) (r : Request)
    (next : r.Answer → Program ρ) :
    (s.answered i c r next).metrics = r.metric?.toList ++ s.metrics := by
  show ((⟨i, c, r, s.world⟩ :: s.deeds : List (Deed κ)).filterMap _) = _
  rw [List.filterMap_cons]
  cases r.metric? <;> rfl

lemma handovers_answered (s : System κ ρ) (i : Nat) (c : κ) (r : Request)
    (next : r.Answer → Program ρ) :
    (s.answered i c r next).handovers = r.handover?.toList ++ s.handovers := by
  show ((⟨i, c, r, s.world⟩ :: s.deeds : List (Deed κ)).filterMap _) = _
  rw [List.filterMap_cons]
  cases r.handover? <;> rfl

/-- What holds of the books of a run, as long as no failure of the queue passes for an entry that is
there already. -/
structure Ledger (s : System κ ρ) (footing : Nat → Footing) : Prop where
  sound : s.Sound (fun _ _ f => f.tenure? = none) footing
  admitted : s.world.Admitted s.entered s.left
  allowed : s.AllAlong fun _ h r _ => h.standing.Allows r
  squared : ∀ i, (s.trail i).Squared
  borneOut : ∀ i, (s.trail i).standing.stage.BorneOut (footing i).tenure?
  plain : ∀ f ∈ s.world.queue.plan, f.failure.Plain
  calm : ∀ m ∈ s.metrics, m ≠ .duplicateEntry ∧ m ≠ .consistencyViolation
  sink : s.world.sink = .counting (.ofMetrics s.metrics)
  /-- A job that was handed over is not handed over again. -/
  handed_once : (s.handovers.map Prod.fst).Nodup
  handed : ∀ p ∈ s.handovers, ∃ job, s.world.jobs.find? p.1 = some job ∧
    JobState.running.rank ≤ job.state.rank

namespace Ledger

variable {i : Nat} {c : κ} {r : Request} {next : r.Answer → Program ρ}

lemma initial (staleAfter : Int) (now : Timestamp) :
    (System.initial (World.initial staleAfter (.counting .zero) now) : System κ ρ).Ledger
      fun _ => .start where
  sound := .initial (World.sound_initial staleAfter _ now)
  admitted := .initial staleAfter _ now
  allowed := .initial _
  squared _ := .nil
  borneOut _ := trivial
  plain _ h := absurd h List.not_mem_nil
  calm _ h := absurd h List.not_mem_nil
  sink := rfl
  handed_once := .nil
  handed _ h := absurd h List.not_mem_nil

lemma handed_answered (h : s.Ledger footing) (ht : s.threads[i]? = some ⟨c, .ask r next⟩) :
    ((s.answered i c r next).handovers.map Prod.fst).Nodup ∧
      ∀ p ∈ (s.answered i c r next).handovers, ∃ job,
        (s.answered i c r next).world.jobs.find? p.1 = some job ∧
          JobState.running.rank ≤ job.state.rank := by
  have hp := h.sound.permitted ht
  have hown : ∀ t, (footing i).tenure? = some t → s.holders footing t.job.id = some t :=
    fun t htenure => h.sound.tenure htenure
  have hold : ∀ p ∈ s.handovers, ∃ job, (s.world.answer r).2.jobs.find? p.1 = some job ∧
      JobState.running.rank ≤ job.state.rank := fun p hmem => by
    obtain ⟨job, hjob, hrank⟩ := h.handed p hmem
    obtain ⟨job', hjob', hle⟩ := h.sound.world.kept.advance hp hown hjob
    exact ⟨job', hjob', hrank.trans hle⟩
  rw [handovers_answered]
  cases hhand : r.handover? with
  | none => exact ⟨h.handed_once, hold⟩
  | some p =>
    -- the job was pending until now
    obtain ⟨record, rfl, hstate, hid⟩ : ∃ record, r = .storeJob record ∧
        record.state = .running ∧ p.1 = record.id := by
      cases r with
      | storeJob record =>
        simp only [Request.handover?] at hhand
        split at hhand
        · rename_i hstate
          obtain ⟨worker, -, rfl⟩ := Option.map_eq_some_iff.1 hhand
          exact ⟨record, rfl, hstate, rfl⟩
        · cases hhand
      | _ => cases hhand
    obtain ⟨t, htenure, hfol, -⟩ := hp
    have hbefore := (h.sound.world.kept.tenure (hown t htenure)).1
    have hlt := Edge.rank_lt hfol.edge
    refine ⟨List.nodup_cons.2 ⟨fun hmem => ?_, h.handed_once⟩, fun q hq => ?_⟩
    · obtain ⟨q, hq, hqid⟩ := List.mem_map.1 hmem
      obtain ⟨job, hjob, hrank⟩ := h.handed q hq
      rw [hqid, hid, hfol.id, hbefore] at hjob
      cases hjob
      rw [hstate] at hlt
      exact Nat.lt_irrefl _ (Nat.lt_of_lt_of_le hlt hrank)
    · rcases List.mem_cons.1 hq with rfl | hq
      · refine ⟨record, ?_, by rw [hstate]⟩
        rw [hid]
        exact Table.find?_insert_self _ _ _
      · exact hold q hq

/-- **An answer to one thread keeps the books.** -/
theorem answered (h : s.Ledger footing) (ht : s.threads[i]? = some ⟨c, .ask r next⟩)
    (hw : s.waits r = false) (hallowed : (s.answered i c r next).AllAlong
      fun _ h r _ => h.standing.Allows r) :
    (s.answered i c r next).Ledger
      (Function.update footing i ((footing i).after r s.world)) := by
  have hp := h.sound.permitted ht
  have hown : ∀ t, (footing i).tenure? = some t → s.holders footing t.job.id = some t :=
    fun t htenure => h.sound.tenure htenure
  have hallows : (s.trail i).standing.Allows r := h.allowed.next ht
  obtain ⟨honce, hhanded⟩ := h.handed_answered ht
  refine ⟨h.sound.answered ht hw, ?_, hallowed, ?_, ?_, World.plan_answer h.plain r, ?_, ?_, honce,
    hhanded⟩
  · rw [entered_answered, left_answered]
    exact h.admitted.answer h.sound.world.kept hp hown
  · intro k
    by_cases hk : k = i
    · subst hk
      rw [trail_answered_self]
      exact (h.squared k).append hallows _
    · rw [s.trail_answered_of_ne (Ne.symm hk)]
      exact h.squared k
  · intro k
    by_cases hk : k = i
    · subst hk
      rw [trail_answered_self, Trail.standing_append, Function.update_self]
      exact Standing.borneOut_after hallows hp h.sound.world.kept hown
        (Sound.free_of_not_waits hw) h.plain (h.borneOut k)
    · rw [s.trail_answered_of_ne (Ne.symm hk), Function.update_of_ne hk]
      exact h.borneOut k
  · intro m hm
    rw [metrics_answered] at hm
    rcases List.mem_append.1 hm with hm | hm
    · have hmetric : r.metric? = some m := Option.mem_toList.1 hm
      obtain ⟨hduplicate, hviolation⟩ := Standing.calm hallows (h.borneOut i)
      rw [hmetric] at hduplicate hviolation
      exact ⟨fun hm => hduplicate (congrArg some hm), fun hm => hviolation (congrArg some hm)⟩
    · exact h.calm m hm
  · show (s.world.answer r).2.sink = _
    rw [World.sink_answer, metrics_answered, h.sink]
    cases r.metric? <;> rfl

/-- **A move keeps the books.** -/
theorem move (hprog : ∀ c, Leasing (program c)) (h : s.Ledger footing) (m : Move κ)
    (hm : m.Plain) : (s.move program m).Ledger (s.footingAfter footing m) := by
  have hsound (m : Move κ) := h.sound.move (fun c => (hprog c).unlocked_of_leasing []) m
  have hallowed := h.allowed.move
    (fun c w => Program.Proper.along (h := []) (hprog c).proper_of_leasing w) m
  cases m with
  | step i =>
    change (s.step i).AllAlong _ at hallowed
    rcases s.step_cases footing i with ⟨hstep, hfooting⟩ | ⟨c, r, next, ht, hw, hstep, hfooting⟩
    · rw [hfooting]
      show (s.step i).Ledger footing
      rw [hstep]
      exact h
    · rw [hfooting]
      show (s.step i).Ledger _
      rw [hstep] at hallowed ⊢
      exact h.answered ht hw hallowed
  | start c => exact { h with sound := hsound (.start c), allowed := hallowed }
  | setClock now =>
    exact { h with sound := hsound (.setClock now), allowed := hallowed,
                   admitted := h.admitted.congr rfl rfl }
  | plan call skip e =>
    refine { h with sound := hsound (.plan call skip e), allowed := hallowed,
                    admitted := h.admitted.congr rfl rfl, plain := fun f hf => ?_ }
    rcases List.mem_append.1 hf with hf | hf
    · exact h.plain f hf
    · rw [List.mem_singleton.1 hf]
      exact hm

/-- **A run keeps the books.** -/
theorem run (hprog : ∀ c, Leasing (program c)) (h : s.Ledger footing) (moves : List (Move κ))
    (hmoves : ∀ m ∈ moves, m.Plain) : ∃ footing', (s.run program moves).Ledger footing' := by
  induction moves generalizing s footing with
  | nil => exact ⟨footing, h⟩
  | cons m moves ih =>
    exact ih (h.move hprog m (hmoves m List.mem_cons_self))
      fun m' hm' => hmoves m' (List.mem_cons_of_mem _ hm')

end Ledger

end System

end JobDispatch

import JobDispatch.Proofs.Arrivals
import JobDispatch.Proofs.Rankings
import JobDispatch.Proofs.Service
import Mathlib.Data.Int.CardIntervalMod
import Mathlib.Data.List.Rotate

/-!
Jobs go round. Where every worker can take every job that arrives, the workers stand in line in the
order in which they are ranked, and with each claim the first of them goes to the end, since its
last claim is now the latest (`World.InLine.enqueue_run`, `World.InLine.advance`). So the line goes
round with the jobs that arrive (`enqueue_goes_round`): jobs in a row, as many as there are workers,
go to different ones, and no worker gets two jobs more than another.
-/

namespace JobDispatch

open Program

/-! ### Turns -/

section

variable {α : Type} {xs : List α} {ys : List (Option α)}

/-- The list goes through the others' items again and again, in their order. -/
def GoesRound (xs : List α) (ys : List (Option α)) : Prop :=
  ∀ k, k < ys.length → ys[k]? = some xs[k % xs.length]?

lemma GoesRound.nodup_window (h : GoesRound xs ys) (hxs : xs.Nodup) (k : Nat) :
    ((ys.drop k).take xs.length).Nodup := by
  rw [List.nodup_iff_getElem?_ne_getElem?]
  intro i j hij hj heq
  rw [List.length_take, List.length_drop] at hj
  have hpos : 0 < xs.length := by omega
  rw [List.getElem?_take_of_lt (by omega), List.getElem?_take_of_lt (by omega),
    List.getElem?_drop, List.getElem?_drop, h _ (by omega), h _ (by omega), Option.some_inj,
    List.getElem?_inj (Nat.mod_lt _ hpos) hxs] at heq
  -- of two places less than a round apart, no two are the same place of the round
  have hmod : k + i ≡ k + j [MOD xs.length] := heq
  have hsame := Nat.ModEq.eq_of_lt_of_lt (Nat.ModEq.add_left_cancel' k hmod) (by omega) (by omega)
  omega

/-- After some turns no item has had two more of them than another. -/
lemma GoesRound.count_le [DecidableEq α] (h : GoesRound xs ys) (hxs : xs.Nodup) {a b : α}
    (ha : a ∈ xs) (hb : b ∈ xs) : ys.count (some a) ≤ ys.count (some b) + 1 := by
  have hpos : 0 < xs.length := List.length_pos_of_mem ha
  have hys : ys = (List.range ys.length).map fun k => xs[k % xs.length]? := by
    refine List.ext_getElem? fun k => ?_
    rw [List.getElem?_map]
    by_cases hk : k < ys.length
    · rw [h k hk, List.getElem?_range hk]
      rfl
    · rw [List.getElem?_eq_none (Nat.not_lt.1 hk),
        List.getElem?_eq_none (by rw [List.length_range]; exact Nat.not_lt.1 hk)]
      rfl
  have hcount {x : α} (hx : x ∈ xs) : ∃ i, i < xs.length ∧ ys.count (some x) =
      ys.length / xs.length + if i < ys.length % xs.length then 1 else 0 := by
    obtain ⟨i, hi, rfl⟩ := List.mem_iff_getElem.1 hx
    refine ⟨i, hi, ?_⟩
    have hplace : ys.count (some xs[i]) = Nat.count (· ≡ i [MOD xs.length]) ys.length := by
      conv_lhs => rw [hys]
      rw [List.count, List.countP_map, Nat.count]
      refine List.countP_congr fun k _ => ?_
      rw [Function.comp_apply, beq_iff_eq, decide_eq_true_iff, ← List.getElem?_eq_getElem hi,
        List.getElem?_inj (Nat.mod_lt _ hpos) hxs, Nat.ModEq, Nat.mod_eq_of_lt hi]
    rw [hplace, Nat.count_modEq_card _ hpos, Nat.mod_eq_of_lt hi]
  obtain ⟨i, -, hi⟩ := hcount ha
  obtain ⟨j, -, hj⟩ := hcount hb
  rw [hi, hj]
  split <;> split <;> omega

lemma getElem?_turn (x : α) (xs : List α) (k : Nat) :
    (xs ++ [x])[k % (xs ++ [x]).length]? = (x :: xs)[(k + 1) % (x :: xs).length]? := by
  have hlength : (xs ++ [x]).length = (x :: xs).length := by simp
  have hlt : k % (x :: xs).length < (x :: xs).length := Nat.mod_lt _ (by simp)
  have hrotate : (x :: xs).rotate 1 = xs ++ [x] := by simp
  rw [hlength, ← hrotate, List.getElem?_rotate hlt, Nat.mod_add_mod]

end

/-! ### Arrivals -/

structure Arrival where
  time : Timestamp
  draft : JobDraft

/-- Enqueues jobs one after the other, each at its own time. -/
def Engine.enqueueAll (c : Config) : List Arrival → World →
    List (Except DispatchError (Option TickOutcome)) × World
  | [], w => ([], w)
  | a :: arrivals, w =>
    let first := (Engine.enqueue c a.draft).run { w with now := a.time }
    let rest := enqueueAll c arrivals first.2
    (first.1 :: rest.1, rest.2)

def receiver? : Except DispatchError (Option TickOutcome) → Option WorkerId
  | .ok (some (.claimed assignment)) => some assignment.worker
  | _ => none

instance (s t : Option Timestamp) : Decidable (s < t) :=
  inferInstanceAs (Decidable (Option.lt (fun a b : Timestamp => a < b) s t))

namespace Worker

/-- The worker can take all jobs that arrive, when they do, and had no claim before or an earlier
one. -/
structure Serves (worker : Worker) (untaggedOnly : Bool) (staleAfter : Int)
    (arrivals : List Arrival) : Prop where
  suits : ∀ a ∈ arrivals, worker.suits a.draft.project a.draft.tags untaggedOnly
  contact : ∀ a ∈ arrivals, worker.inContact a.time staleAfter = true
  room : arrivals.length ≤ worker.room.toNat
  earlier : ∀ a ∈ arrivals, worker.lastClaimedAt? < some a.time

instance (worker : Worker) (untaggedOnly : Bool) (staleAfter : Int) (arrivals : List Arrival) :
    Decidable (worker.Serves untaggedOnly staleAfter arrivals) :=
  decidable_of_iff
    ((∀ a ∈ arrivals, worker.suits a.draft.project a.draft.tags untaggedOnly ∧
      worker.inContact a.time staleAfter = true ∧ worker.lastClaimedAt? < some a.time) ∧
      arrivals.length ≤ worker.room.toNat)
    ⟨fun h => ⟨fun a ha => (h.1 a ha).1, fun a ha => (h.1 a ha).2.1, h.2,
      fun a ha => (h.1 a ha).2.2⟩,
      fun h => ⟨fun a ha => ⟨h.suits a ha, h.contact a ha, h.earlier a ha⟩, h.room⟩⟩

def served (worker : Worker) (time : Timestamp) : Worker :=
  { worker with running := worker.running + 1, lastClaimedAt? := some time }

lemma toNat_room (worker : Worker) :
    worker.room.toNat = worker.capacity.toNat - worker.running.toNat := by
  unfold room
  split
  · rename_i hlt
    exact UInt32.toNat_sub_of_le _ _ (UInt32.le_of_lt hlt)
  · rename_i hle
    have hle := UInt32.le_iff_toNat_le.1 (UInt32.not_lt.1 hle)
    rw [Nat.sub_eq_zero_of_le hle]
    rfl

namespace Serves

variable {worker : Worker} {untaggedOnly : Bool} {staleAfter : Int} {a : Arrival}
  {arrivals : List Arrival}

lemma tail (h : worker.Serves untaggedOnly staleAfter (a :: arrivals)) :
    worker.Serves untaggedOnly staleAfter arrivals where
  suits b hb := h.suits b (List.mem_cons_of_mem _ hb)
  contact b hb := h.contact b (List.mem_cons_of_mem _ hb)
  room := Nat.le_of_succ_le h.room
  earlier b hb := h.earlier b (List.mem_cons_of_mem _ hb)

lemma room_pos (h : worker.Serves untaggedOnly staleAfter (a :: arrivals)) : 0 < worker.room :=
  UInt32.lt_iff_toNat_lt.2 (Nat.lt_of_lt_of_le (Nat.succ_pos _) h.room)

lemma isReady (h : worker.Serves untaggedOnly staleAfter (a :: arrivals)) :
    worker.isReady a.time staleAfter = true :=
  Bool.and_eq_true_iff.2 ⟨decide_eq_true h.room_pos, h.contact a List.mem_cons_self⟩

lemma eligible (h : worker.Serves untaggedOnly staleAfter (a :: arrivals)) {e : QueueEntry}
    (hproject : e.project = a.draft.project) (htags : e.tags = a.draft.tags) :
    worker.eligible e ⟨a.time, staleAfter, untaggedOnly⟩ = true := by
  refine Worker.eligible_iff.2 ⟨?_, h.isReady⟩
  rw [hproject, htags]
  exact h.suits a List.mem_cons_self

lemma served (h : worker.Serves untaggedOnly staleAfter (a :: arrivals))
    (htimes : ∀ b ∈ arrivals, a.time < b.time) :
    (worker.served a.time).Serves untaggedOnly staleAfter arrivals where
  suits := h.tail.suits
  contact := h.tail.contact
  room := by
    have hroom := h.room
    have hrunning := toNat_running_succ (room_pos_iff.1 h.room_pos)
    rw [toNat_room] at hroom ⊢
    rw [List.length_cons] at hroom
    show _ ≤ worker.capacity.toNat - (worker.running + 1).toNat
    omega
  earlier := htimes

lemma precedes_served (h : worker.Serves untaggedOnly staleAfter (a :: arrivals))
    (other : Worker) : worker.Precedes (other.served a.time) :=
  .inl (h.earlier a List.mem_cons_self)

end Serves

end Worker

/-! ### The line -/

/-- The registered workers stand in line for jobs that arrive. -/
structure World.InLine (w : World) (untaggedOnly : Bool) (fleet : List Worker)
    (arrivals : List Arrival) : Prop where
  still : w.Still
  listed : ∀ worker, worker ∈ fleet ↔ w.registry.get? worker.id = some worker
  ordered : fleet.Pairwise Worker.Precedes
  serves : ∀ worker ∈ fleet, worker.Serves untaggedOnly w.registry.staleAfter arrivals
  unregistered : ∀ a ∈ arrivals, w.jobs.find? a.draft.id = none

variable {w : World} {c : Config} {untaggedOnly : Bool} {fleet others : List Worker}
  {first : Worker} {a : Arrival} {arrivals : List Arrival}

lemma World.Still.named (hw : w.Still) : w.registry.Named :=
  Registry.Staffed.named hw.sound.staffed

lemma Registry.Named.perm_values {r : Registry} (hr : r.Named)
    (hlisted : ∀ worker, worker ∈ fleet ↔ r.get? worker.id = some worker)
    (hordered : fleet.Pairwise Worker.Precedes) : fleet.Perm r.workers.values := by
  refine (List.perm_ext_iff_of_nodup hordered.nodup ?_).2 fun worker => ?_
  · exact hr.nodup_values.of_map _
  · rw [hlisted, Table.mem_values]
    refine ⟨fun hget => ⟨_, hget⟩, fun ⟨id, hget⟩ => ?_⟩
    rw [hr id worker hget]
    exact hget

/-- If all workers may take an entry, they are ranked as they stand in line. -/
lemma World.InLine.rank_eq (h : w.InLine untaggedOnly fleet (a :: arrivals)) {e : QueueEntry}
    (hproject : e.project = a.draft.project) (htags : e.tags = a.draft.tags) :
    rank e w.registry.workers.values ⟨a.time, w.registry.staleAfter, untaggedOnly⟩ = fleet := by
  have hperm := h.still.named.perm_values h.listed h.ordered
  have hall : fleet.filter (fun worker =>
      worker.eligible e ⟨a.time, w.registry.staleAfter, untaggedOnly⟩) = fleet :=
    List.filter_eq_self.2 fun worker hmem => (h.serves worker hmem).eligible hproject htags
  have hsame : (rank e fleet ⟨a.time, w.registry.staleAfter, untaggedOnly⟩).Perm fleet := by
    unfold rank
    rw [hall]
    exact rankBy_perm _ _
  have hnames : (fleet.map Worker.id).Nodup :=
    (hperm.map Worker.id).nodup_iff.2 h.still.named.nodup_values
  rw [rank_congr hnames hperm.symm]
  exact hsame.eq_of_pairwise (fun _ _ _ _ hab hba => absurd hba hab.asymm) (precedes_rank hnames)
    h.ordered

/-- A job goes to a worker, and no other job is touched. -/
structure World.Gives (w w' : World) (id : JobId) (worker : WorkerId) : Prop where
  runs : ∃ job, w'.jobs.find? id = some job ∧ job.state = .running ∧ job.claimedBy? = some worker
  others : ∀ k, k ≠ id → w'.jobs.find? k = w.jobs.find? k

lemma World.Still.setClock (hw : w.Still) (now : Timestamp) : ({ w with now } : World).Still :=
  ⟨hw.sound.congr rfl rfl hw.sound.kept.sure rfl, hw.plan, hw.listed⟩

lemma World.jobFor_of_new {d : JobDraft} (hnew : w.jobs.find? d.id = none) :
    w.jobFor d = Job.ofDraft d w.now := by
  unfold World.jobFor
  rw [hnew]
  rfl

lemma World.Still.ticked_queued_of_choice (hw : w.Still) {d : JobDraft} {worker : Worker}
    (hchoice : w.registry.choice untaggedOnly w.now (w.arrival d) = some worker) :
    ((w.queued d).ticked untaggedOnly (w.arrival d)).registry =
        (w.registry.takePlace worker.id w.now).2 ∧
      w.Gives ((w.queued d).ticked untaggedOnly (w.arrival d)) d.id worker.id := by
  let queued : Job := { w.jobFor d with
    state := .pending, enqueuedAt? := some w.now, updatedAt := w.now }
  have hid : queued.id = d.id := hw.jobFor_id d
  have hqueued : (w.queued d).jobs.find? (w.arrival d).job = some queued :=
    Table.find?_insert_self _ _ _
  have hticked : (w.queued d).ticked untaggedOnly (w.arrival d) =
      (w.queued d).handOver queued worker.id := by
    unfold World.ticked
    rw [hqueued, show (w.queued d).registry.choice untaggedOnly (w.queued d).now (w.arrival d) =
      some worker from hchoice]
  have hruns : ((w.queued d).handOver queued worker.id).jobs.find? queued.id =
      some { queued with
        state := .running, claimedBy? := some worker.id, enqueuedAt? := none
        updatedAt := w.now } := Table.find?_insert_self _ _ _
  have hothers (k : JobId) (hk : k ≠ queued.id) :
      ((w.queued d).handOver queued worker.id).jobs.find? k = (w.queued d).jobs.find? k :=
    Table.find?_insert_of_ne _ _ hk
  rw [hid] at hruns hothers
  rw [hticked]
  exact ⟨rfl, ⟨_, hruns, rfl, rfl⟩,
    fun k hk => (hothers k hk).trans (Table.find?_insert_of_ne _ _ hk)⟩

/-- **The first in line gets the job that arrives.** -/
theorem World.InLine.enqueue_run (h : w.InLine c.untaggedOnly (first :: others) (a :: arrivals))
    (hmode : c.mode.atOnce = true) :
    ∃ w', (Engine.enqueue c a.draft).run { w with now := a.time } =
        (.ok (some (.claimed ⟨a.draft.id, first.id, a.time⟩)), w') ∧
      w'.Still ∧ w'.registry = w.registry.put (first.served a.time) ∧
      w.Gives w' a.draft.id first.id := by
  let v : World := { w with now := a.time }
  have hv : v.Still := h.still.setClock a.time
  have hnew : v.jobs.find? a.draft.id = none := h.unregistered a List.mem_cons_self
  have hfor : v.jobFor a.draft = Job.ofDraft a.draft a.time := World.jobFor_of_new hnew
  -- the entry asks for what the draft asks for, so all are ranked
  have hrank := h.rank_eq (e := v.arrival a.draft) (congrArg Job.project hfor)
    (congrArg Job.tags hfor)
  have hchoice : v.registry.choice c.untaggedOnly a.time (v.arrival a.draft) = some first :=
    congrArg List.head? hrank
  obtain ⟨w', hrun, halike⟩ := hv.enqueue_run_atOnce hmode fun job hjob => by
    rw [hnew] at hjob
    cases hjob
  obtain ⟨hregistry, hgives⟩ := hv.ticked_queued_of_choice hchoice
  have hstill := hv.run (Engine.enqueue_loose c a.draft).unlocked_of_loose
  rw [hrun] at hstill
  refine ⟨w', ?_, hstill, ?_, ⟨?_, fun id hne => ?_⟩⟩
  · have hverdict : (v.queued a.draft).registry.verdict c.untaggedOnly v.now (v.arrival a.draft) =
        .claimed ⟨a.draft.id, first.id, a.time⟩ := by
      unfold Registry.verdict
      rw [show (v.queued a.draft).registry.choice c.untaggedOnly v.now (v.arrival a.draft) =
        some first from hchoice]
      rfl
    rw [← hverdict]
    exact hrun
  · have hget : w.registry.get? first.id = some first := (h.listed first).1 List.mem_cons_self
    rw [halike.registry, hregistry]
    exact congrArg Prod.snd
      (Registry.takePlace_of_ready hget (h.serves first List.mem_cons_self).isReady)
  · rw [halike.jobs]
    exact hgives.runs
  · rw [halike.jobs]
    exact hgives.others id hne

lemma World.InLine.mem_others_iff (h : w.InLine untaggedOnly (first :: others) arrivals)
    {worker : Worker} :
    worker ∈ others ↔ w.registry.get? worker.id = some worker ∧ worker.id ≠ first.id := by
  rw [← h.listed, List.mem_cons]
  constructor
  · intro hmem
    refine ⟨.inr hmem, fun hid => ?_⟩
    have hget := (h.listed worker).1 (List.mem_cons_of_mem _ hmem)
    rw [hid, (h.listed first).1 List.mem_cons_self] at hget
    cases hget
    exact Worker.Precedes.irrefl _ ((List.pairwise_cons.1 h.ordered).1 _ hmem)
  · rintro ⟨rfl | hmem, hne⟩
    · exact absurd rfl hne
    · exact hmem

/-- With its new record the first in line is as it was before, at another place. -/
lemma World.InLine.mem_advance_iff (h : w.InLine untaggedOnly (first :: others) arrivals)
    (time : Timestamp) (worker : Worker) : worker ∈ others ++ [first.served time] ↔
      (w.registry.put (first.served time)).get? worker.id = some worker := by
  rw [Registry.get?_put, List.mem_append, List.mem_singleton, h.mem_others_iff]
  show _ ↔ (if worker.id = first.id then _ else _) = _
  by_cases hid : worker.id = first.id
  · rw [if_pos hid, Option.some_inj]
    exact ⟨fun hor => (hor.resolve_left fun hand => hand.2 hid).symm, fun heq => .inr heq.symm⟩
  · rw [if_neg hid]
    refine ⟨fun hor => (hor.resolve_right ?_).1, fun hget => .inl ⟨hget, hid⟩⟩
    rintro rfl
    exact hid rfl

/-- **Who got a job goes to the end of the line.** -/
theorem World.InLine.advance (h : w.InLine untaggedOnly (first :: others) (a :: arrivals))
    (hlater : ∀ b ∈ arrivals, a.draft.id ≠ b.draft.id ∧ a.time < b.time) {w' : World}
    (hstill : w'.Still) (hregistry : w'.registry = w.registry.put (first.served a.time))
    (hgives : w.Gives w' a.draft.id first.id) :
    w'.InLine untaggedOnly (others ++ [first.served a.time]) arrivals := by
  refine ⟨hstill, fun worker => ?_, ?_, fun worker hworker => ?_, fun b hb => ?_⟩
  · rw [hregistry]
    exact h.mem_advance_iff a.time worker
  · refine List.pairwise_append.2 ⟨(List.pairwise_cons.1 h.ordered).2,
      List.pairwise_singleton _ _, fun worker hworker last hlast => ?_⟩
    rw [List.mem_singleton.1 hlast]
    exact (h.serves worker (List.mem_cons_of_mem _ hworker)).precedes_served first
  · have hstale : w'.registry.staleAfter = w.registry.staleAfter := by
      rw [hregistry]
      rfl
    rw [hstale]
    rcases List.mem_append.1 hworker with hworker | hworker
    · exact (h.serves worker (List.mem_cons_of_mem _ hworker)).tail
    · rw [List.mem_singleton.1 hworker]
      exact (h.serves first List.mem_cons_self).served fun b hb => (hlater b hb).2
  · rw [hgives.others _ (hlater b hb).1.symm]
    exact h.unregistered b (List.mem_cons_of_mem _ hb)

/-! ### Going round -/

theorem World.InLine.enqueueAll (h : w.InLine c.untaggedOnly fleet arrivals)
    (hmode : c.mode.atOnce = true) (hfleet : fleet ≠ [])
    (harrivals : arrivals.Pairwise fun a b => a.draft.id ≠ b.draft.id ∧ a.time < b.time) :
    let run := Engine.enqueueAll c arrivals w
    run.1.length = arrivals.length ∧
    (∀ k a, arrivals[k]? = some a → ∃ worker,
      (fleet.map Worker.id)[k % (fleet.map Worker.id).length]? = some worker ∧
        run.1[k]? = some (.ok (some (.claimed ⟨a.draft.id, worker, a.time⟩))) ∧
        ∃ job, run.2.jobs.find? a.draft.id = some job ∧ job.state = .running ∧
          job.claimedBy? = some worker) ∧
    ∀ id, (∀ a ∈ arrivals, id ≠ a.draft.id) → run.2.jobs.find? id = w.jobs.find? id := by
  induction arrivals generalizing w fleet with
  | nil =>
    refine ⟨rfl, fun k a hk => ?_, fun _ _ => rfl⟩
    cases hk
  | cons a arrivals ih =>
    obtain ⟨first, others, rfl⟩ := List.exists_cons_of_ne_nil hfleet
    obtain ⟨hlater, hrest⟩ := List.pairwise_cons.1 harrivals
    obtain ⟨w', hrun, hstill, hregistry, hgives⟩ := h.enqueue_run hmode
    obtain ⟨hlength, hturns, hothers⟩ := ih (h.advance hlater hstill hregistry hgives)
      (by simp) hrest
    intro run
    have hsplit : run = (.ok (some (.claimed ⟨a.draft.id, first.id, a.time⟩)) ::
        (Engine.enqueueAll c arrivals w').1, (Engine.enqueueAll c arrivals w').2) := by
      show Engine.enqueueAll c (a :: arrivals) w = _
      simp only [Engine.enqueueAll, hrun]
    rw [hsplit]
    refine ⟨congrArg Nat.succ hlength, fun k b hk => ?_, fun id hid => ?_⟩
    · cases k with
      | zero =>
        cases hk
        refine ⟨first.id, by simp, rfl, ?_⟩
        obtain ⟨job, hjob, hruns⟩ := hgives.runs
        exact ⟨job, (hothers _ fun b hb => (hlater b hb).1).trans hjob, hruns⟩
      | succ k =>
        obtain ⟨worker, hworker, hresult, hjob⟩ := hturns k b hk
        refine ⟨worker, ?_, hresult, hjob⟩
        rw [List.map_append, List.map_singleton, getElem?_turn] at hworker
        exact hworker
    · rw [hothers id fun b hb => hid b (List.mem_cons_of_mem _ hb)]
      exact hgives.others id (hid a List.mem_cons_self)

/-- **Load is spread evenly.** Let every registered worker be able to take every job of a list,
when it arrives, with room for all of them, and let none have had a claim at the time of the first
or later. If the jobs are enqueued one after the other, at later and later times, and dispatched at
once, they go round the workers in the order in which these are ranked at first. So jobs in a row,
as many as there are workers, go to different ones, and none gets two jobs more than another. -/
theorem enqueue_goes_round {c₀ : Config} (hreach : Engine.Reachable c₀ w)
    (hplan : w.queue.plan = []) (hmode : c.mode.atOnce = true)
    (harrivals : arrivals.Pairwise fun a b => a.draft.id ≠ b.draft.id ∧ a.time < b.time)
    (hnew : ∀ a ∈ arrivals, w.jobs.find? a.draft.id = none)
    (hworkers : w.registry.workers.values ≠ [])
    (hserves : ∀ worker ∈ w.registry.workers.values,
      worker.Serves c.untaggedOnly w.registry.staleAfter arrivals) :
    ∃ fleet : List Worker, fleet.Perm w.registry.workers.values ∧
      fleet.Pairwise Worker.Precedes ∧
      let run := Engine.enqueueAll c arrivals w
      let receivers := run.1.map receiver?
      (∀ k a, arrivals[k]? = some a → ∃ worker, fleet[k % fleet.length]? = some worker ∧
        run.1[k]? = some (.ok (some (.claimed ⟨a.draft.id, worker.id, a.time⟩))) ∧
        ∃ job, run.2.jobs.find? a.draft.id = some job ∧ job.state = .running ∧
          job.claimedBy? = some worker.id) ∧
      (∀ k, ((receivers.drop k).take fleet.length).Nodup) ∧
      ∀ a ∈ fleet, ∀ b ∈ fleet,
        receivers.count (some a.id) ≤ receivers.count (some b.id) + 1 := by
  have hw : w.Still := hreach.still hplan
  let fleet := rankBy Worker.rankedBefore w.registry.workers.values
  have hperm : fleet.Perm w.registry.workers.values := rankBy_perm _ _
  have hordered : fleet.Pairwise Worker.Precedes := precedes_rankBy hw.named.nodup_values
  have hline : w.InLine c.untaggedOnly fleet arrivals := by
    refine ⟨hw, fun worker => ?_, hordered,
      fun worker hmem => hserves worker (hperm.mem_iff.1 hmem), hnew⟩
    rw [hperm.mem_iff, Table.mem_values]
    refine ⟨fun ⟨id, hget⟩ => ?_, fun hget => ⟨_, hget⟩⟩
    rw [hw.named id worker hget]
    exact hget
  have hfleet : fleet ≠ [] := fun hnil => hworkers (hnil ▸ hperm).nil_eq.symm
  have hids : (fleet.map Worker.id).Nodup :=
    (hperm.map Worker.id).nodup_iff.2 hw.named.nodup_values
  have hsize : (fleet.map Worker.id).length = fleet.length := List.length_map _
  obtain ⟨hlength, hturns, -⟩ := hline.enqueueAll hmode hfleet harrivals
  have hround : GoesRound (fleet.map Worker.id)
      ((Engine.enqueueAll c arrivals w).1.map receiver?) := by
    intro k hk
    rw [List.length_map, hlength] at hk
    obtain ⟨worker, hworker, hresult, -⟩ := hturns k _ (List.getElem?_eq_getElem hk)
    rw [List.getElem?_map, hresult, hworker]
    rfl
  refine ⟨fleet, hperm, hordered, fun k a hk => ?_, fun k => ?_, fun a ha b hb => ?_⟩
  · obtain ⟨id, hid, hresult, hjob⟩ := hturns k a hk
    rw [hsize, List.getElem?_map, Option.map_eq_some_iff] at hid
    obtain ⟨worker, hworker, rfl⟩ := hid
    exact ⟨worker, hworker, hresult, hjob⟩
  · rw [← hsize]
    exact hround.nodup_window hids k
  · exact hround.count_le hids (List.mem_map_of_mem ha) (List.mem_map_of_mem hb)

/-- A worker that has had a job, and one that never had any. -/
def oneServed : World :=
  (Engine.initial eventPages .silent .epoch).acts (Engine.Operation.program eventPages)
    [.call (.heartbeat ⟨⟨.ofNat 1⟩, .empty, 4, .epoch, .everyProject, true⟩),
      .call (.enqueue ⟨⟨.ofNat 2⟩, ⟨.ofNat 5⟩, .empty⟩),
      .call (.heartbeat ⟨⟨.ofNat 7⟩, .empty, 3, .epoch, .everyProject, true⟩)]

def threeArrivals : List Arrival :=
  let draft (job : Nat) : JobDraft := ⟨⟨.ofNat job⟩, ⟨.ofNat 5⟩, .empty⟩
  [⟨⟨2, by decide, by decide⟩, draft 3⟩, ⟨⟨3, by decide, by decide⟩, draft 4⟩,
    ⟨⟨4, by decide, by decide⟩, draft 6⟩]

theorem enqueue_goes_round_threeArrivals :
    ∃ fleet : List Worker, fleet.Perm oneServed.registry.workers.values ∧
      fleet.Pairwise Worker.Precedes ∧
      ((Engine.enqueueAll eventPages threeArrivals oneServed).1.map receiver? =
        [some ⟨.ofNat 7⟩, some ⟨.ofNat 1⟩, some ⟨.ofNat 7⟩]) ∧
      ∀ k a, threeArrivals[k]? = some a → ∃ worker, fleet[k % fleet.length]? = some worker ∧
        (Engine.enqueueAll eventPages threeArrivals oneServed).1[k]? =
          some (.ok (some (.claimed ⟨a.draft.id, worker.id, a.time⟩))) := by
  have harrivals :
      threeArrivals.Pairwise fun a b => a.draft.id ≠ b.draft.id ∧ a.time < b.time := by decide
  obtain ⟨fleet, hperm, hordered, hturns, -, -⟩ :=
    enqueue_goes_round (w := oneServed) (c := eventPages) ⟨_, _, _, rfl⟩ (by decide +kernel)
      (by decide) harrivals (by decide +kernel) (by decide +kernel) (by decide +kernel)
  refine ⟨fleet, hperm, hordered, by decide +kernel, fun k a hk => ?_⟩
  obtain ⟨worker, hworker, hresult, -⟩ := hturns k a hk
  exact ⟨worker, hworker, hresult⟩

end JobDispatch

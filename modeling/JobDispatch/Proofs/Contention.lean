import JobDispatch.Proofs.Lasting
import JobDispatch.Proofs.Pooling
import JobDispatch.Proofs.Tableaus

/-!
Ticks of a simulation that contend for the places of its fleet. Nobody else is about, so that they
leave each other's jobs alone, and workers only get busier (`Simulation.Manned.answer`). So a tick
hands its job to a worker, for which it takes one place and one entry and counts one claim, or it
has found no place to spare with any of the workers (`Simulation.offerEntry_ticks`).
-/

namespace JobDispatch

open Program

variable {w v u : World}

/-! ### Workers at work -/

/-- The workers are the same, and none of them has a place to spare that had none before. -/
structure World.Busier (w v : World) : Prop where
  staleAfter : v.registry.staleAfter = w.registry.staleAfter
  known : ∀ id, (v.registry.get? id).isSome = (w.registry.get? id).isSome
  workers : ∀ id new, v.registry.get? id = some new → ∃ old, w.registry.get? id = some old ∧
    new.SameReport old ∧ (new.running < new.capacity → old.running < old.capacity)

namespace World.Busier

lemma of_registry (h : v.registry = w.registry) : w.Busier v :=
  ⟨by rw [h], fun _ => by rw [h], fun _ new hnew => ⟨new, h ▸ hnew, .refl new, id⟩⟩

lemma trans (h : w.Busier v) (h' : v.Busier u) : w.Busier u := by
  refine ⟨h'.staleAfter.trans h.staleAfter, fun id => (h'.known id).trans (h.known id),
    fun id new hnew => ?_⟩
  obtain ⟨mid, hmid, hsame, hroom⟩ := h'.workers id new hnew
  obtain ⟨old, hold, hsame', hroom'⟩ := h.workers id mid hmid
  exact ⟨old, hold, hsame.trans hsame', fun h => hroom' (hroom h)⟩

lemma placeTaken {worker : Worker} (hget : w.registry.get? worker.id = some worker)
    (hroom : worker.running < worker.capacity) : w.Busier (w.placeTaken worker) := by
  have hput (id : WorkerId) : (w.placeTaken worker).registry.get? id =
      if id = worker.id then
        some { worker with running := worker.running + 1, lastClaimedAt? := some w.now }
      else w.registry.get? id := w.registry.get?_put _ id
  refine ⟨rfl, fun id => ?_, fun id new hnew => ?_⟩
  · rw [hput]
    split
    · rename_i hid
      rw [hid, hget]
      rfl
    · rfl
  · rw [hput] at hnew
    split at hnew
    · rename_i hid
      cases hnew
      rw [hid]
      exact ⟨worker, hget, rfl, fun _ => hroom⟩
    · exact ⟨new, hnew, .refl new, fun hroom => hroom⟩

lemma inContact (h : w.Busier v) (hfresh : v.NoneStale) {worker : Worker}
    (hmem : worker ∈ w.registry.workers.values) :
    worker.inContact v.now w.registry.staleAfter = true := by
  obtain ⟨id, hget⟩ := Table.mem_values.1 hmem
  obtain ⟨new, hnew⟩ : ∃ new, v.registry.get? id = some new := by
    rw [← Option.isSome_iff_exists, h.known, show w.registry.get? id = some worker from hget]
    rfl
  obtain ⟨old, hold, hsame, -⟩ := h.workers id new hnew
  rw [show w.registry.get? id = some worker from hget] at hold
  cases hold
  have hcontact := hfresh new (Table.mem_values.2 ⟨id, hnew⟩)
  unfold Worker.SameReport at hsame
  rw [hsame, h.staleAfter] at hcontact
  exact hcontact

end World.Busier

lemma World.NoneStale.placeTaken (h : w.NoneStale) {worker : Worker}
    (hget : w.registry.get? worker.id = some worker) : (w.placeTaken worker).NoneStale := by
  intro new hmem
  obtain ⟨id, hnew⟩ := Table.mem_values.1 hmem
  change (w.registry.put _).get? id = some new at hnew
  rw [Registry.get?_put] at hnew
  split at hnew
  · cases hnew
    exact h worker (Table.mem_values.2 ⟨_, hget⟩)
  · exact h new (Table.mem_values.2 ⟨id, hnew⟩)

/-- Only the workers of the list may have a place to spare. -/
def World.RoomIn (w : World) (ids : List WorkerId) : Prop :=
  ∀ id worker, w.registry.get? id = some worker → worker.running < worker.capacity → id ∈ ids

lemma World.RoomIn.busier {ids : List WorkerId} (h : w.RoomIn ids) (hv : w.Busier v) :
    v.RoomIn ids := by
  intro id new hnew hroom
  obtain ⟨old, hold, -, hroom'⟩ := hv.workers id new hnew
  exact h id old hold (hroom' hroom)

/-! ### What ticks do -/

def Request.seats (r : Request) (w : World) : Bool :=
  match r with
  | .takePlace id => (w.registry.takePlace id w.now).1.isNone
  | _ => false

/-- The request reads something, or has to do with the lock of the job, or logs. -/
def Request.isLook (id : JobId) : Request → Bool
  | .lockJob k | .unlockJob k => k == id
  | .lookup _ | .available _ | .staleAfter | .clock | .log _ => true
  | _ => false

namespace Simulation

/-- What a tick of an entry asks in a simulation, and what it finds. -/
inductive Works (e : QueueEntry) (w : World) : Request → Prop
  /-- Nothing comes of the request but events. -/
  | looks {r : Request} (hown : ∀ id, r = .lockJob id → id = e.job) (hread : ∀ id, r ≠ .readJob id)
      (hmetric : r.metric? = none) (hseats : r.seats w = false) (hremoves : r.removes w = false)
      (hsame : ∃ events, (w.answer r).2 = { w with events }) : Works e w r
  | offers (worker : WorkerId) : Works e w (.count (.workerTick worker))
  | takes {worker : Worker} (hget : w.registry.get? worker.id = some worker)
      (hready : worker.isReady w.now w.registry.staleAfter = true) :
      Works e w (.takePlace worker.id)
  | removes {id : JobId} (hid : id = e.job) (he : w.queue.queue.get? id = some e) :
      Works e w (.pop id)
  | counts : Works e w (.count (.queuePop .claimed))
  | hands {old record : Job} (hold : w.jobs.find? record.id = some old)
      (hid : record.id = e.job) : Works e w (.storeJob record)

variable {s : Simulation} {env : Setting} {n : Nat} {e : QueueEntry} {r : Request}

lemma Works.look (hplan : w.queue.plan = []) (hr : r.isLook e.job = true) : Works e w r := by
  cases r with
  | lockJob id =>
    refine .looks (fun k hk => ?_) nofun rfl rfl rfl ⟨_, rfl⟩
    cases hk
    exact beq_iff_eq.1 hr
  | lookup id => exact .looks nofun nofun rfl rfl rfl ⟨w.events, by rw [World.answer_lookup hplan]⟩
  | unlockJob _ | available _ | staleAfter | clock | log _ =>
    exact .looks nofun nofun rfl rfl rfl ⟨_, rfl⟩
  | _ => cases hr

/-- The workers are those of the fleet, none of them is stale, and no call on the queue is going to
fail. -/
structure Manned (s : Simulation) (env : Setting) (n : Nat) (w : World) : Prop where
  plan : w.queue.plan = []
  fleet : ∃ load, s.Fleet env n load w.registry
  fresh : w.NoneStale

lemma room_of_isReady {worker : Worker} {now : Timestamp} {staleAfter : Int}
    (h : worker.isReady now staleAfter = true) : worker.running < worker.capacity :=
  Worker.room_pos_iff.1 (of_decide_eq_true (Bool.and_eq_true_iff.1 h).1)

/-- **A tick leaves all other jobs alone, and workers get busier only.** -/
theorem Manned.answer (hw : s.Manned env n w) (hr : Works e w r) :
    s.Manned env n (w.answer r).2 ∧ w.Busier (w.answer r).2 ∧
      ∀ id, id ≠ e.job → w.Untouched id (w.answer r).2 := by
  have hplan := World.plan_answer_nil hw.plan r
  cases hr with
  | looks _ _ _ _ _ hsame =>
    obtain ⟨events, hsame⟩ := hsame
    rw [hsame]
    exact ⟨⟨hw.plan, hw.fleet, hw.fresh⟩, .of_registry rfl, fun _ _ => ⟨rfl, rfl⟩⟩
  | offers _ | counts =>
    exact ⟨⟨hplan, hw.fleet, hw.fresh⟩, .of_registry rfl, fun _ _ => ⟨rfl, rfl⟩⟩
  | takes hget hready =>
    obtain ⟨load, hfleet⟩ := hw.fleet
    have hroom := room_of_isReady hready
    rw [World.answer_takePlace hget hready]
    exact ⟨⟨hw.plan, ⟨load + 1, hfleet.take hget hroom _⟩, hw.fresh.placeTaken hget⟩,
      .placeTaken hget hroom, fun _ _ => ⟨rfl, rfl⟩⟩
  | removes hid he =>
    rw [World.answer_pop hw.plan he]
    refine ⟨⟨rfl, hw.fleet, hw.fresh⟩, .of_registry rfl, fun k hk => ⟨rfl, ?_⟩⟩
    show (w.queue.queue.pop _).2.get? k = _
    rw [Queue.get?_pop, if_neg (hid ▸ hk)]
  | hands _ hid =>
    refine ⟨⟨hplan, hw.fleet, hw.fresh⟩, .of_registry rfl, fun id hne => ⟨?_, rfl⟩⟩
    exact Table.find?_insert_of_ne _ _ (hid ▸ hne)

/-- What a tick relies on: others leave its job alone, and workers get busier only. -/
def inCrowd (s : Simulation) (env : Setting) (n : Nat) (id : JobId) : Rely where
  may w v := s.Manned env n w → s.Manned env n v ∧ w.Busier v ∧ w.Untouched id v
  refl w hw := ⟨hw, .of_registry rfl, rfl, rfl⟩
  trans huv hvw hu := by
    obtain ⟨hv, hbusier, htouch⟩ := huv hu
    obtain ⟨hw, hbusier', htouch'⟩ := hvw hv
    exact ⟨hw, hbusier.trans hbusier', htouch.trans htouch'⟩

/-- What a tick has found of its job, and which workers may still have a place to spare. -/
structure Sees (s : Simulation) (env : Setting) (n : Nat) (e : QueueEntry) (job : Job)
    (e? : Option QueueEntry) (ids : List WorkerId) (w : World) : Prop where
  manned : s.Manned env n w
  named : job.id = e.job
  record : w.jobs.find? e.job = some job
  entry : w.queue.queue.get? e.job = e?
  room : w.RoomIn ids

/-! ### Trails of ticks -/

structure Amounts (places entries claims : Nat) (h : Trail) : Prop where
  places : h.tally Request.seats = places
  entries : h.tally Request.removes = entries
  claims : h.tally (Request.counts (.queuePop .claimed)) = claims

variable {a b c : Nat} {h : Trail}

lemma Amounts.append (hh : Amounts a b c h) (r : Request) (w : World) :
    Amounts (a + (r.seats w).toNat) (b + (r.removes w).toNat)
      (c + (r.counts (.queuePop .claimed) w).toNat) (h ++ [(r, w)]) :=
  ⟨by rw [Trail.tally_append, hh.places], by rw [Trail.tally_append, hh.entries],
    by rw [Trail.tally_append, hh.claims]⟩

/-- What a tick has come to: its job was handed over, or no worker has a place to spare. -/
def Served (h : Trail) (outcome : Except DispatchError TickOutcome) (w : World) : Prop :=
  (PassReport.isClaimed outcome = true ∧ Amounts 1 1 1 h) ∨
    (PassReport.isClaimed outcome = false ∧ Amounts 0 0 0 h ∧ w.RoomIn [])

/-! ### Ticks among others -/

abbrev Ticks {α : Type} (s : Simulation) (env : Setting) (n : Nat) (e : QueueEntry) (p : Program α)
    (Q : Trail → α → World → Prop) (h : Trail) (w : World) : Prop :=
  p.Along (s.inCrowd env n e.job) (fun _ r v => Works e v r) Q h w

section

variable {job : Job} {e? : Option QueueEntry} {ids : List WorkerId} {α : Type}
  {Q : Trail → α → World → Prop}

namespace Sees

lemma may (hw : s.Sees env n e job e? ids w) (hv : (s.inCrowd env n e.job).may w v) :
    s.Sees env n e job e? ids v := by
  obtain ⟨hmanned, hbusier, htouch⟩ := hv hw.manned
  exact ⟨hmanned, hw.named, htouch.record.trans hw.record, htouch.entry.trans hw.entry,
    hw.room.busier hbusier⟩

lemma look_answer (hw : s.Sees env n e job e? ids w) (hr : r.isLook e.job = true) :
    s.Sees env n e job e? ids (w.answer r).2 := by
  have hworks := Works.look hw.manned.plan hr
  obtain ⟨hmanned, hbusier, -⟩ := hw.manned.answer hworks
  refine ⟨hmanned, hw.named, ?_, ?_, hw.room.busier hbusier⟩
  · cases r with
    | lockJob _ | unlockJob _ | lookup _ | available _ | staleAfter | clock | log _ =>
      exact hw.record
    | _ => cases hr
  · cases r with
    | lookup id =>
      rw [World.answer_lookup hw.manned.plan]
      exact hw.entry
    | lockJob _ | unlockJob _ | available _ | staleAfter | clock | log _ => exact hw.entry
    | _ => cases hr

lemma look {f : r.Answer → Program α} (hw : s.Sees env n e job e? ids w)
    (hh : Amounts a b c h) (hr : r.isLook e.job = true)
    (hf : ∀ h v, Amounts a b c h → s.Sees env n e job e? ids v →
      s.Sees env n e job e? ids (v.answer r).2 →
      s.Ticks env n e (f (v.answer r).1) Q h (v.answer r).2) :
    s.Ticks env n e (request r >>= f) Q h w := by
  refine Along.ask fun v hv => ?_
  have hv := hw.may hv
  refine ⟨.look hv.manned.plan hr, hf _ v ?_ hv (hv.look_answer hr)⟩
  have hafter := hh.append r v
  cases r with
  | lockJob _ | unlockJob _ | lookup _ | available _ | staleAfter | clock | log _ => exact hafter
  | _ => cases hr

end Sees

/-- **The ranking tells who may have a place to spare.** -/
theorem rankWorkers_ticks (hw : s.Sees env n e job e? ids w) (htags : e.tags = s.tags)
    (hh : Amounts 0 0 0 h) (untaggedOnly : Bool) :
    s.Ticks env n e (rankWorkers untaggedOnly e) (fun h ranked v => Amounts 0 0 0 h ∧
      s.Sees env n e job e? (ranked.map Worker.id) v) h w := by
  unfold rankWorkers currentCriteria
  refine fun v₁ hv₁ => ?_
  have hw₁ := hw.may hv₁
  refine ⟨.look hw₁.manned.plan rfl, fun v₂ hv₂ => ?_⟩
  have hw₂ := hw₁.may hv₂
  refine ⟨.look hw₂.manned.plan rfl, fun v₃ hv₃ => ?_⟩
  have hw₃ := hw₂.may hv₃
  refine ⟨.look hw₃.manned.plan rfl, fun v₄ hv₄ => ?_⟩
  have hw₄ := hw₃.may hv₄
  have hbusy₂ : v₁.Busier v₂ := (hv₂ hw₁.manned).2.1
  have hbusy₃ : v₁.Busier v₃ := hbusy₂.trans (hv₃ hw₂.manned).2.1
  refine ⟨((hh.append (.available e.project) v₁).append .clock v₂).append .staleAfter v₃,
    ⟨hw₄.manned, hw₄.named, hw₄.record, hw₄.entry, fun id new hnew hroom => ?_⟩⟩
  obtain ⟨old, hold, -, hroom'⟩ :=
    (hbusy₃.trans (hv₄ hw₃.manned).2.1).workers id new hnew
  obtain ⟨load, hfleet⟩ := hw₁.manned.fleet
  have hmem : old ∈ v₁.registry.workers.values := Table.mem_values.2 ⟨id, hold⟩
  have hranked := (hfleet.mem_rank htags untaggedOnly hw₁.manned.fresh
    fun worker hworker => hbusy₂.inContact hw₂.manned.fresh hworker).2 ⟨hmem, hroom' hroom⟩
  rw [← hfleet.named id old hold]
  rw [← hbusy₃.staleAfter] at hranked
  exact List.mem_map.2 ⟨old, hranked, rfl⟩

/-- A worker of the fleet that cannot take a job has no place to spare. -/
lemma Manned.full {worker : WorkerId} {reason : Obstacle} (hw : s.Manned env n w)
    (h : (w.registry.takePlace worker w.now).1 = some reason) (hroom : w.RoomIn (worker :: ids)) :
    w.RoomIn ids := by
  intro id record hget hspare
  refine (List.mem_cons.1 (hroom id record hget hspare)).resolve_left ?_
  rintro rfl
  have hready : record.isReady w.now w.registry.staleAfter = true := by
    rw [Worker.isReady, Bool.and_eq_true, decide_eq_true_iff, Worker.room_pos_iff]
    exact ⟨hspare, hw.fresh record (Table.mem_values.2 ⟨_, hget⟩)⟩
  rw [Registry.takePlace_of_ready hget hready] at h
  cases h

lemma Sees.takePlace {worker : WorkerId} (hw : s.Sees env n e job (some e) (worker :: ids) w)
    (hh : Amounts 0 0 0 h) :
    Works e w (.takePlace worker) ∧
      ((∃ reason, (w.answer (.takePlace worker)).1 = some reason ∧
          Amounts 0 0 0 (h ++ [(.takePlace worker, w)]) ∧
          s.Sees env n e job (some e) ids (w.answer (.takePlace worker)).2) ∨
        ((w.answer (.takePlace worker)).1 = none ∧
          Amounts 1 0 0 (h ++ [(.takePlace worker, w)]) ∧
          s.Sees env n e job (some e) (worker :: ids) (w.answer (.takePlace worker)).2)) := by
  have hh := hh.append (.takePlace worker) w
  have hseats : (Request.takePlace worker).seats w =
    (w.registry.takePlace worker w.now).1.isNone := rfl
  have hanswer : w.answer (.takePlace worker) = ((w.registry.takePlace worker w.now).1,
    { w with registry := (w.registry.takePlace worker w.now).2 }) := rfl
  cases htake : (w.registry.takePlace worker w.now).1 with
  | some reason =>
    rw [htake] at hseats
    rw [htake, Registry.takePlace_of_blocked _ htake] at hanswer
    rw [hseats] at hh
    have hworks : Works e w (.takePlace worker) :=
      .looks nofun nofun rfl hseats rfl ⟨w.events, by rw [hanswer]⟩
    rw [hanswer]
    exact ⟨hworks, .inl ⟨reason, rfl, hh, hw.manned, hw.named, hw.record, hw.entry,
      hw.manned.full htake hw.room⟩⟩
  | none =>
    obtain ⟨record, hget, hcontact, hroom, -⟩ := Registry.takePlace_eq_none _ htake
    obtain ⟨load, hfleet⟩ := hw.manned.fleet
    obtain rfl := hfleet.named worker record hget
    have hready : record.isReady w.now w.registry.staleAfter = true := by
      rw [Worker.isReady, Bool.and_eq_true, decide_eq_true_iff, Worker.room_pos_iff]
      exact ⟨hroom, hcontact⟩
    have hworks : Works e w (.takePlace record.id) := .takes hget hready
    obtain ⟨hmanned, hbusier, -⟩ := hw.manned.answer hworks
    rw [htake] at hseats hanswer
    rw [hseats] at hh
    exact ⟨hworks, .inr ⟨congrArg Prod.fst hanswer, hh, hmanned, hw.named, hw.record, hw.entry,
      hw.room.busier hbusier⟩⟩

lemma popEntry_ticks (hw : s.Sees env n e job (some e) ids w) (hh : Amounts 1 0 0 h) :
    s.Ticks env n e (popEntry job claimEdge .claimed) (fun h result v =>
      result = .ok true ∧ Amounts 1 1 1 h ∧ s.Sees env n e job none ids v) h w := by
  unfold popEntry
  rw [if_neg (by decide)]
  refine Along.ask fun v hv => ?_
  have hv := hw.may hv
  have he : v.queue.queue.get? job.id = some e := by
    rw [hv.named]
    exact hv.entry
  have hworks : Works e v (.pop job.id) := .removes hv.named he
  have hanswer := World.answer_pop hv.manned.plan he
  have hremoves : (Request.pop job.id).removes v = true := by
    simp only [Request.removes, World.removed?, hanswer, Option.isSome]
  have hh := hh.append (.pop job.id) v
  rw [hremoves] at hh
  obtain ⟨hmanned, hbusier, -⟩ := hv.manned.answer hworks
  refine ⟨hworks, ?_⟩
  rw [hanswer] at hmanned hbusier ⊢
  have hout : s.Sees env n e job none ids
      { v with queue := .ofQueue (v.queue.queue.pop job.id).2 } := by
    refine ⟨hmanned, hv.named, hv.record, ?_, hv.room.busier hbusier⟩
    show (v.queue.queue.pop job.id).2.get? e.job = none
    rw [Queue.get?_pop, if_pos hv.named.symm]
  refine Along.ask fun u hu => ?_
  have hu := hout.may hu
  obtain ⟨hmanned, hbusier, -⟩ := hu.manned.answer (e := e) .counts
  have hcounted : s.Sees env n e job none ids (u.answer (.count (.queuePop .claimed))).2 :=
    ⟨hmanned, hu.named, hu.record, hu.entry, hu.room.busier hbusier⟩
  exact ⟨.counts, along_pure fun u' hu' =>
    ⟨rfl, hh.append (.count (.queuePop .claimed)) u, hcounted.may hu'⟩⟩

/-- **A claim holds, or the worker has no place to spare.** -/
theorem claim_ticks {worker : WorkerId} (hw : s.Sees env n e job (some e) (worker :: ids) w)
    (hpending : job.state = .pending) (hh : Amounts 0 0 0 h) :
    s.Ticks env n e (claim e.job worker) (fun h result v =>
      ((∃ time, result = .ok (.claimed worker time)) ∧ Amounts 1 1 1 h ∧
          ∃ record, s.Sees env n e record none (worker :: ids) v) ∨
        (∃ reason, result = .ok (.blocked reason)) ∧ Amounts 0 0 0 h ∧
          s.Sees env n e job (some e) ids v) h w := by
  have hown : (e.job == e.job) = true := beq_self_eq_true e.job
  unfold claim
  refine hw.look hh hown fun h v hh hv _ => ?_
  rw [World.answer_lockJob hv.record]
  dsimp only
  rw [if_neg (by rw [hpending]; decide)]
  refine hv.look hh rfl fun h v hh hv _ => ?_
  rw [World.answer_lookup_of_get? hv.manned.plan hv.entry]
  dsimp only
  refine Along.ask fun v' hv' => ?_
  obtain ⟨hworks, ⟨reason, hanswer, hh, hv⟩ | ⟨hanswer, hh, hv⟩⟩ := (hv.may hv').takePlace hh
  · refine ⟨hworks, ?_⟩
    rw [hanswer]
    refine hv.look hh hown fun h v hh _ hv => ?_
    exact along_pure fun u hu => .inr ⟨⟨reason, rfl⟩, hh, hv.may hu⟩
  · refine ⟨hworks, ?_⟩
    rw [hanswer]
    refine Along.bind ((popEntry_ticks hv hh).mono (fun _ _ _ h => h) ?_)
    rintro h _ v ⟨rfl, hh, hv⟩
    refine hv.look hh rfl fun h v hh hv hv' => Along.ask fun u hu => ?_
    have hu := hv'.may hu
    let record : Job := { job with
      state := .running, claimedBy? := some worker, enqueuedAt? := none, updatedAt := v.now }
    have hworks : Works e u (.storeJob record) :=
      .hands (show u.jobs.find? job.id = some job by rw [hu.named]; exact hu.record) hu.named
    obtain ⟨hmanned, hbusier, -⟩ := hu.manned.answer hworks
    have hstored : (u.jobs.insert job.id record).find? e.job = some record := by
      rw [← hu.named]
      exact Table.find?_insert_self _ _ _
    have hu' : s.Sees env n e record none (worker :: ids) (u.answer (.storeJob record)).2 :=
      ⟨hmanned, hu.named, hstored, hu.entry, hu.room.busier hbusier⟩
    refine ⟨hworks, hu'.look (hh.append (.storeJob record) u) rfl fun h v hh _ hv => ?_⟩
    exact along_pure fun u hu => .inl ⟨⟨_, rfl⟩, hh, record, hv.may hu⟩

/-- **A tick hands its job over, or has found no place to spare.** -/
theorem offerTo_ticks (ws : List Worker)
    (hw : s.Sees env n e job (some e) (ws.map Worker.id) w) (hpending : job.state = .pending)
    (hh : Amounts 0 0 0 h) : s.Ticks env n e (offerTo e ws) Served h w := by
  induction ws generalizing h w with
  | nil => exact along_pure fun v hv => .inr ⟨rfl, hh, (hw.may hv).room⟩
  | cons worker ws ih =>
    unfold offerTo
    refine Along.ask fun v hv => ?_
    have hv := hw.may hv
    have hh := hh.append (.count (.workerTick worker.id)) v
    obtain ⟨hmanned, hbusier, -⟩ := hv.manned.answer (e := e) (.offers worker.id)
    have hsees : s.Sees env n e job (some e) (worker.id :: ws.map Worker.id)
        (v.answer (.count (.workerTick worker.id))).2 :=
      ⟨hmanned, hv.named, hv.record, hv.entry, hv.room.busier hbusier⟩
    refine ⟨.offers worker.id, Along.bind ((claim_ticks hsees hpending hh).mono
      (fun _ _ _ h => h) ?_)⟩
    rintro h _ u (⟨⟨time, rfl⟩, hh, record, hu⟩ | ⟨⟨reason, rfl⟩, hh, hu⟩)
    · exact hu.look hh rfl fun h v hh _ _ => along_pure fun _ _ => .inl ⟨rfl, hh⟩
    · exact hu.look hh rfl fun h v hh _ hv => ih hv hh

theorem offerEntry_ticks (hw : s.Sees env n e job (some e) ids w) (hpending : job.state = .pending)
    (htags : e.tags = s.tags) (untaggedOnly : Bool) :
    s.Ticks env n e (offerEntry untaggedOnly e) Served [] w := by
  unfold offerEntry
  refine Along.bind ((rankWorkers_ticks hw htags ⟨rfl, rfl, rfl⟩ untaggedOnly).mono
    (fun _ _ _ h => h) ?_)
  rintro h ranked v ⟨hh, hv⟩
  split
  · rename_i hempty
    rw [List.isEmpty_iff.1 hempty] at hv
    refine hv.look hh rfl fun h v hh _ hv => along_pure fun u hu => .inr ⟨rfl, hh, (hv.may hu).room⟩
  · exact offerTo_ticks ranked hv hpending hh

end

end Simulation

end JobDispatch

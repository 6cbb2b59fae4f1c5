import JobDispatch.Proofs.Arrivals
import JobDispatch.Proofs.Refusals
import JobDispatch.Proofs.Turns

/-!
Enqueueing again after it failed. The log and the sink are written and never read, so worlds that
differ in these are the same to every program (`World.Matches.run`). A call that fails to queue a
job leaves it registered and nothing else that a program could tell (`Failed.matches`); and a job
that is registered already is queued as a new one would be. So once a call goes through, it comes to
what it would have come to without the failed ones before it (`enqueue_again`).
-/

namespace JobDispatch

open Program

variable {α : Type} {w v u : World} {c : Config} {d : JobDraft}

/-! ### Worlds that match -/

namespace World.Matches

lemma refl (w : World) : w.Matches w := ⟨⟨rfl, rfl, rfl, rfl⟩, rfl, rfl⟩

lemma symm (h : w.Matches v) : v.Matches w :=
  ⟨⟨h.alike.jobs.symm, h.alike.queue.symm, h.alike.registry.symm, h.alike.now.symm⟩,
    h.leases.symm, h.progress.symm⟩

lemma trans (h : w.Matches v) (h' : v.Matches u) : w.Matches u :=
  ⟨h.alike.trans h'.alike, h.leases.trans h'.leases, h.progress.trans h'.progress⟩

lemma answer (h : w.Matches v) (r : Request) :
    (w.answer r).1 = (v.answer r).1 ∧ (w.answer r).2.Matches (v.answer r).2 := by
  cases w
  cases v
  obtain ⟨⟨rfl, rfl, rfl, rfl⟩, rfl, rfl⟩ := h
  cases r with
  | addJob draft =>
    simp only [World.answer, World.addJob]
    split <;> exact ⟨rfl, ⟨rfl, rfl, rfl, rfl⟩, rfl, rfl⟩
  | _ => exact ⟨rfl, ⟨rfl, rfl, rfl, rfl⟩, rfl, rfl⟩

/-- **No program can tell matching worlds apart.** -/
theorem run (h : w.Matches v) (p : Program α) :
    (p.run w).1 = (p.run v).1 ∧ (p.run w).2.Matches (p.run v).2 := by
  induction p generalizing w v with
  | done a => exact ⟨rfl, h⟩
  | ask r next ih =>
    obtain ⟨hanswer, hmatches⟩ := h.answer r
    have hnext := ih (w.answer r).1 hmatches
    rw [hanswer] at hnext
    show ((next (w.answer r).1).run (w.answer r).2).1 = _ ∧
      ((next (w.answer r).1).run (w.answer r).2).2.Matches _
    rw [hanswer]
    exact hnext

lemma unplanned (h : w.Matches v) : w.unplanned.Matches v.unplanned :=
  ⟨⟨h.alike.jobs, congrArg (fun s : FallibleQueue => FallibleQueue.ofQueue s.queue) h.alike.queue,
    h.alike.registry, h.alike.now⟩, h.leases, h.progress⟩

end World.Matches

/-! ### Registering twice -/

/-- The world after the job of a draft is registered, if it was not. -/
def World.enrolled (w : World) (d : JobDraft) : World := (w.addJob d).2

lemma World.Matches.enrolled (h : w.Matches v) (d : JobDraft) :
    (w.enrolled d).Matches (v.enrolled d) := (h.answer (.addJob d)).2

lemma World.enrolled_enrolled (w : World) (d : JobDraft) :
    (w.enrolled d).enrolled d = w.enrolled d := by
  unfold enrolled
  cases hjob : w.jobs.find? d.id with
  | none =>
    rw [w.addJob_of_new d hjob, World.addJob_of_known _ d (Table.find?_insert_self _ _ _)]
  | some job => rw [w.addJob_of_known d hjob, w.addJob_of_known d hjob]

lemma World.unplanned_enrolled (w : World) (d : JobDraft) :
    w.unplanned.enrolled d = (w.enrolled d).unplanned := by
  unfold enrolled addJob
  show (if w.jobs.contains d.id then _ else _ : Option Job × World).2 = _
  split <;> rfl

lemma ensureRegistered_matches (w : World) (d : JobDraft) :
    ((Engine.ensureRegistered d).run w).2.Matches (w.enrolled d) := by
  have hadd : (request (.addJob d)).run w = w.addJob d := rfl
  unfold Engine.ensureRegistered World.enrolled
  rw [run_bind, hadd]
  cases hjob : w.jobs.find? d.id with
  | none =>
    rw [w.addJob_of_new d hjob]
    exact .refl _
  | some job =>
    have hread : (request (.readJob d.id)).run w = (w.jobs.find? d.id, w) := rfl
    rw [w.addJob_of_known d hjob]
    dsimp only
    rw [run_bind, hread, hjob]
    dsimp only
    split
    · exact ⟨⟨rfl, rfl, rfl, rfl⟩, rfl, rfl⟩
    · exact .refl _

lemma enqueue_run_of_enrolled (c : Config) (h : (w.enrolled d).Matches (v.enrolled d)) :
    ((Engine.enqueue c d).run w).1 = ((Engine.enqueue c d).run v).1 ∧
      ((Engine.enqueue c d).run w).2.Matches ((Engine.enqueue c d).run v).2 := by
  have hregistered := (ensureRegistered_matches w d).trans
    (h.trans (ensureRegistered_matches v d).symm)
  unfold Engine.enqueue
  rw [run_bind (Engine.ensureRegistered d) _ w, run_bind (Engine.ensureRegistered d) _ v]
  exact hregistered.run _

/-! ### Calls that fail -/

def World.planned (w : World) (plan : List Fault) : World :=
  { w with queue := ⟨w.queue.queue, plan⟩ }

/-- The world is left by calls that were to enqueue the draft and failed with these errors, one
after the other and with any failures planned for each. -/
inductive Engine.Failed (c : Config) (d : JobDraft) (w : World) : List DispatchError → World → Prop
  | none : Failed c d w [] w
  | again {es : List DispatchError} {v v' : World} {e : DispatchError} (plan : List Fault)
    (h : Failed c d w es v) (hsure : (v.planned plan).queue.Sure)
    (hrun : (Engine.enqueue c d).run (v.planned plan) = (.error e, v')) :
    Failed c d w (es ++ [e]) v'

lemma enqueue_error (hs : w.queue.Sure) {e : DispatchError}
    (h : (Engine.enqueue c d).run w = (.error e, v)) :
    v.unplanned.Matches (w.enrolled d).unplanned := by
  have hregistered := ensureRegistered_matches w d
  have hsure : ((Engine.ensureRegistered d).run w).2.queue.Sure :=
    (asks_true _).run (I := fun w => w.queue.Sure) (fun r w _ hw => World.answer_sure hw r) hs
  unfold Engine.enqueue Engine.changeState at h
  rw [run_bind, run_bind, run_bind] at h
  generalize ((Engine.ensureRegistered d).run w).2 = u at h hregistered hsure
  have hrefused := @changeState_error u d.id Engine.enqueueEdge e hsure
  generalize (changeState d.id Engine.enqueueEdge).run u = changed at h hrefused
  obtain ⟨err | outcome, u'⟩ := changed
  · cases h
    obtain ⟨⟨plan, events, rfl⟩, -⟩ := hrefused rfl
    have hsame := hregistered.unplanned
    exact ⟨⟨hsame.alike.jobs, hsame.alike.queue, hsame.alike.registry, hsame.alike.now⟩,
      hsame.leases, hsame.progress⟩
  · dsimp only at h
    rw [run_bind] at h
    cases h

/-- **Calls that fail leave nothing but a registered job.** -/
theorem Engine.Failed.matches {es : List DispatchError} (h : Failed c d w es v) :
    (v.unplanned.enrolled d).Matches (w.unplanned.enrolled d) := by
  induction h with
  | none => exact .refl _
  | @again es v v' e plan _ hsure hrun ih =>
    have hplanned : ((v.planned plan).enrolled d).unplanned = v.unplanned.enrolled d :=
      (World.unplanned_enrolled (v.planned plan) d).symm
    have hfailed := enqueue_error hsure hrun
    rw [hplanned] at hfailed
    have henrolled := hfailed.enrolled d
    rw [World.enrolled_enrolled] at henrolled
    exact henrolled.trans ih

/-- A struck push makes the call fail as long as the job is not past being queued. -/
lemma enqueue_of_struck (c : Config) (hd : w.Queueable d) (e : DispatchError) :
    ((Engine.enqueue c d).run (w.planned [⟨.push, 0, .error e⟩])).1 = .error e := by
  obtain ⟨jobs, events, hregister, hjob, -⟩ :=
    ensureRegistered_run (w.planned [⟨.push, 0, .error e⟩]) d
  let w₁ : World := { w.planned [⟨.push, 0, .error e⟩] with jobs, events }
  have hlock : (request (.lockJob d.id)).run w₁ = (some (w.jobFor d), w₁) := by
    show (jobs.find? d.id, w₁) = _
    rw [hjob]
    rfl
  have hclock : (request .clock).run w₁ = (w₁.now, w₁) := rfl
  have hpush : (request (.push (w.jobFor d).id (w.jobFor d).project (w.jobFor d).tags w₁.now)).run
      w₁ = (.error e, w₁.unplanned) := rfl
  unfold Engine.enqueue Engine.changeState changeState
  rw [run_bind, hregister]
  dsimp only
  rw [if_neg (by decide), if_neg (by decide), run_bind, run_bind, run_bind, hlock]
  dsimp only
  rw [if_neg (by rw [hd.jobFor]; decide), run_bind, hclock]
  dsimp only [applyEffect, Engine.enqueueEdge, Edge.queueChange]
  unfold pushEntry
  rw [if_neg (by decide), run_bind, run_bind, run_bind, hpush]
  cases e <;> rfl

/-- Whether a job is past being queued is seen as well once it is registered. -/
lemma World.queueable_enrolled : (w.enrolled d).Queueable d ↔ w.Queueable d := by
  unfold enrolled Queueable
  cases hjob : w.jobs.find? d.id with
  | none =>
    rw [w.addJob_of_new d hjob]
    constructor
    · intro _ job h
      cases h
    · intro _ job h
      dsimp only at h
      rw [Table.find?_insert_self] at h
      cases h
      rfl
  | some job =>
    rw [w.addJob_of_known d hjob, hjob]

lemma Engine.Failed.queueable {es : List DispatchError} (h : Failed c d w es v)
    (hd : w.Queueable d) : v.Queueable d := by
  have hstart : (w.unplanned.enrolled d).Queueable d := World.queueable_enrolled.2 hd
  have hjobs := h.matches.alike.jobs
  have hend : (v.unplanned.enrolled d).Queueable d := fun job hjob =>
    hstart job (by rw [← hjobs]; exact hjob)
  have hunplanned : v.unplanned.Queueable d := World.queueable_enrolled.1 hend
  exact hunplanned

lemma Engine.exists_failed (c : Config) (hd : w.Queueable d) (es : List DispatchError) :
    ∃ v, Failed c d w es v := by
  induction es using List.reverseRecOn with
  | nil => exact ⟨w, .none⟩
  | append_singleton es e ih =>
    obtain ⟨v, hv⟩ := ih
    have hstruck := enqueue_of_struck c (hv.queueable hd) e
    refine ⟨_, .again [⟨.push, 0, .error e⟩] hv (fun f hf => ?_) (Prod.ext hstruck rfl)⟩
    rw [List.mem_singleton.1 hf]
    nofun

/-- **Enqueueing can be tried again.** Calls to enqueue a draft fail with any errors that pushes are
planned to fail with, unless the job is past being queued. However calls may have failed before it,
a call on a queue that works gives what it would have given without them, and leaves the same jobs,
the same entries with the same numbers, and the same workers; the world after it has the same
leases and the same progress too. -/
theorem enqueue_again (c : Config) (w : World) (d : JobDraft) (es : List DispatchError) :
    (w.Queueable d → ∃ v, Engine.Failed c d w es v) ∧
    ∀ v, Engine.Failed c d w es v →
      ((Engine.enqueue c d).run v.unplanned).1 = ((Engine.enqueue c d).run w.unplanned).1 ∧
      ((Engine.enqueue c d).run v.unplanned).2.Matches ((Engine.enqueue c d).run w.unplanned).2 :=
  ⟨fun hd => Engine.exists_failed c hd es, fun _ hv => enqueue_run_of_enrolled c hv.matches⟩

def workerReady : World :=
  (Engine.initial .standard (.counting .zero) .epoch).acts (Engine.Operation.program .standard)
    [.call (.heartbeat ⟨⟨.ofNat 1⟩, .empty, 1, .epoch, .everyProject, true⟩)]

theorem enqueue_again_afterTwo :
    let draft : JobDraft := ⟨⟨.ofNat 2⟩, ⟨.ofNat 3⟩, .empty⟩
    let failures : List DispatchError := [.leaseOutOfRange "injected", .duplicateEntry ⟨.ofNat 2⟩]
    ∃ v, Engine.Failed .standard draft workerReady failures v ∧
      ((Engine.enqueue .standard draft).run v.unplanned).1 =
        .ok (some (.claimed ⟨⟨.ofNat 2⟩, ⟨.ofNat 1⟩, .epoch⟩)) ∧
      ((Engine.enqueue .standard draft).run v.unplanned).2.jobs =
        ((Engine.enqueue .standard draft).run workerReady.unplanned).2.jobs := by
  intro draft failures
  obtain ⟨hfails, hagain⟩ := enqueue_again .standard workerReady draft failures
  have hnew : workerReady.jobs.find? draft.id = none := by decide +kernel
  obtain ⟨v, hv⟩ := hfails fun job hjob => by
    rw [hnew] at hjob
    cases hjob
  obtain ⟨hresult, hmatches⟩ := hagain v hv
  exact ⟨v, hv, hresult.trans (by decide +kernel), hmatches.alike.jobs⟩

end JobDispatch

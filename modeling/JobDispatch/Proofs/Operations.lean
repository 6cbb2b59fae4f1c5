import JobDispatch.Proofs.Composition
import JobDispatch.Proofs.Orderly
import JobDispatch.Proofs.Soundness

/-!
The operations of the engine. Each is made of critical sections and of requests that need no lock,
so it begins and ends without a lock and keeps the discipline in between (`Program.Unlocked`). A
world that operations lead to, one after the other, is therefore sound (`Reachable.sound`).
-/

namespace JobDispatch

open Program

/-- The request needs no lock and takes none. -/
def Request.isFree : Request → Bool
  | .lockJob _ | .storeJob _ | .unlockJob _ | .push .. | .pop _ | .takePlace _ | .release _ => false
  | _ => true

namespace Program

variable {α β : Type}

/-- The program keeps the discipline if it begins without a lock, and ends without one. -/
def Unlocked (p : Program α) : Prop :=
  ∀ taken, p.Orderly (fun _ f => f.tenure? = none) ⟨none, taken⟩

lemma unlocked_pure (a : α) : (pure a : Program α).Unlocked := fun _ => rfl

lemma Unlocked.bind {p : Program α} {g : α → Program β} (hp : p.Unlocked)
    (hg : ∀ a, (g a).Unlocked) : (p >>= g).Unlocked := by
  intro taken
  rw [orderly_bind]
  refine (hp taken).mono fun a f hf => ?_
  obtain ⟨tenure?, taken'⟩ := f
  cases hf
  exact hg a taken'

lemma unlocked_request {r : Request} (h : r.isFree = true) : (request r).Unlocked := by
  intro taken
  show r.Permitted _ _
  cases r with
  | lookup id => exact ⟨fun _ => rfl, fun _ _ => rfl⟩
  | lockJob _ | storeJob _ | unlockJob _ | push _ _ _ _ | pop _ | takePlace _ | release _ => cases h
  | _ => exact fun _ => rfl

lemma Unlocked.ask {r : Request} {g : r.Answer → Program β} (h : r.isFree = true)
    (hg : ∀ x, (g x).Unlocked) : (request r >>= g).Unlocked := (unlocked_request h).bind hg

lemma Unlocked.discard {p : Program α} (hp : p.Unlocked) : (Functor.discard p).Unlocked :=
  hp.bind fun _ => unlocked_pure _

end Program

/-! ### Sections -/

lemma claim_unlocked (id : JobId) (worker : WorkerId) : (claim id worker).Unlocked :=
  fun taken => (claim_orderly id worker taken).mono fun _ f hf => by rw [hf]

lemma changeState_unlocked (id : JobId) (edge : Edge) : (changeState id edge).Unlocked :=
  fun taken => (changeState_orderly id edge taken).mono fun _ f hf => by rw [hf]

lemma auditJob_unlocked (id : JobId) : (auditJob id).Unlocked := by
  intro taken
  unfold auditJob
  rw [orderly_bind, orderly_request]
  refine ⟨rfl, rfl, fun t hid hs => ?_⟩
  subst hid
  dsimp only
  rw [orderly_bind, orderly_request]
  refine ⟨fun e => unlock_orderly rfl hs rfl, fun e? _ => unlock_orderly rfl hs ?_⟩
  dsimp only
  split <;> rfl

lemma Section.unlocked (part : Section) : part.program.Unlocked := by
  cases part with
  | offer job worker => exact .ask rfl fun _ => claim_unlocked job worker
  | change job edge => exact changeState_unlocked job edge
  | audit job => exact auditJob_unlocked job

theorem Composed.unlocked {A : Request → Prop} {α : Type} {p : Program α} (hp : Composed A p)
    (hfree : ∀ r, A r → r.isFree = true) : p.Unlocked := by
  induction hp with
  | done a => exact unlocked_pure a
  | ask hr _ ih => exact .ask (hfree _ hr) ih
  | enter part _ ih => exact part.unlocked.bind ih

lemma Request.isFree_of_isLoose {r : Request} (h : r.isLoose = true) : r.isFree = true := by
  cases r with
  | lockJob _ | storeJob _ | unlockJob _ | push _ _ _ _ | pop _ | takePlace _ | release _ => cases h
  | _ => rfl

lemma Request.isFree_of_isLease {r : Request} (h : r.isLease = true) : r.isFree = true := by
  cases r with
  | obtainLease _ _ _ | releaseLease _ => rfl
  | _ => cases h

lemma Composed.unlocked_of_loose {α : Type} {p : Program α} (hp : Loose p) : p.Unlocked :=
  hp.unlocked fun _ => Request.isFree_of_isLoose

lemma Composed.unlocked_of_leasing {α : Type} {p : Program α} (hp : Leasing p) : p.Unlocked :=
  hp.unlocked fun _ h => h.elim Request.isFree_of_isLoose Request.isFree_of_isLease

/-! ### Operations -/

namespace Engine

inductive Operation
  | register (draft : JobDraft)
  | changeState (job : JobId) (edge : Edge)
  | reportTransition (job : JobId) (edge : Edge)
  | enqueue (draft : JobDraft)
  | dequeue (job : JobId)
  | tick (job : JobId)
  | heartbeat (h : Heartbeat)
  | sweep
  | verify

/-- The program of an operation, whose reply is of no concern. -/
def Operation.program (c : Config) : Operation → Program Unit
  | register draft => discard (Engine.register draft)
  | changeState job edge => discard (Engine.changeState c job edge)
  | reportTransition job edge => discard (Engine.reportTransition c job edge)
  | enqueue draft => discard (Engine.enqueue c draft)
  | dequeue job => discard (Engine.dequeue job)
  | tick job => discard (Engine.tick c job)
  | heartbeat h => discard (Engine.heartbeat c h)
  | sweep => discard (Engine.sweep c)
  | verify => discard (Engine.verify c)

/-- Operations other than sweeps ask for no lease. -/
lemma Operation.program_loose (c : Config) {o : Operation} (h : o ≠ .sweep) :
    Loose (o.program c) := by
  cases o with
  | register draft => exact (register_loose draft).discard
  | changeState job edge => exact (changeState_loose c job edge).discard
  | reportTransition job edge => exact (reportTransition_loose c job edge).discard
  | enqueue draft => exact (enqueue_loose c draft).discard
  | dequeue job => exact (Composed.part (.change job cancelEdge)).discard
  | tick job => exact (tick_loose _ job).discard
  | heartbeat b => exact (heartbeat_loose c b).discard
  | sweep => exact absurd rfl h
  | verify => exact (verify_loose c).discard

/-- **Operations are put together from sections, loose requests and requests about leases.** -/
theorem Operation.program_leasing (c : Config) (o : Operation) : Leasing (o.program c) := by
  by_cases h : o = .sweep
  · rw [h]
    exact (sweep_leasing _ _).discard
  · exact (o.program_loose c h).leasing

lemma Operation.program_unlocked (c : Config) (o : Operation) : (o.program c).Unlocked :=
  (o.program_leasing c).unlocked_of_leasing

/-- Operations of an engine that was empty at first lead to the world. -/
def Reachable (c : Config) (w : World) : Prop :=
  ∃ sink now as, w = (Engine.initial c sink now).acts (Operation.program c) as

/-- **What operations lead to is sound**, with all locks free. -/
theorem Reachable.sound {c : Config} {w : World} (h : Reachable c w) : w.Sound .free := by
  obtain ⟨sink, now, as, rfl⟩ := h
  have hstart : (Engine.initial c sink now).Sound .free := World.sound_initial _ sink now
  exact hstart.acts (fun o => Operation.program_unlocked c o []) as

end Engine

end JobDispatch

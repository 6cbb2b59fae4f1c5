import JobDispatch.Proofs.Footprint
import JobDispatch.Proofs.Operations
import JobDispatch.Proofs.Trails

/-!
What threads may be about besides critical sections: the operations of the engine, ticks of entries
that were read before, claims, and sweeps of several passes. Each is orderly
(`Errand.program_unlocked`).

All of them are made of plain requests and of ticks; sweeps also move the progress. So what holds of
plain requests, and of ticks of entries that were seen in the queue, holds of all that threads ask
(`Engine.Operation.heeds`, `sweep_heeds`).
-/

namespace JobDispatch

open Program

/-! ### Errands -/

def PassReport.finishes : Except DispatchError PassReport → Bool
  | .ok r => r.completed
  | .error _ => false

/-- Passes one after the other, up to the first that comes to the end of the queue. -/
def sweepUntil (plan : SweepPlan) (untaggedOnly : Bool) :
    Nat → Program (List (Except DispatchError PassReport))
  | 0 => pure []
  | n + 1 => do
    let result ← sweep plan untaggedOnly
    if PassReport.finishes result then pure [result]
    else
      let results ← sweepUntil plan untaggedOnly n
      pure (result :: results)

inductive Errand
  | operation (o : Engine.Operation)
  /-- A tick of an entry that was read before. -/
  | offer (e : QueueEntry)
  | claim (job : JobId) (worker : WorkerId)
  /-- A sweep of at most so many passes. -/
  | sweepUntil (passes : Nat)

/-- Threads on errands. -/
abbrev Errands := System Errand (List (Except DispatchError PassReport))

namespace Errand

/-- The program of an errand. It ends with the results of the passes that it is made of. -/
def program (c : Config) : Errand → Program (List (Except DispatchError PassReport))
  | operation o => do
    o.program c
    pure []
  | offer e => do
    discard (offerEntry c.untaggedOnly e)
    pure []
  | claim job worker => do
    discard (JobDispatch.claim job worker)
    pure []
  | sweepUntil passes => JobDispatch.sweepUntil c.sweepPlan c.untaggedOnly passes

def sweeps : Errand → Bool
  | operation .sweep | sweepUntil _ => true
  | _ => false

end Errand

lemma sweepUntil_leasing (plan : SweepPlan) (untaggedOnly : Bool) (n : Nat) :
    Leasing (sweepUntil plan untaggedOnly n) := by
  induction n with
  | zero => exact .pure _
  | succ n ih =>
    unfold sweepUntil
    refine (sweep_leasing plan untaggedOnly).bind fun result => ?_
    split
    · exact .pure _
    · exact ih.bind fun _ => .pure _

lemma Errand.program_unlocked (c : Config) (errand : Errand) : (errand.program c).Unlocked := by
  cases errand with
  | operation o => exact (Engine.Operation.program_unlocked c o).bind fun _ => unlocked_pure _
  | offer e => exact (offerEntry_loose _ e).unlocked_of_loose.discard.bind fun _ => unlocked_pure _
  | claim job worker => exact (claim_unlocked job worker).discard.bind fun _ => unlocked_pure _
  | sweepUntil passes => exact (sweepUntil_leasing _ _ passes).unlocked_of_leasing

/-! ### Plain requests -/

def Request.movesProgress : Request → Bool
  | .beginPass _ | .notePlace .. => true
  | _ => false

/-- The request neither takes a place of a worker nor moves the progress of sweeps. -/
def Request.isPlain : Request → Bool
  | .takePlace _ => false
  | r => !r.movesProgress

/-- The entry was in the queue when one of the requests was answered. -/
def Seen (h : Trail) (e : QueueEntry) : Prop :=
  ∃ q ∈ h, ∃ id, q.2.queue.queue.get? id = some e

lemma Seen.append {h : Trail} {e : QueueEntry} (hs : Seen h e) (t : Trail) : Seen (h ++ t) e := by
  obtain ⟨q, hq, hid⟩ := hs
  exact ⟨q, List.mem_append_left t hq, hid⟩

lemma World.get?_of_lookup {v : World} {id : JobId} {e : QueueEntry}
    (h : (v.answer (.lookup id)).1 = .ok (some e)) : v.queue.queue.get? id = some e := by
  simp only [World.answer, World.onQueue, FallibleQueue.get, FallibleQueue.guarded] at h
  split at h
  · cases h
  · rename_i hmiss
    cases h
    cases hmiss
  · exact Except.ok.inj h

lemma World.page_of_scan {v : World} {limit : UInt64} {after : Option Cursor} {page : Page after}
    (h : (v.answer (.scan limit after)).1 = .ok page) :
    page = v.queue.queue.scan limit after := by
  simp only [World.answer, World.onQueue, FallibleQueue.scan, FallibleQueue.guarded] at h
  split at h
  · cases h
  · rename_i hmiss
    cases hmiss
  · cases h
    rfl

/-! ### What threads ask -/

namespace Program

variable {α β : Type} {P : Trail → Request → World → Prop} {p : Program α} {h : Trail}

/-- Whenever the program asks, after whatever it has asked before, the request satisfies `P`. -/
def Heeds (P : Trail → Request → World → Prop) (p : Program α) (h : Trail) : Prop :=
  ∀ w, p.Along .anything P (fun _ _ _ => True) h w

lemma heeds_pure (a : α) : (pure a : Program α).Heeds P h := fun _ _ _ => trivial

lemma Heeds.ask {r : Request} {f : r.Answer → Program α} (hr : ∀ v, P h r v)
    (hf : ∀ v, (f (v.answer r).1).Heeds P (h ++ [(r, v)])) : (request r >>= f).Heeds P h :=
  fun _ => Along.ask fun v _ => ⟨hr v, hf v _⟩

lemma Heeds.bind_asks {A : Request → Prop} {f : α → Program β} (hp : p.Heeds P h)
    (hA : p.Asks A) (hf : ∀ a t, (∀ q ∈ t, A q.1) → (f a).Heeds P (h ++ t)) :
    (p >>= f).Heeds P h :=
  fun w => (hp w).bind_trail hA fun a t v ht => hf a t ht v

lemma Heeds.bind {f : α → Program β} (hp : p.Heeds P h)
    (hf : ∀ a t, (f a).Heeds P (h ++ t)) : (p >>= f).Heeds P h :=
  hp.bind_asks p.asks_true fun a t _ => hf a t

lemma Heeds.discard (hp : p.Heeds P h) : (Functor.discard p).Heeds P h :=
  hp.bind fun _ _ => heeds_pure _

end Program

/-- Plain requests satisfy `P`, and so do the requests of ticks of entries that were seen. -/
structure Allows (untaggedOnly : Bool) (P : Trail → Request → World → Prop) : Prop where
  plain : ∀ h r v, r.isPlain = true → P h r v
  offer : ∀ h e, Seen h e → (offerEntry untaggedOnly e).Heeds P h

variable {untaggedOnly : Bool} {P : Trail → Request → World → Prop} {h : Trail}

namespace Allows

variable {α : Type} {p : Program α}

lemma of_asks (hP : Allows untaggedOnly P) (hp : p.Asks fun r => r.isPlain = true) (h : Trail) :
    p.Heeds P h := fun _ => hp.along hP.plain

lemma ask (hP : Allows untaggedOnly P) {r : Request} (hr : r.isPlain = true)
    {f : r.Answer → Program α} (hf : ∀ v, (f (v.answer r).1).Heeds P (h ++ [(r, v)])) :
    (request r >>= f).Heeds P h := .ask (fun v => hP.plain h r v hr) hf

end Allows

lemma Request.InChange.isPlain {id : JobId} {r : Request} (h : r.InChange id) :
    r.isPlain = true := by
  cases r with
  | takePlace _ | beginPass _ | notePlace _ _ => exact False.elim h
  | _ => rfl

lemma changeState_plain (id : JobId) (edge : Edge) :
    (changeState id edge).Asks fun r => r.isPlain = true :=
  (changeState_asks_inChange id edge).mono fun _ => Request.InChange.isPlain

lemma tick_heeds (hP : Allows untaggedOnly P) (id : JobId) (h : Trail) :
    (tick untaggedOnly id).Heeds P h := by
  unfold tick
  refine hP.ask rfl fun v => ?_
  split
  · exact heeds_pure _
  · exact hP.ask rfl fun _ => heeds_pure _
  · rename_i e he
    exact hP.offer _ e ⟨_, List.mem_append_right h (List.mem_singleton_self _), id,
      World.get?_of_lookup he⟩

/-! ### Walks through the queue -/

section Walks

variable {σ : Type} {visit : QueueEntry → σ → Program (Visit σ)}

lemma walkPage_heeds (hvisit : ∀ e s h, Seen h e → (visit e s).Heeds P h) (es : List QueueEntry)
    (s : σ) (hes : ∀ e ∈ es, Seen h e) : (walkPage visit es s).Heeds P h := by
  induction es generalizing s h with
  | nil => exact heeds_pure _
  | cons e es ih =>
    unfold walkPage
    refine (hvisit e s h (hes e List.mem_cons_self)).bind fun result t => ?_
    split
    · exact ih _ fun e' he' => (hes e' (List.mem_cons_of_mem _ he')).append t
    · exact heeds_pure _
    · exact heeds_pure _

lemma seen_of_scan (h : Trail) {v : World} {limit : UInt64} {after : Option Cursor}
    {page : Page after} (hpage : (v.answer (.scan limit after)).1 = .ok page) :
    ∀ e ∈ page.entries, Seen (h ++ [(.scan limit after, v)]) e := by
  intro e he
  rw [World.page_of_scan hpage] at he
  obtain ⟨p, -, hfind⟩ := List.mem_filterMap.1 he
  exact ⟨_, List.mem_append_right h (List.mem_singleton_self _), p.2, hfind⟩

lemma walkQueue_heeds (hP : Allows untaggedOnly P)
    (hvisit : ∀ e s h, Seen h e → (visit e s).Heeds P h) (limit : UInt64)
    (after : Option Cursor) (s : σ) : (walkQueue limit visit after s).Heeds P h := by
  induction hroom : Cursor.room after using Nat.strong_induction_on generalizing after s h with
  | _ n ih =>
    subst hroom
    unfold walkQueue
    refine hP.ask rfl fun v => ?_
    split
    · exact heeds_pure _
    rename_i page hpage
    refine (walkPage_heeds hvisit _ _ (seen_of_scan h hpage)).bind fun result t => ?_
    split
    · exact heeds_pure _
    · exact heeds_pure _
    split
    · rename_i next hnext _
      exact ih _ (Cursor.room_lt hnext) _ _ rfl
    · exact heeds_pure _

lemma visitFor_heeds (hP : Allows untaggedOnly P) (worker : WorkerId) (e : QueueEntry)
    (claims : Nat) (h : Trail) (he : Seen h e) :
    (visitFor untaggedOnly worker e claims).Heeds P h := by
  unfold visitFor currentCriteria
  refine hP.ask rfl fun v => ?_
  split
  · exact heeds_pure _
  refine hP.ask rfl fun v₁ => hP.ask rfl fun v₂ => ?_
  show Heeds P (if _ then _ else _) _
  split
  · exact heeds_pure _
  split
  · exact heeds_pure _
  refine (hP.offer _ e (((he.append _).append _).append _)).bind fun result t => ?_
  split
  · exact heeds_pure _
  · exact heeds_pure _

end Walks

/-! ### Operations -/

lemma auditJob_plain (id : JobId) : (auditJob id).Asks fun r => r.isPlain = true :=
  (auditJob_asks id).mono fun _ h => h.inChange.isPlain

namespace Engine

lemma auditJobs_plain (jobs : List JobId) (report : Audit) :
    (auditJobs jobs report).Asks fun r => r.isPlain = true := by
  induction jobs generalizing report with
  | nil => trivial
  | cons job jobs ih =>
    unfold auditJobs
    refine (auditJob_plain job).bind fun result => ?_
    split
    · trivial
    · exact ih _
    · exact ih _

lemma auditEntry_plain (e : QueueEntry) (report : Audit) :
    (auditEntry e report).Asks fun r => r.isPlain = true := by
  unfold auditEntry
  refine ⟨rfl, fun job? => ?_⟩
  cases job? <;> trivial

lemma verify_heeds (hP : Allows untaggedOnly P) (c : Config) : (verify c).Heeds P h := by
  unfold verify
  refine hP.ask rfl fun v => ?_
  refine (hP.of_asks (auditJobs_plain _ .empty) _).bind fun result t => ?_
  split
  · exact heeds_pure _
  refine (walkQueue_heeds hP (fun e s h _ => hP.of_asks (auditEntry_plain e s) h) _ _ _).bind
    fun result t => ?_
  split
  · exact heeds_pure _
  dsimp only
  split
  · exact hP.ask rfl fun _ => heeds_pure _
  · exact hP.ask rfl fun _ => heeds_pure _

lemma register_heeds (hP : Allows untaggedOnly P) (draft : JobDraft) :
    (register draft).Heeds P h := by
  unfold register
  refine hP.ask rfl fun v => ?_
  split
  · exact heeds_pure _
  · exact heeds_pure _

lemma recordHeartbeat_heeds (hP : Allows untaggedOnly P) (b : Heartbeat) :
    (recordHeartbeat b).Heeds P h := by
  unfold recordHeartbeat
  refine hP.ask rfl fun v => ?_
  dsimp only
  split
  · exact hP.ask rfl fun _ => heeds_pure _
  · exact heeds_pure _

lemma ensureRegistered_heeds (hP : Allows untaggedOnly P) (draft : JobDraft) :
    (ensureRegistered draft).Heeds P h := by
  unfold ensureRegistered
  refine hP.ask rfl fun v => ?_
  split
  · exact heeds_pure _
  refine hP.ask rfl fun v₁ => ?_
  split
  · exact heeds_pure _
  split
  · exact hP.ask (f := Program.done) rfl fun _ => heeds_pure _
  · exact heeds_pure _

variable {c : Config}

lemma offerAfter_heeds (hP : Allows c.untaggedOnly P) (outcome : AppliedEdge) :
    (offerAfter c outcome).Heeds P h := by
  unfold offerAfter
  split
  · exact heeds_pure _
  refine (tick_heeds hP _ h).bind fun result t => ?_
  split
  · exact heeds_pure _
  · exact hP.ask rfl fun _ => heeds_pure _

lemma changeState_heeds (hP : Allows c.untaggedOnly P) (id : JobId) (edge : Edge) :
    (changeState c id edge).Heeds P h := by
  unfold changeState
  refine (hP.of_asks (changeState_plain id edge) h).bind fun result t => ?_
  split
  · exact heeds_pure _
  · exact (offerAfter_heeds hP _).bind fun _ _ => heeds_pure _

lemma reportTransition_heeds (hP : Allows c.untaggedOnly P) (id : JobId) (edge : Edge) :
    (reportTransition c id edge).Heeds P h := by
  unfold reportTransition
  refine (changeState_heeds hP id edge).bind fun result t => ?_
  split
  · exact heeds_pure _
  · exact hP.ask rfl fun _ => heeds_pure _

lemma heartbeat_heeds (hP : Allows c.untaggedOnly P) (b : Heartbeat) :
    (heartbeat c b).Heeds P h := by
  unfold heartbeat
  refine (recordHeartbeat_heeds hP b).bind fun worker t => ?_
  split
  · exact heeds_pure _
  refine (walkQueue_heeds hP (fun e s h he => visitFor_heeds hP _ e s h he) _ _ _).bind
    fun result t => ?_
  split
  · exact heeds_pure _
  · exact hP.ask rfl fun _ => hP.ask rfl fun _ => heeds_pure _
  · exact hP.ask rfl fun _ => heeds_pure _

lemma enqueue_heeds (hP : Allows c.untaggedOnly P) (draft : JobDraft) :
    (enqueue c draft).Heeds P h := by
  unfold enqueue
  refine (ensureRegistered_heeds hP draft).bind fun _ t => ?_
  refine (changeState_heeds hP draft.id enqueueEdge).bind fun result t => ?_
  split
  · exact heeds_pure _
  · exact heeds_pure _

end Engine

/-! ### Sweeps -/

lemma offerAll_heeds (hP : Allows untaggedOnly P) (es : List QueueEntry)
    (hes : ∀ e ∈ es, Seen h e) : (offerAll untaggedOnly es).Heeds P h := by
  induction es generalizing h with
  | nil => exact heeds_pure _
  | cons e es ih =>
    unfold offerAll
    refine (hP.offer h e (hes e List.mem_cons_self)).bind fun _ t => ?_
    exact (ih fun e' he' => (hes e' (List.mem_cons_of_mem _ he')).append t).bind
      fun _ _ => heeds_pure _

lemma Allows.of_logs (hP : Allows untaggedOnly P) {α : Type} {p : Program α}
    (hp : p.Asks fun r => ∃ e, r = .log e) (h : Trail) : p.Heeds P h :=
  hP.of_asks (hp.mono fun _ ⟨_, hr⟩ => hr ▸ rfl) h

section

variable (hP : Allows untaggedOnly P)
  (hprogress : ∀ h r v, r.movesProgress = true → P h r v) (plan : SweepPlan)

include hP hprogress

lemma sweepFrom_heeds (after : Option Cursor) (report : PassReport) :
    (sweepFrom plan untaggedOnly after report).Heeds P h := by
  induction hroom : Cursor.room after using Nat.strong_induction_on generalizing after report h with
  | _ n ih =>
    subst hroom
    rw [sweepFrom_eq]
    split
    · exact .ask (fun v => hprogress _ _ v rfl) fun _ => hP.ask rfl fun _ => heeds_pure _
    refine hP.ask rfl fun v => ?_
    split
    · exact heeds_pure _
    rename_i page hpage
    refine (offerAll_heeds hP page.entries (seen_of_scan h hpage)).bind fun outcomes t => ?_
    refine (hP.of_logs (recordOutcomes_asks outcomes report) _).bind fun report' t => ?_
    dsimp only
    split
    · rename_i next hnext _
      exact .ask (fun v => hprogress _ _ v rfl) fun _ => ih _ (Cursor.room_lt hnext) _ _ rfl
    · exact .ask (fun v => hprogress _ _ v rfl) fun _ => heeds_pure _

lemma beginPass_heeds : beginPass.Heeds P h := by
  refine fun _ => beginPass_asks.along fun h r v hr => ?_
  rcases hr with rfl | ⟨now, rfl⟩ | ⟨e, rfl⟩
  · exact hP.plain h _ v rfl
  · exact hprogress h _ v rfl
  · exact hP.plain h _ v rfl

lemma passUnderLease_heeds : (passUnderLease plan untaggedOnly).Heeds P h := by
  rw [passUnderLease_eq]
  exact hP.ask rfl fun _ => hP.ask rfl fun _ => (beginPass_heeds hP hprogress).bind
    fun _ _ => sweepFrom_heeds hP hprogress plan _ _

lemma sweep_heeds : (sweep plan untaggedOnly).Heeds P h := by
  rw [sweep_eq]
  refine hP.ask rfl fun v => hP.ask rfl fun v₁ => ?_
  split
  · exact heeds_pure _
  · exact (passUnderLease_heeds hP hprogress plan).bind fun result t => hP.ask rfl fun v₂ =>
      (hP.of_logs (logPass_asks _ _ result) _).bind fun _ _ => heeds_pure _

lemma sweepUntil_heeds (n : Nat) : (sweepUntil plan untaggedOnly n).Heeds P h := by
  induction n generalizing h with
  | zero => exact heeds_pure _
  | succ n ih =>
    unfold sweepUntil
    refine (sweep_heeds hP hprogress plan).bind fun result t => ?_
    split
    · exact heeds_pure _
    · exact ih.bind fun _ _ => heeds_pure _

end

/-- **What holds of plain requests and of ticks holds of all that operations ask**, and if the
operation is a sweep of the requests that move the progress. -/
theorem Engine.Operation.heeds {c : Config} (hP : Allows c.untaggedOnly P)
    (o : Engine.Operation)
    (hprogress : (Errand.operation o).sweeps = true →
      ∀ h r v, r.movesProgress = true → P h r v) : (o.program c).Heeds P h := by
  cases o with
  | register draft => exact (Engine.register_heeds hP draft).discard
  | changeState job edge => exact (Engine.changeState_heeds hP job edge).discard
  | reportTransition job edge => exact (Engine.reportTransition_heeds hP job edge).discard
  | enqueue draft => exact (Engine.enqueue_heeds hP draft).discard
  | dequeue job => exact (hP.of_asks (changeState_plain job Engine.cancelEdge) h).discard
  | tick job => exact (tick_heeds hP job h).discard
  | heartbeat b => exact (Engine.heartbeat_heeds hP b).discard
  | sweep => exact (sweep_heeds hP (hprogress rfl) c.sweepPlan).discard
  | verify => exact (Engine.verify_heeds hP c).discard

end JobDispatch

import JobDispatch.Lifecycle
import JobDispatch.Proofs.Stores
import Mathlib.Logic.Function.Basic

/-!
The discipline of job locks. Whoever holds the lock of a job has its record, its entry and the place
of a worker that is taken for it before it (`Tenure`). A program is orderly if it changes these only
while it holds the lock, stores a record only where the three agree (`Settled`), moves jobs only
along the lifecycle, and gives a lock back only where nothing is left half done.

Orderliness is read off a program alone. That orderly programs keep jobs and queue in step, run by
themselves or in turns with others, is the subject of `Upkeep`.
-/

namespace JobDispatch

structure Tenure where
  /-- The record as it stands in the table. -/
  job : Job
  queued? : Option QueueEntry
  /-- The worker of whom a place is taken for the job. -/
  place? : Option WorkerId

/-- Record, entry and place agree, as they do whenever the lock of the job is free. -/
structure Tenure.Settled (t : Tenure) : Prop where
  queued_iff : t.queued?.isSome = true ↔ t.job.state = .pending
  entry : ∀ e, t.queued? = some e → e.project = t.job.project ∧ e.tags = t.job.tags
  enqueuedAt : t.job.enqueuedAt? = t.queued?.map QueueEntry.enqueuedAt
  place : t.place? = t.job.claimedBy?
  placed_iff : t.place?.isSome = true ↔ t.job.state = .running

/-- The record may replace another one: it is of the same job, one edge further. -/
structure Job.Follows (new old : Job) : Prop where
  id : new.id = old.id
  project : new.project = old.project
  tags : new.tags = old.tags
  edge : (⟨old.state, new.state⟩ : Edge).inLifecycle = true

/-- Where a thread stands: the job it has locked, and the edges it has taken jobs along. -/
structure Footing where
  tenure? : Option Tenure
  taken : List (JobId × Edge)

namespace Footing

def start : Footing := ⟨none, []⟩

def hold (f : Footing) (t : Tenure) : Footing := { f with tenure? := some t }

def letGo (f : Footing) : Footing := { f with tenure? := none }

@[simp] lemma tenure?_hold (f : Footing) (t : Tenure) : (f.hold t).tenure? = some t := rfl
@[simp] lemma tenure?_letGo (f : Footing) : f.letGo.tenure? = none := rfl

end Footing

/-- The request keeps the discipline, and `post` holds of whatever answer may come and of the
footing after it. A call on the queue may fail at any time. -/
def Request.Permitted (r : Request) (f : Footing) (post : r.Answer → Footing → Prop) : Prop :=
  match r, post with
  | .lockJob id, post =>
    f.tenure? = none ∧ post none f ∧
      ∀ t : Tenure, t.job.id = id → t.Settled → post (some t.job) (f.hold t)
  | .storeJob record, post =>
    ∃ t, f.tenure? = some t ∧ record.Follows t.job ∧ Tenure.Settled { t with job := record } ∧
      post () ⟨none, (record.id, ⟨t.job.state, record.state⟩) :: f.taken⟩
  | .unlockJob id, post =>
    ∃ t, f.tenure? = some t ∧ t.job.id = id ∧ t.Settled ∧ post () f.letGo
  | .push id project tags time, post =>
    ∃ t, f.tenure? = some t ∧ t.job.id = id ∧ t.job.state = .created ∧ t.queued? = none ∧
      (project = t.job.project ∧ tags = t.job.tags) ∧ (∀ e, post (.error e) f) ∧
      ∀ receipt entry, entry.project = project → entry.tags = tags → entry.enqueuedAt = time →
        post (.ok receipt) (f.hold { t with queued? := some entry })
  | .pop id, post =>
    ∃ t, f.tenure? = some t ∧ t.job.id = id ∧ t.job.state ≠ .created ∧
      (∀ e, post (.error e) f) ∧
      post (.ok t.queued?.isSome) (f.hold { t with queued? := none })
  | .lookup id, post =>
    (∀ e, post (.error e) f) ∧
      ∀ e?, (∀ t, f.tenure? = some t → t.job.id = id → e? = t.queued?) → post (.ok e?) f
  | .takePlace id, post =>
    ∃ t, f.tenure? = some t ∧ t.place? = none ∧ (∀ reason, post (some reason) f) ∧
      post none (f.hold { t with place? := some id })
  | .release id, post =>
    ∃ t, f.tenure? = some t ∧ t.place? = some id ∧
      ∀ x, post x (f.hold { t with place? := none })
  | _, post => ∀ x, post x f

lemma Request.Permitted.mono {r : Request} {f : Footing} {post post' : r.Answer → Footing → Prop}
    (h : r.Permitted f post) (himp : ∀ x f', post x f' → post' x f') : r.Permitted f post' := by
  cases r with
  | lockJob id => exact ⟨h.1, himp _ _ h.2.1, fun t ht hs => himp _ _ (h.2.2 t ht hs)⟩
  | storeJob record =>
    obtain ⟨t, ht, hfol, hset, hpost⟩ := h
    exact ⟨t, ht, hfol, hset, himp _ _ hpost⟩
  | unlockJob id =>
    obtain ⟨t, ht, hid, hset, hpost⟩ := h
    exact ⟨t, ht, hid, hset, himp _ _ hpost⟩
  | push id project tags time =>
    obtain ⟨t, ht, hid, hst, he, hlabels, herr, hok⟩ := h
    exact ⟨t, ht, hid, hst, he, hlabels, fun e => himp _ _ (herr e),
      fun receipt entry h₁ h₂ h₃ => himp _ _ (hok receipt entry h₁ h₂ h₃)⟩
  | pop id =>
    obtain ⟨t, ht, hid, hst, herr, hok⟩ := h
    exact ⟨t, ht, hid, hst, fun e => himp _ _ (herr e), himp _ _ hok⟩
  | lookup id => exact ⟨fun e => himp _ _ (h.1 e), fun e? he => himp _ _ (h.2 e? he)⟩
  | takePlace worker =>
    obtain ⟨t, ht, hp, hno, hyes⟩ := h
    exact ⟨t, ht, hp, fun reason => himp _ _ (hno reason), himp _ _ hyes⟩
  | release worker =>
    obtain ⟨t, ht, hp, hpost⟩ := h
    exact ⟨t, ht, hp, fun x => himp _ _ (hpost x)⟩
  | _ => exact fun x => himp _ _ (h x)

namespace Program

variable {α β : Type}

/-- On a footing the program keeps the discipline to its end, and ends with `Q`. -/
def Orderly (Q : α → Footing → Prop) : Program α → Footing → Prop
  | done a, f => Q a f
  | ask r next, f => r.Permitted f fun x f' => (next x).Orderly Q f'

variable {Q R : α → Footing → Prop}

@[simp] lemma orderly_pure (a : α) (f : Footing) :
    (pure a : Program α).Orderly Q f ↔ Q a f := Iff.rfl

@[simp] lemma orderly_request (r : Request) (f : Footing) (Q : r.Answer → Footing → Prop) :
    (request r).Orderly Q f ↔ r.Permitted f Q := Iff.rfl

lemma Orderly.mono {p : Program α} {f : Footing} (h : p.Orderly Q f)
    (himp : ∀ a f', Q a f' → R a f') : p.Orderly R f := by
  induction p generalizing f with
  | done a => exact himp a f h
  | ask r next ih => exact Request.Permitted.mono h fun x f' hx => ih x hx

@[simp] lemma orderly_bind (p : Program α) (g : α → Program β) (Q : β → Footing → Prop)
    (f : Footing) :
    (p >>= g).Orderly Q f ↔ p.Orderly (fun a f' => (g a).Orderly Q f') f := by
  show (p.bind g).Orderly Q f ↔ _
  induction p generalizing f with
  | done a => rfl
  | ask r next ih =>
    constructor
    · exact fun h => Request.Permitted.mono h fun x f' hx => (ih x f').1 hx
    · exact fun h => Request.Permitted.mono h fun x f' hx => (ih x f').2 hx

end Program

end JobDispatch

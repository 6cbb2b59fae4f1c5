import JobDispatch.Proofs.Occupancy
import JobDispatch.Proofs.Trails

/-!
What the deeds of a run still tell of the present (`System.Recalled`). An entry that was in the
queue at any time has the project and the tags that its job has now; whoever holds the lock of a job
has locked no other since; and a worker offers what it offered at a deed, unless a heartbeat said
otherwise in between.
-/

namespace JobDispatch

variable {w : World} {held : Holders} {f : Footing}

/-! ### Entries and their jobs -/

/-- The entry is that of a job, with its project and its tags. -/
structure QueueEntry.Labels (e : QueueEntry) (id : JobId) (jobs : Table JobId Job) : Prop where
  job : e.job = id
  labels : ∃ job, jobs.find? id = some job ∧ e.project = job.project ∧ e.tags = job.tags

lemma QueueEntry.Labels.answer {e : QueueEntry} {id : JobId} (he : e.Labels id w.jobs)
    (hk : w.Kept held) {r : Request} {post : r.Answer → Footing → Prop}
    (hp : r.Permitted f post) (hf : ∀ t, f.tenure? = some t → held t.job.id = some t) :
    e.Labels id (w.answer r).2.jobs := by
  obtain ⟨hid, job, hjob, hproject, htags⟩ := he
  obtain ⟨job', hjob', rfl | ⟨hfol, -⟩⟩ := hk.record_answer hp hf hjob
  · exact ⟨hid, job', hjob', hproject, htags⟩
  · exact ⟨hid, job', hjob', hproject.trans hfol.project.symm, htags.trans hfol.tags.symm⟩

def World.Labelled (w : World) : Prop :=
  ∀ id e, w.queue.queue.get? id = some e → e.Labels id w.jobs

/-- An entry is in the queue after a request if it was before, or if it is put in for a job that is
locked. -/
lemma World.Labelled.answer (hl : w.Labelled) (hk : w.Kept held) {r : Request}
    {post : r.Answer → Footing → Prop} (hp : r.Permitted f post)
    (hf : ∀ t, f.tenure? = some t → held t.job.id = some t) : (w.answer r).2.Labelled := by
  intro id e he
  -- where no entry comes in
  have hstay (h : w.queue.queue.get? id = some e) : e.Labels id (w.answer r).2.jobs :=
    (hl id e h).answer hk hp hf
  cases r with
  | push job project tags time =>
    obtain ⟨t, ht, rfl, -, hnone, ⟨rfl, rfl⟩, -⟩ := hp
    obtain ⟨hjob, hget⟩ := hk.tenure (hf t ht)
    rcases World.push_cases hk.sure t.job.project t.job.tags time (hget.trans hnone) with
      ⟨err, -, hq⟩ | ⟨receipt, -, hq⟩
    · rw [hq] at he
      exact hstay he
    · rw [hq, Queue.get?_push _ _ _ _ _ (hget.trans hnone)] at he
      split at he
      · rename_i hid
        cases he
        exact ⟨hid.symm, t.job, hid ▸ hjob, rfl, rfl⟩
      · exact hstay he
  | pop job =>
    rcases World.pop_cases hk.sure job with ⟨err, -, hq⟩ | ⟨-, hq⟩
    · rw [hq] at he
      exact hstay he
    · rw [hq, Queue.get?_pop] at he
      split at he
      · cases he
      · exact hstay he
  | _ =>
    rw [World.queue_answer rfl] at he
    exact hstay he

/-! ### Locks -/

/-- The job that was locked last, or tried to be. -/
def Trail.locked? (h : Trail) : Option JobId :=
  h.foldl (fun id? q => match q.1 with
    | .lockJob id => some id
    | _ => id?) none

lemma Trail.locked?_lockJob (h : Trail) (id : JobId) (w : World) :
    Trail.locked? (h ++ [(.lockJob id, w)]) = some id := by
  rw [locked?, List.foldl_append]
  rfl

lemma Trail.locked?_of_ne (h : Trail) {r : Request} (hr : ∀ id, r ≠ .lockJob id) (w : World) :
    Trail.locked? (h ++ [(r, w)]) = h.locked? := by
  rw [locked?, List.foldl_append]
  cases r with
  | lockJob id => exact absurd rfl (hr id)
  | _ => rfl

namespace System

variable {κ ρ : Type} {program : κ → Program ρ} {post : κ → ρ → Footing → Prop}
  {s : System κ ρ} {footing : Nat → Footing}

lemma exists_deed_of_trail {i : Nat} {front back : Trail} {r : Request} {w : World}
    (h : s.trail i = front ++ (r, w) :: back) :
    ∃ since d earlier, s.deeds = since ++ d :: earlier ∧ d.thread = i ∧ d.request = r ∧
      d.world = w ∧ ∀ d' ∈ since, d'.thread = i → (d'.request, d'.world) ∈ back := by
  have hback : (s.deeds.filter fun d => d.thread == i).map (fun d => (d.request, d.world)) =
      back.reverse ++ (r, w) :: front.reverse := by
    rw [← List.reverse_reverse (List.map _ _)]
    change (s.trail i).reverse = _
    rw [h]
    simp
  obtain ⟨later, rest, hfilter, hlater, hrest⟩ := List.map_eq_append_iff.1 hback
  obtain ⟨d, _, rfl, hd, -⟩ := List.map_eq_cons_iff.1 hrest
  obtain ⟨since, rest', hdeeds, hsince, hrest'⟩ := List.filter_eq_append_iff.1 hfilter
  obtain ⟨gap, earlier, rfl, hgap, hthread, -⟩ := List.filter_eq_cons_iff.1 hrest'
  obtain ⟨hrequest, hworld⟩ := Prod.mk.inj hd
  refine ⟨since ++ gap, d, earlier, by rw [hdeeds, List.append_assoc], beq_iff_eq.1 hthread,
    hrequest, hworld, fun d' hd' hthread' => ?_⟩
  rcases List.mem_append.1 hd' with hd' | hd'
  · have hmem : d' ∈ later := by
      rw [← hsince]
      exact List.mem_filter.2 ⟨hd', beq_iff_eq.2 hthread'⟩
    rw [← List.mem_reverse, ← hlater]
    exact List.mem_map_of_mem hmem
  · exact absurd (beq_iff_eq.2 hthread') (hgap d' hd')

/-! ### What is recalled -/

structure Recalled (s : System κ ρ) : Prop where
  current : s.world.Labelled
  /-- Whatever was in the queue is labelled as its job is now. -/
  seen : ∀ d ∈ s.deeds, ∀ id e, d.world.queue.queue.get? id = some e → e.Labels id s.world.jobs
  named : ∀ d ∈ s.deeds, ∀ id record, d.world.registry.get? id = some record → record.id = id
  locked : ∀ id i, s.locks.find? id = some i → (s.trail i).locked? = some id
  /-- A worker offers what it offered at a deed, unless its heartbeats said otherwise since. -/
  offered : ∀ since d earlier, s.deeds = since ++ d :: earlier → ∀ id record,
    d.world.registry.get? id = some record →
    (∀ d' ∈ since ++ [d], ∀ b, d'.request = .heartbeat b → b.worker = id →
      b.offer = record.offer) →
    ∃ record', s.world.registry.get? id = some record' ∧ record'.offer = record.offer

namespace Recalled

lemma initial {w : World} (hw : w.Labelled) : (System.initial w : System κ ρ).Recalled where
  current := hw
  seen _ h := absurd h List.not_mem_nil
  named _ h := absurd h List.not_mem_nil
  locked _ _ h := by cases h
  offered since d earlier h := by simp [System.initial] at h

section

variable {i : Nat} {c : κ} {r : Request} {next : r.Answer → Program ρ}

lemma locked_answered (hr : s.Recalled) (hs : s.Sound post footing)
    (ht : s.threads[i]? = some ⟨c, .ask r next⟩) (id : JobId) (k : Nat)
    (hk : (s.locksAfter i r).find? id = some k) :
    ((s.answered i c r next).trail k).locked? = some id := by
  have hp := hs.permitted ht
  -- a lock that was held before, by another thread or by one that locks no other job
  have hstay (hold : s.locks.find? id = some k) (hr' : k = i → ∀ job, r ≠ .lockJob job) :
      ((s.answered i c r next).trail k).locked? = some id := by
    by_cases hki : k = i
    · subst hki
      rw [trail_answered_self, Trail.locked?_of_ne _ (hr' rfl)]
      exact hr.locked id k hold
    · rw [trail_answered_of_ne _ (Ne.symm hki)]
      exact hr.locked id k hold
  cases r with
  | lockJob job =>
    have hother (hold : s.locks.find? id = some k) : k ≠ i := by
      rintro rfl
      obtain ⟨t, htenure, -⟩ := hs.owned id k hold
      rw [hp.1] at htenure
      cases htenure
    simp only [locksAfter] at hk
    split at hk
    · rw [Table.find?_insert] at hk
      split at hk
      · rename_i hid
        cases hk
        rw [trail_answered_self, Trail.locked?_lockJob, hid]
      · exact hstay hk fun hki => absurd hki (hother hk)
    · exact hstay hk fun hki => absurd hki (hother hk)
  | storeJob record =>
    simp only [locksAfter] at hk
    rw [Table.find?_erase] at hk
    split at hk
    · cases hk
    · exact hstay hk fun _ _ h => by cases h
  | unlockJob job =>
    simp only [locksAfter] at hk
    rw [Table.find?_erase] at hk
    split at hk
    · cases hk
    · exact hstay hk fun _ _ h => by cases h
  | _ => exact hstay hk fun _ _ h => by cases h

lemma offered_answered (hr : s.Recalled) (hs : s.Sound post footing) (since : List (Deed κ))
    (d : Deed κ) (earlier : List (Deed κ))
    (hdeeds : (s.answered i c r next).deeds = since ++ d :: earlier) (id : WorkerId)
    (record : Worker) (hget : d.world.registry.get? id = some record)
    (hbeats : ∀ d' ∈ since ++ [d], ∀ b, d'.request = .heartbeat b → b.worker = id →
      b.offer = record.offer) :
    ∃ record', (s.world.answer r).2.registry.get? id = some record' ∧
      record'.offer = record.offer := by
  have hnamed := Registry.Staffed.named hs.world.staffed
  rcases List.cons_eq_append_iff.1 hdeeds with ⟨rfl, heq⟩ | ⟨since', rfl, heq⟩
  · obtain ⟨rfl, -⟩ := List.cons.inj heq
    exact World.offer_stays hnamed hget fun b hb hid =>
      hbeats _ (List.mem_append_right _ (List.mem_singleton_self _)) b hb hid
  · obtain ⟨record', hget', hoffer⟩ := hr.offered since' d earlier heq id record hget
      fun d' hd' => hbeats d' (List.mem_cons_of_mem _ hd')
    obtain ⟨record'', hget'', hoffer'⟩ := World.offer_stays (r := r) hnamed hget'
      fun b hb hid => (hbeats _ List.mem_cons_self b hb hid).trans hoffer.symm
    exact ⟨record'', hget'', hoffer'.trans hoffer⟩

theorem answered (hr : s.Recalled) (hs : s.Sound post footing)
    (ht : s.threads[i]? = some ⟨c, .ask r next⟩) : (s.answered i c r next).Recalled where
  current := hr.current.answer hs.world.kept (hs.permitted ht) fun t htenure => hs.tenure htenure
  seen d hd id e he := by
    refine QueueEntry.Labels.answer ?_ hs.world.kept (hs.permitted ht)
      fun t htenure => hs.tenure htenure
    rcases List.mem_cons.1 hd with rfl | hd
    · exact hr.current id e he
    · exact hr.seen d hd id e he
  named d hd id record hget := by
    rcases List.mem_cons.1 hd with rfl | hd
    · exact Registry.Staffed.named hs.world.staffed id record hget
    · exact hr.named d hd id record hget
  locked := hr.locked_answered hs ht
  offered := hr.offered_answered hs

end

/-- **What is recalled stays so** with every move. -/
theorem move (hr : s.Recalled) (hs : s.Sound post footing) (m : Move κ) :
    (s.move program m).Recalled := by
  cases m with
  | step i =>
    show (s.step i).Recalled
    rcases s.step_eq_or_answered i with hstep | ⟨c, r, next, ht, hstep⟩
    · rw [hstep]
      exact hr
    · rw [hstep]
      exact hr.answered hs ht
  | _ => exact ⟨hr.current, hr.seen, hr.named, hr.locked, hr.offered⟩

end Recalled

end System

end JobDispatch

import JobDispatch.Proofs.Evolution
import JobDispatch.Proofs.Threads

/-!
Each job enters the queue once at most, and leaves it once at most. The jobs that were put into the
queue are those that have left `created` or are about to, and the jobs that were taken out of it are
those of them that have no entry (`World.Admitted`). A push is permitted only for a job that has not
been put in yet, so neither list ever names a job twice.
-/

namespace JobDispatch

/-! ### Entries in and out -/

def World.admitted? (w : World) : Request → Option JobId
  | .push job project tags time =>
    if (w.answer (.push job project tags time)).1.toBool then some job else none
  | _ => none

def World.removed? (w : World) : Request → Option JobId
  | .pop job =>
    match (w.answer (.pop job)).1 with
    | .ok true => some job
    | _ => none
  | _ => none

lemma World.admits_eq (w : World) (r : Request) : w.admits r = (w.admitted? r).isSome := by
  cases r with
  | push job project tags time =>
    show (w.answer (.push job project tags time)).1.toBool =
      (if (w.answer (.push job project tags time)).1.toBool then some job else none).isSome
    cases (w.answer (.push job project tags time)).1 <;> rfl
  | _ => rfl

/-- The jobs that were put into the queue and those that were taken out of it. -/
structure World.Admitted (w : World) (entered left : List JobId) : Prop where
  entered_once : entered.Nodup
  mem_entered : ∀ id, id ∈ entered ↔ ∃ job, w.jobs.find? id = some job ∧
    (job.state ≠ .created ∨ (w.queue.queue.get? id).isSome = true)
  left_once : left.Nodup
  mem_left : ∀ id, id ∈ left ↔ ∃ job, w.jobs.find? id = some job ∧ job.state ≠ .created ∧
    w.queue.queue.get? id = none

namespace World.Admitted

variable {w w' : World} {held : Holders} {f : Footing} {entered left : List JobId}

lemma initial (staleAfter : Int) (sink : Sink) (now : Timestamp) :
    (World.initial staleAfter sink now).Admitted [] [] :=
  ⟨.nil, fun _ => by simp [World.initial], .nil, fun _ => by simp [World.initial]⟩

lemma congr (h : w.Admitted entered left) (hjobs : w'.jobs = w.jobs)
    (hqueue : w'.queue.queue = w.queue.queue) : w'.Admitted entered left := by
  refine ⟨h.entered_once, fun id => ?_, h.left_once, fun id => ?_⟩
  · rw [hjobs, hqueue]
    exact h.mem_entered id
  · rw [hjobs, hqueue]
    exact h.mem_left id

/-- A job that is put in has not been in before: it is still `created` and has no entry. -/
lemma push (h : w.Admitted entered left) (hsure : w.queue.Sure) {job : Job}
    (hjob : w.jobs.find? job.id = some job) (hcreated : job.state = .created)
    (hnone : w.queue.queue.get? job.id = none) (project : ProjectId) (tags : Tags)
    (time : Timestamp) :
    (w.answer (.push job.id project tags time)).2.Admitted
      ((w.admitted? (.push job.id project tags time)).toList ++ entered) left := by
  rcases World.push_cases hsure project tags time hnone with ⟨e, he, hq⟩ | ⟨receipt, hr, hq⟩
  · have hnot : w.admitted? (.push job.id project tags time) = none := by
      simp only [admitted?, he]
      rfl
    rw [hnot]
    exact h.congr rfl hq
  have hin : w.admitted? (.push job.id project tags time) = some job.id := by
    simp only [admitted?, hr]
    rfl
  rw [hin]
  have hget (id : JobId) := Queue.get?_push w.queue.queue job.id project tags time hnone id
  refine ⟨List.nodup_cons.2 ⟨fun hmem => ?_, h.entered_once⟩, fun id => ?_, h.left_once,
    fun id => ?_⟩
  · obtain ⟨job', hjob', hleft⟩ := (h.mem_entered job.id).1 hmem
    rw [hjob] at hjob'
    cases hjob'
    rw [hnone] at hleft
    exact hleft.elim (fun hne => hne hcreated) nofun
  · show id ∈ job.id :: entered ↔ ∃ job', w.jobs.find? id = some job' ∧ _
    rw [List.mem_cons, hq, hget, h.mem_entered id]
    by_cases hid : id = job.id
    · subst hid
      simp [hjob]
    · simp [hid]
  · show id ∈ left ↔ ∃ job', w.jobs.find? id = some job' ∧ _
    rw [hq, hget, h.mem_left id]
    by_cases hid : id = job.id
    · subst hid
      simp [hjob, hcreated]
    · simp [hid]

lemma pop (h : w.Admitted entered left) (hsure : w.queue.Sure) {job : Job}
    (hjob : w.jobs.find? job.id = some job) (hstate : job.state ≠ .created) :
    (w.answer (.pop job.id)).2.Admitted entered ((w.removed? (.pop job.id)).toList ++ left) := by
  rcases World.pop_cases hsure job.id with ⟨e, he, hq⟩ | ⟨hr, hq⟩
  · have hnot : w.removed? (.pop job.id) = none := by simp only [removed?, he]
    rw [hnot]
    exact h.congr rfl hq
  have hget (id : JobId) := Queue.get?_pop w.queue.queue job.id id
  have hentered : ∀ id, id ∈ entered ↔
      ∃ job', (w.answer (.pop job.id)).2.jobs.find? id = some job' ∧ (job'.state ≠ .created ∨
        ((w.answer (.pop job.id)).2.queue.queue.get? id).isSome = true) := by
    intro id
    show id ∈ entered ↔ ∃ job', w.jobs.find? id = some job' ∧ _
    rw [hq, hget, h.mem_entered id]
    by_cases hid : id = job.id
    · subst hid
      simp [hjob, hstate]
    · simp [hid]
  cases hentry : w.queue.queue.get? job.id with
  | none =>
    have hnot : w.removed? (.pop job.id) = none := by
      simp only [removed?, hr, hentry, Option.isSome]
    rw [hnot]
    refine ⟨h.entered_once, hentered, h.left_once, fun id => ?_⟩
    show id ∈ left ↔ ∃ job', w.jobs.find? id = some job' ∧ _
    rw [hq, hget, h.mem_left id]
    by_cases hid : id = job.id
    · subst hid
      simp [hentry]
    · simp [hid]
  | some entry =>
    have hout : w.removed? (.pop job.id) = some job.id := by
      simp only [removed?, hr, hentry, Option.isSome]
    rw [hout]
    refine ⟨h.entered_once, hentered, List.nodup_cons.2 ⟨fun hmem => ?_, h.left_once⟩, fun id => ?_⟩
    · obtain ⟨-, -, -, hnone⟩ := (h.mem_left job.id).1 hmem
      rw [hentry] at hnone
      cases hnone
    · show id ∈ job.id :: left ↔ ∃ job', w.jobs.find? id = some job' ∧ _
      rw [List.mem_cons, hq, hget, h.mem_left id]
      by_cases hid : id = job.id
      · subst hid
        simp [hjob, hstate]
      · simp [hid]

/-- A record that is stored has left `created`, with an entry if the one before it had not. -/
lemma storeJob (h : w.Admitted entered left) {t : Tenure} {record : Job}
    (hjob : w.jobs.find? t.job.id = some t.job) (hget : w.queue.queue.get? t.job.id = t.queued?)
    (hfol : record.Follows t.job) (hset : Tenure.Settled { t with job := record }) :
    (w.answer (.storeJob record)).2.Admitted entered left := by
  have hstate := hfol.state_ne_created
  -- a job that was `created` is pending now, and so has an entry
  have hentry (hcreated : t.job.state = .created) :
      (w.queue.queue.get? t.job.id).isSome = true := by
    have hedge := hfol.edge
    rw [hcreated] at hedge
    rw [hget]
    refine hset.queued_iff.2 ?_
    show record.state = .pending
    cases hnew : record.state <;> simp_all [Edge.inLifecycle]
  refine ⟨h.entered_once, fun id => ?_, h.left_once, fun id => ?_⟩
  · show id ∈ entered ↔ ∃ job', (w.jobs.insert record.id record).find? id = some job' ∧
      (job'.state ≠ .created ∨ (w.queue.queue.get? id).isSome = true)
    rw [Table.find?_insert, hfol.id, h.mem_entered id]
    by_cases hid : id = t.job.id
    · subst hid
      simp only [hjob, if_true, Option.some.injEq, exists_eq_left', hstate, ne_eq,
        not_false_eq_true, true_or, iff_true]
      by_cases hcreated : t.job.state = .created
      · exact .inr (hentry hcreated)
      · exact .inl hcreated
    · simp only [hid, if_false]
  · show id ∈ left ↔ ∃ job', (w.jobs.insert record.id record).find? id = some job' ∧
      job'.state ≠ .created ∧ w.queue.queue.get? id = none
    rw [Table.find?_insert, hfol.id, h.mem_left id]
    by_cases hid : id = t.job.id
    · subst hid
      simp only [hjob, if_true, Option.some.injEq, exists_eq_left', hstate, ne_eq,
        not_false_eq_true, true_and, and_iff_right_iff_imp]
      intro hnone hcreated
      have hsome := hentry hcreated
      rw [hnone] at hsome
      cases hsome
    · simp only [hid, if_false]

lemma addJob (h : w.Admitted entered left) (hk : w.Kept held) (draft : JobDraft) :
    (w.addJob draft).2.Admitted entered left := by
  cases hjob : w.jobs.find? draft.id with
  | some known =>
    rw [w.addJob_of_known draft hjob]
    exact h
  | none =>
    rw [w.addJob_of_new draft hjob]
    have hnone : w.queue.queue.get? draft.id = none := by
      have hagree := hk.agree draft.id
      rw [hjob] at hagree
      cases hheld : held draft.id with
      | none =>
        rw [hheld] at hagree
        exact hagree
      | some t =>
        rw [hheld] at hagree
        exact absurd hagree.2.1 nofun
    refine ⟨h.entered_once, fun id => ?_, h.left_once, fun id => ?_⟩
    · dsimp only
      rw [Table.find?_insert, h.mem_entered id]
      by_cases hid : id = draft.id
      · subst hid
        simp [hjob, hnone, Job.ofDraft]
      · simp [hid]
    · dsimp only
      rw [Table.find?_insert, h.mem_left id]
      by_cases hid : id = draft.id
      · subst hid
        simp [hjob, Job.ofDraft]
      · simp [hid]

/-- **A permitted request puts no job into the queue a second time**, and takes none out again. -/
theorem answer (h : w.Admitted entered left) (hk : w.Kept held) {r : Request}
    {post : r.Answer → Footing → Prop} (hp : r.Permitted f post)
    (hf : ∀ t, f.tenure? = some t → held t.job.id = some t) :
    (w.answer r).2.Admitted ((w.admitted? r).toList ++ entered)
      ((w.removed? r).toList ++ left) := by
  cases r with
  | push id project tags time =>
    obtain ⟨t, ht, rfl, hcreated, hnone, -⟩ := hp
    obtain ⟨hjob, hget⟩ := hk.tenure (hf t ht)
    exact h.push hk.sure hjob hcreated (hget.trans hnone) project tags time
  | pop id =>
    obtain ⟨t, ht, rfl, hstate, -⟩ := hp
    exact h.pop hk.sure (hk.tenure (hf t ht)).1 hstate
  | storeJob record =>
    obtain ⟨t, ht, hfol, hset, -⟩ := hp
    obtain ⟨hjob, hget⟩ := hk.tenure (hf t ht)
    exact h.storeJob hjob hget hfol hset
  | addJob draft => exact h.addJob hk draft
  | _ => exact h.congr rfl (World.queue_answer rfl)

end World.Admitted

/-! ### Runs -/

namespace System

variable {κ ρ : Type} {program : κ → Program ρ} {post : κ → ρ → Footing → Prop}
  {s : System κ ρ} {footing : Nat → Footing}

/-- The jobs that were put into the queue, the latest first. -/
def entered (s : System κ ρ) : List JobId :=
  s.deeds.filterMap fun d => d.world.admitted? d.request

def left (s : System κ ρ) : List JobId := s.deeds.filterMap fun d => d.world.removed? d.request

lemma entered_answered (s : System κ ρ) (i : Nat) (c : κ) (r : Request)
    (next : r.Answer → Program ρ) :
    (s.answered i c r next).entered = (s.world.admitted? r).toList ++ s.entered := by
  show ((⟨i, c, r, s.world⟩ :: s.deeds : List (Deed κ)).filterMap _) = _
  rw [List.filterMap_cons]
  cases s.world.admitted? r <;> rfl

lemma left_answered (s : System κ ρ) (i : Nat) (c : κ) (r : Request)
    (next : r.Answer → Program ρ) :
    (s.answered i c r next).left = (s.world.removed? r).toList ++ s.left := by
  show ((⟨i, c, r, s.world⟩ :: s.deeds : List (Deed κ)).filterMap _) = _
  rw [List.filterMap_cons]
  cases s.world.removed? r <;> rfl

/-- **A move puts no job into the queue a second time.** -/
theorem admitted_move (hs : s.Sound post footing) (h : s.world.Admitted s.entered s.left)
    (m : Move κ) :
    (s.move program m).world.Admitted (s.move program m).entered (s.move program m).left := by
  cases m with
  | step i =>
    show (s.step i).world.Admitted (s.step i).entered (s.step i).left
    rcases s.step_eq_or_answered i with hstep | ⟨c, r, next, ht, hstep⟩
    · rw [hstep]
      exact h
    · rw [hstep, entered_answered, left_answered]
      exact h.answer hs.world.kept (hs.permitted ht) fun t htenure => hs.tenure htenure
  | start c => exact h
  | setClock now => exact h.congr rfl rfl
  | plan call skip e => exact h.congr rfl rfl

end System

end JobDispatch

import JobDispatch.Proofs.Soundness

/-!
Operations in threads that take turns. A thread is an operation and what is left of its program. A
move answers the next request of one thread, at one instant; it leaves everything as it is if that
request is for a job whose lock is taken. New threads may start at any time, the clock may be set to
any time, and calls on the queue may be made to fail. The deeds of a run are the requests that were
answered, each with the world that it was answered from.

`System.Sound` says how the threads of a run stand to each other and to the world: the world is
sound, each thread has the rest of an orderly program before it and holds the locks that the table
of locks gives it, and no two of them have taken a job out of the same state. Every move keeps it
(`Sound.move`), and so does every run (`Sound.run`), together with whatever else each move keeps.
-/

namespace JobDispatch

structure Thread (κ ρ : Type) where
  operation : κ
  rest : Program ρ

structure Deed (κ : Type) where
  thread : Nat
  operation : κ
  request : Request
  /-- The world that the request was answered from. -/
  world : World

structure System (κ ρ : Type) where
  world : World
  /-- The threads that hold the locks of jobs. -/
  locks : Table JobId Nat
  threads : List (Thread κ ρ)
  /-- The latest first. -/
  deeds : List (Deed κ)

inductive Move (κ : Type)
  /-- A thread starts on an operation. -/
  | start (c : κ)
  /-- A thread goes on to its next request, unless that has to wait. -/
  | step (thread : Nat)
  | setClock (now : Timestamp)
  /-- A later call on the queue is to fail, without effect. -/
  | plan (call : QueueCall) (skip : Nat) (e : DispatchError)

namespace System

variable {κ ρ : Type}

def initial (w : World) : System κ ρ := ⟨w, .empty, [], []⟩

def waits (s : System κ ρ) : Request → Bool
  | .lockJob id | .readJob id => s.locks.contains id
  | _ => false

def locksAfter (s : System κ ρ) (i : Nat) : Request → Table JobId Nat
  | .lockJob id => if s.world.jobs.contains id then s.locks.insert id i else s.locks
  | .storeJob record => s.locks.erase record.id
  | .unlockJob id => s.locks.erase id
  | _ => s.locks

def answered (s : System κ ρ) (i : Nat) (c : κ) (r : Request) (next : r.Answer → Program ρ) :
    System κ ρ where
  world := (s.world.answer r).2
  locks := s.locksAfter i r
  threads := s.threads.set i ⟨c, next (s.world.answer r).1⟩
  deeds := ⟨i, c, r, s.world⟩ :: s.deeds

def step (s : System κ ρ) (i : Nat) : System κ ρ :=
  match s.threads[i]? with
  | some ⟨c, .ask r next⟩ => if s.waits r then s else s.answered i c r next
  | _ => s

section

variable (program : κ → Program ρ)

def move (s : System κ ρ) : Move κ → System κ ρ
  | .start c => { s with threads := s.threads ++ [⟨c, program c⟩] }
  | .step i => s.step i
  | .setClock now => { s with world := { s.world with now } }
  | .plan call skip e =>
    { s with world := { s.world with queue := s.world.queue.arm ⟨call, skip, .error e⟩ } }

def run (s : System κ ρ) (moves : List (Move κ)) : System κ ρ := moves.foldl (move program) s

end

/-! ### Where the threads stand -/

/-- The holders of locks, by the footing of each thread. -/
def holders (s : System κ ρ) (footing : Nat → Footing) : Holders := fun id =>
  (s.locks.find? id).bind fun i => (footing i).tenure?

def footingAfter (s : System κ ρ) (footing : Nat → Footing) : Move κ → Nat → Footing
  | .step i =>
    match s.threads[i]? with
    | some ⟨_, .ask r _⟩ =>
      if s.waits r then footing else Function.update footing i ((footing i).after r s.world)
    | _ => footing
  | _ => footing

lemma step_cases (s : System κ ρ) (footing : Nat → Footing) (i : Nat) :
    (s.step i = s ∧ s.footingAfter footing (.step i) = footing) ∨
      ∃ c r next, s.threads[i]? = some ⟨c, .ask r next⟩ ∧ s.waits r = false ∧
        s.step i = s.answered i c r next ∧
        s.footingAfter footing (.step i) =
          Function.update footing i ((footing i).after r s.world) := by
  simp only [step, footingAfter]
  rcases ht : s.threads[i]? with _ | ⟨c, _ | ⟨r, next⟩⟩
  · exact .inl ⟨rfl, rfl⟩
  · exact .inl ⟨rfl, rfl⟩
  · cases hw : s.waits r
    · exact .inr ⟨c, r, next, rfl, hw, by simp [hw], by simp [hw]⟩
    · exact .inl ⟨by simp [hw], by simp [hw]⟩

lemma step_eq_or_answered (s : System κ ρ) (i : Nat) :
    s.step i = s ∨ ∃ c r next, s.threads[i]? = some ⟨c, .ask r next⟩ ∧
      s.step i = s.answered i c r next := by
  rcases s.step_cases (fun _ => .start) i with ⟨hstep, -⟩ | ⟨c, r, next, ht, -, hstep, -⟩
  · exact .inl hstep
  · exact .inr ⟨c, r, next, ht, hstep⟩

end System

def JobState.rank : JobState → Nat
  | .created => 0
  | .pending => 1
  | .running => 2
  | .success | .failed | .canceled => 3

lemma Edge.rank_lt {edge : Edge} (h : edge.inLifecycle = true) :
    edge.source.rank < edge.target.rank := by
  obtain ⟨source, target⟩ := edge
  cases source <;> cases target <;> simp_all [Edge.inLifecycle, JobState.rank]

structure System.Sound {κ ρ : Type} (post : κ → ρ → Footing → Prop) (s : System κ ρ)
    (footing : Nat → Footing) : Prop where
  orderly : ∀ i (t : Thread κ ρ), s.threads[i]? = some t →
    t.rest.Orderly (post t.operation) (footing i)
  /-- Threads that have not started have done nothing. -/
  unstarted : ∀ i, s.threads.length ≤ i → footing i = .start
  owned : ∀ id i, s.locks.find? id = some i → ∃ t, (footing i).tenure? = some t ∧ t.job.id = id
  owning : ∀ i t, (footing i).tenure? = some t → s.locks.find? t.job.id = some i
  world : s.world.Sound (s.holders footing)
  /-- A job has left the source of each edge that was taken. -/
  passed : ∀ i id edge, (id, edge) ∈ (footing i).taken →
    ∃ job, s.world.jobs.find? id = some job ∧ edge.source.rank < job.state.rank
  left_once : ∀ i k id edge edge', (id, edge) ∈ (footing i).taken →
    (id, edge') ∈ (footing k).taken → edge.source = edge'.source → i = k

variable {f : Footing} {w : World} {held : Holders}

/-! ### What one answer changes -/

/-- The edges that a thread has taken after a request: a record that is stored takes one. -/
lemma Footing.mem_taken_after {r : Request} {post : r.Answer → Footing → Prop}
    (hp : r.Permitted f post) {p : JobId × Edge} (h : p ∈ (f.after r w).taken) :
    p ∈ f.taken ∨ ∃ record t, r = .storeJob record ∧ f.tenure? = some t ∧ record.Follows t.job ∧
      p = (record.id, ⟨t.job.state, record.state⟩) := by
  cases r with
  | lockJob id =>
    simp only [Footing.after] at h
    cases hjob : w.jobs.find? id with
    | none => rw [hjob] at h; exact .inl h
    | some job => rw [hjob] at h; exact .inl h
  | storeJob record =>
    obtain ⟨t, ht, hfol, -⟩ := hp
    simp only [Footing.after, ht] at h
    rcases List.mem_cons.1 h with rfl | h
    · exact .inr ⟨record, t, rfl, ht, hfol, rfl⟩
    · exact .inl h
  | takePlace id =>
    simp only [Footing.after] at h
    cases hr : (w.registry.takePlace id w.now).1 with
    | none => rw [hr] at h; exact .inl h
    | some reason => rw [hr] at h; exact .inl h
  | _ => exact .inl h

/-- A job stays in the table with every request. Its record stays as it is, unless the holder of its
lock stores one that is an edge further. -/
lemma World.Kept.record_answer (hk : w.Kept held) {r : Request}
    {post : r.Answer → Footing → Prop} (hp : r.Permitted f post)
    (hf : ∀ t, f.tenure? = some t → held t.job.id = some t) {id : JobId} {job : Job}
    (hjob : w.jobs.find? id = some job) :
    ∃ job', (w.answer r).2.jobs.find? id = some job' ∧
      (job' = job ∨ job'.Follows job ∧ r = .storeJob job' ∧ job'.id = id ∧
        ∃ t, f.tenure? = some t ∧ t.job = job) := by
  cases r with
  | storeJob record =>
    obtain ⟨t, ht, hfol, -⟩ := hp
    obtain ⟨hfind, -⟩ := hk.tenure (hf t ht)
    show ∃ job', (w.jobs.insert record.id record).find? id = some job' ∧ _
    rw [Table.find?_insert]
    split
    · rename_i hid
      rw [hid, hfol.id, hfind] at hjob
      cases hjob
      exact ⟨record, rfl, .inr ⟨hfol, rfl, hid.symm, t, ht, rfl⟩⟩
    · exact ⟨job, hjob, .inl rfl⟩
  | addJob draft =>
    show ∃ job', (w.addJob draft).2.jobs.find? id = some job' ∧ _
    cases hnew : w.jobs.find? draft.id with
    | some known =>
      rw [w.addJob_of_known draft hnew]
      exact ⟨job, hjob, .inl rfl⟩
    | none =>
      rw [w.addJob_of_new draft hnew]
      refine ⟨job, ?_, .inl rfl⟩
      dsimp only
      rw [Table.find?_insert_of_ne]
      · exact hjob
      · rintro rfl
        rw [hnew] at hjob
        cases hjob
  | _ => exact ⟨job, hjob, .inl rfl⟩

lemma World.Kept.advance (hk : w.Kept held) {r : Request} {post : r.Answer → Footing → Prop}
    (hp : r.Permitted f post) (hf : ∀ t, f.tenure? = some t → held t.job.id = some t)
    {id : JobId} {job : Job} (hjob : w.jobs.find? id = some job) :
    ∃ job', (w.answer r).2.jobs.find? id = some job' ∧ job.state.rank ≤ job'.state.rank := by
  obtain ⟨job', hjob', rfl | ⟨hfol, -⟩⟩ := hk.record_answer hp hf hjob
  · exact ⟨job', hjob', Nat.le_refl _⟩
  · exact ⟨job', hjob', Nat.le_of_lt (Edge.rank_lt hfol.edge)⟩

/-! ### Moves -/

namespace System

variable {κ ρ : Type} {program : κ → Program ρ} {post : κ → ρ → Footing → Prop}
  {s : System κ ρ} {footing : Nat → Footing}

lemma find?_locksAfter {i : Nat} {r : Request} {post : r.Answer → Footing → Prop}
    (hp : r.Permitted (footing i) post) (hk : s.world.Kept held)
    (hfree : ∀ id, r = .lockJob id → held id = none)
    (hown : ∀ t, (footing i).tenure? = some t → s.locks.find? t.job.id = some i) (id : JobId) :
    (s.locksAfter i r).find? id =
      if ((footing i).after r s.world).tenure?.map (fun t => t.job.id) = some id then some i
      else if (footing i).tenure?.map (fun t => t.job.id) = some id then none
      else s.locks.find? id := by
  -- a request that neither takes nor leaves a lock
  have hsame : s.locks.find? id =
      if (footing i).tenure?.map (fun t => t.job.id) = some id then some i
      else if (footing i).tenure?.map (fun t => t.job.id) = some id then none
      else s.locks.find? id := by
    split
    · rename_i h
      obtain ⟨t, ht, rfl⟩ := Option.map_eq_some_iff.1 h
      exact hown t ht
    · rfl
  rw [Footing.job_after hp hk hfree]
  cases r with
  | lockJob k =>
    simp only [locksAfter, Request.lockedAfter, hp.1]
    cases hreg : s.world.jobs.contains k
    · simp
    · simp only [if_true]
      rw [Table.find?_insert]
      by_cases h : id = k
      · simp [h]
      · simp [h, Ne.symm h]
  | storeJob record =>
    obtain ⟨t, ht, hfol, -⟩ := hp
    simp only [locksAfter, Request.lockedAfter, ht]
    rw [Table.find?_erase, hfol.id]
    by_cases h : id = t.job.id
    · simp [h]
    · simp [h, Ne.symm h]
  | unlockJob k =>
    obtain ⟨t, ht, rfl, -⟩ := hp
    simp only [locksAfter, Request.lockedAfter, ht]
    rw [Table.find?_erase]
    by_cases h : id = t.job.id
    · simp [h]
    · simp [h, Ne.symm h]
  | _ => exact hsame

namespace Sound

lemma tenure (hs : s.Sound post footing) {i : Nat} {t : Tenure}
    (h : (footing i).tenure? = some t) : s.holders footing t.job.id = some t := by
  simp only [holders, hs.owning i t h, Option.bind_some, h]

section

variable {i : Nat} {c : κ} {r : Request} {next : r.Answer → Program ρ}

lemma permitted (hs : s.Sound post footing) (ht : s.threads[i]? = some ⟨c, .ask r next⟩) :
    r.Permitted (footing i) fun x f => (next x).Orderly (post c) f := hs.orderly i _ ht

lemma free_of_not_waits (hw : s.waits r = false) (id : JobId) (h : r = .lockJob id) :
    s.holders footing id = none := by
  subst h
  have hnone : s.locks.find? id = none := Option.not_isSome_iff_eq_none.1 (by
    rw [Bool.not_eq_true]
    exact hw)
  simp only [holders, hnone, Option.bind_none]

lemma find?_locks (hs : s.Sound post footing) (ht : s.threads[i]? = some ⟨c, .ask r next⟩)
    (hw : s.waits r = false) (id : JobId) :
    (s.locksAfter i r).find? id =
      if ((footing i).after r s.world).tenure?.map (fun t => t.job.id) = some id then some i
      else if (footing i).tenure?.map (fun t => t.job.id) = some id then none
      else s.locks.find? id :=
  find?_locksAfter (hs.permitted ht) hs.world.kept (free_of_not_waits hw) (hs.owning i) id

/-- A thread that has a lock after an answer is the one that had it before, or the lock was free. -/
lemma find?_of_tenure_after (hs : s.Sound post footing)
    (ht : s.threads[i]? = some ⟨c, .ask r next⟩) (hw : s.waits r = false) {id : JobId}
    (h : ((footing i).after r s.world).tenure?.map (fun t => t.job.id) = some id) {k : Nat}
    (hk : s.locks.find? id = some k) : k = i := by
  obtain ⟨t, htenure, rfl⟩ := Option.map_eq_some_iff.1 h
  refine Footing.locked_after (P := fun id => ∀ k, s.locks.find? id = some k → k = i)
    (hs.permitted ht) hs.world.kept (free_of_not_waits hw) ?_ ?_ t htenure k hk
  · intro u hu k hk
    rw [hs.owning i u hu] at hk
    exact (Option.some.inj hk).symm
  · rintro id rfl k hk
    have hnone : s.locks.contains id = false := hw
    simp [Table.contains, hk] at hnone

lemma owned_answered (hs : s.Sound post footing) (ht : s.threads[i]? = some ⟨c, .ask r next⟩)
    (hw : s.waits r = false) (id : JobId) (k : Nat) (h : (s.locksAfter i r).find? id = some k) :
    ∃ t, (Function.update footing i ((footing i).after r s.world) k).tenure? = some t ∧
      t.job.id = id := by
  rw [hs.find?_locks ht hw id] at h
  split at h
  · rename_i hnew
    obtain rfl := Option.some.inj h
    rw [Function.update_self]
    exact Option.map_eq_some_iff.1 hnew
  · split at h
    · cases h
    · rename_i hold
      obtain ⟨t, htenure, hid⟩ := hs.owned id k h
      have hne : k ≠ i := by
        rintro rfl
        exact hold (by rw [htenure, ← hid]; rfl)
      rw [Function.update_of_ne hne]
      exact ⟨t, htenure, hid⟩

lemma owning_answered (hs : s.Sound post footing) (ht : s.threads[i]? = some ⟨c, .ask r next⟩)
    (hw : s.waits r = false) (k : Nat) (t : Tenure)
    (h : (Function.update footing i ((footing i).after r s.world) k).tenure? = some t) :
    (s.locksAfter i r).find? t.job.id = some k := by
  rw [hs.find?_locks ht hw]
  by_cases hk : k = i
  · subst hk
    rw [Function.update_self] at h
    rw [h, Option.map_some, if_pos rfl]
  · rw [Function.update_of_ne hk] at h
    have hlock := hs.owning k t h
    rw [if_neg fun hnew => hk (hs.find?_of_tenure_after ht hw hnew hlock), if_neg]
    · exact hlock
    · intro hold
      obtain ⟨u, hu, hid⟩ := Option.map_eq_some_iff.1 hold
      have hlock' := hs.owning i u hu
      rw [hid, hlock] at hlock'
      exact hk (Option.some.inj hlock')

lemma holders_answered (hs : s.Sound post footing) (ht : s.threads[i]? = some ⟨c, .ask r next⟩)
    (hw : s.waits r = false) :
    (s.answered i c r next).holders (Function.update footing i ((footing i).after r s.world)) =
      (s.holders footing).pass (footing i).tenure? ((footing i).after r s.world).tenure? := by
  funext id
  simp only [holders, answered, Holders.pass]
  rw [hs.find?_locks ht hw id]
  by_cases hnew : ((footing i).after r s.world).tenure?.map (fun t => t.job.id) = some id
  · rw [if_pos hnew, if_pos hnew, Option.bind_some, Function.update_self]
  · rw [if_neg hnew, if_neg hnew]
    by_cases hold : (footing i).tenure?.map (fun t => t.job.id) = some id
    · rw [if_pos hold, if_pos hold, Option.bind_none]
    · rw [if_neg hold, if_neg hold]
      cases hlock : s.locks.find? id with
      | none => rfl
      | some k =>
        have hne : k ≠ i := by
          rintro rfl
          obtain ⟨t, htenure, hid⟩ := hs.owned id k hlock
          exact hold (by rw [htenure, ← hid]; rfl)
        rw [Option.bind_some, Option.bind_some, Function.update_of_ne hne]

lemma taken_answered (hs : s.Sound post footing) (ht : s.threads[i]? = some ⟨c, .ask r next⟩)
    {k : Nat} {id : JobId} {edge : Edge}
    (h : (id, edge) ∈ (Function.update footing i ((footing i).after r s.world) k).taken) :
    (id, edge) ∈ (footing k).taken ∨
      k = i ∧ ∃ job, s.world.jobs.find? id = some job ∧ edge.source = job.state ∧
        ∃ job', (s.world.answer r).2.jobs.find? id = some job' ∧ edge.target = job'.state ∧
          edge.inLifecycle = true := by
  by_cases hk : k = i
  · subst hk
    rw [Function.update_self] at h
    rcases Footing.mem_taken_after (hs.permitted ht) h with
      h | ⟨record, t, rfl, htenure, hfol, heq⟩
    · exact .inl h
    · obtain ⟨rfl, rfl⟩ := Prod.mk.inj heq
      have hfind := (hs.world.kept.tenure (hs.tenure htenure)).1
      rw [← hfol.id] at hfind
      exact .inr ⟨rfl, t.job, hfind, rfl, record, Table.find?_insert_self _ _ _, rfl, hfol.edge⟩
  · rw [Function.update_of_ne hk] at h
    exact .inl h

lemma passed_answered (hs : s.Sound post footing) (ht : s.threads[i]? = some ⟨c, .ask r next⟩)
    (k : Nat) (id : JobId) (edge : Edge)
    (h : (id, edge) ∈ (Function.update footing i ((footing i).after r s.world) k).taken) :
    ∃ job, (s.world.answer r).2.jobs.find? id = some job ∧ edge.source.rank < job.state.rank := by
  rcases hs.taken_answered ht h with h | ⟨-, -, -, -, job', hjob', htarget, hedge⟩
  · obtain ⟨job, hjob, hlt⟩ := hs.passed k id edge h
    obtain ⟨job', hjob', hle⟩ := hs.world.kept.advance (hs.permitted ht)
      (fun t htenure => hs.tenure htenure) hjob
    exact ⟨job', hjob', Nat.lt_of_lt_of_le hlt hle⟩
  · exact ⟨job', hjob', htarget ▸ Edge.rank_lt hedge⟩

/-- An edge that is taken now was not taken before: the job has not left its source yet. -/
lemma left_once_answered (hs : s.Sound post footing) (ht : s.threads[i]? = some ⟨c, .ask r next⟩)
    (k l : Nat) (id : JobId) (edge edge' : Edge)
    (hk : (id, edge) ∈ (Function.update footing i ((footing i).after r s.world) k).taken)
    (hl : (id, edge') ∈ (Function.update footing i ((footing i).after r s.world) l).taken)
    (hsource : edge.source = edge'.source) : k = l := by
  have hnew : ∀ m e job, (id, e) ∈ (footing m).taken → s.world.jobs.find? id = some job →
      e.source ≠ job.state := by
    intro m e job h hjob heq
    obtain ⟨job', hjob', hlt⟩ := hs.passed m id e h
    rw [hjob] at hjob'
    cases hjob'
    rw [heq] at hlt
    exact Nat.lt_irrefl _ hlt
  rcases hs.taken_answered ht hk with hold | ⟨rfl, job, hjob, hstate, -⟩
  · rcases hs.taken_answered ht hl with hold' | ⟨rfl, job, hjob, hstate, -⟩
    · exact hs.left_once k l id edge edge' hold hold' hsource
    · exact absurd (hsource.trans hstate) (hnew k edge job hold hjob)
  · rcases hs.taken_answered ht hl with hold' | ⟨rfl, -⟩
    · exact absurd (hsource.symm.trans hstate) (hnew l edge' job hold' hjob)
    · rfl

/-- **An answer to one thread keeps the threads sound.** -/
theorem answered (hs : s.Sound post footing) (ht : s.threads[i]? = some ⟨c, .ask r next⟩)
    (hw : s.waits r = false) :
    (s.answered i c r next).Sound post
      (Function.update footing i ((footing i).after r s.world)) where
  orderly k t hk := by
    have hlen : i < s.threads.length := (List.getElem?_eq_some_iff.1 ht).1
    change (s.threads.set i _)[k]? = some t at hk
    by_cases hki : k = i
    · subst hki
      rw [List.getElem?_set_self hlen] at hk
      cases hk
      rw [Function.update_self]
      exact (hs.permitted ht).post hs.world.kept (fun t htenure => hs.tenure htenure)
        (free_of_not_waits hw)
    · rw [List.getElem?_set_ne (Ne.symm hki)] at hk
      rw [Function.update_of_ne hki]
      exact hs.orderly k t hk
  unstarted k hk := by
    have hlen : i < s.threads.length := (List.getElem?_eq_some_iff.1 ht).1
    change (s.threads.set i _).length ≤ k at hk
    rw [List.length_set] at hk
    rw [Function.update_of_ne (by omega)]
    exact hs.unstarted k hk
  owned := hs.owned_answered ht hw
  owning := hs.owning_answered ht hw
  world := by
    rw [hs.holders_answered ht hw]
    exact hs.world.answer (hs.permitted ht) (fun t htenure => hs.tenure htenure)
      (free_of_not_waits hw)
  passed := hs.passed_answered ht
  left_once := hs.left_once_answered ht

end

/-- **A move keeps the threads sound.** -/
theorem move (hprog : ∀ c, (program c).Orderly (post c) .start) (hs : s.Sound post footing)
    (m : Move κ) : (s.move program m).Sound post (s.footingAfter footing m) := by
  cases m with
  | start c =>
    refine { hs with orderly := fun i t hi => ?_, unstarted := fun i hi => hs.unstarted i ?_ }
    · show t.rest.Orderly _ (footing i)
      change (s.threads ++ [(⟨c, program c⟩ : Thread κ ρ)])[i]? = some t at hi
      rw [List.getElem?_append] at hi
      split at hi
      · exact hs.orderly i t hi
      · rename_i hlen
        rw [List.getElem?_singleton] at hi
        split at hi
        · cases hi
          rw [hs.unstarted i (Nat.not_lt.1 hlen)]
          exact hprog c
        · cases hi
    · change (s.threads ++ [(⟨c, program c⟩ : Thread κ ρ)]).length ≤ i at hi
      rw [List.length_append] at hi
      omega
  | step i =>
    rcases s.step_cases footing i with ⟨hstep, hfooting⟩ | ⟨c, r, next, ht, hw, hstep, hfooting⟩
    · rw [hfooting]
      show (s.step i).Sound post footing
      rw [hstep]
      exact hs
    · rw [hfooting]
      show (s.step i).Sound post _
      rw [hstep]
      exact hs.answered ht hw
  | setClock now => exact { hs with world := hs.world.congr rfl rfl hs.world.kept.sure rfl }
  | plan call skip e =>
    exact { hs with world := hs.world.congr rfl rfl (hs.world.kept.sure.arm call skip e) rfl }

lemma initial {w : World} (hw : w.Sound .free) :
    (System.initial w : System κ ρ).Sound post fun _ => .start where
  orderly _ _ h := by cases h
  unstarted _ _ := rfl
  owned _ _ h := by cases h
  owning _ _ h := by cases h
  world := hw
  passed _ _ _ h := absurd h List.not_mem_nil
  left_once _ _ _ _ _ h := absurd h List.not_mem_nil

/-- **A run keeps the threads sound**, and whatever else each move keeps. -/
theorem run (hprog : ∀ c, (program c).Orderly (post c) .start)
    {I : System κ ρ → (Nat → Footing) → Prop}
    (hI : ∀ s footing m, s.Sound post footing → I s footing →
      I (s.move program m) (s.footingAfter footing m))
    (hs : s.Sound post footing) (h : I s footing) (moves : List (Move κ)) :
    ∃ footing', (s.run program moves).Sound post footing' ∧ I (s.run program moves) footing' := by
  induction moves generalizing s footing with
  | nil => exact ⟨footing, hs, h⟩
  | cons m moves ih => exact ih (hs.move hprog m) (hI s footing m hs h)

end Sound

end System

end JobDispatch

import JobDispatch.Proofs.Footprint
import JobDispatch.Proofs.Operations
import JobDispatch.Proofs.Paging

/-!
Ticks as seen by what goes on around them. What ticks do depends on jobs, queue, registry and clock
and on nothing else (`Asks.alike`), and they leave leases, progress and clock alone (`Asks.aside`).
All that a tick does to the queue is to take out the entry of its job (`Still.of_offerEntry`); so
the entries that come after those ticked are still there, in the same order
(`Readable.of_offerPage`), also where the ticks share a pool.
-/

namespace JobDispatch

open Program

variable {α : Type} {w v u : World}

def Request.Ticking (r : Request) : Prop := ∃ id, r.InTick id

/-- No tick can tell the worlds apart. -/
structure World.Alike (w v : World) : Prop where
  jobs : w.jobs = v.jobs
  queue : w.queue = v.queue
  registry : w.registry = v.registry
  now : w.now = v.now

namespace World.Alike

lemma trans (h : w.Alike v) (h' : v.Alike u) : w.Alike u :=
  ⟨h.jobs.trans h'.jobs, h.queue.trans h'.queue, h.registry.trans h'.registry, h.now.trans h'.now⟩

lemma answer (h : w.Alike v) {r : Request} (hr : r.Ticking) :
    (w.answer r).1 = (v.answer r).1 ∧ (w.answer r).2.Alike (v.answer r).2 := by
  cases w
  cases v
  obtain ⟨rfl, rfl, rfl, rfl⟩ := h
  obtain ⟨id, hr⟩ := hr
  cases r with
  | lockJob _ | unlockJob _ | storeJob _ | pop _ | lookup _ | takePlace _ | release _
  | available _ | staleAfter | clock | count _ | log _ => exact ⟨rfl, rfl, rfl, rfl, rfl⟩
  | _ => exact False.elim hr

end World.Alike

namespace Program

variable {p : Program α}

/-- **Ticks do the same in worlds that are alike.** -/
theorem Asks.alike (h : p.Asks Request.Ticking) (hw : w.Alike v) :
    (p.run w).1 = (p.run v).1 ∧ (p.run w).2.Alike (p.run v).2 := by
  induction p generalizing w v with
  | done a => exact ⟨rfl, hw⟩
  | ask r next ih =>
    obtain ⟨hanswer, halike⟩ := hw.answer h.1
    have hnext := ih (w.answer r).1 (h.2 _) halike
    rw [hanswer] at hnext
    show ((next (w.answer r).1).run (w.answer r).2).1 = _ ∧
      ((next (w.answer r).1).run (w.answer r).2).2.Alike _
    rw [hanswer]
    exact hnext

lemma Asks.aside (h : p.Asks Request.Ticking) (w : World) :
    (p.run w).2.leases = w.leases ∧ (p.run w).2.progress = w.progress ∧
      (p.run w).2.now = w.now := by
  refine h.run (I := fun w' => w'.leases = w.leases ∧ w'.progress = w.progress ∧ w'.now = w.now)
    (fun r w' hr hw' => ?_) ⟨rfl, rfl, rfl⟩
  obtain ⟨id, hr⟩ := hr
  cases r with
  | lockJob _ | unlockJob _ | storeJob _ | pop _ | lookup _ | takePlace _ | release _
  | available _ | staleAfter | clock | count _ | log _ => exact hw'
  | _ => exact False.elim hr

end Program

/-! ### What ticks do to the queue -/

/-- No lock is held, and the index lists just jobs with entries. -/
structure World.Consistent (w : World) : Prop where
  sound : w.Sound .free
  listed : w.queue.queue.Listed

lemma World.Consistent.run (hw : w.Consistent) {p : Program α} (hp : p.Unlocked) :
    (p.run w).2.Consistent := by
  obtain ⟨f, hnone, hsound⟩ := (hp []).run hw.sound
  rw [hnone] at hsound
  exact ⟨hsound, p.asks_true.run (I := fun w => w.queue.queue.Listed)
    (fun r _ _ h => h.answer r) hw.listed⟩

/-- No lock is held, no call on the queue is going to fail, and the index lists just jobs with
entries. -/
structure World.Still (w : World) : Prop where
  sound : w.Sound .free
  plan : w.queue.plan = []
  listed : w.queue.queue.Listed

lemma World.Still.congr (hw : w.Still) (h : v.Alike w) : v.Still where
  sound := hw.sound.congr h.jobs (by rw [h.queue]) (by rw [h.queue]; exact hw.sound.kept.sure)
    h.registry
  plan := by rw [h.queue]; exact hw.plan
  listed := by rw [h.queue]; exact hw.listed

lemma World.plan_answer_nil (hw : w.queue.plan = []) (r : Request) :
    (w.answer r).2.queue.plan = [] := by
  refine List.eq_nil_iff_forall_not_mem.2 ?_
  exact World.plan_answer (P := fun _ => False) (fun f hf => List.not_mem_nil (hw ▸ hf)) r

lemma World.Still.run (hw : w.Still) {p : Program α} (hp : p.Unlocked) : (p.run w).2.Still := by
  obtain ⟨hsound, hlisted⟩ := World.Consistent.run ⟨hw.sound, hw.listed⟩ hp
  have hplan : (p.run w).2.queue.plan = [] :=
    p.asks_true.run (I := fun w => w.queue.plan = [])
      (fun r _ _ h => World.plan_answer_nil h r) hw.plan
  exact ⟨hsound, hplan, hlisted⟩

/-- No lock is held, no call on the queue is going to fail, and the numbers are in order. -/
structure World.AtRest (w : World) : Prop where
  sound : w.Sound .free
  plan : w.queue.plan = []
  aligned : w.queue.queue.Aligned

lemma World.AtRest.still (hw : w.AtRest) : w.Still := ⟨hw.sound, hw.plan, hw.aligned.toListed⟩

lemma World.AtRest.congr (hw : w.AtRest) (h : v.Alike w) : v.AtRest where
  sound := (hw.still.congr h).sound
  plan := (hw.still.congr h).plan
  aligned := by rw [h.queue]; exact hw.aligned

lemma World.Consistent.act (hw : w.Consistent) (c : Config) (a : Act Engine.Operation) :
    (w.act (Engine.Operation.program c) a).Consistent := by
  refine ⟨hw.sound.act (fun o => Engine.Operation.program_unlocked c o []) a, ?_⟩
  cases a with
  | call o => exact (hw.run (Engine.Operation.program_unlocked c o)).listed
  | setClock _ | plan _ _ _ => exact hw.listed

/-- What operations lead to is consistent, whichever calls on the queue failed. -/
lemma Engine.Reachable.consistent {c : Config} (h : Engine.Reachable c w) : w.Consistent := by
  obtain ⟨sink, now, as, rfl⟩ := h
  exact List.foldlRecOn (motive := World.Consistent) as _
    ⟨World.sound_initial _ sink now, Queue.aligned_empty.toListed⟩ fun _ hv a _ => hv.act c a

lemma Engine.Reachable.still {c : Config} (h : Engine.Reachable c w) (hplan : w.queue.plan = []) :
    w.Still := ⟨h.sound, hplan, h.consistent.listed⟩

/-- What a tick of a job keeps: it has no other job locked, and took no other entry out. -/
structure OwnEntry (id : JobId) (q : Queue) (w : World) (tenure? : Option Tenure) : Prop where
  own : ∀ t, tenure? = some t → t.job.id = id
  plan : w.queue.plan = []
  queue : w.queue.queue = q ∨ w.queue.queue = (q.pop id).2

lemma OwnEntry.pop {id : JobId} {q : Queue} {tenure? : Option Tenure}
    (h : OwnEntry id q w tenure?) :
    (w.answer (.pop id)).2.queue.plan = [] ∧
      (w.answer (.pop id)).2.queue.queue = (q.pop id).2 := by
  simp only [World.answer, World.onQueue, FallibleQueue.pop]
  rw [FallibleQueue.guarded_of_plan_eq_nil _ _ _ h.plan]
  refine ⟨rfl, ?_⟩
  rcases h.queue with hq | hq
  · rw [hq]
  · -- the entry is out already
    rw [hq]
    exact Queue.pop_of_get?_eq_none (by rw [Queue.get?_pop, if_pos rfl])

lemma OwnEntry.answer {id : JobId} {q : Queue} {f : Footing} {r : Request}
    {post : r.Answer → Footing → Prop} (hr : r.InTick id) (hp : r.Permitted f post)
    (hs : w.Sound (.sole f.tenure?)) (h : OwnEntry id q w f.tenure?) :
    OwnEntry id q (w.answer r).2 (f.after r w).tenure? := by
  have hfree : ∀ k, r = .lockJob k → Holders.sole f.tenure? k = none := by
    rintro k rfl
    rw [hp.1]
    rfl
  have hown : ∀ t, (f.after r w).tenure? = some t → t.job.id = id :=
    Footing.locked_after (P := fun k => k = id) hp hs.kept hfree h.own fun k hk => by
      subst hk
      exact hr
  cases r with
  | pop k =>
    obtain ⟨t, ht, rfl, -⟩ := hp
    rw [h.own t ht] at hown ⊢
    exact ⟨hown, h.pop.1, .inr h.pop.2⟩
  | lookup k =>
    refine ⟨hown, ?_, ?_⟩
    · simp only [World.answer, World.onQueue, FallibleQueue.get]
      rw [FallibleQueue.guarded_of_plan_eq_nil _ _ _ h.plan]
    · simp only [World.answer, World.onQueue, FallibleQueue.get]
      rw [FallibleQueue.guarded_of_plan_eq_nil _ _ _ h.plan]
      exact h.queue
  | lockJob _ | unlockJob _ | storeJob _ | takePlace _ | release _
  | available _ | staleAfter | clock | count _ | log _ => exact ⟨hown, h.plan, h.queue⟩
  | _ => exact False.elim hr

/-- **A tick takes no entry out of the queue but that of its job.** -/
theorem World.Still.of_offerEntry (hw : w.Still) (untaggedOnly : Bool) (e : QueueEntry) :
    ((offerEntry untaggedOnly e).run w).2.Still ∧
      (((offerEntry untaggedOnly e).run w).2.queue.queue = w.queue.queue ∨
        ((offerEntry untaggedOnly e).run w).2.queue.queue = (w.queue.queue.pop e.job).2) := by
  have hstart : OwnEntry e.job w.queue.queue w none :=
    ⟨fun t ht => (by cases ht), hw.plan, .inl rfl⟩
  have hunlocked := (offerEntry_loose untaggedOnly e).unlocked_of_loose
  obtain ⟨f, -, -, hown⟩ := (hunlocked []).run_keep
    (offerEntry_asks untaggedOnly e) (fun r post w f hr hp hs h => h.answer hr hp hs)
    hw.sound hstart
  exact ⟨hw.run hunlocked, hown.queue⟩

lemma World.AtRest.of_offerEntry (hw : w.AtRest) (untaggedOnly : Bool) (e : QueueEntry) :
    ((offerEntry untaggedOnly e).run w).2.AtRest ∧
      (((offerEntry untaggedOnly e).run w).2.queue.queue = w.queue.queue ∨
        ((offerEntry untaggedOnly e).run w).2.queue.queue = (w.queue.queue.pop e.job).2) := by
  obtain ⟨hstill, hqueue⟩ := hw.still.of_offerEntry untaggedOnly e
  refine ⟨⟨hstill.sound, hstill.plan, ?_⟩, hqueue⟩
  rcases hqueue with hq | hq
  · rw [hq]
    exact hw.aligned
  · rw [hq]
    exact hw.aligned.pop e.job

lemma offerAll_asks (untaggedOnly : Bool) (es : List QueueEntry) :
    (offerAll untaggedOnly es).Asks Request.Ticking := by
  induction es with
  | nil => trivial
  | cons e es ih =>
    exact Asks.bind ((offerEntry_asks untaggedOnly e).mono fun r hr => ⟨e.job, hr⟩)
      fun _ => ih.bind fun _ => trivial

theorem World.AtRest.of_offerAll (hw : w.AtRest) (untaggedOnly : Bool) (es : List QueueEntry) :
    ((offerAll untaggedOnly es).run w).2.AtRest := by
  induction es generalizing w with
  | nil => exact hw
  | cons e es ih =>
    simp only [offerAll, run_bind, run_pure]
    exact ih (hw.of_offerEntry untaggedOnly e).1

/-! ### Ticks that share a pool -/

/-- Records are kept under their names, no call on the queue is going to fail, and the numbers are
in order. -/
structure World.Readable (w : World) : Prop where
  named : ∀ id job, w.jobs.find? id = some job → job.id = id
  plan : w.queue.plan = []
  aligned : w.queue.queue.Aligned

lemma World.AtRest.readable (hw : w.AtRest) : w.Readable where
  named id job hjob := by
    have hid := hw.sound.kept.agree id
    rw [hjob] at hid
    exact hid.1
  plan := hw.plan
  aligned := hw.aligned

lemma World.Readable.congr (hw : w.Readable) (h : v.Alike w) : v.Readable where
  named := by rw [h.jobs]; exact hw.named
  plan := by rw [h.queue]; exact hw.plan
  aligned := by rw [h.queue]; exact hw.aligned

/-- A request of a tick takes no entry out but that of its job. -/
lemma World.Readable.answer (hw : w.Readable) {id : JobId} {r : Request} (hr : r.InOwnTick id) :
    (w.answer r).2.Readable ∧ ((w.answer r).2.queue.queue = w.queue.queue ∨
      (w.answer r).2.queue.queue = (w.queue.queue.pop id).2) := by
  have hplan := World.plan_answer_nil hw.plan r
  cases r with
  | pop job =>
    obtain rfl : job = id := hr
    have hqueue : (w.answer (.pop job)).2.queue.queue = (w.queue.queue.pop job).2 := by
      simp only [World.answer, World.onQueue, FallibleQueue.pop]
      rw [FallibleQueue.guarded_of_plan_eq_nil _ _ _ hw.plan]
    exact ⟨⟨hw.named, hplan, hqueue ▸ hw.aligned.pop job⟩, .inr hqueue⟩
  | lookup job =>
    have hqueue : (w.answer (.lookup job)).2.queue.queue = w.queue.queue := by
      simp only [World.answer, World.onQueue, FallibleQueue.get]
      rw [FallibleQueue.guarded_of_plan_eq_nil _ _ _ hw.plan]
    exact ⟨⟨hw.named, hplan, hqueue ▸ hw.aligned⟩, .inl hqueue⟩
  | storeJob record =>
    refine ⟨⟨fun k job hjob => ?_, hplan, hw.aligned⟩, .inl rfl⟩
    change (w.jobs.insert record.id record).find? k = some job at hjob
    rw [Table.find?_insert] at hjob
    split at hjob
    · rename_i hk
      cases hjob
      exact hk.symm
    · exact hw.named k job hjob
  | lockJob _ | unlockJob _ | takePlace _ | release _ | available _ | staleAfter | clock
  | count _ | log _ => exact ⟨⟨hw.named, hplan, hw.aligned⟩, .inl rfl⟩
  | _ => exact False.elim hr

/-- **Ticks that share a pool take out no entries but their own**: what comes after these in the
queue is still there, and in the same order. -/
theorem World.Readable.of_offerPage (hw : w.Readable) (plan : SweepPlan) (untaggedOnly : Bool)
    (picks : List Nat) (es : List QueueEntry) :
    ((offerPage plan untaggedOnly picks es).run w).2.Readable ∧
      ∀ after, (∀ e ∈ es, ∀ e', w.queue.queue.get? e.job = some e' →
          Cursor.precedes after e'.sequence = false) →
        ((offerPage plan untaggedOnly picks es).run w).2.queue.queue.entriesAfter after =
          w.queue.queue.entriesAfter after := by
  let I (v : World) : Prop := v.Readable ∧
    (∀ id e, v.queue.queue.get? id = some e → w.queue.queue.get? id = some e) ∧
    ∀ after, (∀ e ∈ es, ∀ e', w.queue.queue.get? e.job = some e' →
        Cursor.precedes after e'.sequence = false) →
      v.queue.queue.entriesAfter after = w.queue.queue.entriesAfter after
  have hkeeps (e : QueueEntry) (he : e ∈ es) : (offerEntry untaggedOnly e).Keeps I := by
    refine offerEntry_keeps untaggedOnly e (fun r v hr ⟨hv, hold, hsame⟩ => ?_)
      fun v hv => hv.1.named e.job
    obtain ⟨hv', hqueue⟩ := hv.answer hr
    refine ⟨hv', fun id e' he' => hold id e' (Queue.get?_of_pop hqueue he'),
      fun after hbefore => ?_⟩
    rw [hv.aligned.entriesAfter_of_pop hqueue fun e' he' => hbefore e he e' (hold _ e' he')]
    exact hsame after hbefore
  have hpool := (pooled_offerPage plan untaggedOnly picks es).keeps
    (fun _ hq => absurd hq List.not_mem_nil) fun q hq => by
      obtain ⟨e, he, rfl⟩ := List.mem_map.1 hq
      exact hkeeps e he
  obtain ⟨hv, -, hsame⟩ := hpool.run ⟨hw, fun _ _ he => he, fun _ _ => rfl⟩
  exact ⟨hv, hsame⟩

lemma offerPage_asks (plan : SweepPlan) (untaggedOnly : Bool) (picks : List Nat)
    (es : List QueueEntry) : (offerPage plan untaggedOnly picks es).Asks Request.Ticking := by
  refine (pooled_offerPage plan untaggedOnly picks es).asks
    (fun _ hq => absurd hq List.not_mem_nil) fun q hq => ?_
  obtain ⟨e, -, rfl⟩ := List.mem_map.1 hq
  exact (offerEntry_asks untaggedOnly e).mono fun r hr => ⟨e.job, hr⟩

lemma length_offerPage (plan : SweepPlan) (untaggedOnly : Bool) (picks : List Nat)
    (es : List QueueEntry) (w : World) :
    ((offerPage plan untaggedOnly picks es).run w).1.length = es.length := by
  rw [(pooled_offerPage plan untaggedOnly picks es).length_run, List.length_map]
  exact Nat.zero_add _

end JobDispatch

import JobDispatch.Proofs.Cycles

/-!
Cycles of sweep passes while other threads push, cancel and claim. The others leave the progress of
the sweep alone, and as long as the queue has numbers for new entries they keep it in order
(`System.Counted`). So the entries that the cycle ticks are in the order of their numbers, none is
ticked twice, and a cycle that comes to its end has ticked each entry that was in the queue when
it read its last page (`sweepUntilBy_exact`).
-/

namespace JobDispatch

open Program

/-! ### Others leave the progress alone -/

/-- What threads are about, cycles of passes among others whose ticks may mix. -/
inductive Task
  | errand (e : Errand)
  /-- A cycle of at most as many passes as there are rotas. -/
  | cycle (rotas : List Rota)

abbrev Tasks := System Task (List (Except DispatchError PassReport))

namespace Task

def program (c : Config) : Task → Program (List (Except DispatchError PassReport))
  | errand e => e.program c
  | cycle rotas => sweepUntilBy c.sweepPlan c.untaggedOnly rotas

def sweeps : Task → Bool
  | errand e => e.sweeps
  | cycle _ => true

/-- Tasks that are not sweeps leave the progress alone. -/
def Modest (task : Task) (_ : Trail) (r : Request) (_ : World) : Prop :=
  task.sweeps = false → r.movesProgress = false

end Task

lemma Request.InTick.movesProgress {id : JobId} {r : Request} (h : r.InTick id) :
    r.movesProgress = false := by
  cases r with
  | beginPass _ | notePlace _ _ => exact False.elim h
  | _ => rfl

lemma Request.movesProgress_of_isPlain {r : Request} (h : r.isPlain = true) :
    r.movesProgress = false := by
  cases r with
  | beginPass _ | notePlace _ _ => cases h
  | _ => rfl

/-- Errands that are not sweeps leave the progress alone. -/
lemma Errand.modest (c : Config) {errand : Errand} (hsweeps : errand.sweeps = false) :
    (errand.program c).Heeds (fun _ r _ => r.movesProgress = false) [] := by
  let Still : Trail → Request → World → Prop := fun _ r _ => r.movesProgress = false
  have htick {α : Type} {p : Program α} {id : JobId} (hp : p.Asks (Request.InTick id))
      (h : Trail) : p.Heeds Still h := fun _ => hp.along fun _ _ _ h => h.movesProgress
  have hallows : Allows c.untaggedOnly Still :=
    ⟨fun _ _ _ h => Request.movesProgress_of_isPlain h,
      fun h e _ => htick (offerEntry_asks _ e) h⟩
  cases errand with
  | operation o =>
    refine (o.heeds hallows fun htrue => ?_).bind fun _ _ => heeds_pure _
    rw [hsweeps] at htrue
    cases htrue
  | offer e => exact (htick (offerEntry_asks _ e) _).discard.bind fun _ _ => heeds_pure _
  | claim job worker =>
    exact (htick (claim_asks job worker) _).discard.bind fun _ _ => heeds_pure _
  | sweepUntil passes => cases hsweeps

lemma Task.modest (c : Config) (task : Task) (w : World) :
    (task.program c).Along .anything task.Modest (fun _ _ _ => True) [] w := by
  cases hsweeps : task.sweeps with
  | true =>
    refine (asks_true _).along fun _ _ _ _ hfalse => ?_
    rw [hsweeps] at hfalse
    cases hfalse
  | false =>
    cases task with
    | errand e => exact (Errand.modest c hsweeps w).mono (fun _ _ _ hr _ => hr) fun _ _ _ h => h
    | cycle rotas => cases hsweeps

/-! ### Numbers for new entries -/

namespace System

variable {κ ρ : Type} {program : κ → Program ρ} {s : System κ ρ}

def pushes (s : System κ ρ) : Nat := s.deeds.countP fun d => d.world.admits d.request

/-- The queue is in order, and no more numbers were given out than entries put in. -/
structure Counted (s : System κ ρ) : Prop where
  aligned : s.world.queue.queue.Aligned
  bounded : s.world.queue.queue.lastSequence.toNat ≤ s.pushes

lemma pushes_answered (s : System κ ρ) (i : Nat) (c : κ) (r : Request)
    (next : r.Answer → Program ρ) :
    (s.answered i c r next).pushes = s.pushes + (s.world.admits r).toNat := by
  simp only [pushes, answered, List.countP_cons]
  cases s.world.admits r <;> rfl

lemma pushes_move (s : System κ ρ) (m : Move κ) : s.pushes ≤ (s.move program m).pushes := by
  cases m with
  | step i =>
    show s.pushes ≤ (s.step i).pushes
    rcases s.step_eq_or_answered i with hstep | ⟨c, r, next, -, hstep⟩
    · rw [hstep]
    · rw [hstep, pushes_answered]
      exact Nat.le_add_right _ _
  | _ => exact Nat.le_refl _

lemma pushes_run (s : System κ ρ) (moves : List (Move κ)) :
    s.pushes ≤ (s.run program moves).pushes := by
  induction moves generalizing s with
  | nil => exact Nat.le_refl _
  | cons m moves ih => exact Nat.le_trans (s.pushes_move m) (ih _)

/-- **A move makes the queue evolve** as long as it has numbers for new entries. -/
theorem Counted.move (hs : s.Counted) {m : Move κ}
    (hroom : (s.move program m).pushes < UInt64.size) :
    (s.move program m).Counted ∧
      s.world.queue.queue.Evolves (s.move program m).world.queue.queue := by
  cases m with
  | step i =>
    change (s.step i).pushes < _ at hroom
    show (s.step i).Counted ∧ s.world.queue.queue.Evolves (s.step i).world.queue.queue
    rcases s.step_eq_or_answered i with hstep | ⟨c, r, next, -, hstep⟩
    · rw [hstep]
      exact ⟨hs, .refl hs.aligned⟩
    · rw [hstep] at hroom ⊢
      rw [pushes_answered] at hroom
      have hbounded := hs.bounded
      obtain ⟨hevolves, hnumbers⟩ := World.evolves hs.aligned r fun hadmits => by
        rw [hadmits] at hroom
        exact Nat.lt_of_le_of_lt (Nat.succ_le_succ hbounded) hroom
      refine ⟨⟨hevolves.aligned, ?_⟩, hevolves⟩
      rw [pushes_answered]
      exact Nat.le_trans hnumbers (Nat.add_le_add_right hbounded _)
  | _ => exact ⟨⟨hs.aligned, hs.bounded⟩, .refl hs.aligned⟩

lemma Counted.run (hs : s.Counted) (moves : List (Move κ))
    (hroom : (s.run program moves).pushes < UInt64.size) : (s.run program moves).Counted := by
  induction moves generalizing s with
  | nil => exact hs
  | cons m moves ih =>
    exact ih (hs.move (Nat.lt_of_le_of_lt (pushes_run _ moves) hroom)).1 hroom

end System

/-! ### A cycle among others -/

def Move.sweeps : Move Task → Bool
  | .start task => task.sweeps
  | _ => false

/-- All sweeps but that of one thread are over. -/
def Tasks.SweepsAlone (s : Tasks) (i : Nat) : Prop :=
  ∀ k t, s.threads[k]? = some t → k ≠ i → t.operation.sweeps = true →
    ∃ results, t.rest = .done results

structure Tasks.Cycling (c : Config) (s : Tasks) (i : Nat) : Prop where
  started : i < s.threads.length
  counted : s.Counted
  modest : s.AllAlong Task.Modest
  alone : s.SweepsAlone i
  along : s.AlongAt .ofSweep (fun _ _ _ => True)
    (fun h results v => PassEnd c.untaggedOnly h v (results.any PassReport.finishes)) i

namespace Tasks

variable {c : Config} {s : Tasks} {i : Nat}

lemma SweepsAlone.move (hs : s.SweepsAlone i) {m : Move Task} (hm : m.sweeps = false) :
    SweepsAlone (s.move (Task.program c) m) i := by
  intro k t ht hk hsweeps
  rcases System.thread_cases m ht with ⟨hold, -⟩ | ⟨-, rfl, -⟩ | ⟨r, next, hold, -⟩
  · exact hs k t hold hk hsweeps
  · rw [show t.operation.sweeps = false from hm] at hsweeps
    cases hsweeps
  · obtain ⟨results, hdone⟩ := hs k _ hold hk hsweeps
    cases hdone

lemma SweepsAlone.progress (hs : s.SweepsAlone i) (hmodest : s.AllAlong Task.Modest)
    {m : Move Task} (hm : m ≠ .step i) :
    (s.move (Task.program c) m).world.progress = s.world.progress := by
  cases m with
  | step k =>
    show (s.step k).world.progress = _
    rcases s.step_eq_or_answered k with hstep | ⟨op, r, next, ht, hstep⟩
    · rw [hstep]
    · rw [hstep]
      refine World.progress_answer (hmodest.next ht ?_)
      cases hsweeps : op.sweeps with
      | false => rfl
      | true =>
        obtain ⟨results, hdone⟩ := hs k _ ht (fun hk => hm (congrArg Move.step hk)) hsweeps
        cases hdone
  | _ => rfl

lemma Cycling.move (hs : Cycling c s i) {m : Move Task} (hm : m.sweeps = false)
    (hroom : (s.move (Task.program c) m).pushes < UInt64.size) :
    Cycling c (s.move (Task.program c) m) i := by
  obtain ⟨hcounted, hevolves⟩ := hs.counted.move hroom
  exact ⟨Nat.lt_of_lt_of_le hs.started (s.length_move m), hcounted,
    hs.modest.move (Task.modest c) m, hs.alone.move hm,
    hs.along.move hs.started m fun hne _ => ⟨hevolves, hs.alone.progress hs.modest hne⟩⟩

lemma Cycling.run (hs : Cycling c s i) {moves : List (Move Task)}
    (hmoves : ∀ m ∈ moves, m.sweeps = false)
    (hroom : (s.run (Task.program c) moves).pushes < UInt64.size) :
    Cycling c (s.run (Task.program c) moves) i := by
  induction moves generalizing s with
  | nil => exact hs
  | cons m moves ih =>
    refine ih (hs.move (hmoves m List.mem_cons_self) ?_)
      (fun m' hm' => hmoves m' (List.mem_cons_of_mem _ hm')) hroom
    exact Nat.lt_of_le_of_lt (System.pushes_run _ moves) hroom

/-- A cycle starts while no other sweep is under way. -/
lemma Cycling.start {rotas : List Rota} (hbatch : c.batchSize ≠ 0) (hcounted : s.Counted)
    (hmodest : s.AllAlong Task.Modest) (hidle : s.world.progress.resumes = false)
    (hover : ∀ t ∈ s.threads, t.operation.sweeps = true → ∃ results, t.rest = .done results) :
    Cycling c (s.move (Task.program c) (.start (.cycle rotas))) s.threads.length := by
  have hthreads : (s.move (Task.program c) (.start (.cycle rotas))).threads =
      s.threads ++ [⟨.cycle rotas, (Task.cycle rotas).program c⟩] := rfl
  refine ⟨?_, ⟨hcounted.aligned, hcounted.bounded⟩, hmodest.move (Task.modest c) _,
    fun k t ht hk hsweeps => ?_, fun t ht => ?_⟩
  · rw [hthreads, List.length_append]
    exact Nat.lt_succ_self _
  · rw [hthreads] at ht
    have hlt : k < s.threads.length := by
      have hlen := (List.getElem?_eq_some_iff.1 ht).1
      rw [List.length_append] at hlen
      exact Nat.lt_of_le_of_ne (Nat.le_of_lt_succ hlen) hk
    rw [List.getElem?_append_left hlt] at ht
    exact hover t (List.mem_of_getElem? ht) hsweeps
  · rw [hthreads, List.getElem?_concat_length] at ht
    cases ht
    have htrail : s.trail s.threads.length = [] :=
      System.trail_eq_nil hmodest.started (Nat.le_refl _)
    show Program.Sweeping _ _ (s.trail s.threads.length) s.world
    rw [htrail]
    refine sweepUntilBy_sweeping hbatch rotas ⟨hcounted.aligned, [], .start, ?_⟩
    show Covered s.world.progress.start? [] s.world.queue.queue
    rw [SweepRecord.start?, hidle]
    exact .start _

end Tasks

end JobDispatch

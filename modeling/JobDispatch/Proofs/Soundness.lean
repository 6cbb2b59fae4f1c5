import JobDispatch.Proofs.Numbering
import JobDispatch.Proofs.Places
import JobDispatch.Proofs.Requests

/-!
What orderly programs keep, all together (`World.Sound`): jobs and queue in step, places accounted
for, numbers in order. One permitted request keeps it whoever asks (`Sound.answer`); so does an
orderly program that runs by itself (`Orderly.run`), and so does any sequence of operations, each
run to its end, with changes of the clock and failures of the queue in between (`Sound.acts`).
-/

namespace JobDispatch

structure World.Sound (w : World) (held : Holders) : Prop where
  kept : w.Kept held
  staffed : w.Staffed held
  numbered : w.Numbered

variable {w w' : World} {held : Holders} {f : Footing}

theorem World.Sound.answer {r : Request} {post : r.Answer → Footing → Prop} (hs : w.Sound held)
    (hp : r.Permitted f post) (hf : ∀ t, f.tenure? = some t → held t.job.id = some t)
    (hfree : ∀ id, r = .lockJob id → held id = none) :
    (w.answer r).2.Sound (held.pass f.tenure? (f.after r w).tenure?) where
  kept := hs.kept.answer hp hf hfree
  staffed := hs.staffed.answer hs.kept hp hf hfree
  numbered := hs.numbered.answer hs.kept hp hf

lemma World.sound_initial (staleAfter : Int) (sink : Sink) (now : Timestamp) :
    (World.initial staleAfter sink now).Sound .free where
  kept := ⟨by simp [FallibleQueue.Sure, World.initial, default, FallibleQueue.ofQueue],
    fun _ => rfl⟩
  staffed := Registry.Staffed.empty staleAfter
  numbered := ⟨⟨∅, by simp, Nat.le_refl _⟩, fun _ => Queue.aligned_empty⟩

/-- Only jobs, queue and registry matter. -/
lemma World.Sound.congr (hs : w.Sound held) (hjobs : w'.jobs = w.jobs)
    (hqueue : w'.queue.queue = w.queue.queue) (hsure : w'.queue.Sure)
    (hregistry : w'.registry = w.registry) : w'.Sound held := by
  refine ⟨hs.kept.congr hjobs hqueue hsure, ?_, hs.numbered.congr hjobs hqueue⟩
  have hplaces : w'.placeFor held = w.placeFor held := by
    funext id
    simp only [World.placeFor, hjobs]
  unfold World.Staffed
  rw [hregistry, hplaces]
  exact hs.staffed

/-! ### Programs by themselves -/

/-- The holders of locks while a single program runs. -/
def Holders.sole (tenure? : Option Tenure) : Holders := Holders.free.pass none tenure?

lemma Holders.sole_some (t : Tenure) : Holders.sole (some t) t.job.id = some t := by
  simp [Holders.sole, Holders.pass]

lemma Holders.sole_pass (old new : Option Tenure) :
    (Holders.sole old).pass old new = Holders.sole new := by
  funext id
  cases old with
  | none => rfl
  | some t =>
    by_cases hid : t.job.id = id
    · simp [Holders.sole, Holders.pass, hid, Holders.free]
    · simp [Holders.sole, Holders.pass, hid, Holders.free]

/-- **An orderly program keeps a world sound**, ends as it promises, and keeps whatever else each of
its requests keeps. -/
theorem Program.Orderly.run_keep {α : Type} {Q : α → Footing → Prop} {p : Program α}
    {P : Request → Prop} {I : World → Option Tenure → Prop} (h : p.Orderly Q f) (hask : p.Asks P)
    (step : ∀ (r : Request) (post : r.Answer → Footing → Prop) (w : World) (f : Footing), P r →
      r.Permitted f post → w.Sound (.sole f.tenure?) → I w f.tenure? →
      I (w.answer r).2 (f.after r w).tenure?)
    (hs : w.Sound (.sole f.tenure?)) (hI : I w f.tenure?) :
    ∃ f', Q (p.run w).1 f' ∧ (p.run w).2.Sound (.sole f'.tenure?) ∧ I (p.run w).2 f'.tenure? := by
  induction p generalizing w f with
  | done a => exact ⟨f, h, hs, hI⟩
  | ask r next ih =>
    have hp : r.Permitted f fun x f' => (next x).Orderly Q f' := h
    have hf : ∀ t, f.tenure? = some t → Holders.sole f.tenure? t.job.id = some t := by
      intro t ht
      rw [ht]
      exact Holders.sole_some t
    have hfree : ∀ id, r = .lockJob id → Holders.sole f.tenure? id = none := by
      rintro id rfl
      rw [hp.1]
      rfl
    have hnext := hs.answer hp hf hfree
    rw [Holders.sole_pass] at hnext
    exact ih _ (hp.post hs.kept hf hfree) (hask.2 _) hnext (step r _ w f hask.1 hp hs hI)

lemma Program.Orderly.run {α : Type} {Q : α → Footing → Prop} {p : Program α}
    (h : p.Orderly Q f) (hs : w.Sound (.sole f.tenure?)) :
    ∃ f', Q (p.run w).1 f' ∧ (p.run w).2.Sound (.sole f'.tenure?) := by
  obtain ⟨f', hQ, hs', -⟩ := h.run_keep (I := fun _ _ => True) p.asks_true
    (fun _ _ _ _ _ _ _ _ => trivial) hs trivial
  exact ⟨f', hQ, hs'⟩

/-! ### Operations one after the other -/

/-- What may happen between two operations, or be one. -/
inductive Act (κ : Type)
  /-- An operation runs from its beginning to its end. -/
  | call (c : κ)
  | setClock (now : Timestamp)
  /-- A later call on the queue is to fail, without effect. -/
  | plan (call : QueueCall) (skip : Nat) (e : DispatchError)

section

variable {κ ρ : Type} (program : κ → Program ρ)

def World.act (w : World) : Act κ → World
  | .call c => ((program c).run w).2
  | .setClock now => { w with now }
  | .plan call skip e => { w with queue := w.queue.arm ⟨call, skip, .error e⟩ }

def World.acts (w : World) (as : List (Act κ)) : World := as.foldl (World.act program) w

variable {program}

lemma World.Sound.act (hprog : ∀ c, (program c).Orderly (fun _ f => f.tenure? = none) .start)
    (hs : w.Sound .free) (a : Act κ) : (w.act program a).Sound .free := by
  cases a with
  | call c =>
    obtain ⟨f, hnone, hsound⟩ := Program.Orderly.run (hprog c) hs
    rw [hnone] at hsound
    exact hsound
  | setClock now => exact hs.congr rfl rfl hs.kept.sure rfl
  | plan call skip e => exact hs.congr rfl rfl (hs.kept.sure.arm call skip e) rfl

/-- **Orderly operations, run one after the other, keep a world sound.** -/
theorem World.Sound.acts (hs : w.Sound .free)
    (hprog : ∀ c, (program c).Orderly (fun _ f => f.tenure? = none) .start) (as : List (Act κ)) :
    (w.acts program as).Sound .free := by
  induction as generalizing w with
  | nil => exact hs
  | cons a as ih => exact ih (hs.act hprog a)

end

end JobDispatch

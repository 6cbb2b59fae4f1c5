import JobDispatch.Proofs.Balance
import JobDispatch.Proofs.Schedules
import JobDispatch.Proofs.Sharing

/-!
Pools as threads. The programs that share a pool are threads of a system, each request of the pool
is one of them, and its results are what the threads have come to. So what every answer to one of
the threads keeps, and every change of the clock, holds of the system that a pool leads to, whenever
its requests are answered (`Pooled.threads`).
-/

namespace JobDispatch

open Program

namespace System

variable {κ ρ : Type} {s : System κ ρ}

def atTime (s : System κ ρ) (now : Timestamp) : System κ ρ :=
  { s with world := s.world.atTime now }

/-- The operations are about to begin. -/
def ready (program : κ → Program ρ) (w : World) (cs : List κ) : System κ ρ :=
  ⟨w, .empty, cs.map fun c => ⟨c, program c⟩, []⟩

lemma exists_of_ready {program : κ → Program ρ} {w : World} {cs : List κ} {i : Nat}
    {t : Thread κ ρ} (ht : (ready program w cs).threads[i]? = some t) :
    ∃ c ∈ cs, t = ⟨c, program c⟩ := by
  obtain ⟨c, hc, rfl⟩ := List.mem_map.1 (List.mem_of_getElem? ht)
  exact ⟨c, hc, rfl⟩

lemma sound_ready {program : κ → Program ρ} {post : κ → ρ → Footing → Prop}
    (hprog : ∀ c, (program c).Orderly (post c) .start) {w : World} (hw : w.Sound .free)
    (cs : List κ) : (ready program w cs).Sound post fun _ => .start where
  orderly i t ht := by
    obtain ⟨c, -, rfl⟩ := exists_of_ready ht
    exact hprog c
  unstarted _ _ := rfl
  owned _ _ hlock := by cases hlock
  owning _ _ htenure := by cases htenure
  world := hw
  passed _ _ _ hmem := absurd hmem List.not_mem_nil
  left_once _ _ _ _ _ hmem := absurd hmem List.not_mem_nil

/-- Any of the programs before the threads may be taken for the first. -/
lemma exists_thread {p : Program ρ} {others : List (Program ρ)}
    (h : (s.threads.map Thread.rest).Perm (p :: others)) :
    ∃ i c, s.threads[i]? = some ⟨c, p⟩ ∧
      ∀ q, ((s.threads.set i ⟨c, q⟩).map Thread.rest).Perm (q :: others) := by
  obtain ⟨⟨c, p⟩, hmem, rfl⟩ := List.mem_map.1 (h.mem_iff.2 List.mem_cons_self)
  obtain ⟨i, hi⟩ := List.mem_iff_getElem?.1 hmem
  obtain ⟨hlen, hget⟩ := List.getElem?_eq_some_iff.1 hi
  have hfirst := (List.getElem_cons_eraseIdx_perm hlen).map Thread.rest
  rw [hget] at hfirst
  refine ⟨i, c, hi, fun q => ?_⟩
  exact ((List.set_perm_cons_eraseIdx hlen _).map Thread.rest).trans
    ((hfirst.trans h).cons_inv.cons q)

/-- If the deeds of each thread that satisfy a test are none or one, there are as many of them as
threads with one. -/
lemma tally_eq_countP (hstarted : ∀ d ∈ s.deeds, d.thread < s.threads.length)
    {p : Request → World → Bool} {q : Thread κ ρ → Bool}
    (h : ∀ i t, s.threads[i]? = some t → (s.trail i).tally p = (q t).toNat) :
    s.tally p = s.threads.countP q := by
  have hsum (ts : List (Thread κ ρ)) : ∀ f : Nat → Nat,
      (∀ i t, ts[i]? = some t → f i = (q t).toNat) →
        ∑ i ∈ Finset.range ts.length, f i = ts.countP q := by
    induction ts with
    | nil => exact fun _ _ => rfl
    | cons t ts ih =>
      intro f hf
      have hrest := ih (fun i => f (i + 1)) fun i u hu => hf (i + 1) u hu
      rw [List.length_cons, Finset.sum_range_succ', hrest, hf 0 t rfl, List.countP_cons]
      cases q t <;> rfl
  rw [tally_eq_sum hstarted]
  exact hsum _ _ h

/-! ### Answers -/

section

variable {i k : Nat} {c : κ} {r : Request} {next : r.Answer → Program ρ}

lemma thread_answered_cases {t : Thread κ ρ} (hi : i < s.threads.length)
    (hk : (s.answered i c r next).threads[k]? = some t) :
    k = i ∧ t = ⟨c, next (s.world.answer r).1⟩ ∨ k ≠ i ∧ s.threads[k]? = some t := by
  change (s.threads.set i _)[k]? = some t at hk
  by_cases hki : k = i
  · subst hki
    rw [List.getElem?_set_self hi] at hk
    cases hk
    exact .inl ⟨rfl, rfl⟩
  · rw [List.getElem?_set_ne (Ne.symm hki)] at hk
    exact .inr ⟨hki, hk⟩

lemma operations_answered (hi : s.threads[i]? = some ⟨c, .ask r next⟩) :
    (s.answered i c r next).threads.map Thread.operation = s.threads.map Thread.operation := by
  refine List.ext_getElem? fun k => ?_
  show ((s.threads.set i _).map Thread.operation)[k]? = _
  rw [List.getElem?_map, List.getElem?_map]
  by_cases hki : k = i
  · subst hki
    rw [List.getElem?_set_self (List.getElem?_eq_some_iff.1 hi).1, hi]
    rfl
  · rw [List.getElem?_set_ne (Ne.symm hki)]

lemma tally_answered (s : System κ ρ) (i : Nat) (c : κ) (r : Request)
    (next : r.Answer → Program ρ) (p : Request → World → Bool) :
    (s.answered i c r next).tally p = s.tally p + (p r s.world).toNat := by
  show List.countP _ (_ :: s.deeds) = _
  rw [List.countP_cons]
  cases p r s.world <;> rfl

end

end System

/-- **A pool is a system of threads**, whenever its requests are answered. -/
theorem Program.Pooled.threads {κ α : Type} {ok : World → Prop} {I : System κ α → Prop}
    (htime : ∀ s now, I s → ok (s.world.atTime now) → I (s.atTime now))
    (hanswered : ∀ (s : System κ α) i c r next, I s → s.threads[i]? = some ⟨c, .ask r next⟩ →
      I (s.answered i c r next))
    {active waiting : List (Program α)} {results : List α} {p : Program (List α)}
    (hp : Pooled active waiting results p) {s : System κ α} (hs : I s)
    (hthreads : (s.threads.map Thread.rest).Perm (active ++ waiting ++ results.map .done)) :
    p.Whenever ok (fun results v => ∃ s', I s' ∧ s'.world = v ∧
      (s'.threads.map Thread.rest).Perm (results.map .done)) s.world := by
  -- an answer to one of the programs is one to its thread
  have hask {r : Request} {next : r.Answer → Program α} {others : List (Program α)}
      {s : System κ α} (hs : I s)
      (hthreads : (s.threads.map Thread.rest).Perm (.ask r next :: others)) (now : Timestamp)
      (hnow : ok (s.world.atTime now)) : ∃ s', I s' ∧ s'.world = ((s.world.atTime now).answer r).2 ∧
        (s'.threads.map Thread.rest).Perm (next ((s.world.atTime now).answer r).1 :: others) := by
    obtain ⟨i, c, hi, hset⟩ := System.exists_thread hthreads
    exact ⟨_, hanswered _ i c r next (htime s now hs hnow) hi, rfl, hset _⟩
  induction hp generalizing s with
  | finish results => exact ⟨s, hs, rfl, hthreads⟩
  | @collect active waiting results i a p hi _ ih =>
    refine ih hs (hthreads.trans ?_)
    rw [List.map_append, ← List.append_assoc]
    refine (((perm_cons_eraseIdx hi).append_right waiting).append_right _).trans ?_
    exact (List.perm_append_singleton _ _).symm
  | @goOn active waiting results i r next p hi _ ih =>
    have hfirst := ((perm_cons_eraseIdx hi).append_right waiting).append_right
      (results.map Program.done)
    intro now hnow
    obtain ⟨s', hs', hworld, hthreads'⟩ := hask hs (hthreads.trans hfirst) now hnow
    rw [← hworld]
    refine ih _ hs' (hthreads'.trans ?_)
    have hset := List.set_perm_cons_eraseIdx (List.getElem?_eq_some_iff.1 hi).1
      (next ((s.world.atTime now).answer r).1)
    exact ((hset.append_right waiting).append_right _).symm
  | @begin active waiting results r next p _ ih =>
    have hmiddle : (active ++ .ask r next :: waiting).Perm (.ask r next :: (active ++ waiting)) :=
      List.perm_middle
    have hfirst := hmiddle.append_right (results.map Program.done)
    intro now hnow
    obtain ⟨s', hs', hworld, hthreads'⟩ := hask hs (hthreads.trans hfirst) now hnow
    rw [← hworld]
    refine ih _ hs' (hthreads'.trans ?_)
    rw [List.append_assoc active]
    exact (List.perm_middle.symm).append_right _
  | @skip active waiting results a p _ ih =>
    refine ih hs ?_
    rw [List.append_assoc active]
    exact hthreads

end JobDispatch

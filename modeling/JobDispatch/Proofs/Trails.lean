import JobDispatch.Proofs.Requests
import JobDispatch.Proofs.Threads

/-!
Programs among others. The trail of a program is what it has asked so far, each request with the
world that it was answered from. `Program.Along` says of a program, after a trail and in a world,
that every request that it comes to is as it should be and that it ends as it should, whatever
others do in between as long as they keep to a rely. `Program.Leads` says that a trail is the one of
a whole run.

In a system of threads that take turns, a thread that is along stays so as long as the moves of
the others keep to its rely (`System.AlongAt.move`).
-/

namespace JobDispatch

/-- What a program has asked, in order, with the worlds that the requests were answered from. -/
abbrev Trail := List (Request × World)

/-- What others may do to the world while a program does not ask. -/
structure Rely where
  may : World → World → Prop
  refl : ∀ w, may w w
  trans : ∀ {u v w}, may u v → may v w → may u w

def Rely.anything : Rely := ⟨fun _ _ => True, fun _ => trivial, fun _ _ => trivial⟩

def Rely.nobody : Rely := ⟨fun w v => v = w, fun _ => rfl, fun huv hvw => hvw.trans huv⟩

namespace Program

variable {α β : Type}

/-- After a trail and from a world, all requests to come satisfy `P`, and the end satisfies `Q`. -/
def Along (R : Rely) (P : Trail → Request → World → Prop) (Q : Trail → α → World → Prop) :
    Program α → Trail → World → Prop
  | done a, h, w => ∀ v, R.may w v → Q h a v
  | ask r next, h, w => ∀ v, R.may w v →
    P h r v ∧ (next (v.answer r).1).Along R P Q (h ++ [(r, v)]) (v.answer r).2

/-- The trail is that of a run of the program from its beginning to its end. -/
inductive Leads : Program α → Trail → α → Prop
  | done (a : α) : Leads (done a) [] a
  | ask {r : Request} {next : r.Answer → Program α} {w : World} {t : Trail} {a : α}
    (h : Leads (next (w.answer r).1) t a) : Leads (ask r next) ((r, w) :: t) a

variable {R : Rely} {P P' : Trail → Request → World → Prop} {Q Q' : Trail → α → World → Prop}
  {A : Request → Prop} {p : Program α} {h : Trail} {w v : World}

lemma Along.of_may (hp : p.Along R P Q h w) (hv : R.may w v) : p.Along R P Q h v := by
  cases p with
  | done a => exact fun u hu => hp u (R.trans hv hu)
  | ask r next => exact fun u hu => hp u (R.trans hv hu)

lemma Along.mono (hp : p.Along R P Q h w) (hP : ∀ h r v, P h r v → P' h r v)
    (hQ : ∀ h a v, Q h a v → Q' h a v) : p.Along R P' Q' h w := by
  induction p generalizing h w with
  | done a => exact fun v hv => hQ _ _ _ (hp v hv)
  | ask r next ih =>
    intro v hv
    obtain ⟨hr, hnext⟩ := hp v hv
    exact ⟨hP _ _ _ hr, ih _ hnext⟩

lemma along_pure {a : α} (ha : ∀ v, R.may w v → Q h a v) : (pure a : Program α).Along R P Q h w :=
  ha

lemma Along.bind {f : α → Program β} {Q : Trail → β → World → Prop}
    (hp : p.Along R P (fun h a v => (f a).Along R P Q h v) h w) : (p >>= f).Along R P Q h w := by
  show (p.bind f).Along R P Q h w
  induction p generalizing h w with
  | done a => exact hp w (R.refl w)
  | ask r next ih =>
    intro v hv
    obtain ⟨hr, hnext⟩ := hp v hv
    exact ⟨hr, ih _ hnext⟩

lemma Along.ask {r : Request} {f : r.Answer → Program α}
    (hf : ∀ v, R.may w v → P h r v ∧
      (f (v.answer r).1).Along R P Q (h ++ [(r, v)]) (v.answer r).2) :
    (request r >>= f).Along R P Q h w := hf

/-- The trail is carried on by requests that the program may make, to the end of its run. -/
lemma Along.trail (hp : p.Along R P Q h w) (hA : p.Asks A) :
    p.Along R P (fun h' a v => Q h' a v ∧ ∃ t, h' = h ++ t ∧ (∀ q ∈ t, A q.1) ∧ p.Leads t a)
      h w := by
  induction p generalizing h w with
  | done a =>
    exact fun v hv => ⟨hp v hv, [], (List.append_nil h).symm,
      fun q hq => absurd hq List.not_mem_nil, .done a⟩
  | ask r next ih =>
    intro v hv
    obtain ⟨hr, hnext⟩ := hp v hv
    refine ⟨hr, (ih _ hnext (hA.2 _)).mono (fun _ _ _ h => h) ?_⟩
    rintro h' a u ⟨hQ, t, rfl, ht, hleads⟩
    refine ⟨hQ, (r, v) :: t, by rw [List.append_assoc]; rfl, fun q hq => ?_, .ask hleads⟩
    rcases List.mem_cons.1 hq with rfl | hq
    · exact hA.1
    · exact ht q hq

lemma Asks.along (hA : p.Asks A) (hP : ∀ h r v, A r → P h r v) :
    p.Along R P (fun _ _ _ => True) h w := by
  induction p generalizing h w with
  | done a => exact fun _ _ => trivial
  | ask r next ih => exact fun v _ => ⟨hP _ _ _ hA.1, ih _ (hA.2 _)⟩

/-- A program whose requests keep to the rely keeps to it as a whole. -/
lemma Asks.along_may (hA : p.Asks A) (hR : ∀ r v, A r → R.may v (v.answer r).2) :
    p.Along R (fun _ _ _ => True) (fun _ _ v => R.may w v) h w := by
  suffices hgen : ∀ u, R.may w u →
      p.Along R (fun _ _ _ => True) (fun _ _ v => R.may w v) h u from hgen w (R.refl w)
  induction p generalizing h with
  | done a => exact fun u hu v hv => R.trans hu hv
  | ask r next ih =>
    intro u hu v hv
    exact ⟨trivial, ih _ (hA.2 _) _ (R.trans (R.trans hu hv) (hR r v hA.1))⟩

lemma Along.bind_trail {f : α → Program β} {Q : Trail → β → World → Prop}
    (hp : p.Along R P (fun _ _ _ => True) h w) (hA : p.Asks A)
    (hf : ∀ a t v, (∀ q ∈ t, A q.1) → (f a).Along R P Q (h ++ t) v) :
    (p >>= f).Along R P Q h w := by
  refine Along.bind ((hp.trail hA).mono (fun _ _ _ h => h) ?_)
  rintro h' a v ⟨-, t, rfl, ht, -⟩
  exact hf a t v ht

end Program

/-! ### Threads -/

namespace System

variable {κ ρ : Type} {program : κ → Program ρ} {s : System κ ρ} {i : Nat}

def trail (s : System κ ρ) (i : Nat) : Trail :=
  ((s.deeds.filter fun d => d.thread == i).map fun d => (d.request, d.world)).reverse

lemma trail_answered_self (s : System κ ρ) (i : Nat) (c : κ) (r : Request)
    (next : r.Answer → Program ρ) :
    (s.answered i c r next).trail i = s.trail i ++ [(r, s.world)] := by
  simp [trail, answered]

lemma trail_answered_of_ne (s : System κ ρ) {i k : Nat} (hne : k ≠ i) (c : κ) (r : Request)
    (next : r.Answer → Program ρ) : (s.answered k c r next).trail i = s.trail i := by
  simp [trail, answered, hne]

/-- What a thread is after a move: what it was, newly started, or one answer further. -/
lemma thread_cases (m : Move κ) {t : Thread κ ρ}
    (ht : (s.move program m).threads[i]? = some t) :
    (s.threads[i]? = some t ∧ (s.move program m).trail i = s.trail i ∧
        (m = .step i → s.move program m = s)) ∨
      (s.threads.length ≤ i ∧ m = .start t.operation ∧ t = ⟨t.operation, program t.operation⟩) ∨
      ∃ r next, s.threads[i]? = some ⟨t.operation, .ask r next⟩ ∧
        t.rest = next (s.world.answer r).1 ∧
        s.move program m = s.answered i t.operation r next := by
  cases m with
  | start c =>
    change (s.threads ++ [(⟨c, program c⟩ : Thread κ ρ)])[i]? = some t at ht
    by_cases hi : i < s.threads.length
    · exact .inl ⟨(List.getElem?_append_left hi).symm.trans ht, rfl, nofun⟩
    · rw [List.getElem?_append_right (Nat.not_lt.1 hi), List.getElem?_singleton] at ht
      split at ht
      · cases ht
        exact .inr (.inl ⟨Nat.not_lt.1 hi, rfl, rfl⟩)
      · cases ht
  | setClock now => exact .inl ⟨ht, rfl, nofun⟩
  | plan call skip e => exact .inl ⟨ht, rfl, nofun⟩
  | step k =>
    have hmove : s.move program (.step k) = s.step k := rfl
    rw [hmove] at ht ⊢
    rcases s.step_eq_or_answered k with hstep | ⟨c, r, next, hk, hstep⟩
    · rw [hstep] at ht ⊢
      exact .inl ⟨ht, rfl, fun _ => rfl⟩
    · rw [hstep] at ht ⊢
      change (s.threads.set k _)[i]? = some t at ht
      by_cases hki : k = i
      · subst hki
        rw [List.getElem?_set_self (List.getElem?_eq_some_iff.1 hk).1] at ht
        cases ht
        exact .inr (.inr ⟨r, next, hk, rfl, rfl⟩)
      · rw [List.getElem?_set_ne hki] at ht
        exact .inl ⟨ht, s.trail_answered_of_ne hki c r next, fun h => absurd (Move.step.inj h) hki⟩

lemma length_move (s : System κ ρ) (m : Move κ) :
    s.threads.length ≤ (s.move program m).threads.length := by
  cases m with
  | start c =>
    show _ ≤ (s.threads ++ [(⟨c, program c⟩ : Thread κ ρ)]).length
    rw [List.length_append]
    exact Nat.le_add_right _ _
  | setClock now => exact Nat.le_refl _
  | plan call skip e => exact Nat.le_refl _
  | step k =>
    show _ ≤ (s.step k).threads.length
    rcases s.step_eq_or_answered k with hstep | ⟨c, r, next, -, hstep⟩
    · rw [hstep]
    · rw [hstep]
      show _ ≤ (s.threads.set k _).length
      rw [List.length_set]

lemma started_move (m : Move κ) (h : ∀ d ∈ s.deeds, d.thread < s.threads.length) :
    ∀ d ∈ (s.move program m).deeds, d.thread < (s.move program m).threads.length := by
  intro d hd
  refine Nat.lt_of_lt_of_le ?_ (s.length_move m)
  cases m with
  | step k =>
    change d ∈ (s.step k).deeds at hd
    rcases s.step_eq_or_answered k with hstep | ⟨c, r, next, hk, hstep⟩
    · rw [hstep] at hd
      exact h d hd
    · rw [hstep] at hd
      rcases List.mem_cons.1 hd with rfl | hd
      · exact (List.getElem?_eq_some_iff.1 hk).1
      · exact h d hd
  | _ => exact h d hd

lemma trail_eq_nil (h : ∀ d ∈ s.deeds, d.thread < s.threads.length) (hi : s.threads.length ≤ i) :
    s.trail i = [] := by
  have hnone : s.deeds.filter (fun d => d.thread == i) = [] :=
    List.filter_eq_nil_iff.2 fun d hd => by
      have := h d hd
      simp
      omega
  rw [trail, hnone]
  rfl

/-- The thread is along from where it stands. -/
def AlongAt (R : Rely) (P : Trail → Request → World → Prop) (Q : Trail → ρ → World → Prop)
    (s : System κ ρ) (i : Nat) : Prop :=
  ∀ t, s.threads[i]? = some t → t.rest.Along R P Q (s.trail i) s.world

variable {R : Rely} {P : Trail → Request → World → Prop} {Q : Trail → ρ → World → Prop}

lemma AlongAt.next (h : s.AlongAt R P Q i) {c : κ} {r : Request} {next : r.Answer → Program ρ}
    (ht : s.threads[i]? = some ⟨c, .ask r next⟩) : P (s.trail i) r s.world :=
  (h _ ht s.world (R.refl _)).1

lemma AlongAt.done (h : s.AlongAt R P Q i) {c : κ} {a : ρ}
    (ht : s.threads[i]? = some ⟨c, .done a⟩) : Q (s.trail i) a s.world :=
  h _ ht s.world (R.refl _)

/-- **A thread stays along** if the moves that are not its own keep to its rely. -/
theorem AlongAt.move (h : s.AlongAt R P Q i) (hi : i < s.threads.length) (m : Move κ)
    (hothers : m ≠ .step i → R.may s.world (s.move program m).world) :
    (s.move program m).AlongAt R P Q i := by
  intro t ht
  rcases thread_cases m ht with ⟨hold, htrail, hsame⟩ | ⟨hlen, -⟩ | ⟨r, next, hold, hrest, hmove⟩
  · rw [htrail]
    by_cases hm : m = .step i
    · rw [hsame hm]
      exact h t hold
    · exact (h t hold).of_may (hothers hm)
  · exact absurd hi (Nat.not_lt.2 hlen)
  · rw [hmove, trail_answered_self, hrest]
    exact (h _ hold s.world (R.refl _)).2

/-- All threads are along, each as befits its operation, and no deed is of a thread to come. -/
structure AllAlong (P : κ → Trail → Request → World → Prop) (s : System κ ρ) : Prop where
  started : ∀ d ∈ s.deeds, d.thread < s.threads.length
  along : ∀ i (t : Thread κ ρ), s.threads[i]? = some t →
    t.rest.Along .anything (P t.operation) (fun _ _ _ => True) (s.trail i) s.world

namespace AllAlong

variable {P : κ → Trail → Request → World → Prop}

lemma initial (w : World) : (System.initial w : System κ ρ).AllAlong P :=
  ⟨fun _ h => absurd h List.not_mem_nil, fun _ _ h => by cases h⟩

lemma next (h : s.AllAlong P) {i : Nat} {c : κ} {r : Request} {next : r.Answer → Program ρ}
    (ht : s.threads[i]? = some ⟨c, .ask r next⟩) : P c (s.trail i) r s.world :=
  (h.along i _ ht s.world trivial).1

/-- **All threads stay along.** -/
theorem move (hprog : ∀ c w, (program c).Along .anything (P c) (fun _ _ _ => True) [] w)
    (h : s.AllAlong P) (m : Move κ) : (s.move program m).AllAlong P := by
  refine ⟨started_move m h.started, fun i t ht => ?_⟩
  rcases thread_cases m ht with ⟨hold, htrail, -⟩ | ⟨hlen, rfl, hnew⟩ |
    ⟨r, next, hold, hrest, hmove⟩
  · rw [htrail]
    exact (h.along i t hold).of_may trivial
  · have htrail : s.trail i = [] := trail_eq_nil h.started hlen
    show t.rest.Along _ _ _ (s.trail i) _
    rw [htrail, hnew]
    exact hprog _ _
  · rw [hmove, trail_answered_self, hrest]
    exact (h.along i _ hold s.world trivial).2

theorem run (hprog : ∀ c w, (program c).Along .anything (P c) (fun _ _ _ => True) [] w)
    (h : s.AllAlong P) (moves : List (Move κ)) : (s.run program moves).AllAlong P := by
  induction moves generalizing s with
  | nil => exact h
  | cons m moves ih => exact ih (h.move hprog m)

end AllAlong

end System

end JobDispatch

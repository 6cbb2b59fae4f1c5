import JobDispatch.Proofs.Placement
import JobDispatch.Proofs.Tallies

/-!
Operations by themselves. What a program asks when nothing comes in between is its trail from a
world (`Program.alone`). A claim hands its job over just if it replies that it has
(`claim_handovers`). In a still world a worker that is offered a queued job gets it, since it was
ready when it was ranked. So an operation that runs by itself hands each worker as many jobs as it
offers it (`Engine.Operation.program_dutiful`).
-/

namespace JobDispatch

open Program

/-! ### Trails of runs -/

namespace Program

variable {α β : Type}

/-- The trail of the program when it runs by itself. -/
def alone : Program α → World → Trail
  | done _, _ => []
  | ask r next, w => (r, w) :: (next (w.answer r).1).alone (w.answer r).2

lemma alone_bind (p : Program α) (f : α → Program β) (w : World) :
    (p >>= f).alone w = p.alone w ++ (f (p.run w).1).alone (p.run w).2 := by
  show (p.bind f).alone w = _
  induction p generalizing w with
  | done a => rfl
  | ask r next ih => exact congrArg (List.cons (r, w)) (ih _ _)

lemma alone_request (r : Request) (w : World) : (request r).alone w = [(r, w)] := rfl

lemma leads_alone (p : Program α) (w : World) : p.Leads (p.alone w) (p.run w).1 := by
  induction p generalizing w with
  | done a => exact .done a
  | ask r next ih => exact .ask (ih _ _)

lemma Leads.of_pure {a b : α} {t : Trail} (h : (pure b : Program α).Leads t a) :
    t = [] ∧ a = b := by
  change (Program.done b).Leads t a at h
  cases h
  exact ⟨rfl, rfl⟩

lemma Leads.of_request {r : Request} {f : r.Answer → Program α} {t : Trail} {a : α}
    (h : (request r >>= f).Leads t a) :
    ∃ w t', t = (r, w) :: t' ∧ (f (w.answer r).1).Leads t' a := by
  change (Program.ask r f).Leads t a at h
  cases h with
  | ask h => exact ⟨_, _, rfl, h⟩

lemma Leads.of_bind {p : Program α} {f : α → Program β} {t : Trail} {b : β}
    (h : (p >>= f).Leads t b) :
    ∃ front a back, t = front ++ back ∧ p.Leads front a ∧ (f a).Leads back b := by
  change (p.bind f).Leads t b at h
  induction p generalizing t with
  | done a => exact ⟨[], a, t, rfl, .done a, h⟩
  | ask r next ih =>
    obtain ⟨w, t', rfl, hnext⟩ := Leads.of_request h
    obtain ⟨front, a, back, rfl, hfront, hback⟩ := ih _ hnext
    exact ⟨(r, w) :: front, a, back, rfl, .ask hfront, hback⟩

lemma Leads.asks {A : Request → Prop} {p : Program α} {t : Trail} {a : α} (h : p.Leads t a)
    (hA : p.Asks A) : ∀ q ∈ t, A q.1 := by
  induction h with
  | done a => exact fun _ hq => absurd hq List.not_mem_nil
  | ask _ ih =>
    intro q hq
    rcases List.mem_cons.1 hq with rfl | hq
    · exact hA.1
    · exact ih (hA.2 _) q hq

end Program

/-! ### Claims -/

/-- The jobs that were handed to workers along the trail. -/
def Trail.handovers (h : Trail) : List (JobId × WorkerId) := h.filterMap fun q => q.1.handover?

lemma Trail.handovers_append (h h' : Trail) :
    Trail.handovers (h ++ h') = h.handovers ++ h'.handovers := List.filterMap_append

lemma Trail.handovers_eq_nil {h : Trail} (hh : ∀ q ∈ h, q.1.handover? = none) :
    h.handovers = [] := List.filterMap_eq_nil_iff.2 hh

/-- What a claim comes to along a trail: a handover to its worker, or none. -/
def HandedOver (worker : WorkerId) (t : Trail) (a : Except DispatchError Handover) : Prop :=
  (∃ time, a = .ok (.claimed worker time) ∧ t.handovers.map Prod.snd = [worker]) ∨
    (∀ other time, a ≠ .ok (.claimed other time)) ∧ t.handovers = []

lemma HandedOver.cons {worker : WorkerId} {r : Request} {w : World} {t : Trail}
    {a : Except DispatchError Handover} (hr : r.handover? = none) (h : HandedOver worker t a) :
    HandedOver worker ((r, w) :: t) a := by
  have ht : Trail.handovers ((r, w) :: t) = t.handovers := List.filterMap_cons_none hr
  unfold HandedOver
  rw [ht]
  exact h

/-- **A claim hands its job over just if it replies that it has**, whatever comes in between. -/
theorem claim_handovers {id : JobId} {worker : WorkerId} {t : Trail}
    {a : Except DispatchError Handover} (h : (claim id worker).Leads t a) :
    HandedOver worker t a := by
  -- the ways out
  have hleave {t : Trail} {a b : Except DispatchError Handover}
      (h : (do request (.unlockJob id); pure b : Program _).Leads t a)
      (hb : ∀ other time, b ≠ .ok (.claimed other time)) :
      HandedOver worker t a := by
    obtain ⟨_, t, rfl, hend⟩ := h.of_request
    obtain ⟨rfl, rfl⟩ := hend.of_pure
    exact .inr ⟨hb, rfl⟩
  have hretreat {t : Trail} {a b : Except DispatchError Handover}
      (h : (do discard (givePlace worker); request (.unlockJob id); pure b : Program _).Leads t a)
      (hb : ∀ other time, b ≠ .ok (.claimed other time)) :
      HandedOver worker t a := by
    have hnone := h.asks (A := fun r => r.handover? = none)
      (retreat_asks worker b rfl rfl fun _ => rfl)
    obtain ⟨_, _, _, -, -, hback⟩ := h.of_bind
    obtain ⟨_, _, -, hend⟩ := hback.of_request
    rw [hend.of_pure.2]
    exact .inr ⟨hb, Trail.handovers_eq_nil hnone⟩
  unfold claim at h
  obtain ⟨w, _, rfl, hlocked⟩ := h.of_request
  refine .cons rfl ?_
  generalize (w.answer (.lockJob id)).1 = job? at hlocked
  cases job? with
  | none =>
    obtain ⟨rfl, rfl⟩ := hlocked.of_pure
    exact .inr ⟨fun _ _ => nofun, rfl⟩
  | some job =>
  dsimp only at hlocked
  split at hlocked
  · exact hleave hlocked fun _ _ => nofun
  obtain ⟨_, _, rfl, hfound⟩ := hlocked.of_request
  refine .cons rfl ?_
  split at hfound
  · exact hleave hfound fun _ _ => nofun
  · exact hleave hfound fun _ _ => nofun
  obtain ⟨_, _, rfl, hplaced⟩ := hfound.of_request
  refine .cons rfl ?_
  split at hplaced
  · exact hleave hplaced fun _ _ => nofun
  obtain ⟨front, _, _, rfl, hfront, hpopped⟩ := hplaced.of_bind
  have hnone : front.handovers = [] :=
    Trail.handovers_eq_nil (hfront.asks (A := fun r => r.handover? = none)
      (popEntry_asks job claimEdge .claimed rfl rfl rfl fun _ => rfl))
  unfold HandedOver
  rw [Trail.handovers_append, hnone, List.nil_append]
  split at hpopped
  · obtain ⟨_, _, rfl, htime⟩ := hpopped.of_request
    obtain ⟨_, _, rfl, hstored⟩ := htime.of_request
    obtain ⟨_, _, rfl, hlogged⟩ := hstored.of_request
    obtain ⟨rfl, rfl⟩ := hlogged.of_pure
    exact .inl ⟨_, rfl, rfl⟩
  · exact hretreat hpopped fun _ _ => nofun
  · exact hretreat hpopped fun _ _ => nofun

/-! ### Offers -/

def Request.offersNothing : Request → Bool
  | .count (.workerTick _) => false
  | r => r.handover?.isNone

namespace Trail

/-- Each worker was handed as many jobs as it was offered. -/
def Fulfilled (h : Trail) : Prop :=
  ∀ worker, h.tally (Request.counts (.workerTick worker)) = h.tally (Request.handsTo worker)

variable {h h' : Trail}

lemma Fulfilled.append (hh : h.Fulfilled) (hh' : h'.Fulfilled) : Fulfilled (h ++ h') := by
  intro worker
  simp only [tally, List.countP_append]
  exact congrArg₂ _ (hh worker) (hh' worker)

lemma tally_eq_zero {p : Request → World → Bool} (hh : ∀ q ∈ h, p q.1 q.2 = false) :
    h.tally p = 0 :=
  List.countP_eq_zero.2 fun q hq => by simp [hh q hq]

lemma fulfilled_of_aside (hh : ∀ q ∈ h, q.1.offersNothing = true) : h.Fulfilled := by
  have haside {r : Request} (hr : r.offersNothing = true) (worker : WorkerId) (w : World) :
      r.counts (.workerTick worker) w = false ∧ r.handsTo worker w = false := by
    cases r with
    | storeJob record =>
      have hnone : (Request.storeJob record).handover? = none := Option.isNone_iff_eq_none.1 hr
      exact ⟨rfl, by rw [Request.handsTo, hnone]; rfl⟩
    | count m =>
      cases m with
      | workerTick other => cases hr
      | _ => exact ⟨rfl, rfl⟩
    | _ => exact ⟨rfl, rfl⟩
  intro worker
  rw [tally_eq_zero fun q hq => (haside (hh q hq) worker q.2).1,
    tally_eq_zero fun q hq => (haside (hh q hq) worker q.2).2]

end Trail

lemma Program.Asks.fulfilled {α : Type} {p : Program α}
    (hp : p.Asks fun r => r.offersNothing = true) (w : World) : (p.alone w).Fulfilled :=
  Trail.fulfilled_of_aside ((leads_alone p w).asks hp)

/-- An offer that is followed by a claim that hands the job over is kept. -/
lemma Trail.fulfilled_offer {worker : WorkerId} {t : Trail} (w : World)
    (hhands : t.handovers.map Prod.snd = [worker])
    (hticks : ∀ q ∈ t, ∀ other, q.1 ≠ .count (.workerTick other)) :
    Trail.Fulfilled ((.count (.workerTick worker), w) :: t) := by
  intro other
  have hzero : t.tally (Request.counts (.workerTick other)) = 0 := by
    refine Trail.tally_eq_zero fun q hq => ?_
    have hne := hticks q hq other
    obtain ⟨r, v⟩ := q
    cases r with
    | count m => simpa [Request.counts, Request.metric?] using hne
    | _ => rfl
  have hone : t.tally (Request.handsTo other) = [worker].countP (· == other) := by
    rw [← hhands, List.countP_map, Trail.handovers, List.countP_filterMap]
    refine List.countP_congr fun q _ => ?_
    rw [Request.handsTo]
    cases q.1.handover? <;> rfl
  show Trail.tally ([(_, w)] ++ t) _ = Trail.tally ([(_, w)] ++ t) _
  simp only [Trail.tally, List.countP_append] at hzero hone ⊢
  rw [hzero, hone]
  simp [Request.counts, Request.metric?, Request.handsTo, Request.handover?]

namespace World.Still

variable {w : World}

/-- **Offers of a queued job are kept**: the first of its workers gets it. -/
theorem offerEntry_fulfilled (hw : w.Still) (untaggedOnly : Bool) {e : QueueEntry}
    (he : w.queue.queue.get? e.job = some e) : ((offerEntry untaggedOnly e).alone w).Fulfilled := by
  have hranking : (rankWorkers untaggedOnly e).Asks fun r => r.offersNothing = true :=
    ⟨rfl, fun _ => ⟨rfl, fun _ => ⟨rfl, fun _ => trivial⟩⟩⟩
  unfold offerEntry
  rw [alone_bind, rankWorkers_run]
  refine .append (hranking.fulfilled w) ?_
  cases hchoice : w.registry.choice untaggedOnly w.now e with
  | none =>
    have hnil := List.head?_eq_none_iff.1 hchoice
    dsimp only
    rw [hnil]
    refine Asks.fulfilled ?_ w
    exact ⟨rfl, fun _ => trivial⟩
  | some worker =>
    obtain ⟨job, events, -, hclaim⟩ := hw.claim_choice_run he hchoice
    obtain ⟨rest, hcons⟩ := List.head?_eq_some_iff.1 hchoice
    have hleads := leads_alone (claim e.job worker.id) (w.record (.workerTick worker.id))
    have hhanded := claim_handovers hleads
    have hmakes := hleads.asks (claim_asks_ofClaim e.job worker.id)
    rw [hclaim] at hhanded
    dsimp only
    rw [hcons]
    simp only [List.isEmpty_cons, Bool.false_eq_true, if_false]
    unfold offerTo
    rw [alone_bind, alone_request]
    show Trail.Fulfilled ([_] ++ (claim e.job worker.id >>= _).alone (w.record _))
    rw [alone_bind, hclaim, ← List.append_assoc]
    refine .append (Trail.fulfilled_offer w ?_ fun q hq other hother => ?_) ?_
    · rcases hhanded with ⟨_, -, hhands⟩ | ⟨hnot, -⟩
      · exact hhands
      · exact absurd rfl (hnot worker.id w.now)
    · have hmake := hmakes q hq
      rw [hother] at hmake
      rcases hmake with h | h <;> cases h
    · refine Asks.fulfilled ?_ _
      exact ⟨rfl, fun _ => trivial⟩

end World.Still

end JobDispatch

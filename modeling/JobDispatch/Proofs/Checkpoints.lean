import JobDispatch.Proofs.Coverage
import JobDispatch.Proofs.Takeover

/-!
The progress of sweeps that overlap. A pass notes where it stands only after it has got a lease,
and it notes what its pages lead to (`sweep_notes`), but a note does not ask whether the lease is
still on record. It is as long as it has not run out, and one pass at most has a lease on record. So
unless a pass moves the progress after it was overtaken, the progress tells where the pass stands
that holds the lease (`checkpoints_follow_leases`). A pass that was overtaken takes it back
(`overtaken_pass_notes`).
-/

namespace JobDispatch

open Program

variable {untaggedOnly : Bool} {plan : SweepPlan} {h : Trail} {w v : World}

/-! ### Where a pass stands -/

def Request.isAloof (r : Request) : Bool := !r.isLease && !r.movesProgress

lemma Request.isAloof_iff {r : Request} :
    r.isAloof = true ↔ r.isLease = false ∧ r.movesProgress = false := by
  simp [isAloof]

def SweepRecord.place (p : SweepRecord) : Option Cursor × SweepPhase := (p.cursor?, p.phase)

lemma SweepRecord.place_begin (p : SweepRecord) (now : Timestamp) :
    (p.begin now).place = (p.start?, .ongoing) := by
  unfold begin start?
  split <;> rfl

/-- Where a page leads: to the place where the next one starts, or to the end of the queue. -/
def Page.place {after : Option Cursor} (page : Page after) : Option Cursor × SweepPhase :=
  match page.next? with
  | some next => (some next.1, .ongoing)
  | none => (none, .completed)

/-- Where a pass stands after what it has asked: where it began, where the last page leads whose
entries it has ticked, or there for good once it has had as many batches as it may have. -/
inductive Trail.StandsAt (untaggedOnly : Bool) : Trail → Option Cursor × SweepPhase → Prop
  | begun {h : Trail} {now : Timestamp} {w : World} :
    StandsAt untaggedOnly (h ++ [(.beginPass now, w)]) (w.progress.start?, .ongoing)
  | page {h t logs : Trail} {after : Option Cursor} {limit : UInt64} {w v : World}
    {page : Page after} {outcomes : List (Except DispatchError TickOutcome)}
    (hat : StandsAt untaggedOnly h (after, .ongoing))
    (hscan : (w.answer (.scan limit after)).1 = .ok page)
    (hticks : (offerAll untaggedOnly page.entries).Leads t outcomes)
    (hlogs : ∀ q ∈ logs, ∃ e, q.1 = .log e) :
    StandsAt untaggedOnly ((h ++ [(.scan limit after, w)] ++ t ++ logs) ++
      [(.notePlace page.place.1 page.place.2, v)]) page.place
  | capped {h : Trail} {after : Option Cursor} {w : World}
    (hat : StandsAt untaggedOnly h (after, .ongoing)) :
    StandsAt untaggedOnly (h ++ [(.notePlace after .unfinished, w)]) (after, .unfinished)
  | aside {h : Trail} {place : Option Cursor × SweepPhase} {r : Request} {w : World}
    (hr : r.isAloof = true) (hat : StandsAt untaggedOnly h place) :
    StandsAt untaggedOnly (h ++ [(r, w)]) place

/-- The pass that holds a lease has begun. -/
def Trail.hasBegun (h : Trail) : Bool :=
  h.foldl (fun begun q => match q.1 with
    | .beginPass _ => true
    | .obtainLease .. => false
    | _ => begun) false

lemma Trail.hasBegun_concat (h : Trail) (r : Request) (w : World) :
    Trail.hasBegun (h ++ [(r, w)]) = match r with
      | .beginPass _ => true
      | .obtainLease .. => false
      | _ => h.hasBegun := by
  rw [hasBegun, List.foldl_append]
  rfl

/-- A pass has got the lease, and stands at a cursor. -/
structure Trail.Paused (untaggedOnly : Bool) (h : Trail) (after : Option Cursor) : Prop where
  leased : ∃ a, h.lease? = some a
  stands : h.StandsAt untaggedOnly (after, .ongoing)

lemma Trail.Paused.append {after : Option Cursor} (hp : h.Paused untaggedOnly after) {t : Trail}
    (ht : ∀ q ∈ t, q.1.isAloof = true) : Trail.Paused untaggedOnly (h ++ t) after := by
  induction t generalizing h with
  | nil =>
    rw [List.append_nil]
    exact hp
  | cons q t ih =>
    rw [List.append_cons]
    refine ih ⟨?_, hp.stands.aside (ht q List.mem_cons_self)⟩ fun p hp =>
      ht p (List.mem_cons_of_mem q hp)
    rw [h.lease?_of_not (Request.isAloof_iff.1 (ht q List.mem_cons_self)).1]
    exact hp.leased

/-! ### What passes note -/

/-- The progress is moved under a lease, and what is noted is where the pass stands then. -/
def Notes (untaggedOnly : Bool) (h : Trail) (r : Request) (w : World) : Prop :=
  match r with
  | .beginPass _ => ∃ a, h.lease? = some a
  | .notePlace cursor? phase =>
    (∃ a, h.lease? = some a) ∧ Trail.StandsAt untaggedOnly (h ++ [(r, w)]) (cursor?, phase)
  | _ => True

lemma notes_of_not {r : Request} (hr : r.movesProgress = false) (h : Trail) (w : World) :
    Notes untaggedOnly h r w := by
  cases r with
  | beginPass _ | notePlace _ _ => cases hr
  | _ => trivial

lemma Notes.leased {r : Request} (hn : Notes untaggedOnly h r w) (hr : r.movesProgress = true) :
    ∃ a, h.lease? = some a := by
  cases r with
  | beginPass _ => exact hn
  | notePlace _ _ => exact hn.1
  | _ => cases hr

lemma Request.Ticking.isAloof {r : Request} (hr : r.Ticking) : r.isAloof = true := by
  obtain ⟨id, hr⟩ := hr
  exact Request.isAloof_iff.2 ⟨hr.inSection.isLease, hr.movesProgress⟩

lemma allows_notes (untaggedOnly : Bool) : Allows untaggedOnly (Notes untaggedOnly) where
  plain h _ v hr := notes_of_not (Request.movesProgress_of_isPlain hr) h v
  offer _ e _ _ := (offerEntry_asks untaggedOnly e).along fun h _ v hr =>
    notes_of_not hr.movesProgress h v

lemma Program.Asks.notes {α : Type} {p : Program α} {A : Request → Prop} (hA : p.Asks A)
    (haloof : ∀ r, A r → r.isAloof = true) :
    p.Along .anything (Notes untaggedOnly)
      (fun h' a _ => ∃ t, h' = h ++ t ∧ (∀ q ∈ t, A q.1) ∧ p.Leads t a) h w := by
  have hnotes : p.Along .anything (Notes untaggedOnly) (fun _ _ _ => True) h w :=
    hA.along fun h r v hr => notes_of_not (Request.isAloof_iff.1 (haloof r hr)).2 h v
  exact (hnotes.trail hA).mono (fun _ _ _ h => h) fun _ _ _ h => h.2

lemma sweepFrom_notes {after : Option Cursor} {report : PassReport}
    (hp : h.Paused untaggedOnly after) :
    (sweepFrom plan untaggedOnly after report).Heeds (Notes untaggedOnly) h := by
  have hallows := allows_notes untaggedOnly
  induction hroom : Cursor.room after using Nat.strong_induction_on generalizing after report h with
  | _ n ih =>
    subst hroom
    rw [sweepFrom_eq]
    split
    · exact .ask (fun v => ⟨hp.leased, .capped hp.stands⟩) fun _ =>
        hallows.ask rfl fun _ => heeds_pure _
    refine hallows.ask rfl fun v w => ?_
    split
    · exact heeds_pure _ w
    rename_i page hscan
    refine Along.bind (((offerAll_asks untaggedOnly page.entries).notes
      fun _ => Request.Ticking.isAloof).mono (fun _ _ _ h => h) ?_)
    rintro _ outcomes u ⟨t, rfl, ht, hticks⟩
    refine Along.bind (((recordOutcomes_asks outcomes report).notes ?_).mono
      (fun _ _ _ h => h) ?_)
    · rintro _ ⟨e, rfl⟩
      rfl
    rintro _ report' u' ⟨logs, rfl, hlogs, -⟩
    -- the pass still has its lease when the entries of the page are ticked
    have hticked : Trail.Paused untaggedOnly (h ++ [(.scan plan.batchSize after, v)] ++ t ++ logs)
        after := by
      refine ((hp.append fun q hq => ?_).append fun q hq => (ht q hq).isAloof).append fun q hq => ?_
      · rw [List.mem_singleton.1 hq]
        rfl
      · obtain ⟨e, he⟩ := hlogs q hq
        rw [he]
        rfl
    have hplace (u : World) := Trail.StandsAt.page (v := u) hp.stands hscan hticks hlogs
    unfold Page.place at hplace
    dsimp only
    split
    · rename_i next hlater hnext
      rw [hnext] at hplace
      refine Along.ask fun u _ => ⟨⟨hticked.leased, hplace u⟩, ?_⟩
      refine ih _ (Cursor.room_lt hlater) ⟨?_, hplace u⟩ rfl _
      rw [Trail.lease?_of_not _ rfl]
      exact hticked.leased
    · rename_i hnext
      rw [hnext] at hplace
      exact Along.ask fun u _ => ⟨⟨hticked.leased, hplace u⟩, heeds_pure _ _⟩

lemma beginPass_notes (hlease : ∃ a, h.lease? = some a) :
    beginPass.Along .anything (Notes untaggedOnly)
      (fun h place _ => h.Paused untaggedOnly place.1) h w := by
  rw [beginPass_eq]
  refine Along.ask fun u _ => ⟨trivial, Along.ask fun v _ => ?_⟩
  have hclock : ∃ a, Trail.lease? (h ++ [(.clock, u)]) = some a := by
    rw [Trail.lease?_of_not _ rfl]
    exact hlease
  refine ⟨hclock, ?_⟩
  have hbegun : Trail.Paused untaggedOnly
      (h ++ [(.clock, u)] ++ [(.beginPass (u.answer .clock).1, v)]) v.progress.start? := by
    refine ⟨?_, .begun⟩
    rw [Trail.lease?_of_not _ rfl]
    exact hclock
  -- what is logged about the place does not matter
  have haloof (r : Request) (hr : ∃ e, r = .log e) : r.isAloof = true := by
    obtain ⟨e, rfl⟩ := hr
    rfl
  refine Along.bind (((logEarlier_asks v.progress).notes haloof).mono (fun _ _ _ h => h) ?_)
  rintro _ _ _ ⟨t, rfl, ht, -⟩
  exact along_pure fun _ _ => hbegun.append fun q hq => haloof q.1 (ht q hq)

lemma passUnderLease_notes (hlease : ∃ a, h.lease? = some a) :
    (passUnderLease plan untaggedOnly).Heeds (Notes untaggedOnly) h := by
  rw [passUnderLease_eq]
  refine (allows_notes untaggedOnly).ask rfl fun u =>
    (allows_notes untaggedOnly).ask rfl fun v w => Along.bind ?_
  refine (beginPass_notes ?_).mono (fun _ _ _ h => h) fun h place v hp => ?_
  · rw [Trail.lease?_of_not _ rfl, Trail.lease?_of_not _ rfl]
    exact hlease
  · exact sweepFrom_notes hp v

/-- **Passes move the progress under their lease**, and note where they stand. -/
theorem sweep_notes : (sweep plan untaggedOnly).Heeds (Notes untaggedOnly) h := by
  have hallows := allows_notes untaggedOnly
  rw [sweep_eq]
  refine hallows.ask rfl fun u => hallows.ask rfl fun v => ?_
  split
  · exact heeds_pure _
  rename_i lease hobtained
  refine (passUnderLease_notes ?_).bind fun result t => hallows.ask rfl fun u =>
    (hallows.of_logs (logPass_asks lease _ result) _).bind fun _ _ => heeds_pure _
  rw [Trail.lease?_obtainLease]
  exact ⟨lease, congrArg Except.toOption hobtained⟩

lemma Engine.Operation.notes (c : Config) (o : Engine.Operation) (w : World) :
    (o.program c).Along .anything (Notes c.untaggedOnly) (fun _ _ _ => True) [] w := by
  by_cases ho : o = .sweep
  · rw [ho]
    exact sweep_notes.discard w
  · refine o.heeds (allows_notes c.untaggedOnly) (fun hsweeps => ?_) w
    cases o with
    | sweep => exact absurd rfl ho
    | _ => cases hsweeps

/-! ### Passes that were overtaken -/

/-- What is on record after a call was so before, unless the call issues it. -/
lemma Leases.Recorded.of_call {l : Leases} {a : Lease} {c : LeaseCall}
    (h : (l.call c).Recorded a) (hissued : a.serial < l.issued) : l.Recorded a := by
  have hfind : (l.call c).held.find? a.key = some a := h
  rcases l.find?_call_cases c a.key with
    hsame | ⟨token, old, -, -, -, -, -, hnone⟩ | ⟨b, ttl, now, -, -, hserial, -, hnew, -⟩
  · exact hsame.symm.trans hfind
  · rw [hnone] at hfind
    cases hfind
  · rw [hnew] at hfind
    cases hfind
    exact absurd hissued (by rw [hserial]; exact Nat.lt_irrefl _)

lemma World.recorded_of_answer {a : Lease} {r : Request} (h : (w.answer r).2.leases.Recorded a)
    (hissued : a.serial < w.leases.issued) : w.leases.Recorded a := by
  cases r with
  | obtainLease key ttl now => exact h.of_call (c := .obtain key ttl now) hissued
  | releaseLease lease => exact h.of_call (c := .release lease) hissued
  | addJob draft =>
    rw [w.leases_answer rfl] at h
    exact h
  | _ => exact h

def Move.thread? {κ : Type} : Move κ → Option Nat
  | .step i => some i
  | _ => none

namespace System

variable {κ ρ : Type} {s : System κ ρ} {i k : Nat} {a b : Lease}

/-- The lease of the pass is not on record any more. -/
def Overtaken (s : System κ ρ) (i : Nat) : Prop :=
  ∃ a ∈ (s.trail i).lease?, ¬s.world.leases.Recorded a

instance : Decidable (s.Overtaken i) :=
  inferInstanceAs (Decidable (∃ a ∈ (s.trail i).lease?,
    ¬s.world.leases.held.find? a.key = some a))

lemma recorded_of_not_overtaken (h : ¬s.Overtaken i) (ha : s.Sweeps i a) :
    s.world.leases.Recorded a :=
  Classical.not_not.1 fun hgone => h ⟨a, ha, hgone⟩

lemma not_overtaken_of_recorded (ha : s.Sweeps i a) (hrecorded : s.world.leases.Recorded a) :
    ¬s.Overtaken i := by
  rintro ⟨b, hb, hgone⟩
  cases Option.some.inj (ha.symm.trans hb)
  exact hgone hrecorded

lemma Passing.eq_of_recorded (hs : s.Passing) (ha : s.Sweeps i a) (hb : s.Sweeps k b)
    (hrecorded : s.world.leases.Recorded a) (hrecorded' : s.world.leases.Recorded b) : i = k := by
  have hkey : a.key = b.key := (hs.issued i a ha).1.trans (hs.issued k b hb).1.symm
  have hsame : some a = some b := by
    rw [← show s.world.leases.held.find? a.key = some a from hrecorded, hkey]
    exact hrecorded'
  exact hs.apart i k a b ha hb (congrArg Lease.serial (Option.some.inj hsame))

/-- While the lease of a pass is to run, the pass is not overtaken and all others are. -/
lemma Passing.overtaken_of_in_force (hs : s.Passing) (ha : s.Sweeps i a)
    (hforce : s.world.now < a.expiresAt) : ¬s.Overtaken i ∧
      ∀ k b, k ≠ i → s.Sweeps k b → s.Overtaken k ∧ b.expiresAt ≤ s.world.now := by
  have hrecorded : s.world.leases.Recorded a :=
    (hs.standing i a ha).resolve_right fun hout => Int.not_le.2 hforce hout
  refine ⟨not_overtaken_of_recorded ha hrecorded, fun k b hk hb => ?_⟩
  have hgone : ¬s.world.leases.Recorded b := fun hrecorded' =>
    hk (hs.eq_of_recorded hb ha hrecorded' hrecorded)
  exact ⟨⟨b, hb, hgone⟩, (hs.standing k b hb).resolve_left hgone⟩

end System

namespace Engines

lemma sweeps_of_progress {s : Engines} (hnotes : s.AllAlong fun o => Notes o.1.untaggedOnly)
    {k : Nat} (hmoved : (s.step k).world.progress ≠ s.world.progress) :
    ∃ a, s.Sweeps k a := by
  rcases s.step_eq_or_answered k with hstep | ⟨o, r, next, ht, hstep⟩
  · exact absurd (congrArg (fun s => s.world.progress) hstep) hmoved
  · rw [hstep] at hmoved
    refine (hnotes.next ht).leased ?_
    rw [← Bool.not_eq_false]
    exact fun hstill => hmoved (World.progress_answer hstill)

/-- The progress tells where the pass stands that has a lease on record. -/
def Told (s : Engines) : Prop :=
  ∀ i a t, s.threads[i]? = some t → s.Sweeps i a → s.world.leases.Recorded a →
    (s.trail i).hasBegun = true →
    (s.trail i).StandsAt t.operation.1.untaggedOnly s.world.progress.place

/-- Along the moves, only passes that are not overtaken move the progress. -/
def HoldersNote (s : Engines) : List (Move (Config × Engine.Operation)) → Prop
  | [] => True
  | m :: moves =>
    (∀ i ∈ m.thread?, (s.step i).world.progress ≠ s.world.progress → ¬s.Overtaken i) ∧
      HoldersNote (s.move Engines.program m) moves

instance HoldersNote.decidable (s : Engines) :
    (moves : List (Move (Config × Engine.Operation))) → Decidable (s.HoldersNote moves)
  | [] => .isTrue trivial
  | m :: moves =>
    have := decidable (s.move Engines.program m) moves
    inferInstanceAs (Decidable (_ ∧ _))

lemma holdersNote_concat {s : Engines} {moves : List (Move (Config × Engine.Operation))}
    {m : Move (Config × Engine.Operation)} : s.HoldersNote (moves ++ [m]) ↔
      s.HoldersNote moves ∧
        let t := s.run Engines.program moves
        ∀ i ∈ m.thread?, (t.step i).world.progress ≠ t.world.progress → ¬t.Overtaken i := by
  induction moves generalizing s with
  | nil => exact and_comm
  | cons m' moves ih => exact (and_congr_right fun _ => ih).trans and_assoc.symm

section

variable {s : Engines} {k : Nat} {o : Config × Engine.Operation} {r : Request}
  {next : r.Answer → Program Unit}

/-- Where a pass stands after a request of its own is what the progress tells then, if it was so
before. -/
lemma standsAt_answered (hnotes : Notes o.1.untaggedOnly (s.trail k) r s.world)
    {a : Lease} (ha : (s.answered k o r next).Sweeps k a)
    (hbegun : ((s.answered k o r next).trail k).hasBegun = true)
    (htold : r.isAloof = true → s.Sweeps k a → (s.trail k).hasBegun = true →
      (s.trail k).StandsAt o.1.untaggedOnly s.world.progress.place) :
    ((s.answered k o r next).trail k).StandsAt o.1.untaggedOnly
      (s.answered k o r next).world.progress.place := by
  unfold System.Sweeps at ha
  rw [System.trail_answered_self] at ha hbegun ⊢
  rw [Trail.hasBegun_concat] at hbegun
  have haside (hr : r.isAloof = true) (hbegun : (s.trail k).hasBegun = true) :
      Trail.StandsAt o.1.untaggedOnly (s.trail k ++ [(r, s.world)])
        (s.world.answer r).2.progress.place := by
    obtain ⟨hlease, hprogress⟩ := Request.isAloof_iff.1 hr
    rw [Trail.lease?_of_not _ hlease] at ha
    rw [World.progress_answer hprogress]
    exact .aside hr (htold hr ha hbegun)
  cases r with
  | beginPass now =>
    show Trail.StandsAt _ _ (s.world.progress.begin now).place
    rw [SweepRecord.place_begin]
    exact .begun
  | notePlace cursor? phase => exact hnotes.2
  | obtainLease key ttl now => cases hbegun
  | releaseLease lease =>
    rw [Trail.lease?_releaseLease] at ha
    cases ha
  | _ => exact haside rfl hbegun

/-- **An answer keeps the progress in step with the pass that holds the lease**, as long as no pass
that was overtaken moves it. -/
theorem Told.answered (htold : s.Told) (hs : s.Passing)
    (hnotes : s.AllAlong fun o => Notes o.1.untaggedOnly)
    (ht : s.threads[k]? = some ⟨o, .ask r next⟩)
    (hholders : (s.answered k o r next).world.progress ≠ s.world.progress → ¬s.Overtaken k) :
    Told (s.answered k o r next) := by
  intro i a t hi ha hrecorded hbegun
  change (s.threads.set k _)[i]? = some t at hi
  by_cases hik : i = k
  · subst hik
    rw [List.getElem?_set_self (List.getElem?_eq_some_iff.1 ht).1] at hi
    cases hi
    refine standsAt_answered (hnotes.next ht) ha hbegun fun hr ha hbegun => ?_
    change (s.world.answer r).2.leases.Recorded a at hrecorded
    rw [s.world.leases_answer (Request.isAloof_iff.1 hr).1] at hrecorded
    exact htold i a ⟨o, .ask r next⟩ ht ha hrecorded hbegun
  · have ha' : s.Sweeps i a := System.Passing.sweeps_of_ne ha hik
    have hrecorded' : s.world.leases.Recorded a :=
      World.recorded_of_answer hrecorded (hs.issued i a ha').2
    rw [List.getElem?_set_ne (Ne.symm hik)] at hi
    rw [System.trail_answered_of_ne _ (Ne.symm hik)] at hbegun ⊢
    have hstill : (s.answered k o r next).world.progress = s.world.progress := by
      -- a thread that moves it has a lease on record, and so does this one
      by_contra hmoved
      have hprogress : r.movesProgress = true := by
        rw [← Bool.not_eq_false]
        exact fun hstill => hmoved (World.progress_answer hstill)
      obtain ⟨b, hb⟩ := (hnotes.next ht).leased hprogress
      exact hik (hs.eq_of_recorded ha' hb hrecorded'
        (System.recorded_of_not_overtaken (hholders hmoved) hb))
    rw [hstill]
    exact htold i a t hi ha' hrecorded' hbegun

end

lemma Told.move {s : Engines} (htold : s.Told) (hs : s.Passing)
    (hnotes : s.AllAlong fun o => Notes o.1.untaggedOnly) (m : Move (Config × Engine.Operation))
    (hholders : ∀ i ∈ m.thread?, (s.step i).world.progress ≠ s.world.progress →
      ¬s.Overtaken i) : Told (s.move Engines.program m) := by
  cases m with
  | step k =>
    have hholders := hholders k rfl
    show Told (s.step k)
    rcases s.step_eq_or_answered k with hstep | ⟨o, r, next, ht, hstep⟩
    · rw [hstep]
      exact htold
    · rw [hstep] at hholders ⊢
      exact htold.answered hs hnotes ht hholders
  | start o =>
    intro i a t hi ha hrecorded hbegun
    change (s.threads ++ [(⟨o, Engines.program o⟩ : Thread _ _)])[i]? = some t at hi
    by_cases hlen : i < s.threads.length
    · rw [List.getElem?_append_left hlen] at hi
      exact htold i a t hi ha hrecorded hbegun
    · -- a thread that starts now has done nothing
      change Trail.hasBegun (s.trail i) = true at hbegun
      rw [System.trail_eq_nil hnotes.started (Nat.not_lt.1 hlen)] at hbegun
      cases hbegun
  | _ => exact htold

end Engines

/-- **Checkpoints follow the leases as long as holders note them.** Configurations, operations and
their interleaving are arbitrary, and the clock does not go back. Who moves the progress is a pass
that has got the lease and not given it back, and if that lease has not run out, no other pass has
got it since, while all other passes under way were overtaken after theirs had run out. So unless a
pass moves the progress after it was overtaken, the cursor and the phase are always those of the
last page that was dealt with by the pass that holds the lease. -/
theorem checkpoints_follow_leases (c : Config) (sink : Sink) (now : Timestamp)
    (moves : List (Move (Config × Engine.Operation)))
    (hclock : (now :: moves.filterMap Move.time?).Pairwise fun t u => t ≤ u) :
    let s₀ : Engines := System.initial (Engine.initial c sink now)
    let s : Engines := s₀.run Engines.program moves
    (∀ i, (s.step i).world.progress ≠ s.world.progress → ∃ a, s.Sweeps i a ∧
        (s.world.now < a.expiresAt → ¬s.Overtaken i ∧
          ∀ k b, k ≠ i → s.Sweeps k b → s.Overtaken k ∧ b.expiresAt ≤ s.world.now)) ∧
      (s₀.HoldersNote moves →
        ∀ i a t, s.threads[i]? = some t → s.Sweeps i a → s.world.leases.Recorded a →
          (s.trail i).hasBegun = true →
          (s.trail i).StandsAt t.operation.1.untaggedOnly s.world.progress.place) := by
  intro s₀ s
  have hprog (o : Config × Engine.Operation) (w : World) :
      (Engines.program o).Along .anything KeepsLease (fun _ _ _ => True) [] w :=
    o.2.keepsLease o.1 w
  have hnotes (moves : List (Move (Config × Engine.Operation))) :
      (s₀.run Engines.program moves).AllAlong fun o => Notes o.1.untaggedOnly :=
    System.AllAlong.run (fun o w => o.2.notes o.1 w) (.initial _) moves
  have hpassing {moves : List (Move (Config × Engine.Operation))}
      (hclock : (now :: moves.filterMap Move.time?).Pairwise fun t u => t ≤ u) :
      (s₀.run Engines.program moves).Passing :=
    (System.Passing.initial _).run hprog (.initial _) moves hclock
  constructor
  · intro i hmoved
    obtain ⟨a, ha⟩ := Engines.sweeps_of_progress (hnotes moves) hmoved
    exact ⟨a, ha, (hpassing hclock).overtaken_of_in_force ha⟩
  · show s₀.HoldersNote moves → Engines.Told (s₀.run Engines.program moves)
    clear s
    induction moves using List.reverseRecOn with
    | nil =>
      intro _ i a t hi
      cases hi
    | append_singleton moves m ih =>
      intro hholders
      have hclock : (now :: moves.filterMap Move.time?).Pairwise fun t u => t ≤ u := by
        rw [List.filterMap_append] at hclock
        exact hclock.sublist ((List.sublist_append_left _ _).cons_cons now)
      obtain ⟨hbefore, hlast⟩ := Engines.holdersNote_concat.1 hholders
      rw [System.run, List.foldl_append]
      exact (ih hclock hbefore).move (hpassing hclock) (hnotes moves) m hlast

def pageByPage : Config := { Config.standard with mode := .sweep, batchSize := 1 }

/-- Three jobs are queued and a pass ticks the first of them. When its lease runs out, another pass
gets the lease, and comes to the second job. -/
def overtakenMidway : List (Move (Config × Engine.Operation)) :=
  [2, 4, 5].map (fun job =>
      .start (pageByPage, .enqueue ⟨⟨.ofNat job⟩, ⟨.ofNat 3⟩, .empty⟩)) ++
    List.replicate 7 (.step 0) ++ List.replicate 7 (.step 1) ++ List.replicate 7 (.step 2) ++
    .start (pageByPage, .sweep) :: List.replicate 11 (.step 3) ++
    .setClock tenMinutes :: .start (pageByPage, .sweep) :: List.replicate 20 (.step 4)

def secondPass : Engines :=
  (System.initial (Engine.initial pageByPage .silent .epoch)).run Engines.program overtakenMidway

/-- When the lease of the second pass runs out. -/
def twentyMinutes : Timestamp := ⟨1200000000000, by decide, by decide⟩

theorem checkpoints_follow_leases_takeover :
    (∃ a, secondPass.Sweeps 3 a ∧ ¬secondPass.world.now < a.expiresAt) ∧
      secondPass.Sweeps 4 ⟨sweepLeaseKey, 1, twentyMinutes⟩ ∧
      secondPass.world.now < twentyMinutes ∧
      (secondPass.trail 4).StandsAt true (some ⟨2⟩, .ongoing) := by
  have hlease : (secondPass.trail 4).lease? = some ⟨sweepLeaseKey, 1, twentyMinutes⟩ := by
    decide +kernel
  have hrecorded : secondPass.world.leases.held.find? sweepLeaseKey =
      some ⟨sweepLeaseKey, 1, twentyMinutes⟩ := by decide +kernel
  have hplace : secondPass.world.progress.place = (some ⟨2⟩, .ongoing) := by decide +kernel
  have hthread : (secondPass.threads[4]?.map fun t => t.operation.1.untaggedOnly) = some true := by
    decide +kernel
  obtain ⟨t, ht, huntagged⟩ := Option.map_eq_some_iff.1 hthread
  have hfollow := checkpoints_follow_leases pageByPage .silent .epoch overtakenMidway
    (by decide +kernel)
  dsimp only at hfollow
  rw [show System.run Engines.program (System.initial (Engine.initial pageByPage .silent .epoch))
    overtakenMidway = secondPass from rfl] at hfollow
  obtain ⟨hmoves, htold⟩ := hfollow
  have hbegun : (secondPass.trail 4).hasBegun = true := by decide +kernel
  have hstands : (secondPass.trail 4).StandsAt t.operation.1.untaggedOnly
      secondPass.world.progress.place :=
    htold (by decide +kernel) 4 _ t ht hlease hrecorded hbegun
  rw [huntagged, hplace] at hstands
  have hmoved : (secondPass.step 3).world.progress ≠ secondPass.world.progress := by
    decide +kernel
  have hovertaken : secondPass.Overtaken 3 := by decide +kernel
  obtain ⟨a, ha, hforce⟩ := hmoves 3 hmoved
  exact ⟨⟨a, ha, fun hlt => (hforce hlt).1 hovertaken⟩, hlease, by decide +kernel, hstands⟩

/-- A pass that was overtaken takes the progress back while the lease of its successor is to run. -/
theorem overtaken_pass_notes :
    secondPass.Overtaken 3 ∧ secondPass.Sweeps 4 ⟨sweepLeaseKey, 1, twentyMinutes⟩ ∧
      secondPass.world.leases.Recorded ⟨sweepLeaseKey, 1, twentyMinutes⟩ ∧
      secondPass.world.now < twentyMinutes ∧
      secondPass.world.progress.place = (some ⟨2⟩, .ongoing) ∧
      (secondPass.step 3).world.progress.place = (some ⟨1⟩, .ongoing) := by
  have hlease : (secondPass.trail 4).lease? = some ⟨sweepLeaseKey, 1, twentyMinutes⟩ := by
    decide +kernel
  have hrecorded : secondPass.world.leases.held.find? sweepLeaseKey =
      some ⟨sweepLeaseKey, 1, twentyMinutes⟩ := by decide +kernel
  exact ⟨by decide +kernel, hlease, hrecorded, by decide +kernel, by decide +kernel,
    by decide +kernel⟩

end JobDispatch

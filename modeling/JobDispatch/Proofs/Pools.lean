import JobDispatch.Engine
import JobDispatch.Proofs.Requests

/-!
Pools, and the passes whose ticks share one. At each point of a pool some of its programs are under
way, each as far as its own answers have led it, and others have not begun (`Pooled`); what holds of
all pools is shown by induction on this. A pool in which there is a place for one program only, or
whose picks never let another program come on, is the programs one after the other
(`poolOn_eq_inTurn`). So is each page of a pass on an unmixed rota, and such a pass is the one on
the plain rota (`sweepBy_eq`).
-/

namespace JobDispatch

open Program

namespace Program

variable {α β : Type} {width : Nat}

lemma advance_inTurn (p : Program α) (ps : List (Program α)) (f : List α → Program β) :
    (p.advance fun p => inTurn (p :: ps) >>= f) = inTurn (p :: ps) >>= f := by
  cases p <;> rfl

lemma inTurn_done (a : α) (ps : List (Program α)) (results : List α) :
    (inTurn ps >>= fun rest => pure (results ++ [a] ++ rest)) =
      inTurn (.done a :: ps) >>= fun rest => pure (results ++ rest) := by
  show _ = (inTurn ps >>= fun rest => pure (a :: rest)) >>= _
  simp only [bind_assoc, pure_bind, List.append_assoc, List.singleton_append]

/-- The program is what is left of a pool, with some programs under way, others waiting, and the
results so far. -/
inductive Pooled : (active waiting : List (Program α)) → (results : List α) →
    Program (List α) → Prop
  | finish (results : List α) : Pooled [] [] results (done results)
  | collect {active waiting : List (Program α)} {results : List α} {i : Nat} {a : α}
    {p : Program (List α)} (hi : active[i]? = some (done a))
    (h : Pooled (active.eraseIdx i) waiting (results ++ [a]) p) : Pooled active waiting results p
  | goOn {active waiting : List (Program α)} {results : List α} {i : Nat} {r : Request}
    {next : r.Answer → Program α} {p : r.Answer → Program (List α)}
    (hi : active[i]? = some (ask r next))
    (h : ∀ x, Pooled (active.set i (next x)) waiting results (p x)) :
    Pooled active waiting results (ask r p)
  | begin {active waiting : List (Program α)} {results : List α} {r : Request}
    {next : r.Answer → Program α} {p : r.Answer → Program (List α)}
    (h : ∀ x, Pooled (active ++ [next x]) waiting results (p x)) :
    Pooled active (ask r next :: waiting) results (ask r p)
  | skip {active waiting : List (Program α)} {results : List α} {a : α} {p : Program (List α)}
    (h : Pooled (active ++ [done a]) waiting results p) :
    Pooled active (done a :: waiting) results p

lemma pooled_inTurn (active waiting : List (Program α)) (results : List α) :
    Pooled active waiting results
      (inTurn (active ++ waiting) >>= fun rest => pure (results ++ rest)) := by
  -- those under way come to their ends first
  have hactive (waiting : List (Program α)) (hwaiting : ∀ results, Pooled [] waiting results
      (inTurn waiting >>= fun rest => pure (results ++ rest))) (active : List (Program α)) :
      ∀ results, Pooled active waiting results
        (inTurn (active ++ waiting) >>= fun rest => pure (results ++ rest)) := by
    induction active with
    | nil => exact hwaiting
    | cons p ps ih =>
      induction p with
      | done a =>
        intro results
        have h := ih (results ++ [a])
        rw [inTurn_done] at h
        exact .collect (i := 0) rfl h
      | ask r next ih' => exact fun results => .goOn (i := 0) rfl fun x => ih' x results
  refine hactive waiting ?_ active results
  clear active results
  induction waiting with
  | nil =>
    intro results
    show Pooled [] [] results (done (results ++ []))
    rw [List.append_nil]
    exact .finish results
  | cons p ps ih =>
    intro results
    cases p with
    | done a => exact .skip (hactive ps ih [done a] results)
    | ask r next => exact .begin fun x => hactive ps ih [next x] results

/-- **A pool is pooled**, whatever its picks. -/
theorem pooled_poolOn (width : Nat) (picks : List Nat) (active waiting : List (Program α))
    (results : List α) :
    Pooled active waiting results (poolOn width picks active waiting results) := by
  induction picks generalizing active waiting results with
  | nil => exact pooled_inTurn active waiting results
  | cons i picks ih =>
    unfold poolOn
    split
    · rename_i a hi
      exact .collect hi (ih _ _ _)
    · rename_i p hne hi
      cases p with
      | done a => exact (hne a rfl).elim
      | ask r next => exact .goOn hi fun x => ih _ _ _
    · exact ih _ _ _
    · rename_i p ps _
      split
      · cases p with
        | done a => exact .skip (ih _ _ _)
        | ask r next => exact .begin fun x => ih _ _ _
      · exact ih _ _ _

namespace Pooled

variable {active waiting : List (Program α)} {results : List α} {p : Program (List α)}
  {P : Request → Prop} {I : World → Prop}

lemma asks (h : Pooled active waiting results p) (hactive : ∀ q ∈ active, q.Asks P)
    (hwaiting : ∀ q ∈ waiting, q.Asks P) : p.Asks P := by
  induction h with
  | finish results => trivial
  | collect hi _ ih => exact ih (fun q hq => hactive q (List.mem_of_mem_eraseIdx hq)) hwaiting
  | goOn hi _ ih =>
    have hask := hactive _ (List.mem_of_getElem? hi)
    refine ⟨hask.1, fun x => ih x (fun q hq => ?_) hwaiting⟩
    rcases List.mem_or_eq_of_mem_set hq with hq | rfl
    · exact hactive q hq
    · exact hask.2 x
  | begin _ ih =>
    obtain ⟨hask, hwaiting⟩ := List.forall_mem_cons.1 hwaiting
    exact ⟨hask.1, fun x => ih x (List.forall_mem_append.2
      ⟨hactive, List.forall_mem_singleton.2 (hask.2 x)⟩) hwaiting⟩
  | skip _ ih =>
    obtain ⟨hdone, hwaiting⟩ := List.forall_mem_cons.1 hwaiting
    exact ih (List.forall_mem_append.2 ⟨hactive, List.forall_mem_singleton.2 hdone⟩) hwaiting

lemma keeps (h : Pooled active waiting results p) (hactive : ∀ q ∈ active, q.Keeps I)
    (hwaiting : ∀ q ∈ waiting, q.Keeps I) : p.Keeps I := by
  induction h with
  | finish results => trivial
  | collect hi _ ih => exact ih (fun q hq => hactive q (List.mem_of_mem_eraseIdx hq)) hwaiting
  | goOn hi _ ih =>
    intro w hw
    obtain ⟨hnow, hnext⟩ := hactive _ (List.mem_of_getElem? hi) w hw
    refine ⟨hnow, ih _ (fun q hq => ?_) hwaiting⟩
    rcases List.mem_or_eq_of_mem_set hq with hq | rfl
    · exact hactive q hq
    · exact hnext
  | begin _ ih =>
    intro w hw
    obtain ⟨hkeeps, hwaiting⟩ := List.forall_mem_cons.1 hwaiting
    obtain ⟨hnow, hnext⟩ := hkeeps w hw
    exact ⟨hnow, ih _ (List.forall_mem_append.2
      ⟨hactive, List.forall_mem_singleton.2 hnext⟩) hwaiting⟩
  | skip _ ih =>
    obtain ⟨hdone, hwaiting⟩ := List.forall_mem_cons.1 hwaiting
    exact ih (List.forall_mem_append.2 ⟨hactive, List.forall_mem_singleton.2 hdone⟩) hwaiting

lemma length_run (h : Pooled active waiting results p) (w : World) :
    (p.run w).1.length = results.length + active.length + waiting.length := by
  induction h generalizing w with
  | finish results => rfl
  | collect hi _ ih =>
    have hlen := (List.getElem?_eq_some_iff.1 hi).1
    rw [ih, List.length_append, List.length_eraseIdx_of_lt hlen, List.length_singleton]
    omega
  | goOn hi _ ih => exact (ih _ _).trans (by rw [List.length_set])
  | begin _ ih =>
    refine (ih _ _).trans ?_
    rw [List.length_append, List.length_singleton, List.length_cons]
    omega
  | skip _ ih =>
    rw [ih, List.length_append, List.length_singleton, List.length_cons]
    omega

end Pooled

/-- **A pool that lets one program come on at a time is the programs in turn.** -/
theorem poolOn_eq_inTurn (hwidth : 0 < width) {picks : List Nat}
    (hpicks : width = 1 ∨ ∀ i ∈ picks, i = 0) {active : List (Program α)}
    (hactive : active.length ≤ 1) (waiting : List (Program α)) (results : List α) :
    poolOn width picks active waiting results =
      inTurn (active ++ waiting) >>= fun rest => pure (results ++ rest) := by
  induction picks generalizing active waiting results with
  | nil => rfl
  | cons i picks ih =>
    have ih' (active : List (Program α)) (hactive : active.length ≤ 1) :=
      ih (hpicks.imp_right fun h j hj => h j (List.mem_cons_of_mem i hj)) hactive
    match active, i with
    | [], i =>
      unfold poolOn
      cases waiting with
      | nil => exact ih' [] (Nat.zero_le 1) [] results
      | cons p ps =>
        simp only [List.getElem?_nil, List.length_nil, if_pos hwidth]
        refine (congrArg p.advance (funext fun q => ?_)).trans (advance_inTurn p ps _)
        exact ih' [q] (Nat.le_refl 1) ps results
    | [.done a], 0 =>
      exact (ih' [] (Nat.zero_le 1) waiting (results ++ [a])).trans (inTurn_done a waiting results)
    | [.ask r next], 0 =>
      exact congrArg (ask r) (funext fun x => ih' [next x] (Nat.le_refl 1) waiting results)
    | [p], i + 1 =>
      -- only for want of a place can such a pick have no effect
      have hone : width = 1 := hpicks.resolve_right fun h => by
        cases h (i + 1) List.mem_cons_self
      unfold poolOn
      cases waiting with
      | nil => exact ih' [p] (Nat.le_refl 1) [] results
      | cons q qs =>
        simp only [List.getElem?_cons_succ, List.getElem?_nil, List.length_singleton]
        rw [if_neg (by omega)]
        exact ih' [p] (Nat.le_refl 1) (q :: qs) results
    | _ :: _ :: _, _ => exact absurd hactive (by simp)

end Program

/-! ### Ticks in turn -/

def offerAll (untaggedOnly : Bool) :
    List QueueEntry → Program (List (Except DispatchError TickOutcome))
  | [] => pure []
  | e :: es => do
    let outcome ← offerEntry untaggedOnly e
    let outcomes ← offerAll untaggedOnly es
    pure (outcome :: outcomes)

lemma inTurn_offerEntry (untaggedOnly : Bool) (es : List QueueEntry) :
    inTurn (es.map (offerEntry untaggedOnly)) = offerAll untaggedOnly es := by
  induction es with
  | nil => rfl
  | cons e es ih =>
    show (offerEntry untaggedOnly e >>= fun _ => inTurn _ >>= _) = _
    rw [ih]
    rfl

/-- No tick of a pass comes on while another is under way: either the plan has a place for one only,
or the rota does not pick others, as where no request of a tick has to wait for its answer. -/
def Rota.Unmixed (rota : Rota) (plan : SweepPlan) : Prop :=
  plan.width = 1 ∨ ∀ page, ∀ i ∈ rota page, i = 0

lemma Rota.plain_unmixed (plan : SweepPlan) : Rota.plain.Unmixed plan :=
  .inr fun _ _ h => absurd h List.not_mem_nil

lemma SweepPlan.width_pos (plan : SweepPlan) : 0 < plan.width :=
  Nat.lt_of_lt_of_le Nat.zero_lt_one (Nat.le_max_left _ _)

lemma Rota.Unmixed.offerPage {rota : Rota} {plan : SweepPlan} (h : rota.Unmixed plan)
    (untaggedOnly : Bool) (page : Nat) (es : List QueueEntry) :
    offerPage plan untaggedOnly (rota page) es = offerAll untaggedOnly es := by
  have hnone : ([] : List (Program (Except DispatchError TickOutcome))).length ≤ 1 := Nat.zero_le 1
  refine (poolOn_eq_inTurn plan.width_pos (h.imp_right fun h => h page) hnone _ []).trans ?_
  simp only [List.nil_append, bind_pure, inTurn_offerEntry]

lemma pooled_offerPage (plan : SweepPlan) (untaggedOnly : Bool) (picks : List Nat)
    (es : List QueueEntry) :
    Pooled [] (es.map (offerEntry untaggedOnly)) [] (offerPage plan untaggedOnly picks es) :=
  pooled_poolOn plan.width picks [] _ []

/-! ### What passes ask outside of their ticks -/

lemma recordOutcomes_asks (outcomes : List (Except DispatchError TickOutcome))
    (report : PassReport) : (recordOutcomes outcomes report).Asks fun r => ∃ e, r = .log e := by
  induction outcomes generalizing report with
  | nil => trivial
  | cons outcome outcomes ih =>
    unfold recordOutcomes
    cases outcome with
    | error e => exact ⟨⟨_, rfl⟩, fun _ => ih _⟩
    | ok result => exact ih _

def SweepRecord.start? (p : SweepRecord) : Option Cursor := if p.resumes then p.cursor? else none

/-- What a pass logs of the one before it as it begins. -/
def logEarlier (earlier : SweepRecord) : Program Unit := do
  if earlier.phase == .ongoing then
    request (.log (.neverFinished earlier.cursor? earlier.startedAt?))
  if earlier.resumes then request (.log (.resuming earlier.cursor?))

lemma logEarlier_asks (earlier : SweepRecord) :
    (logEarlier earlier).Asks fun r => ∃ e, r = .log e := by
  unfold logEarlier
  cases earlier.phase == .ongoing with
  | true =>
    cases earlier.resumes with
    | true => exact ⟨⟨_, rfl⟩, fun _ => ⟨⟨_, rfl⟩, fun _ => trivial⟩⟩
    | false => exact ⟨⟨_, rfl⟩, fun _ => trivial⟩
  | false =>
    cases earlier.resumes with
    | true => exact ⟨⟨_, rfl⟩, fun _ => trivial⟩
    | false => trivial

lemma beginPass_eq : beginPass = (do
    let now ← request .clock
    let earlier ← request (.beginPass now)
    logEarlier earlier
    pure (earlier.start?, earlier.resumes)) := by
  unfold beginPass logEarlier SweepRecord.start?
  refine congrArg (request _ >>= ·) (funext fun now => ?_)
  refine congrArg (request _ >>= ·) (funext fun earlier => ?_)
  dsimp only
  cases earlier.phase == .ongoing <;> cases earlier.resumes <;> rfl

lemma beginPass_asks :
    beginPass.Asks fun r => r = .clock ∨ (∃ now, r = .beginPass now) ∨ ∃ e, r = .log e := by
  rw [beginPass_eq]
  exact .next (.inl rfl) fun now => .next (.inr (.inl ⟨now, rfl⟩)) fun earlier =>
    ((logEarlier_asks earlier).mono fun _ h => .inr (.inr h)).bind fun _ => trivial

/-- What a pass logs once it has given its lease back. -/
def logPass (lease : Lease) (inForce : Bool) (result : Except DispatchError PassReport) :
    Program Unit := do
  if !inForce then request (.log (.leaseOverrun lease.key lease.expiresAt))
  match result with
  | .error _ => pure ()
  | .ok report => request (.log (.sweepFinished report))

lemma logPass_asks (lease : Lease) (inForce : Bool) (result : Except DispatchError PassReport) :
    (logPass lease inForce result).Asks fun r => ∃ e, r = .log e := by
  cases inForce with
  | true =>
    cases result with
    | error e => trivial
    | ok report => exact ⟨⟨_, rfl⟩, fun _ => trivial⟩
  | false =>
    cases result with
    | error e => exact ⟨⟨_, rfl⟩, fun _ => trivial⟩
    | ok report => exact ⟨⟨_, rfl⟩, fun _ => ⟨⟨_, rfl⟩, fun _ => trivial⟩⟩

lemma sweepBy_eq_logPass (rota : Rota) (plan : SweepPlan) (untaggedOnly : Bool) :
    sweepBy rota plan untaggedOnly = (do
      let now ← request .clock
      match ← request (.obtainLease sweepLeaseKey plan.leaseTimeout.delta now) with
      | .error e => pure (.error e)
      | .ok lease =>
        let result ← passBy rota plan untaggedOnly
        let inForce ← request (.releaseLease lease)
        logPass lease inForce result
        pure result) := by
  unfold sweepBy
  refine congrArg (request _ >>= ·) (funext fun now => ?_)
  refine congrArg (request _ >>= ·) (funext fun found => ?_)
  cases found with
  | error e => rfl
  | ok lease =>
    refine congrArg (passBy _ _ _ >>= ·) (funext fun result => ?_)
    refine congrArg (request _ >>= ·) (funext fun inForce => ?_)
    cases inForce <;> cases result <;> rfl

/-! ### Passes whose ticks come in turn -/

/-- Goes on after a cursor with a pass whose ticks come in turn. -/
def sweepFrom (plan : SweepPlan) (untaggedOnly : Bool) (after : Option Cursor)
    (report : PassReport) : Program (Except DispatchError PassReport) :=
  sweepFromBy .plain plan untaggedOnly after report

def passUnderLease (plan : SweepPlan) (untaggedOnly : Bool) :
    Program (Except DispatchError PassReport) :=
  passBy .plain plan untaggedOnly

lemma sweepFrom_eq (plan : SweepPlan) (untaggedOnly : Bool) (after : Option Cursor)
    (report : PassReport) :
    sweepFrom plan untaggedOnly after report = (do
      if plan.capped report then
        request (.notePlace after .unfinished)
        request (.log (.batchCap report.batches))
        pure (.ok report)
      else
        match ← request (.scan plan.batchSize after) with
        | .error e => pure (.error e)
        | .ok page =>
          let outcomes ← offerAll untaggedOnly page.entries
          let report ← recordOutcomes outcomes report
          let report := { report with batches := report.batches + 1 }
          match page.next? with
          | some ⟨next, _⟩ =>
            request (.notePlace (some next) .ongoing)
            sweepFrom plan untaggedOnly (some next) report
          | none =>
            request (.notePlace none .completed)
            pure (.ok { report with completed := true })) := by
  have hstep := sweepFromBy.eq_def .plain plan untaggedOnly after report
  simp only [(Rota.plain_unmixed plan).offerPage] at hstep
  exact hstep

lemma passUnderLease_eq (plan : SweepPlan) (untaggedOnly : Bool) :
    passUnderLease plan untaggedOnly = (do
      let active ← request .freshCount
      request (.count (.activeWorkers (UInt64.ofNat active)))
      let (after, resumed) ← beginPass
      sweepFrom plan untaggedOnly after (.start resumed)) := rfl

lemma sweep_eq (plan : SweepPlan) (untaggedOnly : Bool) :
    sweep plan untaggedOnly = (do
      let now ← request .clock
      match ← request (.obtainLease sweepLeaseKey plan.leaseTimeout.delta now) with
      | .error e => pure (.error e)
      | .ok lease =>
        let result ← passUnderLease plan untaggedOnly
        let inForce ← request (.releaseLease lease)
        logPass lease inForce result
        pure result) :=
  sweepBy_eq_logPass .plain plan untaggedOnly

lemma Rota.Unmixed.sweepFromBy {rota : Rota} {plan : SweepPlan} (h : rota.Unmixed plan)
    (untaggedOnly : Bool) (after : Option Cursor) (report : PassReport) :
    sweepFromBy rota plan untaggedOnly after report =
      sweepFrom plan untaggedOnly after report := by
  induction hroom : Cursor.room after using Nat.strongRecOn generalizing after report with
  | _ n ih =>
    subst hroom
    rw [JobDispatch.sweepFromBy, sweepFrom_eq]
    split
    · rfl
    refine congrArg (request _ >>= ·) (funext fun found => ?_)
    cases found with
    | error e => rfl
    | ok page =>
      dsimp only
      rw [h.offerPage]
      refine congrArg (offerAll _ _ >>= ·) (funext fun outcomes => ?_)
      refine congrArg (recordOutcomes _ _ >>= ·) (funext fun report' => ?_)
      rcases page.next? with _ | ⟨next, hnext⟩
      · rfl
      · refine congrArg (request _ >>= ·) (funext fun _ => ?_)
        exact ih _ (Cursor.room_lt hnext) _ _ rfl

/-- **A pass whose ticks do not mix is the pass whose ticks come in turn.** -/
theorem sweepBy_eq {rota : Rota} {plan : SweepPlan} (h : rota.Unmixed plan)
    (untaggedOnly : Bool) : sweepBy rota plan untaggedOnly = sweep plan untaggedOnly := by
  have hpass : passBy rota plan untaggedOnly = passUnderLease plan untaggedOnly := by
    unfold passBy
    simp only [h.sweepFromBy]
    rfl
  unfold sweepBy
  rw [hpass]
  rfl

end JobDispatch

import JobDispatch.Proofs.Ticks

/-!
Sweeps as runs of ticks. A pass ticks the entries that it finds after its cursor page by page, up to
the end of the queue or to the cap on batches, and it notes the place where the next pass goes on
(`PassRun`). How its ticks take turns makes no difference to how many there are; and if they do not
mix, the pass does what ticks of the entries do one after the other (`World.InTurn`).
-/

namespace JobDispatch

open Program

/-! ### Reports -/

namespace PassReport

variable {r : PassReport} {outcomes : List (Except DispatchError TickOutcome)}

def tally (r : PassReport) (outcomes : List (Except DispatchError TickOutcome)) : PassReport :=
  outcomes.foldl record r

def isClaimed : Except DispatchError TickOutcome → Bool
  | .ok (.claimed _) => true
  | _ => false

def isNoEligible : Except DispatchError TickOutcome → Bool
  | .ok .noEligibleWorker => true
  | _ => false

def isAlreadyClaimed : Except DispatchError TickOutcome → Bool
  | .ok .alreadyClaimed => true
  | _ => false

def isError : Except DispatchError TickOutcome → Bool
  | .error _ => true
  | _ => false

/-- The field counts the outcomes that pass the test, and starts from nothing. -/
structure Counts (field : PassReport → Nat) (test : Except DispatchError TickOutcome → Bool) :
    Prop where
  start : ∀ resumed, field (.start resumed) = 0
  record : ∀ (r : PassReport) outcome, field (r.record outcome) = field r + (test outcome).toNat
  close : ∀ (r : PassReport) batches completed, field { r with batches, completed } = field r

lemma counts_ticked : Counts ticked fun _ => true :=
  ⟨fun _ => rfl, fun r outcome => by rcases outcome with e | (a | _ | _) <;> rfl, fun _ _ _ => rfl⟩

lemma counts_claimed : Counts claimed isClaimed :=
  ⟨fun _ => rfl, fun r outcome => by rcases outcome with e | (a | _ | _) <;> rfl, fun _ _ _ => rfl⟩

lemma counts_noEligible : Counts noEligible isNoEligible :=
  ⟨fun _ => rfl, fun r outcome => by rcases outcome with e | (a | _ | _) <;> rfl, fun _ _ _ => rfl⟩

lemma counts_alreadyClaimed : Counts alreadyClaimed isAlreadyClaimed :=
  ⟨fun _ => rfl, fun r outcome => by rcases outcome with e | (a | _ | _) <;> rfl, fun _ _ _ => rfl⟩

lemma counts_errors : Counts errors isError :=
  ⟨fun _ => rfl, fun r outcome => by rcases outcome with e | (a | _ | _) <;> rfl, fun _ _ _ => rfl⟩

lemma Counts.tally {field : PassReport → Nat} {test : Except DispatchError TickOutcome → Bool}
    (h : Counts field test) (r : PassReport) (outcomes : List (Except DispatchError TickOutcome)) :
    field (r.tally outcomes) = field r + outcomes.countP test := by
  induction outcomes generalizing r with
  | nil => rfl
  | cons outcome outcomes ih =>
    show field ((r.record outcome).tally outcomes) = _
    rw [ih, h.record, List.countP_cons]
    cases test outcome
    · simp
    · simp
      omega

/-- Every tick counts as one of four. -/
def Balanced (r : PassReport) : Prop :=
  r.ticked = r.claimed + r.noEligible + r.alreadyClaimed + r.errors

lemma Balanced.tally (h : r.Balanced) (outcomes : List (Except DispatchError TickOutcome)) :
    (r.tally outcomes).Balanced := by
  induction outcomes generalizing r with
  | nil => exact h
  | cons outcome outcomes ih =>
    refine ih ?_
    unfold Balanced at h ⊢
    rcases outcome with e | (a | _ | _)
    all_goals
      simp only [record]
      omega

lemma tally_append (r : PassReport) (os os' : List (Except DispatchError TickOutcome)) :
    r.tally (os ++ os') = (r.tally os).tally os' := List.foldl_append

lemma record_close (r : PassReport) (outcome : Except DispatchError TickOutcome) (n : Nat)
    (b : Bool) : ({ r with batches := n, completed := b } : PassReport).record outcome =
      { r.record outcome with batches := n, completed := b } := by
  rcases outcome with e | (a | _ | _) <;> rfl

lemma tally_close (r : PassReport) (outcomes : List (Except DispatchError TickOutcome)) (n : Nat)
    (b : Bool) : ({ r with batches := n, completed := b } : PassReport).tally outcomes =
      { r.tally outcomes with batches := n, completed := b } := by
  induction outcomes generalizing r with
  | nil => rfl
  | cons outcome outcomes ih =>
    show (PassReport.record _ outcome).tally outcomes = _
    rw [record_close, ih]
    rfl

lemma batches_tally (r : PassReport) (outcomes : List (Except DispatchError TickOutcome)) :
    (r.tally outcomes).batches = r.batches := by
  rw [show r.tally outcomes = _ from tally_close r outcomes r.batches r.completed]

lemma completed_tally (r : PassReport) (outcomes : List (Except DispatchError TickOutcome)) :
    (r.tally outcomes).completed = r.completed := by
  rw [show r.tally outcomes = _ from tally_close r outcomes r.batches r.completed]

end PassReport

variable {w : World}

lemma recordOutcomes_run (outcomes : List (Except DispatchError TickOutcome)) (r : PassReport)
    (w : World) : ∃ events, (recordOutcomes outcomes r).run w = (r.tally outcomes,
      { w with events }) := by
  induction outcomes generalizing r w with
  | nil => exact ⟨w.events, rfl⟩
  | cons outcome outcomes ih =>
    unfold recordOutcomes
    cases outcome with
    | error e => exact ih _ _
    | ok result => exact ih _ _

/-! ### Ticks in a row -/

lemma offerAll_append (untaggedOnly : Bool) (es fs : List QueueEntry) (w : World) :
    (offerAll untaggedOnly (es ++ fs)).run w =
      (((offerAll untaggedOnly es).run w).1 ++
          ((offerAll untaggedOnly fs).run ((offerAll untaggedOnly es).run w).2).1,
        ((offerAll untaggedOnly fs).run ((offerAll untaggedOnly es).run w).2).2) := by
  induction es generalizing w with
  | nil => rfl
  | cons e es ih =>
    rw [List.cons_append]
    simp only [offerAll, run_bind, run_pure, ih, List.cons_append]

/-! ### Pages -/

namespace SweepPlan

variable (plan : SweepPlan)

def pages (n : Nat) : Nat := max 1 (n ⌈/⌉ plan.batchSize.toNat)

/-- The pages that a pass still reads after it has read `done` of them, if `n` entries are left. -/
def share (done n : Nat) : Nat :=
  match plan.maxBatches? with
  | none => plan.pages n
  | some most => min (most.toNat - done) (plan.pages n)

variable {plan}

lemma pages_of_le (hb : 0 < plan.batchSize.toNat) {n : Nat} (h : n ≤ plan.batchSize.toNat) :
    plan.pages n = 1 := Queue.pageCount_of_le hb h

lemma pages_of_lt (hb : 0 < plan.batchSize.toNat) {n : Nat} (h : plan.batchSize.toNat < n) :
    plan.pages n = plan.pages (n - plan.batchSize.toNat) + 1 := Queue.pageCount_of_lt hb h

lemma share_of_capped {r : PassReport} {n : Nat} (h : plan.capped r = true) :
    plan.share r.batches n = 0 := by
  unfold capped at h
  unfold share
  cases hmax : plan.maxBatches? with
  | none => rw [hmax] at h; cases h
  | some most =>
    rw [hmax] at h
    have := of_decide_eq_true h
    dsimp only
    omega

lemma share_of_le (hb : 0 < plan.batchSize.toNat) {r : PassReport} {n : Nat}
    (h : plan.capped r = false) (hn : n ≤ plan.batchSize.toNat) :
    plan.share r.batches n = 1 := by
  unfold capped at h
  unfold share
  rw [pages_of_le hb hn]
  cases hmax : plan.maxBatches? with
  | none => rfl
  | some most =>
    rw [hmax] at h
    have := of_decide_eq_false h
    dsimp only
    omega

lemma share_of_lt (hb : 0 < plan.batchSize.toNat) {r : PassReport} {n : Nat}
    (h : plan.capped r = false) (hn : plan.batchSize.toNat < n) :
    plan.share r.batches n = plan.share (r.batches + 1) (n - plan.batchSize.toNat) + 1 := by
  unfold capped at h
  unfold share
  rw [pages_of_lt hb hn]
  cases hmax : plan.maxBatches? with
  | none => rfl
  | some most =>
    rw [hmax] at h
    have := of_decide_eq_false h
    dsimp only
    omega

end SweepPlan

/-! ### One pass -/

variable {rota : Rota} {plan : SweepPlan} {untaggedOnly : Bool}

/-- Ticks of the entries one after the other have these outcomes and lead to this world. -/
structure World.InTurn (untaggedOnly : Bool) (w : World) (es : List QueueEntry)
    (outcomes : List (Except DispatchError TickOutcome)) (w' : World) : Prop where
  outcomes : outcomes = ((offerAll untaggedOnly es).run w).1
  alike : w'.Alike ((offerAll untaggedOnly es).run w).2

lemma World.InTurn.append {es fs : List QueueEntry} {v w' : World}
    {os os' : List (Except DispatchError TickOutcome)} (h : w.InTurn untaggedOnly es os v)
    (h' : v.InTurn untaggedOnly fs os' w') :
    w.InTurn untaggedOnly (es ++ fs) (os ++ os') w' := by
  obtain ⟨hanswer, halike⟩ := (offerAll_asks untaggedOnly fs).alike h.alike
  refine ⟨?_, ?_⟩
  · rw [offerAll_append, h.outcomes, h'.outcomes, hanswer]
  · rw [offerAll_append]
    exact h'.alike.trans halike

/-- Only what ticks can tell apart matters of the worlds. -/
lemma World.InTurn.congr {es : List QueueEntry} {v w' v' : World}
    {os : List (Except DispatchError TickOutcome)} (h : v.InTurn untaggedOnly es os v')
    (hv : v.Alike w) (hv' : w'.Alike v') : w.InTurn untaggedOnly es os w' := by
  obtain ⟨hanswer, halike⟩ := (offerAll_asks untaggedOnly es).alike hv
  exact ⟨h.outcomes.trans hanswer, hv'.trans (h.alike.trans halike)⟩

/-- What becomes of a pass that ticks the entries in front and leaves those at the back. -/
structure PassRun (rota : Rota) (plan : SweepPlan) (untaggedOnly : Bool) (w : World)
    (front back : List QueueEntry) (r r' : PassReport) (w' : World) : Prop where
  ticks : ∃ outcomes, outcomes.length = front.length ∧
    r' = { r.tally outcomes with
      batches := r.batches + plan.share r.batches (front ++ back).length
      completed := back.isEmpty } ∧
    (rota.Unmixed plan → w.InTurn untaggedOnly front outcomes w')
  readable : w'.Readable
  /-- The next pass goes on with this one if there is anything left. -/
  resumes : w'.progress.resumes = !back.isEmpty
  rest : back ≠ [] → w'.queue.queue.entriesAfter w'.progress.cursor? = back

lemma sweepFrom_run_of_capped {after : Option Cursor} {r : PassReport}
    (hcap : plan.capped r = true) :
    (sweepFromBy rota plan untaggedOnly after r).run w =
      (.ok r, { w with
        progress := w.progress.notePlace after .unfinished w.now
        events := .batchCap r.batches :: w.events }) := by
  rw [sweepFromBy, if_pos hcap]
  rfl

lemma sweepFrom_run_of_page {after : Option Cursor} {r : PassReport} {page : Page after} {v : World}
    (hcap : plan.capped r = false)
    (hread : w.answer (.scan plan.batchSize after) = (.ok page, v)) :
    (sweepFromBy rota plan untaggedOnly after r).run w =
      let ticks := (offerPage plan untaggedOnly (rota r.batches) page.entries).run v
      let counted := (recordOutcomes ticks.1 r).run ticks.2
      let r := { counted.1 with batches := counted.1.batches + 1 }
      match page.next? with
      | some ⟨next, _⟩ =>
        (sweepFromBy rota plan untaggedOnly (some next) r).run
          (counted.2.answer (.notePlace (some next) .ongoing)).2
      | none =>
        (.ok { r with completed := true }, (counted.2.answer (.notePlace none .completed)).2) := by
  rw [sweepFromBy, if_neg (by rw [hcap]; exact Bool.false_ne_true), run_bind, run_request, hread]
  dsimp only
  rw [run_bind, run_bind]
  generalize page.next? = next?
  rcases next? with _ | ⟨next, hnext⟩
  · rfl
  · rfl

lemma sweepFrom_run_of_error {after : Option Cursor} {r : PassReport} {e : DispatchError}
    {v : World} (hcap : plan.capped r = false)
    (hread : w.answer (.scan plan.batchSize after) = (.error e, v)) :
    (sweepFromBy rota plan untaggedOnly after r).run w = (.error e, v) := by
  rw [sweepFromBy, if_neg (by rw [hcap]; exact Bool.false_ne_true), run_bind, run_request, hread]
  rfl

lemma sweepFrom_run_of_open (hplan : w.queue.plan = []) {after : Option Cursor} {r : PassReport}
    (hcap : plan.capped r = false) :
    (sweepFromBy rota plan untaggedOnly after r).run w =
      let page := w.queue.queue.scan plan.batchSize after
      let ticks := (offerPage plan untaggedOnly (rota r.batches) page.entries).run w
      let counted := (recordOutcomes ticks.1 r).run ticks.2
      let r := { counted.1 with batches := counted.1.batches + 1 }
      match page.next? with
      | some ⟨next, _⟩ =>
        (sweepFromBy rota plan untaggedOnly (some next) r).run
          (counted.2.answer (.notePlace (some next) .ongoing)).2
      | none =>
        (.ok { r with completed := true }, (counted.2.answer (.notePlace none .completed)).2) :=
  sweepFrom_run_of_page hcap (World.answer_scan hplan _ _)

structure PageRun (rota : Rota) (plan : SweepPlan) (untaggedOnly : Bool) (w : World)
    (page : List QueueEntry) (outcomes : List (Except DispatchError TickOutcome)) (v : World) :
    Prop where
  length : outcomes.length = page.length
  readable : v.Readable
  leases : v.leases = w.leases
  now : v.now = w.now
  inTurn : rota.Unmixed plan → w.InTurn untaggedOnly page outcomes v

lemma World.Readable.pageRun (hw : w.Readable) (rota : Rota) (plan : SweepPlan)
    (untaggedOnly : Bool) (n : Nat) (page : List QueueEntry) (progress : SweepRecord)
    (events : List Event) :
    let ticks := (offerPage plan untaggedOnly (rota n) page).run w
    PageRun rota plan untaggedOnly w page ticks.1 { ticks.2 with progress, events } := by
  intro ticks
  obtain ⟨hleases, -, hnow⟩ := (offerPage_asks plan untaggedOnly (rota n) page).aside w
  have hsame : World.Alike { ticks.2 with progress, events } ticks.2 := ⟨rfl, rfl, rfl, rfl⟩
  have hticked := (hw.of_offerPage plan untaggedOnly (rota n) page).1
  refine ⟨length_offerPage _ _ _ _ _, hticked.congr hsame, hleases, hnow, fun hrota => ?_⟩
  have hserial : ticks = (offerAll untaggedOnly page).run w := by rw [← hrota.offerPage]
  rw [hserial] at hsame ⊢
  exact ⟨rfl, hsame⟩

lemma World.Readable.sweepFrom_last (hw : w.Readable) (rota : Rota) (untaggedOnly : Bool)
    {es : List QueueEntry} {after : Option Cursor} (hes : w.queue.queue.entriesAfter after = es)
    {r : PassReport} (hcap : plan.capped r = false) (hlen : es.length ≤ plan.batchSize.toNat) :
    ∃ outcomes w', (sweepFromBy rota plan untaggedOnly after r).run w =
        (.ok { r.tally outcomes with batches := r.batches + 1, completed := true }, w') ∧
      PageRun rota plan untaggedOnly w es outcomes w' ∧ w'.progress.resumes = false := by
  have hentries : (w.queue.queue.scan plan.batchSize after).entries = es := by
    rw [hw.aligned.scan_entries, hes, List.take_of_length_le hlen]
  have hnext : (w.queue.queue.scan plan.batchSize after).next? = none :=
    hw.aligned.scan_next?_of_le (by rw [hes]; exact hlen)
  let ticks := (offerPage plan untaggedOnly (rota r.batches) es).run w
  obtain ⟨events, hrecord⟩ := recordOutcomes_run ticks.1 r ticks.2
  rw [sweepFrom_run_of_open hw.plan hcap]
  simp only [hentries, hnext]
  rw [hrecord, PassReport.batches_tally]
  exact ⟨_, _, rfl, hw.pageRun rota plan untaggedOnly r.batches es _ events, rfl⟩

lemma World.Readable.sweepFrom_page (hw : w.Readable) (rota : Rota) (untaggedOnly : Bool)
    {es : List QueueEntry} {after : Option Cursor} (hes : w.queue.queue.entriesAfter after = es)
    {r : PassReport} (hb : 0 < plan.batchSize.toNat) (hcap : plan.capped r = false)
    (hlt : plan.batchSize.toNat < es.length) :
    ∃ outcomes next w₁, (sweepFromBy rota plan untaggedOnly after r).run w =
        (sweepFromBy rota plan untaggedOnly (some next)
          { r.tally outcomes with batches := r.batches + 1 }).run w₁ ∧
      Cursor.room (some next) < Cursor.room after ∧
      PageRun rota plan untaggedOnly w (es.take plan.batchSize.toNat) outcomes w₁ ∧
      w₁.queue.queue.entriesAfter (some next) = es.drop plan.batchSize.toNat := by
  have hentries := hw.aligned.scan_entries plan.batchSize after
  rw [hes] at hentries
  obtain ⟨last, hlast⟩ := Queue.getLast?_page hb hlt
  obtain ⟨hprecedes, hnext⟩ := hw.aligned.scan_next?_of_lt (hes.symm ▸ hlt) (hes.symm ▸ hlast)
  let page := es.take plan.batchSize.toNat
  let ticks := (offerPage plan untaggedOnly (rota r.batches) page).run w
  obtain ⟨events, hrecord⟩ := recordOutcomes_run ticks.1 r ticks.2
  have hrest : ticks.2.queue.queue.entriesAfter (some last.cursor) =
      es.drop plan.batchSize.toNat := by
    subst hes
    rw [(hw.of_offerPage plan untaggedOnly (rota r.batches) page).2 _ fun e he e' he' =>
      hw.aligned.not_after_getLast hlast he e' he']
    exact hw.aligned.entriesAfter_getLast hlast
  rw [sweepFrom_run_of_open hw.plan hcap]
  simp only [hentries, hnext]
  rw [hrecord, PassReport.batches_tally]
  exact ⟨_, last.cursor, _, rfl, Cursor.room_lt hprecedes,
    hw.pageRun rota plan untaggedOnly r.batches page _ events, hrest⟩

lemma PassRun.capped {r : PassReport} {es : List QueueEntry} {after : Option Cursor}
    {w' : World} (hw : w.Readable) (hcap : plan.capped r = true) (hopen : r.completed = false)
    (hne : es ≠ []) (hes : w.queue.queue.entriesAfter after = es) (halike : w'.Alike w)
    (hresumes : w'.progress.resumes = true) (hcursor : w'.progress.cursor? = after) :
    PassRun rota plan untaggedOnly w [] es r r w' where
  ticks := by
    rw [SweepPlan.share_of_capped hcap]
    have hfalse : es.isEmpty = r.completed := by
      rw [hopen, List.isEmpty_eq_false_iff]
      exact hne
    rw [hfalse]
    exact ⟨[], rfl, rfl, fun _ => ⟨rfl, halike⟩⟩
  readable := hw.congr halike
  resumes := by
    rw [hresumes, List.isEmpty_eq_false_iff.2 hne]
    rfl
  rest _ := by
    rw [halike.queue, hcursor]
    exact hes

/-- A pass is a page, and what the rest of the pass is from there on. -/
lemma PassRun.page (hb : 0 < plan.batchSize.toNat) {r r' : PassReport} {w₁ w' : World}
    {page front back : List QueueEntry} {os : List (Except DispatchError TickOutcome)}
    (hcap : plan.capped r = false) (hlength : page.length = plan.batchSize.toNat)
    (hne : front ++ back ≠ []) (hpage : PageRun rota plan untaggedOnly w page os w₁)
    (h : PassRun rota plan untaggedOnly w₁ front back
      { r.tally os with batches := r.batches + 1 } r' w') :
    PassRun rota plan untaggedOnly w (page ++ front) back r r' w' := by
  obtain ⟨os', hcount, hreport, hserial⟩ := h.ticks
  refine ⟨⟨os ++ os', ?_, ?_, fun hrota => (hpage.inTurn hrota).append (hserial hrota)⟩,
    h.readable, h.resumes, h.rest⟩
  · rw [List.length_append, List.length_append, hpage.length, hcount]
  · have hlt : plan.batchSize.toNat < (page ++ front ++ back).length := by
      have := List.length_pos_iff.2 hne
      rw [List.append_assoc, List.length_append, hlength]
      omega
    have hlen : (page ++ front ++ back).length - plan.batchSize.toNat =
        (front ++ back).length := by
      rw [List.append_assoc, List.length_append, hlength]
      omega
    rw [hreport, SweepPlan.share_of_lt hb hcap hlt, hlen, PassReport.tally_append]
    dsimp only
    rw [show ({ r.tally os with batches := r.batches + 1 } : PassReport).tally _ = _ from
      PassReport.tally_close _ _ _ _, Nat.add_assoc, Nat.add_comm 1]

lemma PassRun.completed (hb : 0 < plan.batchSize.toNat) {r : PassReport} {w' : World}
    {es : List QueueEntry} {os : List (Except DispatchError TickOutcome)}
    (hcap : plan.capped r = false) (hlen : es.length ≤ plan.batchSize.toNat)
    (hpage : PageRun rota plan untaggedOnly w es os w') (hresumes : w'.progress.resumes = false) :
    PassRun rota plan untaggedOnly w es [] r
      { r.tally os with batches := r.batches + 1, completed := true } w' where
  ticks := by
    rw [List.append_nil, SweepPlan.share_of_le hb hcap hlen]
    exact ⟨os, hpage.length, rfl, hpage.inTurn⟩
  readable := hpage.readable
  resumes := hresumes
  rest h := absurd rfl h

/-- **A pass ticks the first entries after its cursor**, as many as its share of pages holds. -/
theorem World.Readable.passRun (hb : 0 < plan.batchSize.toNat) (hw : w.Readable) (rota : Rota)
    {es : List QueueEntry} {after : Option Cursor} (hes : w.queue.queue.entriesAfter after = es)
    {r : PassReport} (hopen : r.completed = false) (hbegin : es = [] → plan.capped r = false) :
    ∃ r' w', (sweepFromBy rota plan untaggedOnly after r).run w = (.ok r', w') ∧
      PassRun rota plan untaggedOnly w
        (es.take (plan.share r.batches es.length * plan.batchSize.toNat))
        (es.drop (plan.share r.batches es.length * plan.batchSize.toNat)) r r' w' ∧
      w'.leases = w.leases ∧ w'.now = w.now := by
  induction h : Cursor.room after using Nat.strong_induction_on generalizing after r w es with
  | _ room ih =>
    subst h
    cases hcap : plan.capped r with
    | true =>
      have hne : es ≠ [] := fun hnil => by
        rw [hbegin hnil] at hcap
        cases hcap
      rw [sweepFrom_run_of_capped hcap, SweepPlan.share_of_capped hcap, Nat.zero_mul,
        List.take_zero, List.drop_zero]
      exact ⟨_, _, rfl, .capped hw hcap hopen hne hes ⟨rfl, rfl, rfl, rfl⟩ rfl rfl, rfl, rfl⟩
    | false =>
      by_cases hlen : es.length ≤ plan.batchSize.toNat
      · obtain ⟨os, w', hrun, hpage, hresumes⟩ :=
          hw.sweepFrom_last rota untaggedOnly hes hcap hlen
        rw [hrun, SweepPlan.share_of_le hb hcap hlen, Nat.one_mul, List.take_of_length_le hlen,
          List.drop_of_length_le hlen]
        exact ⟨_, w', rfl, .completed hb hcap hlen hpage hresumes, hpage.leases, hpage.now⟩
      · have hlt : plan.batchSize.toNat < es.length := Nat.not_le.1 hlen
        obtain ⟨os, next, w₁, hrun, hroom, hpage, hes₁⟩ :=
          hw.sweepFrom_page rota untaggedOnly hes hb hcap hlt
        have hrest : es.drop plan.batchSize.toNat ≠ [] := by
          rw [ne_eq, List.drop_eq_nil_iff]
          omega
        have hshare : plan.share r.batches es.length * plan.batchSize.toNat =
            plan.batchSize.toNat + plan.share (r.batches + 1)
              (es.drop plan.batchSize.toNat).length * plan.batchSize.toNat := by
          rw [SweepPlan.share_of_lt hb hcap hlt, List.length_drop, Nat.add_mul, Nat.one_mul,
            Nat.add_comm]
        obtain ⟨r', w', hrun', hpass, hleases, hnow⟩ := ih _ hroom hpage.readable hes₁
          (r := { r.tally os with batches := r.batches + 1 })
          ((PassReport.completed_tally r _).trans hopen) (fun h => absurd h hrest) rfl
        rw [hrun, hshare, List.take_add, ← List.drop_drop]
        refine ⟨r', w', hrun', ?_, hleases.trans hpage.leases, hnow.trans hpage.now⟩
        refine .page hb hcap ?_ ?_ hpage hpass
        · rw [List.length_take]
          omega
        · rw [List.take_append_drop]
          exact hrest

end JobDispatch

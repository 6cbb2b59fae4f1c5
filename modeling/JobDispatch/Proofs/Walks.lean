import JobDispatch.Proofs.Ticks

/-!
Walks through the queue with nothing in between. Visits that take no entry out of the queue but the
one visited do the same page by page as in one go: a walk visits the entries that come after its
cursor, as they stand when it begins and in the order of their numbers, until a visit ends it
(`ConfinedTo.walkQueue_run`). So it does not matter how long the pages are.
-/

namespace JobDispatch

open Program

variable {σ : Type} {visit : QueueEntry → σ → Program (Visit σ)} {w : World}

/-- Visits keep an invariant and take no entry out of the queue but the one visited. -/
def ConfinedTo (I : World → Prop) (visit : QueueEntry → σ → Program (Visit σ)) : Prop :=
  ∀ e s (w : World), I w → I ((visit e s).run w).2 ∧
    (((visit e s).run w).2.queue.queue = w.queue.queue ∨
      ((visit e s).run w).2.queue.queue = (w.queue.queue.pop e.job).2)

def Confined (visit : QueueEntry → σ → Program (Visit σ)) : Prop := ConfinedTo World.AtRest visit

/-- What a walk comes to that ends with a visit or after the last one. -/
def Visit.result : Visit σ → Except DispatchError σ
  | next s | stop s => .ok s
  | fail e => .error e

/-! ### One page -/

lemma walkPage_append (es fs : List QueueEntry) (s : σ) (w : World) :
    (walkPage visit (es ++ fs) s).run w =
      match (walkPage visit es s).run w with
      | (.next s, w) => (walkPage visit fs s).run w
      | ended => ended := by
  induction es generalizing s w with
  | nil => rfl
  | cons e es ih =>
    rw [List.cons_append]
    simp only [walkPage, run_bind]
    cases ((visit e s).run w).1 with
    | next s => exact ih s _
    | stop s => rfl
    | fail e => rfl

namespace ConfinedTo

variable {I : World → Prop}

lemma walkPage (hvisit : ConfinedTo I visit) (hw : I w) (es : List QueueEntry) (s : σ) :
    I ((JobDispatch.walkPage visit es s).run w).2 := by
  induction es generalizing s w with
  | nil => exact hw
  | cons e es ih =>
    have hw' := (hvisit e s w hw).1
    simp only [JobDispatch.walkPage, run_bind]
    cases ((visit e s).run w).1 with
    | next s => exact ih hw' s
    | stop s => exact hw'
    | fail e => exact hw'

/-- What comes after the entries of a page is left as it was. -/
lemma entriesAfter_walkPage (hvisit : ConfinedTo I visit)
    (haligned : ∀ v, I v → v.queue.queue.Aligned) (hw : I w) (es : List QueueEntry) (s : σ)
    (after : Option Cursor) (hbefore : ∀ e ∈ es, ∀ e',
      w.queue.queue.get? e.job = some e' → Cursor.precedes after e'.sequence = false) :
    ((JobDispatch.walkPage visit es s).run w).2.queue.queue.entriesAfter after =
      w.queue.queue.entriesAfter after := by
  induction es generalizing s w with
  | nil => rfl
  | cons e es ih =>
    obtain ⟨hw', hqueue⟩ := hvisit e s w hw
    have hsame := (haligned w hw).entriesAfter_of_pop hqueue (hbefore e List.mem_cons_self)
    simp only [JobDispatch.walkPage, run_bind]
    cases ((visit e s).run w).1 with
    | next s =>
      refine (ih hw' s fun k hk e' he' => ?_).trans hsame
      exact hbefore k (List.mem_cons_of_mem _ hk) e' (Queue.get?_of_pop hqueue he')
    | stop s => exact hsame
    | fail e => exact hsame

end ConfinedTo

/-! ### Whole walks -/

lemma walkQueue_run_page (hplan : w.queue.plan = []) (limit : UInt64) (after : Option Cursor)
    (s : σ) :
    (walkQueue limit visit after s).run w =
      let page := w.queue.queue.scan limit after
      match (walkPage visit page.entries s).run w with
      | (.next s, w) =>
        match page.next? with
        | some ⟨next, _⟩ => (walkQueue limit visit (some next) s).run w
        | none => (.ok s, w)
      | (ended, w) => (ended.result, w) := by
  have hscan : (request (.scan limit after)).run w =
      (.ok (w.queue.queue.scan limit after), w) := World.answer_scan hplan _ _
  rw [walkQueue, run_bind, hscan]
  dsimp only
  rw [run_bind]
  generalize (walkPage visit (w.queue.queue.scan limit after).entries s).run w = walked
  generalize (w.queue.queue.scan limit after).next? = next?
  obtain ⟨_ | _ | _, w'⟩ := walked
  · rcases next? with _ | ⟨next, hnext⟩
    · rfl
    · rfl
  · rfl
  · rfl

/-- **A walk visits the entries that come after its cursor**, whatever the length of its pages. -/
theorem ConfinedTo.walkQueue_run {I : World → Prop} (hvisit : ConfinedTo I visit)
    (hplan : ∀ v, I v → v.queue.plan = []) (haligned : ∀ v, I v → v.queue.queue.Aligned)
    (hw : I w) {limit : UInt64} (hlimit : limit ≠ 0) (after : Option Cursor) (s : σ) :
    (walkQueue limit visit after s).run w =
      let walk := (JobDispatch.walkPage visit (w.queue.queue.entriesAfter after) s).run w
      (walk.1.result, walk.2) := by
  have hpos : 0 < limit.toNat := toNat_pos_of_ne_zero hlimit
  induction h : Cursor.room after using Nat.strong_induction_on generalizing after s w with
  | _ room ih =>
    subst h
    have hqueue := haligned w hw
    have hentries := hqueue.scan_entries limit after
    rw [walkQueue_run_page (hplan w hw)]
    dsimp only
    by_cases hlen : (w.queue.queue.entriesAfter after).length ≤ limit.toNat
    · rw [hentries, List.take_of_length_le hlen, hqueue.scan_next?_of_le hlen]
      generalize (JobDispatch.walkPage visit _ s).run w = walked
      obtain ⟨_ | _ | _, w'⟩ := walked <;> rfl
    · have hlt := Nat.not_le.1 hlen
      obtain ⟨last, hlast⟩ := Queue.getLast?_page hpos hlt
      obtain ⟨hnext, hcursor⟩ := hqueue.scan_next?_of_lt hlt hlast
      have hsplit := List.take_append_drop limit.toNat (w.queue.queue.entriesAfter after)
      have hw' := hvisit.walkPage hw ((w.queue.queue.entriesAfter after).take limit.toNat) s
      have hrest := hvisit.entriesAfter_walkPage haligned hw
        ((w.queue.queue.entriesAfter after).take limit.toNat) s (some last.cursor)
        fun e he e' he' => hqueue.not_after_getLast hlast he e' he'
      rw [hqueue.entriesAfter_getLast hlast] at hrest
      rw [hentries, hcursor]
      conv_rhs => rw [← hsplit, walkPage_append]
      generalize (JobDispatch.walkPage visit _ s).run w = walked at hw' hrest ⊢
      obtain ⟨s' | _ | _, w'⟩ := walked
      · rw [← hrest]
        exact ih _ (Cursor.room_lt hnext) hw' _ _ rfl
      · rfl
      · rfl

theorem World.AtRest.walkQueue_run (hvisit : Confined visit) (hw : w.AtRest) {limit : UInt64}
    (hlimit : limit ≠ 0) (after : Option Cursor) (s : σ) :
    (walkQueue limit visit after s).run w =
      let walk := (JobDispatch.walkPage visit (w.queue.queue.entriesAfter after) s).run w
      (walk.1.result, walk.2) :=
  ConfinedTo.walkQueue_run hvisit (fun _ hv => hv.plan)
    (fun _ hv => hv.aligned) hw hlimit after s

/-- **Visits that only read** take in all entries after the cursor. -/
theorem walkQueue_run_reading {f : σ → QueueEntry → σ}
    (hvisit : ∀ e s, (visit e s).run w = (.next (f s e), w)) (hplan : w.queue.plan = [])
    (hqueue : w.queue.queue.Aligned) {limit : UInt64} (hlimit : limit ≠ 0)
    (after : Option Cursor) (s : σ) :
    (walkQueue limit visit after s).run w =
      (.ok ((w.queue.queue.entriesAfter after).foldl f s), w) := by
  have hpage (es : List QueueEntry) (s : σ) :
      (JobDispatch.walkPage visit es s).run w = (.next (es.foldl f s), w) := by
    induction es generalizing s with
    | nil => rfl
    | cons e es ih =>
      rw [JobDispatch.walkPage, run_bind, hvisit]
      exact ih _
  have hconfined : ConfinedTo (· = w) visit := by
    rintro e s _ rfl
    rw [hvisit]
    exact ⟨rfl, .inl rfl⟩
  rw [hconfined.walkQueue_run (by rintro _ rfl; exact hplan) (by rintro _ rfl; exact hqueue) rfl
    hlimit, hpage]
  rfl

/-! ### What walks keep -/

section

variable {R : σ × World → σ × World → Prop} (hrefl : ∀ p, R p p)
  (htrans : ∀ {p q r}, R p q → R q r → R p r)
  (hvisit : ∀ e s w s', ((visit e s).run w).1.result = .ok s' →
    R (s, w) (s', ((visit e s).run w).2))

include hrefl htrans hvisit

lemma walkPage_keeps (es : List QueueEntry) {s s' : σ} {w : World}
    (h : ((walkPage visit es s).run w).1.result = .ok s') :
    R (s, w) (s', ((walkPage visit es s).run w).2) := by
  induction es generalizing s w with
  | nil =>
    cases h
    exact hrefl _
  | cons e es ih =>
    have hstep := hvisit e s w
    simp only [walkPage, run_bind] at h ⊢
    generalize (visit e s).run w = visited at hstep h ⊢
    obtain ⟨t | t | err, w₁⟩ := visited
    · exact htrans (hstep t rfl) (ih h)
    · exact hstep s' h
    · cases h

/-- **What each visit of a walk keeps, the walk keeps**, if no call of it fails; a scan that fails
ends it. -/
theorem walkQueue_keeps
    (hscan : ∀ limit after s (w : World), R (s, w) (s, (w.answer (.scan limit after)).2))
    (limit : UInt64) (after : Option Cursor) {s s' : σ} {w : World}
    (h : ((walkQueue limit visit after s).run w).1 = .ok s') :
    R (s, w) (s', ((walkQueue limit visit after s).run w).2) := by
  induction hroom : Cursor.room after using Nat.strong_induction_on generalizing after s w with
  | _ room ih =>
    subst hroom
    rw [walkQueue, run_bind, run_request] at h ⊢
    refine htrans (hscan limit after s w) ?_
    generalize w.answer (.scan limit after) = scanned at h ⊢
    obtain ⟨err | page, w₁⟩ := scanned
    · cases h
    dsimp only at h ⊢
    rw [run_bind] at h ⊢
    have hpage (t : σ) : ((walkPage visit page.entries s).run w₁).1.result = .ok t →
        R (s, w₁) (t, ((walkPage visit page.entries s).run w₁).2) :=
      walkPage_keeps hrefl htrans hvisit page.entries
    generalize (walkPage visit page.entries s).run w₁ = walked at h hpage ⊢
    obtain ⟨t | t | err, w₂⟩ := walked
    · refine htrans (hpage t rfl) ?_
      generalize page.next? = next? at h ⊢
      rcases next? with _ | ⟨next, hnext⟩
      · cases h
        exact hrefl _
      · exact ih _ (Cursor.room_lt hnext) (some next) h rfl
    · cases h
      exact hpage s' rfl
    · cases h

end

/-! ### What walks ask -/

variable {P : Request → Prop}

lemma walkPage_asks (hvisit : ∀ e s, (visit e s).Asks P) (es : List QueueEntry) (s : σ) :
    (walkPage visit es s).Asks P := by
  induction es generalizing s with
  | nil => trivial
  | cons e es ih =>
    unfold walkPage
    refine Asks.bind (hvisit e s) fun result => ?_
    cases result with
    | next s => exact ih s
    | stop s => trivial
    | fail err => trivial

lemma walkQueue_asks (hvisit : ∀ e s, (visit e s).Asks P)
    (hscan : ∀ limit after, P (.scan limit after)) (limit : UInt64) (after : Option Cursor)
    (s : σ) : (walkQueue limit visit after s).Asks P := by
  induction h : Cursor.room after using Nat.strong_induction_on generalizing after s with
  | _ room ih =>
    subst h
    unfold walkQueue
    refine Asks.bind ((asks_request _).2 (hscan limit after)) fun found => ?_
    cases found with
    | error err => trivial
    | ok page =>
      refine Asks.bind (walkPage_asks hvisit _ _) fun result => ?_
      cases result with
      | next s =>
        dsimp only
        split
        · rename_i next hnext _
          exact ih _ (Cursor.room_lt hnext) _ _ rfl
        · trivial
      | stop s => trivial
      | fail err => trivial

end JobDispatch

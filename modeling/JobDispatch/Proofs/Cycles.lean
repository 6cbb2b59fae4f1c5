import JobDispatch.Proofs.Errands
import JobDispatch.Proofs.Evolution
import JobDispatch.Proofs.Passes
import JobDispatch.Proofs.Tickings

/-!
A sweep in several passes, however their ticks mix, and whatever others do in between as long as
they keep the queue in order and leave the progress alone. What the passes have ticked covers the
queue up to the cursor that the progress notes (`Underway`): each page carries it on
(`Reached.page`), a pass that fails or is cut short leaves it to the next one, and the last page
completes it (`sweepUntilBy_sweeping`).
-/

namespace JobDispatch

open Program

variable {untaggedOnly : Bool} {rota : Rota} {plan : SweepPlan} {h : Trail} {w v : World}

/-! ### The end of the queue -/

def Trail.LastPage (h : Trail) (v : World) : Prop :=
  ∃ front limit after back, h = front ++ (.scan limit after, v) :: back ∧
    ∀ q ∈ back, ∀ limit after, q.1 ≠ .scan limit after

/-- The entries are those of the queue when the trail reads its last page, and others that came
before. -/
structure Completes (h : Trail) (es : List QueueEntry) : Prop where
  ascending : es.Pairwise fun a b => a.sequence < b.sequence
  last : ∃ v, h.LastPage v ∧ ∀ id e, v.queue.queue.get? id = some e → e ∈ es

lemma Trail.LastPage.aside (hv : h.LastPage v) {r : Request} (hr : r.isAside = true) :
    Trail.LastPage (h ++ [(r, w)]) v := by
  obtain ⟨front, limit, after, back, rfl, hback⟩ := hv
  refine ⟨front, limit, after, back ++ [(r, w)], by simp, fun q hq => ?_⟩
  rcases List.mem_append.1 hq with hq | hq
  · exact hback q hq
  · rw [List.mem_singleton.1 hq]
    rintro limit after rfl
    cases hr

lemma Completes.aside {es : List QueueEntry} (hc : Completes h es) {r : Request}
    (hr : r.isAside = true) : Completes (h ++ [(r, w)]) es := by
  obtain ⟨hascending, v, hv, hall⟩ := hc
  exact ⟨hascending, v, hv.aside hr, hall⟩

/-! ### The rely of the sweeper -/

/-- Others keep the queue in order and leave the progress alone. -/
def Rely.ofSweep : Rely where
  may w v := w.queue.queue.Aligned →
    w.queue.queue.Evolves v.queue.queue ∧ v.progress = w.progress
  refl w hw := ⟨.refl hw, rfl⟩
  trans huv hvw hu := by
    obtain ⟨hq, hp⟩ := huv hu
    obtain ⟨hq', hp'⟩ := hvw hq.aligned
    exact ⟨hq.trans hq', hp'.trans hp⟩

/-- The request neither puts an entry in nor moves the progress. -/
def Request.isQuiet (r : Request) : Bool := !r.pushes && !r.movesProgress

lemma World.progress_answer {r : Request} (hr : r.movesProgress = false) :
    (w.answer r).2.progress = w.progress := by
  cases r with
  | beginPass _ | notePlace _ _ => cases hr
  | addJob draft =>
    simp only [World.answer, World.addJob]
    split <;> rfl
  | _ => rfl

lemma Rely.ofSweep_answer {r : Request} (hr : r.isQuiet = true) (v : World) :
    Rely.ofSweep.may v (v.answer r).2 := by
  simp only [Request.isQuiet, Bool.and_eq_true, Bool.not_eq_true'] at hr
  exact fun hv => ⟨World.evolves_answer hv hr.1, World.progress_answer hr.2⟩

lemma Request.Ticking.isQuiet {r : Request} (h : r.Ticking) : r.isQuiet = true := by
  obtain ⟨id, h⟩ := h
  cases r with
  | push _ _ _ _ | beginPass _ | notePlace _ _ => exact False.elim h
  | _ => rfl

/-- What the sweeper does, and the world after it, as long as the others keep to its rely. -/
abbrev Program.Sweeping {α : Type} (p : Program α) (Q : Trail → α → World → Prop) (h : Trail)
    (w : World) : Prop := p.Along .ofSweep (fun _ _ _ => True) Q h w

/-- A program of quiet requests carries the trail on and keeps to the rely itself. -/
lemma Program.Asks.sweeping {α : Type} {p : Program α} {A : Request → Prop} (hA : p.Asks A)
    (hquiet : ∀ r, A r → r.isQuiet = true) :
    p.Sweeping (fun h' a v => Rely.ofSweep.may w v ∧
      ∃ t, h' = h ++ t ∧ (∀ q ∈ t, A q.1) ∧ p.Leads t a) h w :=
  (hA.along_may fun r v hr => Rely.ofSweep_answer (hquiet r hr) v).trail hA

/-! ### What a cycle has come to -/

namespace SweepRecord

lemma start?_begin (p : SweepRecord) (now : Timestamp) : (p.begin now).start? = p.start? := by
  obtain ⟨cursor?, phase, startedAt?, updatedAt?⟩ := p
  cases phase <;> rfl

lemma start?_notePlace (p : SweepRecord) (after : Option Cursor) {phase : SweepPhase}
    (hphase : phase = .ongoing ∨ phase = .unfinished) (now : Timestamp) :
    (p.notePlace after phase now).start? = after := by
  rcases hphase with rfl | rfl <;> rfl

end SweepRecord

/-- The entries ticked so far cover the queue up to a cursor. -/
def Reached (untaggedOnly : Bool) (after : Option Cursor) (h : Trail) (w : World) : Prop :=
  w.queue.queue.Aligned ∧ ∃ es, Ticked untaggedOnly h es ∧ Covered after es w.queue.queue

/-- The cycle has come to where the next page starts. -/
def Underway (untaggedOnly : Bool) (h : Trail) (w : World) : Prop :=
  Reached untaggedOnly w.progress.start? h w

/-- The cycle has come to the end of the queue. -/
def Through (untaggedOnly : Bool) (h : Trail) : Prop :=
  ∃ es, Ticked untaggedOnly h es ∧ Completes h es

/-- What a page leads to: to the place where the next one starts, or to the end. -/
def PageEnd (untaggedOnly : Bool) (h : Trail) (w : World) {after : Option Cursor}
    (page : Page after) : Prop :=
  match page.next? with
  | some next => Reached untaggedOnly (some next.1) h w
  | none => Through untaggedOnly h

def PassEnd (untaggedOnly : Bool) (h : Trail) (w : World) : Bool → Prop
  | true => Through untaggedOnly h
  | false => Underway untaggedOnly h w

/-- What the others keep, and what requests on the side keep too. -/
structure Steady (I : Trail → World → Prop) : Prop where
  may : ∀ {h w v}, I h w → Rely.ofSweep.may w v → I h v
  ask : ∀ {h v} {r : Request}, I h v → r.isQuiet = true → r.isAside = true →
    I (h ++ [(r, v)]) (v.answer r).2

lemma Steady.request_bind {I : Trail → World → Prop} (hI : Steady I) {α : Type} {r : Request}
    {f : r.Answer → Program α} {Q : Trail → α → World → Prop} (hw : I h w)
    (hquiet : r.isQuiet = true) (haside : r.isAside = true)
    (hf : ∀ h v (x : r.Answer), I h v → (f x).Sweeping Q h v) :
    (request r >>= f).Sweeping Q h w :=
  Along.ask fun _ hv => ⟨trivial, hf _ _ _ (hI.ask (hI.may hw hv) hquiet haside)⟩

lemma Steady.of_logs {I : Trail → World → Prop} (hI : Steady I) {α : Type} {p : Program α}
    (hp : p.Asks fun r => ∃ e, r = .log e) (hw : I h w) :
    p.Sweeping (fun h _ v => I h v) h w := by
  induction p generalizing h w with
  | done a => exact along_pure fun v hv => hI.may hw hv
  | ask r next ih =>
    obtain ⟨⟨e, rfl⟩, hnext⟩ := hp
    exact hI.request_bind hw rfl rfl fun h v x hv => ih x (hnext x) hv

lemma Through.aside (ht : Through untaggedOnly h) {r : Request} (hr : r.isAside = true) :
    Through untaggedOnly (h ++ [(r, v)]) := by
  obtain ⟨es, hticked, hcompletes⟩ := ht
  exact ⟨es, hticked.aside hr, hcompletes.aside hr⟩

lemma Reached.of_may {after : Option Cursor} (hr : Reached untaggedOnly after h w)
    (hv : Rely.ofSweep.may w v) : Reached untaggedOnly after h v := by
  obtain ⟨hw, es, hticked, hcovered⟩ := hr
  exact ⟨(hv hw).1.aligned, es, hticked, hcovered.evolves (hv hw).1⟩

lemma steady_reached (untaggedOnly : Bool) (after : Option Cursor) :
    Steady (Reached untaggedOnly after) where
  may := Reached.of_may
  ask hr hquiet haside := by
    obtain ⟨hw, es, hticked, hcovered⟩ := hr.of_may (Rely.ofSweep_answer hquiet _)
    exact ⟨hw, es, hticked.aside haside, hcovered⟩

lemma steady_underway (untaggedOnly : Bool) : Steady (Underway untaggedOnly) where
  may hu hv := by
    unfold Underway
    rw [(hv hu.1).2]
    exact (steady_reached _ _).may hu hv
  ask {_ v _} hu hquiet haside := by
    unfold Underway
    rw [(Rely.ofSweep_answer hquiet v hu.1).2]
    exact (steady_reached _ _).ask hu hquiet haside

lemma steady_at (untaggedOnly : Bool) (p : SweepRecord) :
    Steady fun h w => Underway untaggedOnly h w ∧ w.progress = p where
  may hu hv := ⟨(steady_underway _).may hu.1 hv, (hv hu.1.1).2.trans hu.2⟩
  ask {_ v _} hu hquiet haside := ⟨(steady_underway _).ask hu.1 hquiet haside,
    (Rely.ofSweep_answer hquiet v hu.1.1).2.trans hu.2⟩

lemma steady_pageEnd (untaggedOnly : Bool) {after : Option Cursor} (page : Page after) :
    Steady fun h w => PageEnd untaggedOnly h w page := by
  unfold PageEnd
  cases page.next? with
  | none => exact ⟨fun ht _ => ht, fun ht _ haside => ht.aside haside⟩
  | some next => exact steady_reached untaggedOnly _

lemma steady_passEnd (untaggedOnly finished : Bool) :
    Steady fun h w => PassEnd untaggedOnly h w finished := by
  cases finished with
  | true => exact ⟨fun ht _ => ht, fun ht _ haside => ht.aside haside⟩
  | false => exact steady_underway untaggedOnly

namespace Underway

lemma failed (hu : Underway untaggedOnly h v) (limit : UInt64) (after : Option Cursor) :
    Underway untaggedOnly (h ++ [(.scan limit after, v)]) (v.answer (.scan limit after)).2 := by
  obtain ⟨hw, es, hticked, hcovered⟩ :=
    (steady_underway untaggedOnly).may hu (Rely.ofSweep_answer (r := .scan limit after) rfl v)
  exact ⟨hw, es, hticked.besides nofun, hcovered⟩

lemma beginPass (hu : Underway untaggedOnly h v) (now : Timestamp) :
    Underway untaggedOnly (h ++ [(.beginPass now, v)]) (v.answer (.beginPass now)).2 := by
  obtain ⟨hw, es, hticked, hcovered⟩ := hu
  refine ⟨hw, es, hticked.aside rfl, ?_⟩
  show Covered (v.progress.begin now).start? es v.queue.queue
  rw [SweepRecord.start?_begin]
  exact hcovered

end Underway

/-- The place that is noted is where the next pass starts. -/
lemma Reached.notePlace {after : Option Cursor} (hr : Reached untaggedOnly after h v)
    {phase : SweepPhase} (hphase : phase = .ongoing ∨ phase = .unfinished) :
    Underway untaggedOnly (h ++ [(.notePlace after phase, v)])
      (v.answer (.notePlace after phase)).2 := by
  obtain ⟨hw, es, hticked, hcovered⟩ := hr
  refine ⟨hw, es, hticked.aside rfl, ?_⟩
  show Covered (v.progress.notePlace after phase v.now).start? es v.queue.queue
  rw [SweepRecord.start?_notePlace _ _ hphase]
  exact hcovered

/-! ### Passes -/

lemma recordOutcomes_sweeping {I : Trail → World → Prop} (hI : Steady I)
    (outcomes : List (Except DispatchError TickOutcome)) (report : PassReport) (hw : I h w) :
    (recordOutcomes outcomes report).Sweeping
      (fun h a v => I h v ∧ a = report.tally outcomes) h w := by
  induction outcomes generalizing report h w with
  | nil => exact along_pure fun v hv => ⟨hI.may hw hv, rfl⟩
  | cons outcome outcomes ih =>
    unfold recordOutcomes
    cases outcome with
    | error e => exact hI.request_bind hw rfl rfl fun h v _ hw => ih _ hw
    | ok result => exact ih _ hw

/-- **A page carries the cycle on**, to its own end or to the end of the queue. -/
theorem Reached.page {after : Option Cursor} (hr : Reached untaggedOnly after h v)
    {limit : UInt64} (hlimit : limit ≠ 0) {page : Page after}
    (hscan : (v.answer (.scan limit after)).1 = .ok page) (plan : SweepPlan) (picks : List Nat) :
    (offerPage plan untaggedOnly picks page.entries).Sweeping
      (fun h _ w => PageEnd untaggedOnly h w page) (h ++ [(.scan limit after, v)])
      (v.answer (.scan limit after)).2 := by
  obtain ⟨hv, es, hticked, hcovered⟩ := hr
  have hpage := World.page_of_scan hscan
  refine ((offerPage_asks plan untaggedOnly picks page.entries).sweeping
    fun r => Request.Ticking.isQuiet).mono (fun _ _ _ h => h) ?_
  rintro h' outcomes w ⟨hw, t, rfl, ht, hleads⟩
  rw [List.append_assoc, List.singleton_append]
  have hticked' := hticked.page hscan hleads
  obtain ⟨hqueue, -⟩ := Rely.ofSweep.trans
    (Rely.ofSweep_answer (r := .scan limit after) rfl v) hw hv
  unfold PageEnd
  cases hnext : page.next? with
  | some next =>
    refine ⟨hqueue.aligned, _, hticked', ?_⟩
    rw [hpage] at hnext ⊢
    exact (hcovered.page hv hlimit hnext).evolves hqueue
  | none =>
    rw [hpage] at hnext hticked'
    obtain ⟨hascending, hall⟩ := hcovered.lastPage hv hlimit hnext
    refine ⟨_, hticked', hascending, v, ⟨h, limit, after, t, rfl, fun q hq limit after heq => ?_⟩,
      hall⟩
    obtain ⟨id, hin⟩ := ht q hq
    rw [heq] at hin
    exact hin

section

variable (hlimit : plan.batchSize ≠ 0)

include hlimit

lemma sweepFromBy_sweeping {after : Option Cursor} {report : PassReport}
    (hopen : report.completed = false) (hu : Underway untaggedOnly h w)
    (hafter : w.progress.start? = after) :
    (sweepFromBy rota plan untaggedOnly after report).Sweeping
      (fun h result v => PassEnd untaggedOnly h v (PassReport.finishes result)) h w := by
  induction hroom : Cursor.room after using Nat.strong_induction_on
    generalizing after report h w with
  | _ n ih =>
    subst hroom
    have hreached : Reached untaggedOnly after h w := by
      rw [← hafter]
      exact hu
    rw [sweepFromBy]
    split
    · -- at the cap on batches the place is noted for the next pass
      refine Along.ask fun v hv => ⟨trivial, ?_⟩
      have hnoted := ((steady_reached untaggedOnly after).may hreached hv).notePlace (.inr rfl)
      refine (steady_underway untaggedOnly).request_bind hnoted rfl rfl fun h v _ hlogged => ?_
      refine along_pure fun u hu => ?_
      rw [show PassReport.finishes (.ok report) = false from hopen]
      exact (steady_passEnd untaggedOnly false).may hlogged hu
    refine Along.ask fun v hv => ⟨trivial, ?_⟩
    split
    · rename_i e hscan
      have hfailed := ((steady_underway untaggedOnly).may hu hv).failed plan.batchSize after
      exact along_pure fun u hu => (steady_passEnd untaggedOnly false).may hfailed hu
    rename_i page hscan
    have hpage := ((steady_reached untaggedOnly after).may hreached hv).page hlimit hscan plan
      (rota report.batches)
    refine Along.bind (hpage.mono (fun _ _ _ h => h) fun h' outcomes v hend => ?_)
    refine Along.bind ((recordOutcomes_sweeping (steady_pageEnd untaggedOnly page) outcomes report
      hend).mono (fun _ _ _ h => h) ?_)
    rintro h'' _ v ⟨hend, rfl⟩
    have hopen' : ({ report.tally outcomes with
        batches := (report.tally outcomes).batches + 1 } : PassReport).completed = false :=
      (report.completed_tally outcomes).trans hopen
    unfold PageEnd at hend
    dsimp only
    split
    · rename_i next hlater hnext
      rw [hnext] at hend
      refine Along.ask fun v' hv' => ⟨trivial, ?_⟩
      have hnoted := ((steady_reached untaggedOnly (some next)).may hend hv').notePlace (.inl rfl)
      exact ih _ (Cursor.room_lt hlater) hopen' hnoted
        (SweepRecord.start?_notePlace _ _ (.inl rfl) _) rfl
    · rename_i hnext
      rw [hnext] at hend
      exact Along.ask fun v' hv' => ⟨trivial, along_pure fun u hu => hend.aside rfl⟩

omit hlimit in
lemma beginPass_sweeping (hu : Underway untaggedOnly h w) :
    beginPass.Sweeping (fun h place v => Underway untaggedOnly h v ∧
      v.progress.start? = place.1) h w := by
  have hsteady := steady_underway untaggedOnly
  rw [beginPass_eq]
  refine hsteady.request_bind hu rfl rfl fun h w now hu => Along.ask fun v hv => ⟨trivial, ?_⟩
  have hbegun := (hsteady.may hu hv).beginPass now
  have hsteady := steady_at untaggedOnly (v.progress.begin now)
  refine Along.bind ((hsteady.of_logs (logEarlier_asks v.progress) ⟨hbegun, rfl⟩).mono
    (fun _ _ _ h => h) fun h _ u hu => along_pure fun u' hu' => ?_)
  have hu' := hsteady.may hu hu'
  refine ⟨hu'.1, ?_⟩
  rw [hu'.2, SweepRecord.start?_begin]
  rfl

lemma passBy_sweeping (hu : Underway untaggedOnly h w) :
    (passBy rota plan untaggedOnly).Sweeping
      (fun h result v => PassEnd untaggedOnly h v (PassReport.finishes result)) h w := by
  have hsteady := steady_underway untaggedOnly
  unfold passBy
  refine hsteady.request_bind hu rfl rfl fun h w active hu => ?_
  refine hsteady.request_bind hu rfl rfl fun h w _ hu => ?_
  refine Along.bind ((beginPass_sweeping hu).mono (fun _ _ _ h => h) ?_)
  rintro h ⟨after, resumed⟩ v ⟨hu, hafter⟩
  exact sweepFromBy_sweeping hlimit rfl hu hafter

theorem sweepBy_sweeping (hu : Underway untaggedOnly h w) :
    (sweepBy rota plan untaggedOnly).Sweeping
      (fun h result v => PassEnd untaggedOnly h v (PassReport.finishes result)) h w := by
  have hsteady := steady_underway untaggedOnly
  rw [sweepBy_eq_logPass]
  refine hsteady.request_bind hu rfl rfl fun h w now hu => ?_
  refine hsteady.request_bind hu rfl rfl fun h w leased hu => ?_
  cases leased with
  | error e => exact along_pure fun v hv => (steady_passEnd untaggedOnly false).may hu hv
  | ok lease =>
    refine Along.bind ((passBy_sweeping hlimit hu).mono (fun _ _ _ h => h) ?_)
    intro h result v hend
    have hsteady := steady_passEnd untaggedOnly (PassReport.finishes result)
    refine hsteady.request_bind hend rfl rfl fun h w inForce hend => ?_
    refine Along.bind ((hsteady.of_logs (logPass_asks lease inForce result) hend).mono
      (fun _ _ _ h => h) fun h _ v hend => ?_)
    exact along_pure fun u hu => hsteady.may hend hu

end

/-! ### Cycles -/

/-- Passes one after the other, each on a rota of its own, up to the first that comes to the end of
the queue. -/
def sweepUntilBy (plan : SweepPlan) (untaggedOnly : Bool) :
    List Rota → Program (List (Except DispatchError PassReport))
  | [] => pure []
  | rota :: rotas => do
    let result ← sweepBy rota plan untaggedOnly
    if PassReport.finishes result then pure [result]
    else
      let results ← sweepUntilBy plan untaggedOnly rotas
      pure (result :: results)

/-- **The passes of a cycle** carry it on together, to the end of the queue if one of them comes to
it. -/
theorem sweepUntilBy_sweeping (hlimit : plan.batchSize ≠ 0) (rotas : List Rota)
    (hu : Underway untaggedOnly h w) : (sweepUntilBy plan untaggedOnly rotas).Sweeping
      (fun h results v => PassEnd untaggedOnly h v (results.any PassReport.finishes)) h w := by
  induction rotas generalizing h w with
  | nil => exact along_pure fun v hv => (steady_passEnd untaggedOnly false).may hu hv
  | cons rota rotas ih =>
    unfold sweepUntilBy
    refine Along.bind ((sweepBy_sweeping hlimit hu).mono (fun _ _ _ h => h)
      fun h result v hend => ?_)
    split
    · rename_i hfinished
      rw [hfinished] at hend
      refine along_pure fun u hv => ?_
      rw [List.any_cons, hfinished]
      exact hend
    · rename_i hmore
      rw [Bool.not_eq_true] at hmore
      rw [hmore] at hend
      refine Along.bind ((ih hend).mono (fun _ _ _ h => h) fun h results v hend => ?_)
      refine along_pure fun u hv => ?_
      rw [List.any_cons, hmore]
      exact (steady_passEnd untaggedOnly _).may hend hv

end JobDispatch

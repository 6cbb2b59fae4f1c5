import JobDispatch.Proofs.Hindsight
import JobDispatch.Proofs.Errands
import JobDispatch.Proofs.Placement

/-!
Whether a worker can run the job that it is given. A tick ranks the workers once and then offers the
job to one after the other. The offer of a worker, what projects and tags it takes, counts as it was
when the workers were ranked (`RankedFor`); that the worker is fresh and has a place to spare is
looked at again when the place is taken. So a worker that takes a job is fit for it at that instant,
unless a heartbeat has changed its offer in between (`takePlace_fits`), which may happen
(`takePlace_unfit`).
-/

namespace JobDispatch

open Program

variable {untaggedOnly : Bool} {h : Trail} {e : QueueEntry} {worker : WorkerId}

lemma Worker.suits_of_offer {w v : Worker} {project : ProjectId} {tags : Tags}
    (hw : w.suits project tags untaggedOnly) (hv : v.offer = w.offer) :
    v.suits project tags untaggedOnly := by
  obtain ⟨hscope, hrest⟩ := Prod.mk.inj hv
  obtain ⟨htags, huntagged⟩ := Prod.mk.inj hrest
  unfold suits fitsTags at hw ⊢
  rw [hscope, htags, huntagged]
  exact hw

/-! ### Rankings -/

/-- The last time that the trail asks for the available workers is for the entry, and by the offer
that it had then the worker suits it. -/
def RankedFor (untaggedOnly : Bool) (h : Trail) (e : QueueEntry) (worker : WorkerId) : Prop :=
  ∃ front w back, h = front ++ (.available e.project, w) :: back ∧
    (∀ q ∈ back, ∀ project, q.1 ≠ .available project) ∧
    ∃ ranked ∈ w.registry.workers.values, ranked.id = worker ∧
      ranked.suits e.project e.tags untaggedOnly

lemma RankedFor.append (hr : RankedFor untaggedOnly h e worker) {t : Trail}
    (ht : ∀ q ∈ t, ∀ project, q.1 ≠ .available project) :
    RankedFor untaggedOnly (h ++ t) e worker := by
  obtain ⟨front, w, back, rfl, hback, hranked⟩ := hr
  refine ⟨front, w, back ++ t, by simp, fun q hq => ?_, hranked⟩
  rcases List.mem_append.1 hq with hq | hq
  · exact hback q hq
  · exact ht q hq

/-- Places are taken only of workers that were ranked for an entry, while the job of the entry is
locked. -/
def Fits (untaggedOnly : Bool) (source : Trail → QueueEntry → Prop) (h : Trail) (r : Request)
    (_ : World) : Prop :=
  ∀ worker, r = .takePlace worker →
    ∃ e, source h e ∧ RankedFor untaggedOnly h e worker ∧ h.locked? = some e.job

variable {source : Trail → QueueEntry → Prop}

lemma fits_of_ne {r : Request} (hr : ∀ worker, r ≠ .takePlace worker) (h : Trail) (v : World) :
    Fits untaggedOnly source h r v := fun worker heq => absurd heq (hr worker)

lemma Request.InEvery.ne_takePlace {id : JobId} {r : Request} (h : r.InEvery id)
    (worker : WorkerId) : r ≠ .takePlace worker := by
  rintro rfl
  exact h

lemma Request.InClaim.ne_available {id : JobId} {r : Request} (h : r.InClaim id)
    (project : ProjectId) : r ≠ .available project := by
  rintro rfl
  exact h

lemma Program.Asks.fits {α : Type} {p : Program α} (id : JobId)
    (hp : p.Asks (Request.InEvery id)) (h : Trail) : p.Heeds (Fits untaggedOnly source) h :=
  fun _ => hp.along fun h _ v hr => fits_of_ne hr.ne_takePlace h v

lemma Program.Along.ask_fits {α : Type} {r : Request} {f : r.Answer → Program α}
    {Q : Trail → α → World → Prop} {w : World} (hr : ∀ worker, r ≠ .takePlace worker)
    (hf : ∀ v, (f (v.answer r).1).Along .anything (Fits untaggedOnly source) Q (h ++ [(r, v)])
      (v.answer r).2) :
    (request r >>= f).Along .anything (Fits untaggedOnly source) Q h w :=
  .ask fun v _ => ⟨fits_of_ne hr h v, hf v⟩

lemma Program.Heeds.ask_fits {α : Type} {r : Request} {f : r.Answer → Program α}
    (hr : ∀ worker, r ≠ .takePlace worker)
    (hf : ∀ v, (f (v.answer r).1).Heeds (Fits untaggedOnly source) (h ++ [(r, v)])) :
    (request r >>= f).Heeds (Fits untaggedOnly source) h :=
  fun _ => .ask_fits hr fun v => hf v _

/-! ### Ticks -/

lemma claim_fits (hsource : ∀ t, source (h ++ t) e) (hr : RankedFor untaggedOnly h e worker) :
    (claim e.job worker).Heeds (Fits untaggedOnly source) h := by
  unfold claim
  refine .ask_fits nofun fun v => ?_
  split
  · exact heeds_pure _
  split
  · exact .ask_fits nofun fun _ => heeds_pure _
  refine .ask_fits nofun fun v₁ => ?_
  split
  · exact .ask_fits nofun fun _ => heeds_pure _
  · exact .ask_fits nofun fun _ => heeds_pure _
  -- here the place is taken
  refine .ask (fun v₂ worker' heq => ?_) fun v₂ => ?_
  · cases heq
    rw [List.append_assoc]
    refine ⟨e, hsource _, hr.append fun q hq project => ?_, ?_⟩
    · rcases List.mem_cons.1 hq with rfl | hq
      · exact nofun
      · rw [List.mem_singleton.1 hq]
        exact nofun
    · rw [← List.append_assoc, Trail.locked?_of_ne (r := .lookup e.job) _ nofun,
        Trail.locked?_lockJob]
  split
  · exact .ask_fits nofun fun _ => heeds_pure _
  have hpop (job : Job) : (popEntry job claimEdge .claimed).Asks (Request.InEvery e.job) :=
    popEntry_asks job claimEdge .claimed trivial trivial trivial fun _ => trivial
  refine ((hpop _).fits e.job _).bind fun result t => ?_
  split
  · exact .ask_fits nofun fun _ => .ask_fits nofun fun _ => .ask_fits nofun fun _ => heeds_pure _
  · exact (retreat_asks _ _ trivial trivial fun _ => trivial).fits e.job _
  · exact (retreat_asks _ _ trivial trivial fun _ => trivial).fits e.job _

/-- The entry is on offer to workers that were ranked for it. -/
structure OnOffer (untaggedOnly : Bool) (source : Trail → QueueEntry → Prop) (h : Trail)
    (e : QueueEntry) (ws : List Worker) : Prop where
  source : ∀ t, source (h ++ t) e
  ranked : ∀ w ∈ ws, RankedFor untaggedOnly h e w.id

lemma OnOffer.append {ws : List Worker} (ho : OnOffer untaggedOnly source h e ws) {t : Trail}
    (ht : ∀ q ∈ t, ∀ project, q.1 ≠ .available project) :
    OnOffer untaggedOnly source (h ++ t) e ws where
  source t' := by
    rw [List.append_assoc]
    exact ho.source _
  ranked w hw := (ho.ranked w hw).append ht

lemma OnOffer.append_one {ws : List Worker} (ho : OnOffer untaggedOnly source h e ws) {r : Request}
    (hr : ∀ project, r ≠ .available project) (v : World) :
    OnOffer untaggedOnly source (h ++ [(r, v)]) e ws :=
  ho.append fun q hq => by
    rw [List.mem_singleton.1 hq]
    exact hr

lemma offerTo_fits (ws : List Worker) (ho : OnOffer untaggedOnly source h e ws) :
    (offerTo e ws).Heeds (Fits untaggedOnly source) h := by
  induction ws generalizing h with
  | nil => exact heeds_pure _
  | cons w ws ih =>
    unfold offerTo
    refine .ask_fits (fun _ h => by cases h) fun v => ?_
    have ho := ho.append_one (r := .count (.workerTick w.id)) (fun _ h => by cases h) v
    refine (claim_fits ho.source (ho.ranked w List.mem_cons_self)).bind_asks
      (claim_asks_inClaim e.job w.id) fun result t ht => ?_
    have ho := ho.append fun q hq => (ht q hq).ne_available
    split
    · exact heeds_pure _
    · exact .ask_fits (fun _ h => by cases h) fun _ => heeds_pure _
    · exact .ask_fits (fun _ h => by cases h) fun _ => heeds_pure _
    · rename_i reason
      refine .ask_fits (fun _ h => by cases h) fun v => ih ?_
      have ho := ho.append_one (r := .log (.claimLost e.job w.id reason)) (fun _ h => by cases h) v
      exact ⟨ho.source, fun w' hw' => ho.ranked w' (List.mem_cons_of_mem _ hw')⟩

/-- The workers that are ranked for an entry were available, and suit it by their offers. -/
lemma rankWorkers_ranked (hsource : ∀ t, source (h ++ t) e) (w : World) :
    (rankWorkers untaggedOnly e).Along .anything (Fits untaggedOnly source)
      (fun h' ws _ => OnOffer untaggedOnly source h' e ws) h w := by
  unfold rankWorkers currentCriteria
  refine Along.ask_fits nofun fun v => Along.ask_fits nofun fun v₁ => Along.ask_fits nofun fun v₂ =>
    along_pure fun _ _ => ?_
  rw [List.append_assoc, List.append_assoc]
  refine ⟨fun t => ?_, fun ranked hranked => ?_⟩
  · rw [List.append_assoc]
    exact hsource _
  obtain ⟨hmem, heligible⟩ := mem_rank.1 hranked
  refine ⟨h, v, [(.clock, v₁), (.staleAfter, v₂)], rfl, fun q hq project => ?_, ranked,
    (List.mem_filter.1 hmem).1, rfl, (Worker.eligible_iff.1 heligible).1⟩
  rcases List.mem_cons.1 hq with rfl | hq
  · exact nofun
  · rw [List.mem_singleton.1 hq]
    exact nofun

theorem offerEntry_fits (hsource : ∀ t, source (h ++ t) e) :
    (offerEntry untaggedOnly e).Heeds (Fits untaggedOnly source) h := by
  intro w
  unfold offerEntry
  refine Along.bind ((rankWorkers_ranked hsource w).mono (fun _ _ _ h => h) fun h' ws v ho => ?_)
  split
  · exact .ask_fits nofun fun v => heeds_pure _ _
  · exact offerTo_fits ws ho v

/-! ### Errands -/

/-- Errands other than claims take places only of workers that were ranked for an entry, which was
in the queue or was given to them. -/
def Errand.Careful (c : Config) (errand : Errand) (h : Trail) (r : Request) (v : World) : Prop :=
  (∃ job worker, errand = .claim job worker) ∨
    Fits c.untaggedOnly (fun h e => Seen h e ∨ errand = .offer e) h r v

lemma Errand.careful (c : Config) (errand : Errand) (w : World) :
    (errand.program c).Along .anything (errand.Careful c) (fun _ _ _ => True) [] w := by
  let Source : Trail → QueueEntry → Prop := fun h e => Seen h e ∨ errand = .offer e
  have hallows : Allows c.untaggedOnly (Fits c.untaggedOnly Source) :=
    ⟨fun h r v hr => fits_of_ne (by rintro worker rfl; cases hr) h v,
      fun h e he => offerEntry_fits fun t => .inl (he.append t)⟩
  have hprogress (h : Trail) (r : Request) (v : World) (hr : r.movesProgress = true) :
      Fits c.untaggedOnly Source h r v := fits_of_ne (by rintro worker rfl; cases hr) h v
  have hcareful (hp : (errand.program c).Heeds (Fits c.untaggedOnly Source) []) :
      (errand.program c).Along .anything (errand.Careful c) (fun _ _ _ => True) [] w :=
    (hp w).mono (fun _ _ _ hr => .inr hr) fun _ _ _ h => h
  cases errand with
  | operation o =>
    exact hcareful ((o.heeds hallows fun _ => hprogress).bind fun _ _ => heeds_pure _)
  | offer e =>
    exact hcareful ((offerEntry_fits fun _ => .inr rfl).discard.bind fun _ _ => heeds_pure _)
  | claim job worker => exact (asks_true _).along fun _ _ _ _ => .inl ⟨job, worker, rfl⟩
  | sweepUntil passes => exact hcareful (sweepUntil_heeds hallows hprogress _ passes)

/-! ### Workers when they are given jobs -/

/-- The worker may take the job at this instant: it suits the job by its offer, is fresh and has a
place to spare. -/
def World.Eligible (w : World) (untaggedOnly : Bool) (worker : WorkerId) (job : Job) : Prop :=
  ∃ record, w.registry.get? worker = some record ∧
    ∀ e : QueueEntry, e.project = job.project → e.tags = job.tags →
      record.eligible e ⟨w.now, w.registry.staleAfter, untaggedOnly⟩ = true

namespace Errands

/-- The thread has last asked for the available workers of a project by the deed `d`, and `since` is
what was done after it. -/
structure LastRanking (s : Errands) (i : Nat) (project : ProjectId) (since : List (Deed Errand))
    (d : Deed Errand) : Prop where
  deeds : ∃ earlier, s.deeds = since ++ d :: earlier
  thread : d.thread = i
  request : d.request = .available project
  last : ∀ d' ∈ since, d'.thread = i → ∀ project, d'.request ≠ .available project

variable {s : Errands} {i : Nat}

lemma exists_deed_of_seen (hseen : Seen (s.trail i) e) :
    ∃ d ∈ s.deeds, ∃ id, d.world.queue.queue.get? id = some e := by
  obtain ⟨⟨r, v⟩, hq, id, hid⟩ := hseen
  obtain ⟨front, back, htrail⟩ := List.append_of_mem hq
  obtain ⟨since, d, earlier, hdeeds, -, -, rfl, -⟩ := System.exists_deed_of_trail htrail
  exact ⟨d, by rw [hdeeds]; exact List.mem_append_right _ List.mem_cons_self, id, hid⟩

lemma recalled_run (c : Config) (sink : Sink) (now : Timestamp) (moves : List (Move Errand)) :
    ∃ footing, ((System.initial (Engine.initial c sink now)).run (Errand.program c) moves).Sound
        (fun _ _ f => f.tenure? = none) footing ∧
      ((System.initial (Engine.initial c sink now)).run (Errand.program c) moves).Recalled := by
  have hstart : (Engine.initial c sink now).Sound .free := World.sound_initial _ sink now
  exact (System.Sound.initial hstart).run (I := fun s _ => s.Recalled)
    (fun errand => errand.program_unlocked c []) (fun _ _ m hs hr => hr.move hs m)
    (.initial fun _ _ h => by cases h) moves

end Errands

/-- **A worker that is given a job has a place for it, and suited it when it was ranked**, whatever
others do in between. So it can run the job, unless one of its heartbeats since then says that it
offers something else. Claims that a thread makes on its own, without a tick, are not ranked. -/
theorem takePlace_fits (c : Config) (sink : Sink) (now : Timestamp) (moves : List (Move Errand)) :
    let s : Errands := (System.initial (Engine.initial c sink now)).run (Errand.program c) moves
    ∀ i errand worker next, s.threads[i]? = some ⟨errand, .ask (.takePlace worker) next⟩ →
    (∀ job worker, errand ≠ .claim job worker) →
    (∀ e, errand = .offer e → ∃ d ∈ s.deeds, ∃ id, d.world.queue.queue.get? id = some e) →
    (s.world.answer (.takePlace worker)).1 = none →
    ∃ job record, s.locks.find? job.id = some i ∧ s.world.jobs.find? job.id = some job ∧
      s.world.registry.get? worker = some record ∧
      record.isReady s.world.now s.world.registry.staleAfter = true ∧
      ∃ since d ranked, s.LastRanking i job.project since d ∧
        d.world.registry.get? worker = some ranked ∧
        ranked.suits job.project job.tags c.untaggedOnly ∧
        ((∀ d' ∈ since, ∀ b, d'.request = .heartbeat b → b.worker = worker →
            b.offer = ranked.offer) →
          s.world.Eligible c.untaggedOnly worker job) := by
  intro s i errand worker next ht hclaim hoffer htake
  obtain ⟨footing, hs, hr⟩ := Errands.recalled_run c sink now moves
  have halong : s.AllAlong (Errand.Careful c) :=
    System.AllAlong.run (Errand.careful c) (.initial _) moves
  obtain ⟨e, hsource, ⟨front, v, back, htrail, hback, ranked, hmem, hranked, hsuits⟩, hlocked⟩ :=
    (halong.next ht).resolve_left (fun ⟨job, w, heq⟩ => hclaim job w heq) worker rfl
  -- the job that the thread has locked is that of the entry, and labelled like it
  obtain ⟨t, htenure, -⟩ := hs.permitted ht
  have hlock := hs.owning i t htenure
  have hjob := (hs.world.kept.tenure (hs.tenure htenure)).1
  have hid : t.job.id = e.job := by
    have hlast := hr.locked _ _ hlock
    rw [hlocked] at hlast
    exact (Option.some.inj hlast).symm
  obtain ⟨hproject, htags⟩ : e.project = t.job.project ∧ e.tags = t.job.tags := by
    obtain ⟨d, hd, id, hget⟩ := hsource.elim Errands.exists_deed_of_seen (hoffer e)
    obtain ⟨rfl, job, hfind, hlabels⟩ := hr.seen d hd id e hget
    rw [← hid, hjob] at hfind
    cases hfind
    exact hlabels
  -- the record that the place is taken of
  obtain ⟨record, hrecord, hfresh, hroom, -⟩ := Registry.takePlace_eq_none _ htake
  have hready : record.isReady s.world.now s.world.registry.staleAfter = true := by
    simp only [Worker.isReady, hfresh, Bool.and_true, decide_eq_true_eq]
    exact Worker.room_pos_iff.2 hroom
  -- the record that was ranked
  obtain ⟨since, d, earlier, hdeeds, hthread, hrequest, rfl, hsince⟩ :=
    System.exists_deed_of_trail htrail
  have hd : d ∈ s.deeds := by
    rw [hdeeds]
    exact List.mem_append_right _ List.mem_cons_self
  obtain ⟨id, hget⟩ := Table.mem_values.1 hmem
  have hget : d.world.registry.get? worker = some ranked := by
    rw [← hranked, hr.named d hd id ranked hget]
    exact hget
  rw [hproject, htags] at hsuits
  rw [hproject] at hrequest
  refine ⟨t.job, record, hlock, hjob, hrecord, hready, since, d, ranked,
    ⟨⟨earlier, hdeeds⟩, hthread, hrequest, fun d' hd' hi => hback _ (hsince d' hd' hi)⟩, hget,
    hsuits, fun hbeats => ?_⟩
  obtain ⟨record', hrecord', hsame⟩ := hr.offered since d earlier hdeeds worker ranked hget (by
    intro d' hd' b hb
    rcases List.mem_append.1 hd' with hd' | hd'
    · exact hbeats d' hd' b hb
    · rw [List.mem_singleton.1 hd', hrequest] at hb
      cases hb)
  rw [hrecord] at hrecord'
  cases hrecord'
  refine ⟨record, hrecord, fun e' hproject' htags' => Worker.eligible_iff.2 ⟨?_, hready⟩⟩
  rw [hproject', htags']
  exact Worker.suits_of_offer hsuits hsame

/-! ### A heartbeat in between -/

/-- The thread is at a tick of the job, about to take a place of the worker, which has one. -/
def Errands.isTaking (s : Errands) (i : Nat) (job : JobId) (worker : WorkerId) : Bool :=
  match s.threads[i]? with
  | some ⟨.operation (.tick id), .ask (.takePlace w) _⟩ =>
    id == job && w == worker && (s.world.answer (.takePlace w)).1.isNone
  | _ => false

lemma Errands.exists_taking {s : Errands} {i : Nat} {job : JobId} {worker : WorkerId}
    (h : s.isTaking i job worker = true) :
    (∃ next, s.threads[i]? = some ⟨.operation (.tick job), .ask (.takePlace worker) next⟩) ∧
      (s.world.answer (.takePlace worker)).1 = none := by
  unfold isTaking at h
  split at h
  · rename_i id w next ht
    simp only [Bool.and_eq_true, beq_iff_eq, Option.isNone_iff_eq_none] at h
    obtain ⟨⟨rfl, rfl⟩, htake⟩ := h
    exact ⟨⟨next, ht⟩, htake⟩
  · cases h

def sweepsOnly : Config := { Config.standard with mode := .sweep }

/-- A heartbeat of the only worker. -/
def beat (tag : String) : Heartbeat :=
  ⟨⟨.ofNat 1⟩, .ofList [tag], 1, .epoch, .everyProject, true⟩

/-- A worker with one tag reports, and a job that asks for this tag is queued. A tick of the job has
ranked the worker when a second heartbeat comes. -/
def beatAfterRanking (tag : String) : List (Move Errand) :=
  [.start (.operation (.heartbeat (beat "docker"))),
    .start (.operation (.enqueue ⟨⟨.ofNat 2⟩, ⟨.ofNat 3⟩, .ofList ["docker"]⟩)),
    .start (.operation (.tick ⟨.ofNat 2⟩)), .start (.operation (.heartbeat (beat tag)))] ++
  List.replicate 2 (.step 0) ++ List.replicate 16 (.step 1) ++ List.replicate 7 (.step 2) ++
  [.step 3]

def aboutToTake (tag : String) : Errands :=
  (System.initial (Engine.initial sweepsOnly .silent .epoch)).run (Errand.program sweepsOnly)
    (beatAfterRanking tag)

def dockerJob : Job :=
  { Job.ofDraft ⟨⟨.ofNat 2⟩, ⟨.ofNat 3⟩, .ofList ["docker"]⟩ .epoch with
    state := .pending
    enqueuedAt? := some .epoch }

def Request.offer? : Request → Option (Scope × Tags × Bool)
  | .heartbeat b => some b.offer
  | _ => none

theorem takePlace_fits_docker : ∃ job : Job, (aboutToTake "docker").locks.find? job.id = some 2 ∧
    (aboutToTake "docker").world.jobs.find? job.id = some job ∧
    (aboutToTake "docker").world.Eligible sweepsOnly.untaggedOnly ⟨.ofNat 1⟩ job := by
  have htaking : (aboutToTake "docker").isTaking 2 dockerJob.id ⟨.ofNat 1⟩ = true := by
    decide +kernel
  obtain ⟨⟨next, ht⟩, htake⟩ := Errands.exists_taking htaking
  obtain ⟨job, -, hlock, hjob, -, -, since, d, record, hlast, hget, -, heligible⟩ :=
    takePlace_fits sweepsOnly .silent .epoch (beatAfterRanking "docker") 2 _ _ next ht
      (fun _ _ h => by cases h) (fun _ h => by cases h) htake
  refine ⟨job, hlock, hjob, heligible fun d' hd' b hb _ => ?_⟩
  -- the worker offers the same all the time
  have hrecords : ∀ d ∈ (aboutToTake "docker").deeds,
      (d.world.registry.get? ⟨.ofNat 1⟩).all (fun record =>
        record.offer == (beat "docker").offer) = true := by decide +kernel
  have hbeats : ∀ d ∈ (aboutToTake "docker").deeds,
      d.request.offer?.all (fun offer => offer == (beat "docker").offer) = true := by
    decide +kernel
  obtain ⟨earlier, hdeeds⟩ := hlast.deeds
  have hrecord := hrecords d (by rw [aboutToTake, hdeeds]; simp)
  have hbeat := hbeats d' (by rw [aboutToTake, hdeeds]; simp [hd'])
  rw [hget, Option.all_some, beq_iff_eq] at hrecord
  rw [hb] at hbeat
  exact (beq_iff_eq.1 hbeat).trans hrecord.symm

/-- **A worker may be given a job that it cannot run**: the tick takes the place although the worker
does not have the tag any more, and the job goes to it. -/
theorem takePlace_unfit :
    (∃ next, (aboutToTake "linux").threads[2]? =
      some ⟨.operation (.tick dockerJob.id), .ask (.takePlace ⟨.ofNat 1⟩) next⟩) ∧
    ((aboutToTake "linux").world.answer (.takePlace ⟨.ofNat 1⟩)).1 = none ∧
    (aboutToTake "linux").locks.find? dockerJob.id = some 2 ∧
    (aboutToTake "linux").world.jobs.find? dockerJob.id = some dockerJob ∧
    ¬(aboutToTake "linux").world.Eligible sweepsOnly.untaggedOnly ⟨.ofNat 1⟩ dockerJob ∧
    ((aboutToTake "linux").run (Errand.program sweepsOnly)
        (List.replicate 7 (.step 2))).world.jobs.find? dockerJob.id =
      some { dockerJob with
        state := .running, claimedBy? := some ⟨.ofNat 1⟩, enqueuedAt? := none } := by
  have htaking : (aboutToTake "linux").isTaking 2 dockerJob.id ⟨.ofNat 1⟩ = true := by
    decide +kernel
  obtain ⟨hnext, htake⟩ := Errands.exists_taking htaking
  refine ⟨hnext, htake, by decide +kernel, by decide +kernel, ?_, by decide +kernel⟩
  rintro ⟨record, hget, hall⟩
  have hunfit : ((aboutToTake "linux").world.registry.get? ⟨.ofNat 1⟩).all (fun record =>
      !record.fitsTags dockerJob.tags sweepsOnly.untaggedOnly) = true := by decide +kernel
  rw [hget, Option.all_some, Bool.not_eq_true'] at hunfit
  obtain ⟨⟨-, hfits⟩, -⟩ := Worker.eligible_iff.1
    (hall ⟨dockerJob.id, dockerJob.project, dockerJob.tags, .epoch, 1⟩ rfl rfl)
  rw [hunfit] at hfits
  cases hfits

end JobDispatch

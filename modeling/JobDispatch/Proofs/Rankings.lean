import JobDispatch.Proofs.Placement

/-!
Rankings do not depend on how they come about. Of candidates with different names, just those that
may take the entry are ranked, by a strict order on them; so there is one ranking only, in whatever
order the candidates come (`rank_congr`). The registry names each of its workers once
(`Registry.Named`). So to ask it for the available workers first, or to rank all of its workers,
comes to the same ranking, and a worker is in it if and only if it is ranked alone
(`ranking_canonical`).
-/

namespace JobDispatch

open Program

/-! ### Who may take an entry -/

/-- What it takes to get the job of an entry. -/
structure Worker.MayTake (w : Worker) (e : QueueEntry) (p : Criteria) : Prop where
  scope : w.scope = .everyProject ∨
    ∃ projects, w.scope = .only projects ∧ e.project ∈ projects.members
  contact : p.now.nanos - w.lastContact.nanos ≤ p.staleAfter
  capacity : w.running.toNat < w.capacity.toNat
  untagged : w.tags.members = [] → e.tags.members = [] ∨ p.untaggedOnly = false
  tagged : w.tags.members ≠ [] →
    (e.tags.members = [] → w.runUntagged = true) ∧
      (e.tags.members ≠ [] → ∀ tag ∈ e.tags.members, tag ∈ w.tags.members)

namespace Worker

lemma covers_iff {s : Scope} {project : ProjectId} : s.covers project = true ↔
    s = .everyProject ∨ ∃ projects, s = .only projects ∧ project ∈ projects.members := by
  cases s with
  | everyProject => simp [Scope.covers]
  | only projects => simp [Scope.covers, SortedSet.contains]

lemma isReady_iff {w : Worker} {now : Timestamp} {staleAfter : Int} :
    w.isReady now staleAfter = true ↔
      w.running.toNat < w.capacity.toNat ∧ now.nanos - w.lastContact.nanos ≤ staleAfter := by
  rw [isReady, Bool.and_eq_true_iff, decide_eq_true_iff, room_pos_iff, UInt32.lt_iff_toNat_lt,
    inContact, decide_eq_true_iff]
  rfl

lemma fitsTags_iff {w : Worker} {required : Tags} {untaggedOnly : Bool} :
    w.fitsTags required untaggedOnly = true ↔
      (w.tags.members = [] → required.members = [] ∨ untaggedOnly = false) ∧
      (w.tags.members ≠ [] → (required.members = [] → w.runUntagged = true) ∧
        (required.members ≠ [] → ∀ tag ∈ required.members, tag ∈ w.tags.members)) := by
  unfold fitsTags SortedSet.isEmpty
  by_cases htags : w.tags.members = []
  · simp [htags]
  · by_cases hrequired : required.members = []
    · simp [htags, hrequired]
    · simp [htags, hrequired, SortedSet.subset_iff]

theorem mayTake_iff {w : Worker} {e : QueueEntry} {p : Criteria} :
    w.MayTake e p ↔ w.eligible e p = true := by
  rw [eligible, Bool.and_eq_true_iff, Bool.and_eq_true_iff, covers_iff, isReady_iff, fitsTags_iff]
  constructor
  · intro h
    exact ⟨⟨h.scope, h.capacity, h.contact⟩, h.untagged, h.tagged⟩
  · rintro ⟨⟨hscope, hcapacity, hcontact⟩, huntagged, htagged⟩
    exact ⟨hscope, hcontact, hcapacity, huntagged, htagged⟩

end Worker

/-! ### One ranking -/

section

variable {e : QueueEntry} {workers : List Worker} {p : Criteria}

/-- Of workers with different names, one that does not come after another precedes it. -/
lemma precedes_rankBy (hnames : (workers.map Worker.id).Nodup) :
    (rankBy Worker.rankedBefore workers).Pairwise Worker.Precedes := by
  have hdistinct : (rankBy Worker.rankedBefore workers).Pairwise fun a b => a.id ≠ b.id :=
    List.pairwise_map.1 (((rankBy_perm _ workers).map Worker.id).nodup_iff.2 hnames)
  have hordered : (rankBy Worker.rankedBefore workers).Pairwise fun a b =>
      a.rankedBefore b = true :=
    pairwise_rankBy Worker.rankedBefore_trans Worker.rankedBefore_total workers
  refine hdistinct.imp₂ (fun a b hne hbefore => ?_) hordered
  exact (Worker.precedes_or_gt fun heven => hne heven.2).resolve_right
    (Worker.rankedBefore_iff.1 hbefore)

theorem precedes_rank (hnames : (workers.map Worker.id).Nodup) :
    (rank e workers p).Pairwise Worker.Precedes :=
  precedes_rankBy (hnames.sublist (List.filter_sublist.map Worker.id))

/-- **Candidates in another order are ranked alike.** -/
theorem rank_congr {others : List Worker} (hnames : (workers.map Worker.id).Nodup)
    (hperm : others.Perm workers) : rank e others p = rank e workers p := by
  have hnames' : (others.map Worker.id).Nodup := (hperm.map Worker.id).nodup_iff.2 hnames
  have hsame : (rank e others p).Perm (rank e workers p) :=
    (rankBy_perm _ _).trans ((hperm.filter _).trans (rankBy_perm _ _).symm)
  exact hsame.eq_of_pairwise (fun a b _ _ h h' => absurd h' h.asymm) (precedes_rank hnames')
    (precedes_rank hnames)

end

/-! ### The workers of the registry -/

inductive RegistryCall
  | heartbeat (h : Heartbeat)
  | takePlace (id : WorkerId) (now : Timestamp)
  | release (id : WorkerId)

namespace Registry

variable {r : Registry}

def call (r : Registry) : RegistryCall → Registry
  | .heartbeat h => (r.heartbeat h).2
  | .takePlace id now => (r.takePlace id now).2
  | .release id => (r.release id).2

def afterAll (r : Registry) (calls : List RegistryCall) : Registry := calls.foldl call r

/-- Workers are filed under their names. -/
def Named (r : Registry) : Prop := ∀ id worker, r.get? id = some worker → worker.id = id

lemma call_eq_or_put (r : Registry) (c : RegistryCall) :
    r.call c = r ∨ ∃ worker, r.call c = r.put worker := by
  cases c with
  | heartbeat h =>
    right
    show ∃ worker, (r.heartbeat h).2 = r.put worker
    rw [heartbeat_eq]
    exact ⟨_, rfl⟩
  | takePlace id now =>
    show (r.takePlace id now).2 = r ∨ ∃ worker, (r.takePlace id now).2 = r.put worker
    cases h : (r.takePlace id now).1 with
    | some reason => exact .inl (r.takePlace_of_blocked h)
    | none =>
      obtain ⟨worker, -, -, -, htaken⟩ := r.takePlace_eq_none h
      exact .inr ⟨_, htaken⟩
  | release id =>
    show (r.release id).2 = r ∨ ∃ worker, (r.release id).2 = r.put worker
    unfold release
    split
    · exact .inl rfl
    · split
      · exact .inl rfl
      · exact .inr ⟨_, rfl⟩

lemma Named.put (h : r.Named) (worker : Worker) : (r.put worker).Named := by
  intro id other hget
  rw [get?_put] at hget
  split at hget
  · rename_i hid
    cases hget
    exact hid.symm
  · exact h id other hget

lemma Named.afterAll (h : r.Named) (calls : List RegistryCall) : (r.afterAll calls).Named := by
  induction calls generalizing r with
  | nil => exact h
  | cons c calls ih =>
    have hnext : (r.call c).Named := by
      rcases r.call_eq_or_put c with hsame | ⟨worker, hput⟩
      · rw [hsame]
        exact h
      · rw [hput]
        exact h.put worker
    exact ih hnext

lemma Named.map_values (h : r.Named) : r.workers.values.map Worker.id = r.workers.keys := by
  unfold Table.values Table.keys
  rw [List.map_map]
  refine List.map_congr_left fun row hrow => ?_
  exact h row.1 row.2 ((Table.mem_pairs r.workers.distinct).1 hrow)

lemma Named.nodup_values (h : r.Named) : (r.workers.values.map Worker.id).Nodup := by
  rw [h.map_values]
  exact r.workers.distinct

lemma mem_rank_iff {e : QueueEntry} {p : Criteria} {id : WorkerId} {worker : Worker}
    (hget : r.get? id = some worker) :
    worker ∈ rank e r.workers.values p ↔ rank e [worker] p ≠ [] := by
  rw [mem_rank, ne_eq, rank_singleton, Bool.not_eq_false]
  exact and_iff_right (Table.mem_values.2 ⟨id, hget⟩)

end Registry

/-- **A ranking is canonical.** Of candidates with different names it has those that may take the
entry, each once and each before all that it precedes, whatever order they come in. For any registry
and at any time, what a tick ranks is what a ranking of all registered workers gives, and of those
that are available, in any order; and a worker is in it if and only if it is ranked alone, by the
criteria of that instant. -/
theorem ranking_canonical (e : QueueEntry) :
    (∀ (candidates : List Worker) (p : Criteria), (candidates.map Worker.id).Nodup →
      (∀ worker, worker ∈ rank e candidates p ↔ worker ∈ candidates ∧ worker.MayTake e p) ∧
      (rank e candidates p).Nodup ∧ (rank e candidates p).Pairwise Worker.Precedes ∧
      ∀ others : List Worker, others.Perm candidates → rank e others p = rank e candidates p) ∧
    ∀ (w : World) (staleAfter : Int) (calls : List RegistryCall) (untaggedOnly : Bool),
      w.registry = (Registry.empty staleAfter).afterAll calls →
      let p : Criteria := ⟨w.now, w.registry.staleAfter, untaggedOnly⟩
      ∃ ranking, (rankWorkers untaggedOnly e).run w = (ranking, w) ∧
        (currentCriteria untaggedOnly).run w = (p, w) ∧
        (∀ workers : List Worker, workers.Perm w.registry.workers.values →
          rank e workers p = ranking) ∧
        (∀ workers : List Worker, workers.Perm (w.registry.available e.project w.now) →
          rank e workers p = ranking) ∧
        ∀ id worker, w.registry.get? id = some worker →
          (rank e [worker] p ≠ [] ↔ worker ∈ ranking) := by
  refine ⟨fun candidates p hnames => ?_, fun w staleAfter calls untaggedOnly hregistry => ?_⟩
  · refine ⟨fun worker => ?_, (precedes_rank hnames).nodup, precedes_rank hnames,
      fun others hperm => rank_congr hnames hperm⟩
    rw [mem_rank, Worker.mayTake_iff]
  · intro p
    have hnamed : w.registry.Named := by
      rw [hregistry]
      exact Registry.Named.afterAll (fun id worker hget => by cases hget) calls
    have havailable : ((w.registry.available e.project w.now).map Worker.id).Nodup :=
      hnamed.nodup_values.sublist (List.filter_sublist.map Worker.id)
    refine ⟨rank e w.registry.workers.values p, rankWorkers_run untaggedOnly e w, rfl,
      fun workers hperm => rank_congr hnamed.nodup_values hperm, fun workers hperm => ?_,
      fun id worker hget => (Registry.mem_rank_iff hget).symm⟩
    rw [rank_congr havailable hperm]
    exact Registry.rank_available untaggedOnly w.now e

/-- Two workers report, and the one with the lesser name takes a job. -/
def oneBusy : List RegistryCall :=
  let report (worker : Nat) : RegistryCall :=
    .heartbeat ⟨⟨.ofNat worker⟩, .empty, 2, .epoch, .everyProject, true⟩
  [report 5, report 7, .takePlace ⟨.ofNat 5⟩ .epoch]

def withOneBusy : World :=
  { World.initial 10 .silent .epoch with registry := (Registry.empty 10).afterAll oneBusy }

theorem ranking_canonical_withOneBusy :
    let e : QueueEntry := ⟨⟨.ofNat 2⟩, ⟨.ofNat 3⟩, .empty, .epoch, 1⟩
    let p : Criteria := ⟨.epoch, 10, true⟩
    let workers := withOneBusy.registry.workers.values
    (workers.map Worker.id).Nodup ∧ (rank e workers p).map Worker.id = [⟨.ofNat 7⟩, ⟨.ofNat 5⟩] ∧
      rank e workers.reverse p = rank e workers p ∧
      ∃ ranking, (rankWorkers true e).run withOneBusy = (ranking, withOneBusy) ∧
        rank e workers.reverse p = ranking ∧
        ∀ id worker, withOneBusy.registry.get? id = some worker →
          (rank e [worker] p ≠ [] ↔ worker ∈ ranking) := by
  intro e p workers
  have hnames : (workers.map Worker.id).Nodup := by decide +kernel
  obtain ⟨hcandidates, hregistry⟩ := ranking_canonical e
  obtain ⟨-, -, -, hperm⟩ := hcandidates workers p hnames
  obtain ⟨ranking, hrun, -, hall, -, halone⟩ := hregistry withOneBusy 10 oneBusy true rfl
  exact ⟨hnames, by decide +kernel, hperm _ (List.reverse_perm workers), ranking, hrun,
    hall _ (List.reverse_perm workers), halone⟩

end JobDispatch

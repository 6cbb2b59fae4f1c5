import JobDispatch.Proofs.Upkeep
import Mathlib.Data.Finset.Card

/-!
The places of workers are accounted for exactly: each worker runs as many jobs as there are jobs for
which a place of it is taken (`World.Staffed`). A place is taken for a job that runs, by the word of
its record, and for a job whose lock is held, by the word of the holder.
-/

namespace JobDispatch

def World.placeFor (w : World) (held : Holders) (id : JobId) : Option WorkerId :=
  match held id with
  | some t => t.place?
  | none => (w.jobs.find? id).bind Job.claimedBy?

variable {w w' : World} {held : Holders} {f : Footing}

lemma World.placeFor_update (id : JobId) (t? : Option Tenure)
    (hjobs : ∀ k, k ≠ id → w'.jobs.find? k = w.jobs.find? k) :
    w'.placeFor (Function.update held id t?) =
      Function.update (w.placeFor held) id
        (match t? with
          | some t => t.place?
          | none => (w'.jobs.find? id).bind Job.claimedBy?) := by
  funext k
  by_cases h : k = id
  · subst h
    simp only [World.placeFor, Function.update_self]
  · simp only [World.placeFor, Function.update_of_ne h, hjobs k h]

lemma World.placeFor_of_tenure {t : Tenure} (h : held t.job.id = some t) :
    w.placeFor held t.job.id = t.place? := by simp only [World.placeFor, h]

/-- A holder that revises its tenure changes the place of its job to what it then believes. -/
lemma World.placeFor_revise {t : Tenure} {g : Tenure → Tenure} (ht : f.tenure? = some t)
    (hg : (g t).job.id = t.job.id) (hjobs : w'.jobs = w.jobs) :
    w'.placeFor (held.pass f.tenure? (f.revise g).tenure?) =
      Function.update (w.placeFor held) t.job.id (g t).place? := by
  rw [Footing.pass_revise ht hg]
  exact World.placeFor_update t.job.id (some (g t)) fun _ _ => by rw [hjobs]

/-- How a request changes the place taken for a job: only taking and giving back do. -/
def Footing.placing (f : Footing) (r : Request) (w : World) (places : JobId → Option WorkerId) :
    JobId → Option WorkerId :=
  match f.tenure?, r with
  | some t, .takePlace id =>
    match (w.registry.takePlace id w.now).1 with
    | none => Function.update places t.job.id (some id)
    | some _ => places
  | some t, .release _ => Function.update places t.job.id none
  | _, _ => places

lemma World.placeFor_addJob (w : World) (draft : JobDraft) :
    (w.addJob draft).2.placeFor held = w.placeFor held := by
  cases hjob : w.jobs.find? draft.id with
  | some job => rw [w.addJob_of_known draft hjob]
  | none =>
    rw [w.addJob_of_new draft hjob]
    funext k
    simp only [World.placeFor, Table.find?_insert]
    by_cases hk : k = draft.id
    · rw [if_pos hk, hk, hjob]
      rfl
    · rw [if_neg hk]

def Request.movesPlace : Request → Bool
  | .takePlace _ | .release _ => true
  | _ => false

lemma Footing.placing_of_not {r : Request} {places : JobId → Option WorkerId}
    (h : r.movesPlace = false) : f.placing r w places = places := by
  unfold Footing.placing
  split
  · cases h
  · cases h
  · rfl

lemma World.placeFor_answer {r : Request} {post : r.Answer → Footing → Prop} (hk : w.Kept held)
    (hp : r.Permitted f post) (hf : ∀ t, f.tenure? = some t → held t.job.id = some t)
    (hfree : ∀ id, r = .lockJob id → held id = none) :
    (w.answer r).2.placeFor (held.pass f.tenure? (f.after r w).tenure?) =
      f.placing r w (w.placeFor held) := by
  have hself : held.pass f.tenure? f.tenure? = held := Holders.pass_self hf
  cases r with
  | lockJob id =>
    have hid := hk.agree id
    rw [hfree id rfl] at hid
    simp only [World.answer, Footing.after, Footing.placing, hp.1]
    cases hjob : w.jobs.find? id with
    | none => rw [hp.1, Holders.pass_none_none]
    | some job =>
      rw [hjob] at hid
      have hplace : w.placeFor held id = job.claimedBy? := by
        simp only [World.placeFor, hfree id rfl, hjob, Option.bind_some]
      rw [Footing.tenure?_hold, Holders.pass_none_some, hid.1,
        World.placeFor_update (w := w) id _ fun _ _ => rfl]
      dsimp only
      rw [← hplace, Function.update_eq_self]
  | storeJob record =>
    obtain ⟨t, ht, hfol, hset, -⟩ := hp
    have hplace := World.placeFor_of_tenure (w := w) (hf t ht)
    simp only [World.answer, Footing.after, Footing.placing, ht]
    rw [Holders.pass_some_none, ← hfol.id,
      World.placeFor_update (w := w) record.id none fun k hne => Table.find?_insert_of_ne _ _ hne]
    dsimp only
    rw [Table.find?_insert_self, Option.bind_some, ← hset.place]
    dsimp only
    rw [← hplace, hfol.id, Function.update_eq_self]
  | unlockJob id =>
    obtain ⟨t, ht, rfl, hset, -⟩ := hp
    have hplace := World.placeFor_of_tenure (w := w) (hf t ht)
    simp only [World.answer, Footing.after, Footing.placing, Footing.tenure?_letGo, ht]
    rw [Holders.pass_some_none, World.placeFor_update (w := w) t.job.id none fun _ _ => rfl]
    dsimp only
    rw [(hk.tenure (hf t ht)).1, Option.bind_some, ← hset.place, ← hplace, Function.update_eq_self]
  | push _ _ _ _ | pop _ =>
    obtain ⟨t, ht, -⟩ := hp
    have hplace := World.placeFor_of_tenure (w := w) (hf t ht)
    rw [Footing.after, World.placeFor_revise (w := w) ht (by rfl) (by rfl)]
    simp only [Footing.placing, ht]
    rw [← hplace, Function.update_eq_self]
  | takePlace id =>
    obtain ⟨t, ht, -⟩ := hp
    simp only [Footing.after]
    cases h : (w.registry.takePlace id w.now).1 with
    | some reason =>
      rw [hself]
      simp only [Footing.placing, ht, h]
      rfl
    | none =>
      rw [World.placeFor_revise (w := w) ht (by rfl) (by rfl)]
      simp only [Footing.placing, ht, h]
  | release id =>
    obtain ⟨t, ht, -⟩ := hp
    rw [Footing.after, World.placeFor_revise (w := w) ht (by rfl) (by rfl)]
    simp only [Footing.placing, ht]
  | addJob draft =>
    rw [Footing.placing_of_not (by rfl)]
    show World.placeFor _ (held.pass f.tenure? f.tenure?) = _
    rw [hself]
    exact w.placeFor_addJob draft
  | _ =>
    rw [Footing.placing_of_not (by rfl)]
    show World.placeFor _ (held.pass f.tenure? f.tenure?) = _
    rw [hself]
    rfl

/-! ### The registry -/

/-- Every worker runs as many jobs as have a place of it, and only registered workers are asked. -/
structure Registry.Staffed (r : Registry) (places : JobId → Option WorkerId) : Prop where
  named : ∀ id record, r.get? id = some record → record.id = id
  known : ∀ job id, places job = some id → ∃ record, r.get? id = some record
  counted : ∀ id record, r.get? id = some record →
    ∃ jobs : Finset JobId, (∀ job, job ∈ jobs ↔ places job = some id) ∧
      record.running.toNat = jobs.card

namespace Registry.Staffed

variable {r : Registry} {places : JobId → Option WorkerId}

lemma empty (staleAfter : Int) : (Registry.empty staleAfter).Staffed fun _ => none :=
  ⟨fun _ _ h => by simp at h, fun _ _ h => by simp at h, fun _ _ h => by simp at h⟩

lemma known_put (hs : r.Staffed places) {places' : JobId → Option WorkerId} {record : Worker}
    (h : ∀ job id, places' job = some id → places job = some id ∨ id = record.id) :
    ∀ job id, places' job = some id → ∃ record', (r.put record).get? id = some record' := by
  intro job id hplace
  rw [get?_put]
  split
  · exact ⟨record, rfl⟩
  · rename_i hne
    rcases h job id hplace with hold | hid
    · exact hs.known job id hold
    · exact absurd hid hne

/-- A worker's record changes in all but its count where its jobs stay the same. -/
lemma put (hs : r.Staffed places) {record : Worker}
    (h : ∃ jobs : Finset JobId, (∀ job, job ∈ jobs ↔ places job = some record.id) ∧
      record.running.toNat = jobs.card) : (r.put record).Staffed places := by
  refine ⟨fun id rec hget => ?_, hs.known_put fun _ _ h => .inl h, fun id rec hget => ?_⟩
  · rw [get?_put] at hget
    split at hget
    · rename_i hid; cases hget; exact hid.symm
    · exact hs.named id rec hget
  · rw [get?_put] at hget
    split at hget
    · rename_i hid; cases hget; rw [hid]; exact h
    · exact hs.counted id rec hget

lemma heartbeat (hs : r.Staffed places) (h : Heartbeat) : (r.heartbeat h).2.Staffed places := by
  rw [heartbeat_eq]
  refine hs.put ?_
  unfold after
  cases hget : r.get? h.worker with
  | some w =>
    dsimp only [Worker.refresh]
    rw [hs.named _ _ hget]
    exact hs.counted _ _ hget
  | none =>
    refine ⟨∅, fun job => ⟨fun hj => absurd hj (Finset.notMem_empty _), fun hplace => ?_⟩, rfl⟩
    obtain ⟨record, hrec⟩ := hs.known job h.worker hplace
    rw [hget] at hrec
    cases hrec

lemma put_update (hs : r.Staffed places) {job : JobId} {record : Worker} {place? : Option WorkerId}
    (hothers : ∀ id, id ≠ record.id → (places job ≠ some id ∧ place? ≠ some id))
    (h : ∃ jobs : Finset JobId,
      (∀ k, k ∈ jobs ↔ Function.update places job place? k = some record.id) ∧
        record.running.toNat = jobs.card) :
    (r.put record).Staffed (Function.update places job place?) := by
  refine ⟨fun id rec hget => ?_, hs.known_put fun k id hplace => ?_, fun id rec hget => ?_⟩
  · rw [get?_put] at hget
    split at hget
    · rename_i hid; cases hget; exact hid.symm
    · exact hs.named id rec hget
  · by_cases hk : k = job
    · subst hk
      rw [Function.update_self] at hplace
      by_contra hne
      exact (hothers id fun hid => hne (.inr hid)).2 hplace
    · rw [Function.update_of_ne hk] at hplace
      exact .inl hplace
  · rw [get?_put] at hget
    split at hget
    · rename_i hid; cases hget; rw [hid]; exact h
    · rename_i hne
      obtain ⟨jobs, hjobs, hcard⟩ := hs.counted id rec hget
      refine ⟨jobs, fun k => (hjobs k).trans ?_, hcard⟩
      by_cases hk : k = job
      · subst hk
        rw [Function.update_self]
        exact ⟨fun h => absurd h (hothers id hne).1, fun h => absurd h (hothers id hne).2⟩
      · rw [Function.update_of_ne hk]

lemma takePlace (hs : r.Staffed places) {job : JobId} {id : WorkerId} {now : Timestamp}
    (hfree : places job = none) (h : (r.takePlace id now).1 = none) :
    (r.takePlace id now).2.Staffed (Function.update places job (some id)) := by
  obtain ⟨w, hget, -, hroom, heq⟩ := takePlace_eq_none r h
  obtain ⟨jobs, hjobs, hcard⟩ := hs.counted id w hget
  have hid : w.id = id := hs.named id w hget
  rw [heq]
  refine hs.put_update (fun k hk => ⟨by rw [hfree]; exact nofun, fun hk' => hk ?_⟩) ?_
  · dsimp only
    rw [hid]
    exact (Option.some.inj hk').symm
  · have hnew : job ∉ jobs := by rw [hjobs, hfree]; exact nofun
    refine ⟨insert job jobs, fun k => ?_, ?_⟩
    · rw [Finset.mem_insert, hjobs]
      by_cases hk : k = job
      · rw [hk, Function.update_self]
        simp [hid]
      · rw [Function.update_of_ne hk, hid]
        simp [hk]
    · rw [Finset.card_insert_of_notMem hnew, ← hcard]
      exact Worker.toNat_running_succ hroom

lemma release (hs : r.Staffed places) {job : JobId} {id : WorkerId} (h : places job = some id) :
    (r.release id).1 = .released ∧
      (r.release id).2.Staffed (Function.update places job none) := by
  obtain ⟨w, hget⟩ := hs.known job id h
  obtain ⟨jobs, hjobs, hcard⟩ := hs.counted id w hget
  have hid : w.id = id := hs.named id w hget
  have hmem : job ∈ jobs := (hjobs job).2 h
  have hpos := Finset.card_pos.2 ⟨job, hmem⟩
  have hrun : w.running ≠ 0 := fun h0 => by
    rw [h0] at hcard
    exact absurd hcard (by show 0 ≠ _; omega)
  rw [release_of_running r hget hrun]
  refine ⟨rfl, hs.put_update (fun k hk => ⟨fun hk' => hk ?_, nofun⟩) ?_⟩
  · dsimp only
    rw [hid]
    exact Option.some.inj (hk'.symm.trans h)
  · refine ⟨jobs.erase job, fun k => ?_, ?_⟩
    · rw [Finset.mem_erase, hjobs]
      by_cases hk : k = job
      · rw [hk, Function.update_self]
        simp
      · rw [Function.update_of_ne hk, hid]
        simp [hk]
    · rw [Finset.card_erase_of_mem hmem, ← hcard]
      show (w.running - 1).toNat = _
      have h1 : (1 : UInt32) ≤ w.running := by
        rw [UInt32.le_iff_toNat_le]
        show 1 ≤ _
        omega
      rw [UInt32.toNat_sub_of_le _ _ h1]
      rfl

end Registry.Staffed

/-- The places of all workers are accounted for, those that holders of locks know of included. -/
def World.Staffed (w : World) (held : Holders) : Prop := w.registry.Staffed (w.placeFor held)

/-- **A permitted request keeps the account of places.** -/
theorem World.Staffed.answer {r : Request} {post : r.Answer → Footing → Prop}
    (hs : w.Staffed held) (hk : w.Kept held) (hp : r.Permitted f post)
    (hf : ∀ t, f.tenure? = some t → held t.job.id = some t)
    (hfree : ∀ id, r = .lockJob id → held id = none) :
    (w.answer r).2.Staffed (held.pass f.tenure? (f.after r w).tenure?) := by
  unfold World.Staffed
  rw [World.placeFor_answer hk hp hf hfree]
  cases r with
  | takePlace id =>
    obtain ⟨t, ht, hnone, -⟩ := hp
    have hplace := (World.placeFor_of_tenure (w := w) (hf t ht)).trans hnone
    simp only [World.answer, World.onRegistry, Footing.placing, ht]
    cases h : (w.registry.takePlace id w.now).1 with
    | some reason =>
      rw [Registry.takePlace_of_blocked _ h]
      exact hs
    | none => exact Registry.Staffed.takePlace hs hplace h
  | release id =>
    obtain ⟨t, ht, hsome, -⟩ := hp
    have hplace := (World.placeFor_of_tenure (w := w) (hf t ht)).trans hsome
    simp only [World.answer, World.onRegistry, Footing.placing, ht]
    exact (Registry.Staffed.release hs hplace).2
  | heartbeat h =>
    rw [Footing.placing_of_not (by rfl)]
    exact Registry.Staffed.heartbeat hs h
  | addJob draft =>
    rw [Footing.placing_of_not (by rfl)]
    simp only [World.answer, World.addJob]
    split <;> exact hs
  | _ =>
    rw [Footing.placing_of_not (by rfl)]
    exact hs

end JobDispatch

import JobDispatch.Proofs.Upkeep
import Mathlib.Data.Finset.Card
import Mathlib.Data.List.Pairwise

/-!
The numbers of queue entries. The index of the queue lists exactly the entries, in the order of
their numbers (`Queue.Aligned`), as long as the numbers have not run out. They cannot: a job is
queued once, so that there are at most as many numbers as jobs (`World.Numbered`).
-/

namespace JobDispatch

namespace Queue

/-- The index lists the entries, each under its number, in ascending order. -/
structure Aligned (q : Queue) : Prop where
  ascending : q.order.Pairwise fun a b => a.1 < b.1
  bounded : ∀ p ∈ q.order, p.1 ≤ q.lastSequence
  indexed : ∀ p ∈ q.order, ∃ e, q.get? p.2 = some e ∧ e.sequence = p.1
  listed : ∀ job e, q.get? job = some e → e.job = job ∧ (e.sequence, job) ∈ q.order

variable {q : Queue}

lemma aligned_empty : empty.Aligned :=
  ⟨.nil, fun _ h => absurd h List.not_mem_nil, fun _ h => absurd h List.not_mem_nil,
    fun _ _ h => by cases h⟩

lemma Aligned.job_unique (h : q.Aligned) {n : UInt64} {j k : JobId} (hj : (n, j) ∈ q.order)
    (hk : (n, k) ∈ q.order) : j = k := by
  by_contra hne
  have hdistinct : q.order.Pairwise fun a b => a.1 ≠ b.1 :=
    h.ascending.imp fun hlt => UInt64.ne_of_lt hlt
  have : Std.Symm fun a b : UInt64 × JobId => a.1 ≠ b.1 := ⟨fun _ _ => Ne.symm⟩
  exact hdistinct.forall hj hk (fun heq => hne (Prod.mk.inj heq).2) rfl

lemma Aligned.push (h : q.Aligned) {job : JobId} (project : ProjectId) (tags : Tags)
    (time : Timestamp) (hnone : q.get? job = none)
    (hroom : q.lastSequence.toNat + 1 < UInt64.size) :
    (q.push job project tags time).2.Aligned := by
  have hnext : (q.lastSequence + 1).toNat = q.lastSequence.toNat + 1 := by
    rw [UInt64.toNat_add]
    exact Nat.mod_eq_of_lt hroom
  have hlt : ∀ p ∈ q.order, p.1 < q.lastSequence + 1 := fun p hp => by
    have hle := UInt64.le_iff_toNat_le.1 (h.bounded p hp)
    rw [UInt64.lt_iff_toNat_lt, hnext]
    omega
  have hget := get?_push q job project tags time hnone
  rw [push_of_get?_eq_none q job project tags time hnone] at hget ⊢
  refine ⟨?_, fun p hp => ?_, fun p hp => ?_, fun k e he => ?_⟩
  · rw [List.pairwise_append]
    refine ⟨h.ascending, List.pairwise_singleton _ _, fun a ha b hb => ?_⟩
    rw [List.mem_singleton.1 hb]
    exact hlt a ha
  · rcases List.mem_append.1 hp with hp | hp
    · exact UInt64.le_of_lt (hlt p hp)
    · rw [List.mem_singleton.1 hp]
      exact UInt64.le_refl _
  · rw [hget]
    rcases List.mem_append.1 hp with hp | hp
    · obtain ⟨e, he, hseq⟩ := h.indexed p hp
      refine ⟨e, ?_, hseq⟩
      rw [if_neg fun hk => ?_]
      · exact he
      · rw [hk, hnone] at he
        cases he
    · rw [List.mem_singleton.1 hp, if_pos rfl]
      exact ⟨_, rfl, rfl⟩
  · rw [hget] at he
    split at he
    · rename_i hk
      cases he
      exact ⟨hk.symm, List.mem_append_right _ (by rw [hk]; exact List.mem_singleton_self _)⟩
    · obtain ⟨hjob, hmem⟩ := h.listed k e he
      exact ⟨hjob, List.mem_append_left _ hmem⟩

lemma order_pop {job : JobId} {e : QueueEntry} (h : q.get? job = some e) :
    (q.pop job).2.order = q.order.filter fun p => p.1 != e.sequence := by
  have h' : q.entries.find? job = some e := h
  unfold pop
  rw [h']

lemma pop_of_get?_eq_none {job : JobId} (h : q.get? job = none) : (q.pop job).2 = q := by
  have h' : q.entries.find? job = none := h
  unfold pop
  rw [h']

lemma Aligned.pop (h : q.Aligned) (job : JobId) : (q.pop job).2.Aligned := by
  cases hjob : q.get? job with
  | none => rw [pop_of_get?_eq_none hjob]; exact h
  | some e =>
    refine ⟨?_, fun p hp => ?_, fun p hp => ?_, fun k e' he => ?_⟩
    · rw [order_pop hjob]
      exact h.ascending.filter _
    · rw [order_pop hjob] at hp
      rw [lastSequence_pop]
      exact h.bounded p (List.mem_filter.1 hp).1
    · rw [order_pop hjob] at hp
      obtain ⟨hmem, hne⟩ := List.mem_filter.1 hp
      obtain ⟨e', he', hseq⟩ := h.indexed p hmem
      refine ⟨e', ?_, hseq⟩
      rw [get?_pop, if_neg fun hk => ?_]
      · exact he'
      · rw [hk, hjob] at he'
        cases he'
        simp [hseq] at hne
    · rw [get?_pop] at he
      split at he
      · cases he
      rename_i hk
      obtain ⟨hid, hmem⟩ := h.listed k e' he
      refine ⟨hid, ?_⟩
      rw [order_pop hjob]
      refine List.mem_filter.2 ⟨hmem, ?_⟩
      have hmem' := (h.listed job e hjob).2
      have hne : e'.sequence ≠ e.sequence := fun hseq => by
        rw [← hseq] at hmem'
        exact hk (h.job_unique hmem hmem')
      simpa using hne

end Queue

/-! ### As many numbers as jobs -/

/-- Numbers were given out for distinct jobs that have left `created` or are about to; and the index
is in order as long as the table of jobs has room. -/
structure World.Numbered (w : World) : Prop where
  given : ∃ jobs : Finset JobId,
    (∀ id ∈ jobs, ∃ job, w.jobs.find? id = some job ∧
      (job.state ≠ .created ∨ (w.queue.queue.get? id).isSome = true)) ∧
    w.queue.queue.lastSequence.toNat ≤ jobs.card
  aligned : w.jobs.size < UInt64.size → w.queue.queue.Aligned

variable {w w' : World} {held : Holders} {f : Footing}

lemma World.Numbered.congr (hn : w.Numbered) (hjobs : w'.jobs = w.jobs)
    (hqueue : w'.queue.queue = w.queue.queue) : w'.Numbered := by
  obtain ⟨hgiven, haligned⟩ := hn
  rw [← hjobs, ← hqueue] at hgiven haligned
  exact ⟨hgiven, haligned⟩

/-- The jobs that numbers were given out for are in the table. -/
lemma World.card_le_size {jobs : Finset JobId}
    (h : ∀ id ∈ jobs, ∃ job, w.jobs.find? id = some job) : jobs.card ≤ w.jobs.size := by
  have hsub : jobs ⊆ w.jobs.keys.toFinset := fun id hid => by
    obtain ⟨job, hjob⟩ := h id hid
    exact List.mem_toFinset.2 (Table.mem_keys_of_find? hjob)
  calc jobs.card ≤ w.jobs.keys.toFinset.card := Finset.card_le_card hsub
    _ ≤ w.jobs.keys.length := List.toFinset_card_le _
    _ = w.jobs.size := Table.length_keys _

/-- A record that replaces another one is not of a job just created. -/
lemma Job.Follows.state_ne_created {new old : Job} (h : new.Follows old) :
    new.state ≠ .created := by
  intro hnew
  have hedge := h.edge
  rw [hnew] at hedge
  cases hold : old.state <;> simp [Edge.inLifecycle, hold] at hedge

lemma World.Numbered.push (hn : w.Numbered) (hsure : w.queue.Sure) {job : Job}
    (hjob : w.jobs.find? job.id = some job) (hcreated : job.state = .created)
    (hget : w.queue.queue.get? job.id = none) (project : ProjectId) (tags : Tags)
    (time : Timestamp) : (w.answer (.push job.id project tags time)).2.Numbered := by
  obtain ⟨jobs, hjobs, hcard⟩ := hn.given
  rcases World.push_cases hsure project tags time hget with ⟨e, -, hq⟩ | ⟨receipt, -, hq⟩
  · exact hn.congr rfl hq
  have hnew : job.id ∉ jobs := fun hmem => by
    obtain ⟨job', hfind, h⟩ := hjobs _ hmem
    rw [hjob] at hfind
    cases hfind
    rw [hget] at h
    exact h.elim (fun h => h hcreated) nofun
  have hlast : (w.answer (.push job.id project tags time)).2.queue.queue.lastSequence =
      w.queue.queue.lastSequence + 1 := by
    rw [hq, Queue.push_of_get?_eq_none _ _ _ _ _ hget]
  have hgiven : ∀ id ∈ insert job.id jobs, ∃ job', w.jobs.find? id = some job' ∧
      (job'.state ≠ .created ∨
        ((w.answer (.push job.id project tags time)).2.queue.queue.get? id).isSome = true) := by
    intro id hid
    rw [hq, Queue.get?_push _ _ _ _ _ hget]
    rcases Finset.mem_insert.1 hid with rfl | hid
    · exact ⟨job, hjob, .inr (by rw [if_pos rfl]; rfl)⟩
    · rw [if_neg fun h => hnew (by rw [← h]; exact hid)]
      exact hjobs id hid
  have hle : w.queue.queue.lastSequence.toNat + 1 ≤ (insert job.id jobs).card := by
    rw [Finset.card_insert_of_notMem hnew]
    omega
  refine ⟨⟨insert job.id jobs, hgiven, ?_⟩, fun hsize => ?_⟩
  · rw [hlast, UInt64.toNat_add]
    exact le_trans (Nat.mod_le _ _) hle
  · have hroom : (insert job.id jobs).card ≤ w.jobs.size :=
      World.card_le_size fun id hid => (hgiven id hid).imp fun _ h => h.1
    have hsize' : w.jobs.size < UInt64.size := hsize
    rw [hq]
    exact (hn.aligned hsize').push project tags time hget (by omega)

lemma World.Numbered.pop (hn : w.Numbered) (hsure : w.queue.Sure) {job : Job}
    (hjob : w.jobs.find? job.id = some job) (hleft : job.state ≠ .created) :
    (w.answer (.pop job.id)).2.Numbered := by
  obtain ⟨jobs, hjobs, hcard⟩ := hn.given
  rcases World.pop_cases hsure job.id with ⟨e, -, hq⟩ | ⟨-, hq⟩
  · exact hn.congr rfl hq
  refine ⟨⟨jobs, fun id hid => ?_, ?_⟩, fun hsize => ?_⟩
  · rw [hq, Queue.get?_pop]
    by_cases h : id = job.id
    · rw [h]
      exact ⟨job, hjob, .inl hleft⟩
    · rw [if_neg h]
      exact hjobs id hid
  · rw [hq, Queue.lastSequence_pop]
    exact hcard
  · rw [hq]
    exact (hn.aligned hsize).pop job.id

lemma World.Numbered.storeJob (hn : w.Numbered) {record : Job} (h : record.state ≠ .created) :
    (w.answer (.storeJob record)).2.Numbered := by
  obtain ⟨jobs, hjobs, hcard⟩ := hn.given
  refine ⟨⟨jobs, fun id hid => ?_, hcard⟩, fun hsize => hn.aligned ?_⟩
  · show ∃ job, (w.jobs.insert record.id record).find? id = some job ∧ _
    rw [Table.find?_insert]
    split
    · exact ⟨record, rfl, .inl h⟩
    · exact hjobs id hid
  · exact lt_of_le_of_lt (Table.size_insert_ge _ _ _) hsize

lemma World.Numbered.addJob (hn : w.Numbered) (draft : JobDraft) : (w.addJob draft).2.Numbered := by
  obtain ⟨jobs, hjobs, hcard⟩ := hn.given
  cases hjob : w.jobs.find? draft.id with
  | some job => rw [w.addJob_of_known draft hjob]; exact hn
  | none =>
    rw [w.addJob_of_new draft hjob]
    refine ⟨⟨jobs, fun id hid => ?_, hcard⟩, fun hsize => hn.aligned ?_⟩
    · obtain ⟨job, hfind, h⟩ := hjobs id hid
      refine ⟨job, ?_, h⟩
      dsimp only
      rw [Table.find?_insert_of_ne]
      · exact hfind
      · rintro rfl
        rw [hjob] at hfind
        cases hfind
    · exact lt_of_le_of_lt (Table.size_insert_ge _ _ _) hsize

/-- **A permitted request keeps the numbers.** -/
theorem World.Numbered.answer {r : Request} {post : r.Answer → Footing → Prop} (hn : w.Numbered)
    (hk : w.Kept held) (hp : r.Permitted f post)
    (hf : ∀ t, f.tenure? = some t → held t.job.id = some t) : (w.answer r).2.Numbered := by
  cases r with
  | push id project tags time =>
    obtain ⟨t, ht, rfl, hcreated, hnone, -⟩ := hp
    obtain ⟨hjob, hget⟩ := hk.tenure (hf t ht)
    exact hn.push hk.sure hjob hcreated (hget.trans hnone) project tags time
  | pop id =>
    obtain ⟨t, ht, rfl, hleft, -⟩ := hp
    exact hn.pop hk.sure (hk.tenure (hf t ht)).1 hleft
  | storeJob record =>
    obtain ⟨t, ht, hfol, -⟩ := hp
    exact hn.storeJob hfol.state_ne_created
  | addJob draft => exact hn.addJob draft
  | _ => exact hn.congr rfl (World.queue_answer (by rfl))

end JobDispatch

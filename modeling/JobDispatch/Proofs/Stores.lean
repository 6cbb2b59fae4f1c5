import JobDispatch.World
import Mathlib.Logic.Basic
import Mathlib.Tactic.ByContra
import Mathlib.Tactic.Lemma

/-!
What the calls on the stores do to what can be read from them: the queue by job, a store that may
fail, and the registry by worker.

A store whose planned faults are all errors (`Sure`) either fails without effect or does what the
queue does (`guarded_cases`); with no fault planned it is the queue.
-/

namespace JobDispatch

lemma toNat_pos_of_ne_zero {n : UInt64} (h : n ≠ 0) : 0 < n.toNat :=
  UInt64.lt_iff_toNat_lt.1 (UInt64.pos_iff_ne_zero.2 h)

/-! ### Tables -/

namespace Table

variable {κ ν : Type} [DecidableEq κ]

lemma length_putIn_ge (k : κ) (v : ν) (ps : List (κ × ν)) :
    ps.length ≤ (putIn k v ps).length := by
  induction ps with
  | nil => exact Nat.zero_le _
  | cons p ps ih =>
    unfold putIn
    split
    · exact Nat.le_refl _
    · exact Nat.succ_le_succ ih

lemma size_insert_ge (t : Table κ ν) (k : κ) (v : ν) : t.size ≤ (t.insert k v).size :=
  length_putIn_ge k v t.entries

lemma length_putIn_le (k : κ) (v : ν) (ps : List (κ × ν)) :
    (putIn k v ps).length ≤ ps.length + 1 := by
  induction ps with
  | nil => exact Nat.le_refl _
  | cons p ps ih =>
    unfold putIn
    split
    · exact Nat.le_succ _
    · exact Nat.succ_le_succ ih

lemma size_insert_le (t : Table κ ν) (k : κ) (v : ν) : (t.insert k v).size ≤ t.size + 1 :=
  length_putIn_le k v t.entries

lemma mem_keys_of_find? {t : Table κ ν} {k : κ} {v : ν} (h : t.find? k = some v) :
    k ∈ t.keys := by
  by_contra hk
  rw [find?, findIn_eq_none_iff.2 hk] at h
  cases h

lemma mem_pairs {k : κ} {v : ν} {ps : List (κ × ν)} (h : (ps.map Prod.fst).Nodup) :
    (k, v) ∈ ps ↔ findIn k ps = some v := by
  induction ps with
  | nil => simp [findIn]
  | cons p ps ih =>
    rw [List.map_cons, List.nodup_cons] at h
    simp only [findIn, List.mem_cons]
    split
    · rename_i hk
      subst hk
      constructor
      · rintro (heq | hmem)
        · rw [← heq]
        · exact absurd (List.mem_map_of_mem (f := Prod.fst) hmem) h.1
      · rintro hv
        cases hv
        exact .inl rfl
    · rename_i hk
      rw [← ih h.2]
      exact ⟨fun hmem => hmem.resolve_left fun heq => hk (by rw [← heq]), .inr⟩

lemma mem_keys {t : Table κ ν} {k : κ} : k ∈ t.keys ↔ ∃ v, t.find? k = some v := by
  refine ⟨fun hk => ?_, fun ⟨v, hv⟩ => mem_keys_of_find? hv⟩
  obtain ⟨⟨k', v⟩, hmem, rfl⟩ := List.mem_map.1 hk
  exact ⟨v, (mem_pairs t.distinct).1 hmem⟩

lemma mem_values {t : Table κ ν} {v : ν} : v ∈ t.values ↔ ∃ k, t.find? k = some v := by
  unfold values find?
  rw [List.mem_map]
  constructor
  · rintro ⟨⟨k, v'⟩, hmem, rfl⟩
    exact ⟨k, (mem_pairs t.distinct).1 hmem⟩
  · rintro ⟨k, hfind⟩
    exact ⟨(k, v), (mem_pairs t.distinct).2 hfind, rfl⟩

omit [DecidableEq κ] in
lemma length_keys (t : Table κ ν) : t.keys.length = t.size := List.length_map _

lemma size_insert_of_find? {t : Table κ ν} {k : κ} {old : ν} (v : ν) (h : t.find? k = some old) :
    (t.insert k v).size = t.size := by
  obtain ⟨ps, hps⟩ := t
  change findIn k ps = some old at h
  show (putIn k v ps).length = ps.length
  clear hps
  induction ps with
  | nil => cases h
  | cons p ps ih =>
    unfold findIn at h
    unfold putIn
    split at h
    · rename_i hk
      rw [if_pos hk, List.length_cons, List.length_cons]
    · rename_i hk
      rw [if_neg hk, List.length_cons, List.length_cons, ih h]

omit [DecidableEq κ] in
lemma ext_entries {t t' : Table κ ν} (h : t.entries = t'.entries) : t = t' := by
  cases t
  cases t'
  cases h
  rfl

lemma putIn_putIn (k : κ) (v v' : ν) (ps : List (κ × ν)) :
    putIn k v' (putIn k v ps) = putIn k v' ps := by
  induction ps with
  | nil => simp [putIn]
  | cons p ps ih =>
    by_cases hk : p.1 = k
    · simp [putIn, hk]
    · simp [putIn, hk, ih]

lemma insert_insert (t : Table κ ν) (k : κ) (v v' : ν) :
    (t.insert k v).insert k v' = t.insert k v' := ext_entries (putIn_putIn k v v' t.entries)

end Table

/-! ### The queue by job -/

namespace Queue

variable (q : Queue) (job : JobId) (project : ProjectId) (tags : Tags) (time : Timestamp)

lemma contains_entries : q.entries.contains job = (q.get? job).isSome := rfl

def newEntry : QueueEntry := ⟨job, project, tags, time, q.lastSequence + 1⟩

lemma push_of_get?_eq_none (h : q.get? job = none) :
    q.push job project tags time =
      (.ok ⟨job, q.lastSequence + 1⟩,
        { entries := q.entries.insert job (q.newEntry job project tags time)
          order := q.order ++ [(q.lastSequence + 1, job)]
          lastSequence := q.lastSequence + 1 }) := by
  unfold push
  rw [contains_entries, h]
  rfl

lemma push_of_get? {e : QueueEntry} (h : q.get? job = some e) :
    q.push job project tags time = (.error (.duplicateEntry job), q) := by
  unfold push
  rw [contains_entries, h]
  rfl

lemma get?_push (h : q.get? job = none) (k : JobId) :
    (q.push job project tags time).2.get? k =
      if k = job then some (q.newEntry job project tags time) else q.get? k := by
  rw [push_of_get?_eq_none q job project tags time h]
  exact Table.find?_insert _ _ _ _

lemma pop_fst : (q.pop job).1 = (q.get? job).isSome := by
  unfold pop get?
  cases q.entries.find? job <;> rfl

lemma get?_pop (k : JobId) : (q.pop job).2.get? k = if k = job then none else q.get? k := by
  unfold pop get?
  split
  · rename_i h
    split
    · rename_i hk; rw [hk]; exact h
    · rfl
  · exact Table.find?_erase _ _ _

lemma lastSequence_pop : (q.pop job).2.lastSequence = q.lastSequence := by
  unfold pop
  split <;> rfl

end Queue

/-! ### A store that may fail -/

namespace FallibleQueue

/-- No planned fault hides an entry: a struck call fails. -/
def Sure (s : FallibleQueue) : Prop := ∀ f ∈ s.plan, f.failure ≠ .miss

/-- What holds of all planned failures holds of the one that strikes and of those left. -/
lemma strike_all {P : Failure → Prop} (call : QueueCall) {plan : List Fault}
    (h : ∀ f ∈ plan, P f.failure) :
    (∀ failure, (strike call plan).1 = some failure → P failure) ∧
      ∀ f ∈ (strike call plan).2, P f.failure := by
  induction plan with
  | nil => exact ⟨nofun, h⟩
  | cons f plan ih =>
    have hf := h f List.mem_cons_self
    have hplan := fun g hg => h g (List.mem_cons_of_mem _ hg)
    unfold strike
    split
    · split
      · refine ⟨fun failure hfailure => ?_, hplan⟩
        cases hfailure
        exact hf
      · refine ⟨nofun, fun g hg => ?_⟩
        rcases List.mem_cons.1 hg with rfl | hg
        · exact hf
        · exact hplan g hg
    · refine ⟨(ih hplan).1, fun g hg => ?_⟩
      rcases List.mem_cons.1 hg with rfl | hg
      · exact hf
      · exact (ih hplan).2 g hg

lemma strike_planned {call : QueueCall} {plan : List Fault} {failure : Failure}
    (h : (strike call plan).1 = some failure) :
    ∃ f ∈ plan, f.call = call ∧ f.failure = failure := by
  induction plan with
  | nil => cases h
  | cons f plan ih =>
    unfold strike at h
    split at h
    · rename_i hcall
      split at h
      · exact ⟨f, List.mem_cons_self, hcall, Option.some.inj h⟩
      · cases h
    · obtain ⟨g, hg, hfound⟩ := ih h
      exact ⟨g, List.mem_cons_of_mem _ hg, hfound⟩

variable {α : Type} {s : FallibleQueue} (call : QueueCall) (onMiss : Option α)
  (act : Queue → Except DispatchError α × Queue)

lemma guarded_plan {P : Failure → Prop} (h : ∀ f ∈ s.plan, P f.failure) :
    ∀ f ∈ (s.guarded call onMiss act).2.plan, P f.failure := by
  have hplan := (strike_all call h).2
  unfold guarded
  rcases hs : strike call s.plan with ⟨_ | e | _, plan⟩
  · rw [hs] at hplan
    exact hplan
  · rw [hs] at hplan
    exact hplan
  · rw [hs] at hplan
    cases onMiss <;> exact hplan

lemma guarded_error {P : Failure → Prop} (h : ∀ f ∈ s.plan, P f.failure) {e : DispatchError}
    (he : (s.guarded call onMiss act).1 = .error e) :
    P (.error e) ∨ (act s.queue).1 = .error e := by
  have hstruck := (strike_all call h).1
  unfold guarded at he
  split at he
  · rename_i hs
    cases he
    exact .inl (hstruck _ (congrArg Prod.fst hs))
  · cases he
  · exact .inr he

lemma guarded_cases (h : s.Sure) :
    ((∃ e, (s.guarded call onMiss act).1 = .error e ∧
        (s.guarded call onMiss act).2.queue = s.queue) ∨
      ((s.guarded call onMiss act).1 = (act s.queue).1 ∧
        (s.guarded call onMiss act).2.queue = (act s.queue).2)) ∧
    (s.guarded call onMiss act).2.Sure := by
  refine ⟨?_, guarded_plan call onMiss act (P := (· ≠ .miss)) h⟩
  have hmiss := (strike_all (P := (· ≠ .miss)) call h).1
  unfold guarded
  rcases hs : strike call s.plan with ⟨struck, plan⟩
  rw [hs] at hmiss
  rcases struck with _ | e | _
  · exact .inr ⟨rfl, rfl⟩
  · exact .inl ⟨e, rfl, rfl⟩
  · exact absurd rfl (hmiss .miss rfl)

lemma guarded_through :
    (s.guarded call onMiss act).2.queue = s.queue ∨
      (s.guarded call onMiss act).1 = (act s.queue).1 ∧
        (s.guarded call onMiss act).2.queue = (act s.queue).2 := by
  unfold guarded
  split
  · exact .inl rfl
  · exact .inl rfl
  · exact .inr ⟨rfl, rfl⟩

lemma guarded_of_plan_eq_nil (h : s.plan = []) :
    s.guarded call onMiss act = ((act s.queue).1, ⟨(act s.queue).2, []⟩) := by
  unfold guarded
  rw [h]
  rfl

lemma guarded_of_read (h : ∀ q, (act q).2 = q) :
    (s.guarded call onMiss act).2.queue = s.queue := by
  unfold guarded
  split
  · rfl
  · rfl
  · exact h _

lemma Sure.arm (h : s.Sure) (skip : Nat) (e : DispatchError) :
    (s.arm ⟨call, skip, .error e⟩).Sure := by
  intro f hf
  rcases List.mem_append.1 hf with hf | hf
  · exact h f hf
  · rw [List.mem_singleton.1 hf]
    exact nofun

end FallibleQueue

/-! ### The registry by worker -/

lemma Worker.toNat_running_succ {w : Worker} (h : w.running < w.capacity) :
    (w.running + 1).toNat = w.running.toNat + 1 := by
  have hlt := UInt32.lt_iff_toNat_lt.1 h
  have hmax := w.capacity.toNat_lt
  have hone : (1 : UInt32).toNat = 1 := rfl
  rw [UInt32.toNat_add, hone]
  exact Nat.mod_eq_of_lt (by omega)

namespace Registry

variable (r : Registry)

@[simp] lemma get?_empty (d : Int) (id : WorkerId) : (empty d).get? id = none := rfl

lemma get?_put (w : Worker) (id : WorkerId) :
    (r.put w).get? id = if id = w.id then some w else r.get? id := Table.find?_insert _ _ _ _

def after (h : Heartbeat) : Worker :=
  match r.get? h.worker with
  | some w => w.refresh h
  | none => .ofHeartbeat h

lemma heartbeat_eq (h : Heartbeat) :
    r.heartbeat h = ((r.after h, (r.get? h.worker).isNone), r.put (r.after h)) := by
  unfold heartbeat after
  cases r.get? h.worker <;> rfl

/-- A place that is taken was free, and its worker fresh. -/
lemma takePlace_eq_none {id : WorkerId} {now : Timestamp} (h : (r.takePlace id now).1 = none) :
    ∃ w, r.get? id = some w ∧ w.inContact now r.staleAfter = true ∧ w.running < w.capacity ∧
      (r.takePlace id now).2 =
        r.put { w with running := w.running + 1, lastClaimedAt? := some now } := by
  unfold takePlace at h ⊢
  rcases hw : r.get? id with _ | w
  · rw [hw] at h
    cases h
  · rw [hw] at h
    dsimp only at h ⊢
    by_cases hc : w.inContact now r.staleAfter = true
    · by_cases hr : w.room = 0
      · simp [hc, hr] at h
      · have hpos : 0 < w.room := UInt32.pos_iff_ne_zero.2 hr
        exact ⟨w, rfl, hc, Worker.room_pos_iff.1 hpos, by simp [hc, hr]⟩
    · simp [hc] at h

lemma takePlace_of_blocked {id : WorkerId} {now : Timestamp} {reason : Obstacle}
    (h : (r.takePlace id now).1 = some reason) : (r.takePlace id now).2 = r := by
  unfold takePlace at h ⊢
  rcases hw : r.get? id with _ | w
  · rfl
  · rw [hw] at h
    dsimp only at h ⊢
    split
    · rfl
    · split
      · rfl
      · simp_all

lemma staleAfter_takePlace (id : WorkerId) (now : Timestamp) :
    (r.takePlace id now).2.staleAfter = r.staleAfter := by
  cases h : (r.takePlace id now).1 with
  | some reason => rw [r.takePlace_of_blocked h]
  | none =>
    obtain ⟨w, -, -, -, htaken⟩ := r.takePlace_eq_none h
    rw [htaken]
    rfl

lemma release_of_running {id : WorkerId} {w : Worker} (hw : r.get? id = some w)
    (h : w.running ≠ 0) :
    r.release id = (.released, r.put { w with running := w.running - 1 }) := by
  unfold release
  rw [hw]
  simp [h]

end Registry

/-! ### The table of jobs -/

namespace World

variable (w : World) (draft : JobDraft)

lemma addJob_of_new (h : w.jobs.find? draft.id = none) :
    w.addJob draft = (some (Job.ofDraft draft w.now),
      { w with jobs := w.jobs.insert draft.id (Job.ofDraft draft w.now) }) := by
  unfold addJob Table.contains
  rw [h]
  rfl

lemma addJob_of_known {job : Job} (h : w.jobs.find? draft.id = some job) :
    w.addJob draft = (none, w) := by
  unfold addJob Table.contains
  rw [h]
  rfl

end World

end JobDispatch

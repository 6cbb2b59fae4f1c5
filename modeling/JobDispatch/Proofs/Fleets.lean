import JobDispatch.Proofs.Occupancy
import JobDispatch.Proofs.Placement
import JobDispatch.Simulation
import Mathlib.Algebra.Order.BigOperators.Group.List

/-!
A fleet of equal workers, as the registry has it (`Simulation.Fleet`): so many of its workers are
registered, and these hold so many jobs between them. A place that is taken or given back adds a job
or takes one off (`Fleet.take`, `Fleet.give`). As long as no worker is stale, an entry with the tags
of the fleet can be offered to just those that have a place to spare (`Fleet.mem_rank`); and there
is one if and only if the fleet holds fewer jobs than it has places (`Fleet.exists_room_iff`).
-/

namespace JobDispatch

/-! ### Sums -/

/-- Of numbers that are at most `c` the sum is at most `c` for each, and less if and only if one of
them is. -/
lemma sum_map_le {α : Type} (f : α → Nat) {c : Nat} {l : List α} (h : ∀ a ∈ l, f a ≤ c) :
    (l.map f).sum ≤ l.length * c ∧ ((l.map f).sum < l.length * c ↔ ∃ a ∈ l, f a < c) := by
  induction l with
  | nil => simp
  | cons a l ih =>
    have ha := h a List.mem_cons_self
    obtain ⟨hle, hlt⟩ := ih fun b hb => h b (List.mem_cons_of_mem _ hb)
    simp only [List.map_cons, List.sum_cons, List.length_cons, Nat.succ_mul,
      List.exists_mem_cons_iff, ← hlt]
    omega

namespace Table

variable {κ ν M : Type} [DecidableEq κ] {t : Table κ ν} {k : κ}

lemma entries_insert_of_new (v : ν) (h : t.find? k = none) :
    (t.insert k v).entries = t.entries ++ [(k, v)] := by
  obtain ⟨ps, hps⟩ := t
  change findIn k ps = none at h
  show putIn k v ps = ps ++ [(k, v)]
  clear hps
  induction ps with
  | nil => rfl
  | cons p ps ih =>
    unfold findIn at h
    unfold putIn
    split at h
    · cases h
    · rename_i hk
      rw [if_neg hk, ih h]
      rfl

lemma keys_insert_of_new (v : ν) (h : t.find? k = none) :
    (t.insert k v).keys = t.keys ++ [k] := by
  rw [keys, entries_insert_of_new v h, List.map_append]
  rfl

lemma values_insert_of_new (v : ν) (h : t.find? k = none) :
    (t.insert k v).values = t.values ++ [v] := by
  rw [values, entries_insert_of_new v h, List.map_append]
  rfl

lemma keys_insert_of_find? {old : ν} (v : ν) (h : t.find? k = some old) :
    (t.insert k v).keys = t.keys := by
  obtain ⟨ps, hps⟩ := t
  change findIn k ps = some old at h
  show (putIn k v ps).map Prod.fst = ps.map Prod.fst
  clear hps
  induction ps with
  | nil => cases h
  | cons p ps ih =>
    unfold findIn at h
    unfold putIn
    split at h
    · rename_i hk
      rw [if_pos hk, List.map_cons, List.map_cons, hk]
    · rename_i hk
      rw [if_neg hk, List.map_cons, List.map_cons, ih h]

lemma size_insert_of_new (v : ν) (h : t.find? k = none) : (t.insert k v).size = t.size + 1 := by
  rw [size, entries_insert_of_new v h, List.length_append]
  rfl

lemma size_erase_of_find? {old : ν} (h : t.find? k = some old) :
    (t.erase k).size + 1 = t.size := by
  obtain ⟨ps, hps⟩ := t
  change findIn k ps = some old at h
  show (eraseIn k ps).length + 1 = ps.length
  clear hps
  induction ps with
  | nil => cases h
  | cons p ps ih =>
    unfold findIn at h
    unfold eraseIn
    split at h
    · rename_i hk
      rw [if_pos hk, List.length_cons]
    · rename_i hk
      rw [if_neg hk, List.length_cons, List.length_cons, ih h]

lemma sum_insert [AddCommMonoid M] (f : ν → M) {old : ν} (v : ν) (h : t.find? k = some old) :
    ((t.insert k v).values.map f).sum + f old = (t.values.map f).sum + f v := by
  obtain ⟨ps, hps⟩ := t
  change findIn k ps = some old at h
  show (((putIn k v ps).map Prod.snd).map f).sum + f old = ((ps.map Prod.snd).map f).sum + f v
  clear hps
  induction ps with
  | nil => cases h
  | cons p ps ih =>
    unfold findIn at h
    unfold putIn
    split at h
    · rename_i hk
      cases h
      simp only [if_pos hk, List.map_cons, List.sum_cons]
      rw [add_right_comm, add_comm (f v), add_right_comm]
    · rename_i hk
      simp only [if_neg hk, List.map_cons, List.sum_cons]
      rw [add_assoc, ih h, add_assoc]

end Table

/-! ### Fleets -/

def World.NoneStale (w : World) : Prop :=
  ∀ worker ∈ w.registry.workers.values, worker.inContact w.now w.registry.staleAfter = true

instance : DecidablePred World.NoneStale := fun w =>
  inferInstanceAs (Decidable (∀ worker ∈ w.registry.workers.values, _))

namespace Simulation

variable {s : Simulation} {env : Setting} {n load : Nat} {r : Registry} {worker old new : Worker}

structure Employs (s : Simulation) (worker : Worker) : Prop where
  capacity : worker.capacity = s.capacity
  tags : worker.tags = s.tags
  scope : worker.scope = .everyProject
  runUntagged : worker.runUntagged = true
  within : worker.running ≤ worker.capacity

/-- The first `n` workers of the fleet are registered, and they hold `load` jobs. -/
structure Fleet (s : Simulation) (env : Setting) (n load : Nat) (r : Registry) : Prop where
  keys : r.workers.keys = (List.range n).map env.workerId
  named : ∀ id worker, r.get? id = some worker → worker.id = id
  employed : ∀ worker ∈ r.workers.values, s.Employs worker
  load : (r.workers.values.map fun worker => worker.running.toNat).sum = load

namespace Employs

lemma toNat_le (h : s.Employs worker) : worker.running.toNat ≤ s.capacity.toNat := by
  rw [← h.capacity]
  exact UInt32.le_iff_toNat_le.1 h.within

lemma room_iff (h : s.Employs worker) :
    worker.running < worker.capacity ↔ worker.running.toNat < s.capacity.toNat := by
  rw [UInt32.lt_iff_toNat_lt, h.capacity]

lemma fitsTags (h : s.Employs worker) (untaggedOnly : Bool) :
    worker.fitsTags s.tags untaggedOnly = true := by
  unfold Worker.fitsTags
  rw [h.tags, h.runUntagged]
  split
  · rename_i hempty
    rw [hempty]
    rfl
  · exact SortedSet.subset_iff.2 fun _ htag => htag

lemma of_same (h : s.Employs old) (hsame : new.SameReport old)
    (hwithin : new.running ≤ new.capacity) : s.Employs new := by
  unfold Worker.SameReport at hsame
  rw [hsame] at hwithin ⊢
  exact ⟨h.capacity, h.tags, h.scope, h.runUntagged, hwithin⟩

end Employs

namespace Fleet

lemma initial (s : Simulation) (env : Setting) (staleAfter : Int) :
    s.Fleet env 0 0 (.empty staleAfter) :=
  ⟨rfl, fun _ _ h => (by cases h), fun _ h => absurd h List.not_mem_nil, rfl⟩

lemma length (h : s.Fleet env n load r) : r.workers.values.length = n := by
  have hkeys := congrArg List.length h.keys
  rw [List.length_map, List.length_range, Table.keys, List.length_map] at hkeys
  rw [Table.values, List.length_map, hkeys]

lemma employs (h : s.Fleet env n load r) {id : WorkerId} (hget : r.get? id = some worker) :
    s.Employs worker := h.employed worker (Table.mem_values.2 ⟨id, hget⟩)

lemma mem_iff (h : s.Fleet env n load r) :
    worker ∈ r.workers.values ↔ r.get? worker.id = some worker := by
  rw [Table.mem_values]
  refine ⟨fun ⟨id, hget⟩ => ?_, fun hget => ⟨worker.id, hget⟩⟩
  rw [h.named id worker hget]
  exact hget

/-- **Some worker has a place to spare if and only if the fleet has.** -/
theorem exists_room_iff (h : s.Fleet env n load r) :
    (∃ worker ∈ r.workers.values, worker.running < worker.capacity) ↔
      load < n * s.capacity.toNat := by
  have hsum := sum_map_le (fun worker : Worker => worker.running.toNat)
    fun worker hmem => (h.employed worker hmem).toNat_le
  rw [← h.load, ← h.length, hsum.2]
  exact exists_congr fun worker => and_congr_right fun hmem => (h.employed worker hmem).room_iff

lemma put (h : s.Fleet env n load r) (hget : r.get? old.id = some old) (hsame : new.SameReport old)
    (hwithin : new.running ≤ new.capacity) {load' : Nat}
    (hload : load' + old.running.toNat = load + new.running.toNat) :
    s.Fleet env n load' (r.put new) := by
  have hfind : r.workers.find? new.id = some old := by
    rw [hsame.id]
    exact hget
  refine ⟨(Table.keys_insert_of_find? new hfind).trans h.keys, fun id worker hworker => ?_,
    fun worker hmem => ?_, ?_⟩
  · rw [Registry.get?_put] at hworker
    split at hworker
    · rename_i hid
      cases hworker
      exact hid.symm
    · exact h.named id worker hworker
  · obtain ⟨id, hworker⟩ := Table.mem_values.1 hmem
    change (r.put new).get? id = some worker at hworker
    rw [Registry.get?_put] at hworker
    split at hworker
    · cases hworker
      exact (h.employs hget).of_same hsame hwithin
    · exact h.employs hworker
  · have hsum := Table.sum_insert (fun worker : Worker => worker.running.toNat) new hfind
    rw [h.load] at hsum
    show ((r.workers.insert new.id new).values.map _).sum = load'
    omega

theorem take (h : s.Fleet env n load r) (hget : r.get? worker.id = some worker)
    (hroom : worker.running < worker.capacity) (time? : Option Timestamp) :
    s.Fleet env n (load + 1)
      (r.put { worker with running := worker.running + 1, lastClaimedAt? := time? }) := by
  have hsucc := Worker.toNat_running_succ hroom
  have hlt := UInt32.lt_iff_toNat_lt.1 hroom
  have hwithin : worker.running + 1 ≤ worker.capacity := by
    rw [UInt32.le_iff_toNat_le]
    omega
  have hsame : Worker.SameReport
      { worker with running := worker.running + 1, lastClaimedAt? := time? } worker := rfl
  refine h.put hget hsame hwithin ?_
  dsimp only
  omega

theorem give (h : s.Fleet env n load r) (hget : r.get? worker.id = some worker)
    (hrun : worker.running ≠ 0) :
    0 < load ∧ s.Fleet env n (load - 1) (r.put { worker with running := worker.running - 1 }) := by
  have hpos : 0 < worker.running.toNat := UInt32.lt_iff_toNat_lt.1 (UInt32.pos_iff_ne_zero.2 hrun)
  have hone : (1 : UInt32).toNat = 1 := rfl
  have hpred : (worker.running - 1).toNat = worker.running.toNat - 1 := by
    rw [UInt32.toNat_sub_of_le, hone]
    rw [UInt32.le_iff_toNat_le, hone]
    exact hpos
  have hload : worker.running.toNat ≤ load := by
    rw [← h.load]
    exact List.le_sum_of_mem (List.mem_map_of_mem (h.mem_iff.2 hget))
  have hle := UInt32.le_iff_toNat_le.1 (h.employs hget).within
  have hwithin : worker.running - 1 ≤ worker.capacity := by
    rw [UInt32.le_iff_toNat_le]
    omega
  have hsame : Worker.SameReport { worker with running := worker.running - 1 } worker := rfl
  refine ⟨by omega, h.put hget hsame hwithin ?_⟩
  dsimp only
  omega

lemma load_eq_zero (h : s.Fleet env n load r) (hidle : ∀ worker ∈ r.workers.values,
    worker.running = 0) : load = 0 := by
  rw [← h.load]
  refine List.sum_eq_zero fun m hm => ?_
  obtain ⟨worker, hmem, rfl⟩ := List.mem_map.1 hm
  rw [hidle worker hmem]
  rfl

/-! ### Those that come in -/

/-- The worker whose turn it is to register is not registered yet. -/
lemma get?_next (h : s.Fleet env n load r) (hnew : ∀ i < n, env.workerId i ≠ env.workerId n) :
    r.get? (env.workerId n) = none := by
  refine Table.findIn_eq_none_iff.2 fun hmem => ?_
  change env.workerId n ∈ r.workers.keys at hmem
  rw [h.keys] at hmem
  obtain ⟨i, hi, heq⟩ := List.mem_map.1 hmem
  exact hnew i (List.mem_range.1 hi) heq

theorem join (h : s.Fleet env n load r) (hnew : ∀ i < n, env.workerId i ≠ env.workerId n)
    (now : Timestamp) :
    s.Fleet env (n + 1) load (r.put (.ofHeartbeat (s.heartbeatOf (env.workerId n) now))) := by
  have hfind : r.workers.find? (env.workerId n) = none := h.get?_next hnew
  refine ⟨?_, fun id worker hworker => ?_, fun worker hmem => ?_, ?_⟩
  · show (r.workers.insert (env.workerId n) _).keys = _
    rw [Table.keys_insert_of_new _ hfind, h.keys, List.range_succ, List.map_append]
    rfl
  · rw [Registry.get?_put] at hworker
    split at hworker
    · rename_i hid
      cases hworker
      exact hid.symm
    · exact h.named id worker hworker
  · change worker ∈ (r.workers.insert (env.workerId n) _).values at hmem
    rw [Table.values_insert_of_new _ hfind, List.mem_append, List.mem_singleton] at hmem
    rcases hmem with hmem | rfl
    · exact h.employed worker hmem
    · exact ⟨rfl, rfl, rfl, rfl, UInt32.zero_le⟩
  · show ((r.workers.insert (env.workerId n) _).values.map _).sum = load
    rw [Table.values_insert_of_new _ hfind, List.map_append, List.sum_append, h.load]
    rfl

/-! ### Offers -/

/-- **An entry is offered to just the workers with a place to spare**, as long as none is stale. -/
theorem mem_rank (h : s.Fleet env n load r) {e : QueueEntry} (htags : e.tags = s.tags)
    {now now' : Timestamp} (untaggedOnly : Bool)
    (hnow : ∀ worker ∈ r.workers.values, worker.inContact now r.staleAfter = true)
    (hnow' : ∀ worker ∈ r.workers.values, worker.inContact now' r.staleAfter = true) :
    worker ∈ rank e (r.available e.project now) ⟨now', r.staleAfter, untaggedOnly⟩ ↔
      worker ∈ r.workers.values ∧ worker.running < worker.capacity := by
  rw [JobDispatch.mem_rank, Registry.available, List.mem_filter, and_assoc]
  refine and_congr_right fun hmem => ?_
  have hemployed := h.employed worker hmem
  have hfits := hemployed.fitsTags untaggedOnly
  simp only [Worker.eligible, Worker.isReady, hemployed.scope, Scope.covers, hnow worker hmem,
    hnow' worker hmem, htags, hfits, Bool.true_and, Bool.and_true, decide_eq_true_iff, and_self]
  exact Worker.room_pos_iff

end Fleet

end Simulation

end JobDispatch

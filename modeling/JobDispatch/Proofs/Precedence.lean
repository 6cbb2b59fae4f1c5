import JobDispatch.Matching
import Mathlib.Tactic.Lemma
import Mathlib.Tactic.Tauto

/-!
Which workers a job is offered to, and in what order. A worker may take an entry if its offer suits
the entry and it is ready (`Worker.eligible_iff`). It comes before those whose last claim was later,
a worker that never had a claim before all that had one, and among equals the lesser name comes
first (`Worker.Precedes`). Of workers with different names one comes before the other, so the first
of a ranking comes before all others that may take the entry (`head?_rank`).
-/

namespace JobDispatch

namespace Worker

def suits (w : Worker) (project : ProjectId) (tags : Tags) (untaggedOnly : Bool) : Prop :=
  w.scope.covers project = true ∧ w.fitsTags tags untaggedOnly = true

instance (w : Worker) (project : ProjectId) (tags : Tags) (untaggedOnly : Bool) :
    Decidable (w.suits project tags untaggedOnly) :=
  inferInstanceAs (Decidable (_ ∧ _))

lemma eligible_iff {w : Worker} {e : QueueEntry} {p : Criteria} : w.eligible e p = true ↔
    w.suits e.project e.tags p.untaggedOnly ∧ w.isReady p.now p.staleAfter = true := by
  unfold eligible suits
  simp only [Bool.and_eq_true]
  tauto

/-! ### The order -/

variable {a b c : Worker}

/-- The first worker went longer without a claim than the second, or as long and has the lesser
name. No claim at all is before all claims. -/
def Precedes (a b : Worker) : Prop :=
  a.lastClaimedAt? < b.lastClaimedAt? ∨
    a.lastClaimedAt? = b.lastClaimedAt? ∧ a.id.uuid.toNat < b.id.uuid.toNat

lemma claim_lt_trans {s t u : Option Timestamp} (h : s < t) (k : t < u) : s < u := by
  cases s with
  | none =>
    cases u with
    | none => cases t <;> exact k.elim
    | some _ => trivial
  | some s =>
    cases t with
    | none => exact h.elim
    | some t =>
      cases u with
      | none => exact k.elim
      | some u => exact Int.lt_trans h k

lemma claim_lt_irrefl (s : Option Timestamp) : ¬s < s := by
  cases s with
  | none => exact fun h => h
  | some s => exact Int.lt_irrefl s.nanos

lemma claim_lt_or_gt {s t : Option Timestamp} (hne : s ≠ t) : s < t ∨ t < s := by
  cases s with
  | none =>
    cases t with
    | none => exact absurd rfl hne
    | some _ => exact .inl trivial
  | some s =>
    cases t with
    | none => exact .inr trivial
    | some t =>
      refine Int.lt_or_gt_of_ne fun hnanos => hne ?_
      cases s
      cases t
      cases hnanos
      rfl

theorem Precedes.trans (h : a.Precedes b) (k : b.Precedes c) : a.Precedes c := by
  rcases h with h | ⟨h, hid⟩
  · rcases k with k | ⟨k, -⟩
    · exact .inl (claim_lt_trans h k)
    · exact .inl (k ▸ h)
  · rcases k with k | ⟨k, hid'⟩
    · exact .inl (h ▸ k)
    · exact .inr ⟨h.trans k, Nat.lt_trans hid hid'⟩

theorem Precedes.irrefl (a : Worker) : ¬a.Precedes a := by
  rintro (h | ⟨-, h⟩)
  · exact claim_lt_irrefl _ h
  · exact Nat.lt_irrefl _ h

instance : Std.Irrefl Precedes := ⟨Precedes.irrefl⟩

lemma Precedes.asymm (h : a.Precedes b) : ¬b.Precedes a := fun k => irrefl a (h.trans k)

lemma id_lt_or_gt (hne : a.id ≠ b.id) :
    a.id.uuid.toNat < b.id.uuid.toNat ∨ b.id.uuid.toNat < a.id.uuid.toNat := by
  refine Nat.lt_or_gt_of_ne fun h => hne ?_
  have huuid := Uuid.eq_of_toNat_eq h
  cases ha : a.id
  cases hb : b.id
  rw [ha, hb] at huuid
  exact congrArg WorkerId.mk huuid

lemma precedes_or_gt (hne : ¬(a.lastClaimedAt? = b.lastClaimedAt? ∧ a.id = b.id)) :
    a.Precedes b ∨ b.Precedes a := by
  by_cases hclaim : a.lastClaimedAt? = b.lastClaimedAt?
  · have hid : a.id ≠ b.id := fun h => hne ⟨hclaim, h⟩
    exact (id_lt_or_gt hid).imp (fun h => .inr ⟨hclaim, h⟩) fun h => .inr ⟨hclaim.symm, h⟩
  · exact (claim_lt_or_gt hclaim).imp .inl .inl

/-- Who precedes a worker precedes all that the worker does not come after. -/
lemma Precedes.trans_not (h : c.Precedes a) (k : ¬b.Precedes a) : c.Precedes b := by
  by_cases heven : a.lastClaimedAt? = b.lastClaimedAt? ∧ a.id = b.id
  · unfold Precedes at h ⊢
    rwa [heven.1, heven.2] at h
  · exact h.trans ((precedes_or_gt heven).resolve_right k)

/-- The test that rankings go by lets a worker come first unless the other one precedes it. -/
lemma rankedBefore_iff : a.rankedBefore b = true ↔ ¬b.Precedes a := by
  unfold rankedBefore Precedes
  split
  · rename_i hclaim
    rw [hclaim]
    simp [WorkerId.atMost, claim_lt_irrefl]
  · rename_i hclaim
    have hclaim' : b.lastClaimedAt? ≠ a.lastClaimedAt? := fun h => hclaim h.symm
    simp only [hclaim', false_and, or_false]
    cases a.lastClaimedAt? with
    | none => cases b.lastClaimedAt? <;> simp [claimedNoLater]
    | some s =>
      cases b.lastClaimedAt? with
      | none => simp [claimedNoLater]
      | some t => simp [claimedNoLater, Timestamp.le_def, Timestamp.lt_def]

lemma rankedBefore_trans (a b c : Worker) (h : a.rankedBefore b = true)
    (k : b.rankedBefore c = true) : a.rankedBefore c = true := by
  rw [rankedBefore_iff] at h k ⊢
  exact fun hca => k (hca.trans_not h)

lemma rankedBefore_total (a b : Worker) : a.rankedBefore b = true ∨ b.rankedBefore a = true := by
  rw [rankedBefore_iff, rankedBefore_iff]
  by_cases h : b.Precedes a
  · exact .inr h.asymm
  · exact .inl h

end Worker

variable {e : QueueEntry} {workers : List Worker} {p : Criteria} {worker : Worker}

lemma mem_rank : worker ∈ rank e workers p ↔ worker ∈ workers ∧ worker.eligible e p = true := by
  unfold rank
  rw [mem_rankBy, List.mem_filter]

lemma rank_singleton {p : Criteria} : rank e [worker] p = [] ↔ worker.eligible e p = false := by
  rw [List.eq_nil_iff_forall_not_mem, ← Bool.not_eq_true]
  constructor
  · exact fun h heligible => h worker (mem_rank.2 ⟨List.mem_singleton_self _, heligible⟩)
  · intro h other hmem
    obtain ⟨hother, heligible⟩ := mem_rank.1 hmem
    rw [List.mem_singleton.1 hother] at heligible
    exact h heligible

theorem pairwise_rank (e : QueueEntry) (workers : List Worker) (p : Criteria) :
    (rank e workers p).Pairwise fun a b => ¬b.Precedes a := by
  have hpairwise : (rank e workers p).Pairwise fun a b => a.rankedBefore b = true :=
    pairwise_rankBy Worker.rankedBefore_trans Worker.rankedBefore_total _
  exact hpairwise.imp Worker.rankedBefore_iff.1

/-- **The first of a ranking precedes all others that may take the entry.** -/
theorem head?_rank (h : (rank e workers p).head? = some worker) {other : Worker}
    (hmem : other ∈ workers) (heligible : other.eligible e p = true)
    (hne : other.id ≠ worker.id) : worker.Precedes other := by
  obtain ⟨rest, hcons⟩ := List.head?_eq_some_iff.1 h
  have hranked : other ∈ rank e workers p := mem_rank.2 ⟨hmem, heligible⟩
  have hpairwise := pairwise_rank e workers p
  rw [hcons] at hranked hpairwise
  have hlater : other ∈ rest := (List.mem_cons.1 hranked).resolve_left fun heq => hne (by rw [heq])
  have hnot := (List.pairwise_cons.1 hpairwise).1 other hlater
  exact (Worker.precedes_or_gt fun heven => hne heven.2.symm).resolve_right hnot

end JobDispatch

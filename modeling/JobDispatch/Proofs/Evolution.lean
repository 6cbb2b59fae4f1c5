import JobDispatch.Proofs.Paging

/-!
How the queue changes over time, and what a cursor has behind it. Numbers only grow and are given
out once, so that an entry with an old number was there before (`Queue.Evolves`). Entries that cover
the queue up to a cursor (`Covered`) therefore go on to do so, whatever comes and goes, and the page
after the cursor carries them on to its own end (`Covered.page`).
-/

namespace JobDispatch

namespace Queue

variable {q q' q'' : Queue}

/-- A queue that is in order has become another one that is. -/
structure Evolves (q q' : Queue) : Prop where
  aligned : q'.Aligned
  forward : q.lastSequence ≤ q'.lastSequence
  /-- Old numbers belong to old entries. -/
  old : ∀ id e, q'.get? id = some e → e.sequence ≤ q.lastSequence → q.get? id = some e

lemma push_of_get?_eq_some {job : JobId} {e : QueueEntry} (project : ProjectId) (tags : Tags)
    (time : Timestamp) (hjob : q.get? job = some e) : (q.push job project tags time).2 = q := by
  unfold Queue.push
  rw [contains_entries, hjob]
  rfl

namespace Evolves

lemma refl (h : q.Aligned) : q.Evolves q := ⟨h, UInt64.le_refl _, fun _ _ he _ => he⟩

lemma trans (h : q.Evolves q') (h' : q'.Evolves q'') : q.Evolves q'' where
  aligned := h'.aligned
  forward := UInt64.le_trans h.forward h'.forward
  old id e he hle := h.old id e (h'.old id e he (UInt64.le_trans hle h.forward)) hle

lemma pop (h : q.Aligned) (job : JobId) : q.Evolves (q.pop job).2 where
  aligned := h.pop job
  forward := by
    rw [lastSequence_pop]
    exact UInt64.le_refl _
  old id e he _ := by
    rw [get?_pop] at he
    split at he
    · cases he
    · exact he

lemma push (h : q.Aligned) (job : JobId) (project : ProjectId) (tags : Tags) (time : Timestamp)
    (hroom : q.lastSequence.toNat + 1 < UInt64.size) :
    q.Evolves (q.push job project tags time).2 := by
  cases hjob : q.get? job with
  | some e =>
    rw [push_of_get?_eq_some project tags time hjob]
    exact refl h
  | none =>
    have hnext : q.lastSequence.toNat < (q.lastSequence + 1).toNat := by
      rw [UInt64.toNat_add]
      have : (q.lastSequence.toNat + (1 : UInt64).toNat) % 2 ^ 64 = q.lastSequence.toNat + 1 :=
        Nat.mod_eq_of_lt hroom
      omega
    have hlt : q.lastSequence < q.lastSequence + 1 := UInt64.lt_iff_toNat_lt.2 hnext
    refine ⟨h.push project tags time hjob hroom, ?_, fun id e he hle => ?_⟩
    · rw [q.push_of_get?_eq_none job project tags time hjob]
      exact UInt64.le_of_lt hlt
    · rw [q.get?_push job project tags time hjob] at he
      split at he
      · -- the new entry has a new number
        cases he
        exact absurd hle (UInt64.not_le.2 hlt)
      · exact he

end Evolves

end Queue

/-! ### Requests -/

def Request.pushes : Request → Bool
  | .push .. => true
  | _ => false

variable {w : World}

lemma World.evolves_answer (hw : w.queue.queue.Aligned) {r : Request} (hr : r.pushes = false) :
    w.queue.queue.Evolves (w.answer r).2.queue.queue := by
  cases r with
  | push _ _ _ _ => cases hr
  | pop id =>
    rcases FallibleQueue.guarded_through (s := w.queue) .pop (some false)
      (fun q => (.ok (q.pop id).1, (q.pop id).2)) with hsame | ⟨-, hpop⟩
    · rw [show (w.answer (.pop id)).2.queue.queue = w.queue.queue from hsame]
      exact .refl hw
    · rw [show (w.answer (.pop id)).2.queue.queue = (w.queue.queue.pop id).2 from hpop]
      exact .pop hw id
  | _ =>
    rw [World.queue_answer rfl]
    exact .refl hw

lemma World.lastSequence_answer {r : Request} (hr : r.pushes = false) :
    (w.answer r).2.queue.queue.lastSequence = w.queue.queue.lastSequence := by
  cases r with
  | push _ _ _ _ => cases hr
  | pop id =>
    rcases FallibleQueue.guarded_through (s := w.queue) .pop (some false)
      (fun q => (.ok (q.pop id).1, (q.pop id).2)) with hsame | ⟨-, hpop⟩
    · rw [show (w.answer (.pop id)).2.queue.queue = w.queue.queue from hsame]
    · rw [show (w.answer (.pop id)).2.queue.queue = (w.queue.queue.pop id).2 from hpop]
      exact Queue.lastSequence_pop _ _
  | _ => rw [World.queue_answer rfl]

def World.admits (w : World) : Request → Bool
  | .push job project tags time => (w.answer (.push job project tags time)).1.toBool
  | _ => false

/-- **The queue evolves with every request**, as long as there are numbers for new entries, and
gives out one number for each of them. -/
theorem World.evolves (hw : w.queue.queue.Aligned) (r : Request)
    (hroom : w.admits r = true → w.queue.queue.lastSequence.toNat + 1 < UInt64.size) :
    w.queue.queue.Evolves (w.answer r).2.queue.queue ∧
      (w.answer r).2.queue.queue.lastSequence.toNat ≤
        w.queue.queue.lastSequence.toNat + (w.admits r).toNat := by
  cases hr : r.pushes with
  | false =>
    refine ⟨w.evolves_answer hw hr, ?_⟩
    rw [World.lastSequence_answer hr]
    exact Nat.le_add_right _ _
  | true =>
    cases r with
    | push job project tags time =>
      rcases FallibleQueue.guarded_through (s := w.queue) .push none
        (fun q => q.push job project tags time) with hsame | ⟨hanswer, hpush⟩
      · rw [show (w.answer (.push job project tags time)).2.queue.queue = _ from hsame]
        exact ⟨.refl hw, Nat.le_add_right _ _⟩
      rw [show (w.answer (.push job project tags time)).2.queue.queue = _ from hpush]
      cases hjob : w.queue.queue.get? job with
      | some e =>
        rw [show (w.queue.queue.push job project tags time).2 = w.queue.queue from
          Queue.push_of_get?_eq_some _ _ _ hjob]
        exact ⟨.refl hw, Nat.le_add_right _ _⟩
      | none =>
        have hadmits : w.admits (.push job project tags time) = true := by
          show (w.answer (.push job project tags time)).1.toBool = true
          rw [show (w.answer (.push job project tags time)).1 = _ from hanswer,
            Queue.push_of_get?_eq_none _ _ _ _ _ hjob]
          rfl
        rw [hadmits] at hroom ⊢
        refine ⟨.push hw job project tags time (hroom rfl), ?_⟩
        rw [Queue.push_of_get?_eq_none _ _ _ _ _ hjob]
        show (w.queue.queue.lastSequence + 1).toNat ≤ _
        rw [UInt64.toNat_add]
        exact Nat.mod_le _ _
    | _ => cases hr

/-! ### Up to a cursor -/

/-- The entries are those of the queue up to a cursor, and others that have left it. -/
structure Covered (after : Option Cursor) (es : List QueueEntry) (q : Queue) : Prop where
  ascending : es.Pairwise fun a b => a.sequence < b.sequence
  upTo : ∀ e ∈ es, Cursor.precedes after e.sequence = false
  all : ∀ id e, q.get? id = some e → Cursor.precedes after e.sequence = false → e ∈ es
  /-- The cursor was given out. -/
  given : ∀ c, after = some c → c.sequence ≤ q.lastSequence

namespace Covered

variable {q q' : Queue} {after : Option Cursor} {es : List QueueEntry} {limit : UInt64}

lemma start (q : Queue) : Covered none [] q :=
  ⟨.nil, fun _ h => absurd h List.not_mem_nil,
    fun _ _ _ h => absurd h.symm Bool.false_ne_true, nofun⟩

lemma evolves (h : Covered after es q) (hq : q.Evolves q') : Covered after es q' where
  ascending := h.ascending
  upTo := h.upTo
  all id e he hbefore := by
    cases after with
    | none => cases hbefore
    | some c =>
      have hle : e.sequence ≤ c.sequence := UInt64.not_lt.1 (of_decide_eq_false hbefore)
      exact h.all id e (hq.old id e he (UInt64.le_trans hle (h.given c rfl))) hbefore
  given c hc := UInt64.le_trans (h.given c hc) hq.forward

/-- Covering entries come before those after the cursor. -/
lemma lt_of_mem_entriesAfter (h : Covered after es q) {a b : QueueEntry} (ha : a ∈ es)
    (hb : b ∈ q.entriesAfter after) : a.sequence < b.sequence := by
  have hafter := (List.mem_filter.1 hb).2
  have hupTo := h.upTo a ha
  cases after with
  | none => cases hupTo
  | some c =>
    exact UInt64.lt_of_le_of_lt (UInt64.not_lt.1 (of_decide_eq_false hupTo))
      (of_decide_eq_true hafter)

lemma ascending_append (h : Covered after es q) (hq : q.Aligned) (n : Nat) :
    (es ++ (q.entriesAfter after).take n).Pairwise fun a b => a.sequence < b.sequence :=
  List.pairwise_append.2 ⟨h.ascending,
    (hq.entriesAfter_ascending after).sublist (List.take_sublist _ _),
    fun _ ha _ hb => h.lt_of_mem_entriesAfter ha (List.mem_of_mem_take hb)⟩

lemma mem_or_after (h : Covered after es q) (hq : q.Aligned) {id : JobId} {e : QueueEntry}
    (he : q.get? id = some e) : e ∈ es ∨ e ∈ q.entriesAfter after := by
  cases hafter : Cursor.precedes after e.sequence with
  | false => exact .inl (h.all id e he hafter)
  | true => exact .inr (List.mem_filter.2 ⟨hq.mem_toList_of_get? he, hafter⟩)

/-- **A page that is not the last one covers the queue up to its end.** -/
theorem page (h : Covered after es q) (hq : q.Aligned) (hlimit : limit ≠ 0)
    {next : { c : Cursor // Cursor.precedes after c.sequence = true }}
    (hnext : (q.scan limit after).next? = some next) :
    Covered (some next.1) (es ++ (q.scan limit after).entries) q := by
  have hpos : 0 < limit.toNat := toNat_pos_of_ne_zero hlimit
  have hlt : limit.toNat < (q.entriesAfter after).length := by
    by_contra hle
    rw [hq.scan_next?_of_le (Nat.not_lt.1 hle)] at hnext
    cases hnext
  obtain ⟨last, hlast⟩ := Queue.getLast?_page hpos hlt
  obtain ⟨hprecedes, hscan⟩ := hq.scan_next?_of_lt hlt hlast
  obtain rfl : ⟨last.cursor, hprecedes⟩ = next := by
    rw [hscan] at hnext
    exact Option.some.inj hnext
  have hmem : last ∈ q.entriesAfter after := List.mem_of_mem_take (List.mem_of_getLast? hlast)
  have hgot := Queue.mem_toList hq (List.mem_filter.1 hmem).1
  rw [hq.scan_entries]
  refine ⟨h.ascending_append hq _, fun e he => ?_, fun id e he hbefore => ?_, fun c hc => ?_⟩
  · refine decide_eq_false ?_
    rcases List.mem_append.1 he with he | he
    · exact UInt64.lt_asymm (h.lt_of_mem_entriesAfter he hmem)
    · exact Queue.not_lt_of_mem_take (hq.entriesAfter_ascending after) hlast he
  · rcases h.mem_or_after hq he with hold | hafter
    · exact List.mem_append_left _ hold
    · -- what the page leaves out comes after its last entry
      rw [← List.take_append_drop limit.toNat (q.entriesAfter after)] at hafter
      rcases List.mem_append.1 hafter with hpage | hrest
      · exact List.mem_append_right _ hpage
      · rw [← hq.entriesAfter_getLast hlast] at hrest
        have hlater := (List.mem_filter.1 hrest).2
        rw [show Cursor.precedes (some last.cursor) e.sequence = false from hbefore] at hlater
        cases hlater
  · cases hc
    exact hq.bounded _ (hq.listed _ last hgot).2

/-- **The last page completes the queue.** -/
theorem lastPage (h : Covered after es q) (hq : q.Aligned) (hlimit : limit ≠ 0)
    (hnone : (q.scan limit after).next? = none) :
    (es ++ (q.scan limit after).entries).Pairwise (fun a b => a.sequence < b.sequence) ∧
      ∀ id e, q.get? id = some e → e ∈ es ++ (q.scan limit after).entries := by
  have hpos : 0 < limit.toNat := toNat_pos_of_ne_zero hlimit
  have hle : (q.entriesAfter after).length ≤ limit.toNat := by
    by_contra hlt
    obtain ⟨last, hlast⟩ := Queue.getLast?_page hpos (Nat.not_le.1 hlt)
    obtain ⟨hprecedes, hscan⟩ := hq.scan_next?_of_lt (Nat.not_le.1 hlt) hlast
    rw [hscan] at hnone
    cases hnone
  rw [hq.scan_entries]
  refine ⟨h.ascending_append hq _, fun id e he => ?_⟩
  rw [List.take_of_length_le hle]
  exact List.mem_append.2 (h.mem_or_after hq he)

end Covered

end JobDispatch

import JobDispatch.Proofs.Numbering
import Mathlib.Algebra.Order.Floor.Div

/-!
Reading the queue page by page. While the numbers of the entries are in order, a page is the first
part of what comes after its cursor (`scan_entries`), and the rest comes after the last entry of the
page (`entriesAfter_getLast`). Taking out entries that are not after a cursor changes nothing of
what comes after it (`entriesAfter_pop`).

Even if the numbers ran out, the index would list each job once at most, and with its entry only
(`Queue.Listed`); so a page has one entry for a job, which is in the queue.
-/

namespace JobDispatch

lemma nodup_of_ascending {es : List QueueEntry}
    (h : es.Pairwise fun a b => a.sequence < b.sequence) : es.Nodup :=
  have : Std.Irrefl fun a b : QueueEntry => a.sequence < b.sequence :=
    ⟨fun _ => UInt64.lt_irrefl _⟩
  h.nodup

namespace Queue

variable {q : Queue}

/-! ### What the index lists -/

/-- Entries tell their jobs, and the index lists jobs once at most, each with the number of its
entry. -/
structure Listed (q : Queue) : Prop where
  named : ∀ job e, q.get? job = some e → e.job = job
  distinct : q.order.Pairwise fun a b => a.2 ≠ b.2
  indexed : ∀ p ∈ q.order, ∃ e, q.get? p.2 = some e ∧ e.sequence = p.1

lemma Aligned.toListed (h : q.Aligned) : q.Listed where
  named job e he := (h.listed job e he).1
  indexed := h.indexed
  distinct := h.ascending.imp_of_mem fun {a b} ha hb hlt hjob => by
    obtain ⟨e, he, hseq⟩ := h.indexed a ha
    obtain ⟨e', he', hseq'⟩ := h.indexed b hb
    rw [hjob, he'] at he
    cases he
    rw [← hseq, ← hseq'] at hlt
    exact UInt64.lt_irrefl _ hlt

lemma Listed.push (h : q.Listed) (job : JobId) (project : ProjectId) (tags : Tags)
    (time : Timestamp) : (q.push job project tags time).2.Listed := by
  cases hjob : q.get? job with
  | some e =>
    have hrefused : (q.push job project tags time).2 = q := by
      unfold Queue.push
      rw [if_pos (show q.entries.contains job = true from congrArg Option.isSome hjob)]
    rw [hrefused]
    exact h
  | none =>
    have hne : ∀ p ∈ q.order, p.2 ≠ job := by
      rintro p hp rfl
      obtain ⟨e, he, -⟩ := h.indexed p hp
      rw [hjob] at he
      cases he
    have hget := get?_push q job project tags time hjob
    rw [push_of_get?_eq_none q job project tags time hjob] at hget ⊢
    refine ⟨fun k e he => ?_, ?_, fun p hp => ?_⟩
    · rw [hget] at he
      split at he
      · rename_i hk
        cases he
        exact hk.symm
      · exact h.named k e he
    · refine List.pairwise_append.2 ⟨h.distinct, List.pairwise_singleton _ _, fun a ha b hb => ?_⟩
      rw [List.mem_singleton.1 hb]
      exact hne a ha
    · rw [hget]
      rcases List.mem_append.1 hp with hp | hp
      · rw [if_neg (hne p hp)]
        exact h.indexed p hp
      · rw [List.mem_singleton.1 hp, if_pos rfl]
        exact ⟨_, rfl, rfl⟩

lemma Listed.pop (h : q.Listed) (job : JobId) : (q.pop job).2.Listed := by
  cases hjob : q.get? job with
  | none =>
    rw [pop_of_get?_eq_none hjob]
    exact h
  | some e =>
    refine ⟨fun k e' he => ?_, ?_, fun p hp => ?_⟩
    · rw [get?_pop] at he
      split at he
      · cases he
      · exact h.named k e' he
    · rw [order_pop hjob]
      exact h.distinct.filter _
    · rw [order_pop hjob] at hp
      obtain ⟨hmem, hne⟩ := List.mem_filter.1 hp
      obtain ⟨e', he', hseq⟩ := h.indexed p hmem
      refine ⟨e', ?_, hseq⟩
      rw [get?_pop, if_neg fun hk => ?_]
      · exact he'
      · rw [hk, hjob] at he'
        cases he'
        simp [hseq] at hne

/-- Whatever is asked for, and whether it fails or not, the index lists just jobs with entries. -/
lemma Listed.answer {w : World} (h : w.queue.queue.Listed) (r : Request) :
    (w.answer r).2.queue.queue.Listed := by
  cases hr : r.movesQueue with
  | false =>
    rw [World.queue_answer hr]
    exact h
  | true =>
    cases r with
    | push job project tags time =>
      have hcases : (w.answer (.push job project tags time)).2.queue.queue = w.queue.queue ∨ _ :=
        FallibleQueue.guarded_through (s := w.queue) .push none
          fun q => q.push job project tags time
      rcases hcases with hq | ⟨-, hq⟩
      · rw [hq]
        exact h
      · exact Eq.subst (motive := Listed) hq.symm (h.push job project tags time)
    | pop job =>
      have hcases : (w.answer (.pop job)).2.queue.queue = w.queue.queue ∨ _ :=
        FallibleQueue.guarded_through (s := w.queue) .pop (some false)
          fun q => (.ok (q.pop job).1, (q.pop job).2)
      rcases hcases with hq | ⟨-, hq⟩
      · rw [hq]
        exact h
      · exact Eq.subst (motive := Listed) hq.symm (h.pop job)
    | _ => cases hr

lemma Listed.mem_scan (h : q.Listed) {limit : UInt64} {after : Option Cursor} {e : QueueEntry}
    (he : e ∈ (q.scan limit after).entries) : q.get? e.job = some e := by
  obtain ⟨p, hp, hfind⟩ := List.mem_filterMap.1 he
  have hget : q.get? p.2 = some e := hfind
  rw [h.named p.2 e hget]
  exact hget

lemma Listed.scan_distinct (h : q.Listed) (limit : UInt64) (after : Option Cursor) :
    (q.scan limit after).entries.Pairwise fun a b => a.job ≠ b.job := by
  refine List.pairwise_filterMap.2 ?_
  have hpage : ((q.order.filter fun p => Cursor.precedes after p.1).take limit.toNat).Sublist
      q.order := (List.take_sublist _ _).trans List.filter_sublist
  refine (h.distinct.sublist hpage).imp fun {a b} hne e he e' he' => ?_
  rw [h.named a.2 e he, h.named b.2 e' he']
  exact hne

/-! ### What comes after a cursor -/

/-- The entries after a cursor, in the order of their numbers. -/
def entriesAfter (q : Queue) (after : Option Cursor) : List QueueEntry :=
  q.toList.filter fun e => Cursor.precedes after e.sequence

lemma entriesAfter_none : q.entriesAfter none = q.toList := by
  simp [entriesAfter, Cursor.precedes]

lemma mem_toList {e : QueueEntry} (h : q.Aligned) (he : e ∈ q.toList) : q.get? e.job = some e := by
  obtain ⟨p, hp, hfind⟩ := List.mem_filterMap.1 he
  obtain ⟨hjob, -⟩ := h.listed p.2 e hfind
  rw [hjob]
  exact hfind

lemma Aligned.mem_toList_of_get? (h : q.Aligned) {id : JobId} {e : QueueEntry}
    (he : q.get? id = some e) : e ∈ q.toList :=
  List.mem_filterMap.2 ⟨_, (h.listed id e he).2, he⟩

lemma Aligned.toList_ascending (h : q.Aligned) :
    q.toList.Pairwise fun a b => a.sequence < b.sequence := by
  unfold toList
  rw [List.pairwise_filterMap]
  refine h.ascending.imp_of_mem fun {a b} ha hb hlt e he e' he' => ?_
  obtain ⟨ea, hea, hseqa⟩ := h.indexed a ha
  obtain ⟨eb, heb, hseqb⟩ := h.indexed b hb
  have hfa : q.entries.find? a.2 = some ea := hea
  have hfb : q.entries.find? b.2 = some eb := heb
  rw [hfa] at he
  rw [hfb] at he'
  cases he
  cases he'
  rw [hseqa, hseqb]
  exact hlt

lemma Aligned.toList_distinct (h : q.Aligned) : q.toList.Pairwise fun a b => a.job ≠ b.job := by
  refine h.toList_ascending.imp_of_mem fun {a b} ha hb hlt hjob => ?_
  have hgeta := mem_toList h ha
  have hgetb := mem_toList h hb
  rw [hjob, hgetb] at hgeta
  cases hgeta
  exact UInt64.lt_irrefl _ hlt

lemma Aligned.entriesAfter_ascending (h : q.Aligned) (after : Option Cursor) :
    (q.entriesAfter after).Pairwise fun a b => a.sequence < b.sequence :=
  h.toList_ascending.filter _

/-! ### Pages -/

lemma take_filterMap {α β : Type} {g : α → Option β} {l : List α} (h : ∀ a ∈ l, (g a).isSome = true)
    (n : Nat) : (l.take n).filterMap g = (l.filterMap g).take n := by
  induction l generalizing n with
  | nil => simp
  | cons a l ih =>
    obtain ⟨b, hb⟩ := Option.isSome_iff_exists.1 (h a List.mem_cons_self)
    cases n with
    | zero => simp
    | succ n =>
      rw [List.take_succ_cons, List.filterMap_cons_some hb, List.filterMap_cons_some hb,
        List.take_succ_cons, ih fun a ha => h a (List.mem_cons_of_mem _ ha)]

lemma Aligned.filterMap_later (h : q.Aligned) (after : Option Cursor) :
    (q.order.filter fun p => Cursor.precedes after p.1).filterMap (fun p => q.entries.find? p.2) =
      q.entriesAfter after := by
  unfold entriesAfter toList
  rw [List.filterMap_filter, List.filter_filterMap]
  refine List.filterMap_congr fun p hp => ?_
  obtain ⟨e, he, hseq⟩ := h.indexed p hp
  have hfind : q.entries.find? p.2 = some e := he
  rw [hfind, ← hseq]
  simp [Option.filter]

lemma Aligned.isSome_find? (h : q.Aligned) {after : Option Cursor} :
    ∀ p ∈ q.order.filter fun p => Cursor.precedes after p.1,
      (q.entries.find? p.2).isSome = true := by
  intro p hp
  obtain ⟨e, he, -⟩ := h.indexed p (List.mem_filter.1 hp).1
  rw [show q.entries.find? p.2 = some e from he]
  rfl

theorem Aligned.scan_entries (h : q.Aligned) (limit : UInt64) (after : Option Cursor) :
    (q.scan limit after).entries = (q.entriesAfter after).take limit.toNat := by
  unfold scan
  dsimp only
  rw [take_filterMap h.isSome_find?, h.filterMap_later]

lemma Aligned.scan_more (h : q.Aligned) (limit : UInt64) (after : Option Cursor) :
    ((q.order.filter fun p => Cursor.precedes after p.1).drop limit.toNat != []) =
      decide (limit.toNat < (q.entriesAfter after).length) := by
  have hlen : (q.entriesAfter after).length =
      (q.order.filter fun p => Cursor.precedes after p.1).length := by
    rw [← h.filterMap_later, List.filterMap_length_eq_length]
    exact h.isSome_find?
  rw [hlen, Bool.eq_iff_iff, bne_iff_ne, ne_eq, List.drop_eq_nil_iff, decide_eq_true_iff, not_le]

lemma Aligned.scan_next?_of_le (h : q.Aligned) {limit : UInt64} {after : Option Cursor}
    (hle : (q.entriesAfter after).length ≤ limit.toNat) : (q.scan limit after).next? = none := by
  unfold scan
  dsimp only
  rw [h.scan_more, decide_eq_false (Nat.not_lt.2 hle)]
  split
  · rfl
  · split <;> rfl

/-- A page that leaves entries out has a last one. -/
lemma getLast?_page {l : List QueueEntry} {n : Nat} (hn : 0 < n) (hlt : n < l.length) :
    ∃ last, (l.take n).getLast? = some last := by
  rw [← Option.isSome_iff_exists, List.getLast?_isSome, ← List.length_pos_iff, List.length_take]
  omega

lemma Aligned.scan_next?_of_lt (h : q.Aligned) {limit : UInt64} {after : Option Cursor}
    {last : QueueEntry} (hlt : limit.toNat < (q.entriesAfter after).length)
    (hlast : ((q.entriesAfter after).take limit.toNat).getLast? = some last) :
    ∃ hnext, (q.scan limit after).next? = some ⟨last.cursor, hnext⟩ := by
  have hmem : last ∈ q.entriesAfter after := List.mem_of_mem_take (List.mem_of_getLast? hlast)
  have hnext : Cursor.precedes after last.cursor.sequence = true := (List.mem_filter.1 hmem).2
  refine ⟨hnext, ?_⟩
  unfold scan
  dsimp only
  rw [h.scan_more, decide_eq_true hlt, take_filterMap h.isSome_find?, h.filterMap_later, hlast]
  simp [hnext]

/-- The pages that it takes to read `n` entries to the end: one even if there are none. -/
def pageCount (limit n : Nat) : Nat := max 1 (n ⌈/⌉ limit)

lemma pageCount_pos (limit n : Nat) : 0 < pageCount limit n :=
  Nat.lt_of_lt_of_le Nat.one_pos (Nat.le_max_left _ _)

lemma pageCount_of_le {limit n : Nat} (hlimit : 0 < limit) (h : n ≤ limit) :
    pageCount limit n = 1 := by
  have hone : n ⌈/⌉ limit ≤ 1 := by
    rw [ceilDiv_le_iff_le_mul hlimit]
    omega
  exact Nat.max_eq_left hone

lemma pageCount_of_lt {limit n : Nat} (hlimit : 0 < limit) (h : limit < n) :
    pageCount limit n = pageCount limit (n - limit) + 1 := by
  unfold pageCount
  rw [Nat.ceilDiv_eq_add_pred_div, Nat.ceilDiv_eq_add_pred_div]
  have hdiv : (n + limit - 1) / limit = (n - limit + limit - 1) / limit + 1 := by
    rw [← Nat.add_div_right _ hlimit]
    congr 1
    omega
  have hpos : 0 < (n - limit + limit - 1) / limit := Nat.div_pos (by omega) hlimit
  omega

/-! ### What is left -/

lemma not_lt_of_mem_take {l : List QueueEntry}
    (h : l.Pairwise fun a b => a.sequence < b.sequence) {n : Nat} {last e : QueueEntry}
    (hlast : (l.take n).getLast? = some last) (he : e ∈ l.take n) :
    ¬last.sequence < e.sequence := by
  obtain ⟨front, hfront⟩ := List.getLast?_eq_some_iff.1 hlast
  have htake : (l.take n).Pairwise fun a b => a.sequence < b.sequence :=
    h.sublist (List.take_sublist n l)
  rw [hfront] at he htake
  rcases List.mem_append.1 he with he | he
  · exact UInt64.lt_asymm ((List.pairwise_append.1 htake).2.2 e he last (List.mem_singleton_self _))
  · rw [List.mem_singleton.1 he]
    exact UInt64.lt_irrefl _

/-- The entries of a page are not after the last of them, and all others are. -/
lemma filter_getLast {l : List QueueEntry} (h : l.Pairwise fun a b => a.sequence < b.sequence)
    {n : Nat} {last : QueueEntry} (hlast : (l.take n).getLast? = some last) :
    (l.filter fun e => decide (last.sequence < e.sequence)) = l.drop n := by
  have hsplit : l.take n ++ l.drop n = l := List.take_append_drop n l
  have hcross := h
  rw [← hsplit, List.pairwise_append] at hcross
  conv_lhs => rw [← hsplit]
  rw [List.filter_append, List.filter_eq_nil_iff.2, List.filter_eq_self.2, List.nil_append]
  · intro e he
    exact decide_eq_true (hcross.2.2 last (List.mem_of_getLast? hlast) e he)
  · intro e he
    rw [decide_eq_true_iff]
    exact not_lt_of_mem_take h hlast he

theorem Aligned.entriesAfter_getLast (h : q.Aligned) {after : Option Cursor} {n : Nat}
    {last : QueueEntry} (hlast : ((q.entriesAfter after).take n).getLast? = some last) :
    q.entriesAfter (some last.cursor) = (q.entriesAfter after).drop n := by
  rw [← filter_getLast (h.entriesAfter_ascending after) hlast]
  have hmem : last ∈ q.entriesAfter after := List.mem_of_mem_take (List.mem_of_getLast? hlast)
  have hafter := (List.mem_filter.1 hmem).2
  simp only [entriesAfter, List.filter_filter]
  refine List.filter_congr fun e he => ?_
  show decide (last.sequence < e.sequence) = _
  cases hlt : decide (last.sequence < e.sequence)
  · rfl
  · -- what comes after the last entry comes after the cursor before it
    rw [Bool.true_and]
    cases after with
    | none => rfl
    | some c =>
      exact (decide_eq_true (UInt64.lt_trans (of_decide_eq_true hafter)
        (of_decide_eq_true hlt))).symm

/-- The jobs of a page have no entry after its last one. -/
lemma Aligned.not_after_getLast (h : q.Aligned) {after : Option Cursor} {n : Nat}
    {last e : QueueEntry} (hlast : ((q.entriesAfter after).take n).getLast? = some last)
    (he : e ∈ (q.entriesAfter after).take n) (e' : QueueEntry) (he' : q.get? e.job = some e') :
    Cursor.precedes (some last.cursor) e'.sequence = false := by
  have hmem : e ∈ q.toList := (List.mem_filter.1 (List.mem_of_mem_take he)).1
  rw [mem_toList h hmem] at he'
  cases he'
  exact decide_eq_false (not_lt_of_mem_take (h.entriesAfter_ascending after) hlast he)

lemma Aligned.toList_pop (h : q.Aligned) {job : JobId} {e : QueueEntry}
    (he : q.get? job = some e) :
    (q.pop job).2.toList = q.toList.filter fun e' => e'.sequence != e.sequence := by
  show (q.pop job).2.order.filterMap (fun p => (q.pop job).2.get? p.2) =
    (q.order.filterMap fun p => q.get? p.2).filter _
  rw [order_pop he, List.filterMap_filter, List.filter_filterMap]
  refine List.filterMap_congr fun p hp => ?_
  obtain ⟨e', he', hseq⟩ := h.indexed p hp
  rw [get?_pop, he', ← hseq]
  by_cases hs : e'.sequence = e.sequence
  · simp [Option.filter, hs]
  · have hne : p.2 ≠ job := by
      intro hjob
      rw [hjob, he] at he'
      cases he'
      exact hs rfl
    simp [Option.filter, hs, hne]

lemma Aligned.toList_push (h : q.Aligned) {job : JobId} (project : ProjectId) (tags : Tags)
    (time : Timestamp) (hnone : q.get? job = none) :
    (q.push job project tags time).2.toList =
      q.toList ++ [q.newEntry job project tags time] := by
  have hget := q.get?_push job project tags time hnone
  have horder : (q.push job project tags time).2.order =
      q.order ++ [(q.lastSequence + 1, job)] := by
    rw [q.push_of_get?_eq_none job project tags time hnone]
  show (q.push job project tags time).2.order.filterMap
      (fun p => (q.push job project tags time).2.get? p.2) = q.order.filterMap (fun p => q.get? p.2)
        ++ _
  rw [horder, List.filterMap_append]
  congr 1
  · refine List.filterMap_congr fun p hp => ?_
    obtain ⟨e, he, -⟩ := h.indexed p hp
    rw [hget, if_neg fun hjob => ?_]
    rw [hjob, hnone] at he
    cases he
  · simp [hget]

theorem Aligned.entriesAfter_pop (h : q.Aligned) (job : JobId) {after : Option Cursor}
    (hbefore : ∀ e, q.get? job = some e → Cursor.precedes after e.sequence = false) :
    (q.pop job).2.entriesAfter after = q.entriesAfter after := by
  cases he : q.get? job with
  | none => rw [pop_of_get?_eq_none he]
  | some e =>
    unfold entriesAfter
    rw [h.toList_pop he, List.filter_filter]
    refine List.filter_congr fun e' he' => ?_
    by_cases hseq : e'.sequence = e.sequence
    · rw [hseq, hbefore e he]
      rfl
    · simp [hseq]

/-! ### Queues that may have lost an entry -/

lemma get?_of_pop {q' : Queue} {job k : JobId} {e : QueueEntry} (hq : q' = q ∨ q' = (q.pop job).2)
    (he : q'.get? k = some e) : q.get? k = some e := by
  rcases hq with rfl | rfl
  · exact he
  · rw [get?_pop] at he
    split at he
    · cases he
    · exact he

lemma Aligned.entriesAfter_of_pop (h : q.Aligned) {q' : Queue} {job : JobId}
    (hq : q' = q ∨ q' = (q.pop job).2) {after : Option Cursor}
    (hbefore : ∀ e, q.get? job = some e → Cursor.precedes after e.sequence = false) :
    q'.entriesAfter after = q.entriesAfter after := by
  rcases hq with rfl | rfl
  · rfl
  · exact h.entriesAfter_pop job hbefore

end Queue

end JobDispatch

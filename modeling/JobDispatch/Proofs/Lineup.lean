import JobDispatch.Proofs.Paging

/-!
The queue as a list. A lineup is a list of entries together with the last number that was ever
given out, and what it is asked is answered in terms of that list. The queue, for all its table and
its index, answers as the lineup does, whatever it has been asked before and as long as there are
numbers for new entries (`queue_answers_as_lineup`).
-/

namespace JobDispatch

/-- What a queue can be asked. -/
inductive Inquiry
  | push (job : JobId) (project : ProjectId) (tags : Tags) (time : Timestamp)
  | pop (job : JobId)
  | get (job : JobId)
  | contains (job : JobId)
  | scan (limit : UInt64) (after : Option Cursor)
  | length
  | counts

namespace Inquiry

/-- What an inquiry is answered with. A page comes with the cursor that it names; numbers of entries
are given for the projects that have any. -/
abbrev Answer : Inquiry → Type
  | push .. => Except DispatchError Receipt
  | pop _ | contains _ => Bool
  | get _ => Option QueueEntry
  | scan .. => List QueueEntry × Option Cursor
  | length => Nat
  | counts => ProjectId → Option Nat

def isPush : Inquiry → Bool
  | push .. => true
  | _ => false

lemma countP_isPush_cons (i : Inquiry) (is : List Inquiry) :
    (i :: is).countP isPush = is.countP isPush + i.isPush.toNat := by
  rw [List.countP_cons]
  cases i.isPush <;> rfl

end Inquiry

namespace Queue

def ask (q : Queue) : (i : Inquiry) → i.Answer × Queue
  | .push job project tags time => q.push job project tags time
  | .pop job => q.pop job
  | .get job => (q.get? job, q)
  | .contains job => ((q.get? job).isSome, q)
  | .scan limit after =>
    (((q.scan limit after).entries, (q.scan limit after).next?.map Subtype.val), q)
  | .length => (q.length, q)
  | .counts => (q.counts.find?, q)

def afterAll (q : Queue) (is : List Inquiry) : Queue := is.foldl (fun q i => (q.ask i).2) q

end Queue

/-! ### Lineups -/

structure Lineup where
  entries : List QueueEntry
  /-- The last number that was ever given out. -/
  issued : Nat

namespace Lineup

def empty : Lineup := ⟨[], 0⟩

def has (l : Lineup) (job : JobId) : Bool := l.entries.any fun e => e.job == job

/-- A new entry comes last and has the next number. A job that is there already is refused. -/
def push (l : Lineup) (job : JobId) (project : ProjectId) (tags : Tags) (time : Timestamp) :
    Except DispatchError Receipt × Lineup :=
  if l.has job then (.error (.duplicateEntry job), l)
  else
    let number := UInt64.ofNat (l.issued + 1)
    (.ok ⟨job, number⟩, ⟨l.entries ++ [⟨job, project, tags, time, number⟩], l.issued + 1⟩)

def pop (l : Lineup) (job : JobId) : Bool × Lineup :=
  (l.has job, { l with entries := l.entries.filter fun e => e.job != job })

def later (l : Lineup) (after : Option Cursor) : List QueueEntry :=
  l.entries.filter fun e => Cursor.precedes after e.sequence

/-- The first entries after a cursor. The last of them is named if others follow. -/
def scan (l : Lineup) (limit : UInt64) (after : Option Cursor) :
    List QueueEntry × Option Cursor :=
  let page := (l.later after).take limit.toNat
  (page, if page.length < (l.later after).length then page.getLast?.map QueueEntry.cursor else none)

def count? (l : Lineup) (project : ProjectId) : Option Nat :=
  match l.entries.countP fun e => e.project == project with
  | 0 => none
  | n + 1 => some (n + 1)

def ask (l : Lineup) : (i : Inquiry) → i.Answer × Lineup
  | .push job project tags time => l.push job project tags time
  | .pop job => l.pop job
  | .get job => (l.entries.find? fun e => e.job == job, l)
  | .contains job => (l.has job, l)
  | .scan limit after => (l.scan limit after, l)
  | .length => (l.entries.length, l)
  | .counts => (l.count?, l)

def afterAll (l : Lineup) (is : List Inquiry) : Lineup := is.foldl (fun l i => (l.ask i).2) l

end Lineup

/-! ### The list that a queue is -/

namespace Queue

variable {q : Queue}

/-- A job is looked up in the table as it would be in the list. -/
lemma Aligned.get?_eq_find? (h : q.Aligned) (job : JobId) :
    q.get? job = q.toList.find? fun e => e.job == job := by
  cases hjob : q.get? job with
  | none =>
    refine (List.find?_eq_none.2 fun e he heq => ?_).symm
    rw [← eq_of_beq heq, mem_toList h he] at hjob
    cases hjob
  | some e =>
    have hmem := h.mem_toList_of_get? hjob
    have hnamed := (h.listed job e hjob).1
    have hsome : (q.toList.find? fun e => e.job == job).isSome = true :=
      List.find?_isSome.2 ⟨e, hmem, beq_iff_eq.2 hnamed⟩
    obtain ⟨found, hfound⟩ := Option.isSome_iff_exists.1 hsome
    have hget := mem_toList h (List.mem_of_find?_eq_some hfound)
    have hfoundNamed := List.find?_some hfound
    rw [beq_iff_eq] at hfoundNamed
    rw [hfoundNamed, hjob] at hget
    rw [hfound, hget]

lemma Aligned.isSome_get? (h : q.Aligned) (job : JobId) :
    (q.get? job).isSome = q.toList.any fun e => e.job == job := by
  rw [h.get?_eq_find? job, Bool.eq_iff_iff, List.find?_isSome, List.any_eq_true]

lemma Aligned.values_perm (h : q.Aligned) : q.entries.values.Perm q.toList := by
  have hpairs : q.entries.entries.Pairwise fun a b => a.1 ≠ b.1 :=
    List.pairwise_map.1 q.entries.distinct
  have hvalues : q.entries.values.Nodup := by
    refine List.pairwise_map.2 (hpairs.imp_of_mem fun {a b} ha hb hne heq => hne ?_)
    have hjob := (h.listed a.1 a.2 ((Table.mem_pairs q.entries.distinct).1 ha)).1
    have hjob' := (h.listed b.1 b.2 ((Table.mem_pairs q.entries.distinct).1 hb)).1
    rw [← hjob, ← hjob', heq]
  have hlist : q.toList.Nodup := h.toList_distinct.imp fun hne heq => hne (congrArg _ heq)
  refine (List.perm_ext_iff_of_nodup hvalues hlist).2 fun e => ?_
  rw [Table.mem_values]
  constructor
  · rintro ⟨job, hget⟩
    exact h.mem_toList_of_get? hget
  · intro he
    exact ⟨e.job, mem_toList h he⟩

lemma Aligned.length_eq (h : q.Aligned) : q.length = q.toList.length := by
  rw [← h.values_perm.length_eq]
  exact (List.length_map _).symm

lemma Aligned.mem_order_iff (h : q.Aligned) (n : UInt64) (job : JobId) :
    (n, job) ∈ q.order ↔ ∃ e, q.get? job = some e ∧ e.sequence = n := by
  constructor
  · exact h.indexed (n, job)
  · rintro ⟨e, he, rfl⟩
    exact (h.listed job e he).2

end Queue

/-- A number of entries, as the table of counts has it. -/
def countEntry (n : Nat) : Option Nat := if n = 0 then none else some n

lemma find?_foldl_counts (es : List QueueEntry) (project : ProjectId) {t : Table ProjectId Nat}
    {n : Nat} (h : t.find? project = countEntry n) :
    (es.foldl (fun t e => t.insert e.project ((t.find? e.project).getD 0 + 1)) t).find? project =
      countEntry (n + es.countP fun e => e.project == project) := by
  induction es generalizing t n with
  | nil => exact h
  | cons e es ih =>
    have hone : (t.insert e.project ((t.find? e.project).getD 0 + 1)).find? project =
        countEntry (n + if e.project == project then 1 else 0) := by
      rw [Table.find?_insert]
      by_cases hp : project = e.project
      · subst hp
        have hn : (countEntry n).getD 0 = n := by
          unfold countEntry
          split <;> simp_all
        rw [h, hn]
        simp [countEntry]
      · have hp' : ¬e.project = project := fun heq => hp heq.symm
        simp [hp, hp', h]
    rw [List.foldl_cons, ih hone, List.countP_cons]
    congr 1
    omega

lemma Queue.Aligned.find?_counts {q : Queue} (h : q.Aligned) (project : ProjectId) :
    q.counts.find? project =
      countEntry (q.toList.countP fun e => e.project == project) := by
  rw [← h.values_perm.countP_eq]
  have hcounts := find?_foldl_counts q.entries.values project (t := .empty) (n := 0) rfl
  rw [Nat.zero_add] at hcounts
  exact hcounts

/-! ### Answers -/

/-- The queue is in order, and the lineup is its list. -/
structure Queue.ShownBy (q : Queue) (l : Lineup) : Prop where
  aligned : q.Aligned
  entries : q.toList = l.entries
  issued : q.lastSequence.toNat = l.issued

namespace Queue.ShownBy

variable {q : Queue} {l : Lineup}

lemma empty : Queue.empty.ShownBy .empty := ⟨aligned_empty, rfl, rfl⟩

lemma has_eq (h : q.ShownBy l) (job : JobId) : l.has job = (q.get? job).isSome := by
  rw [h.aligned.isSome_get? job, h.entries]
  rfl

lemma push (h : q.ShownBy l) (job : JobId) (project : ProjectId) (tags : Tags) (time : Timestamp)
    (hroom : l.issued + 1 < UInt64.size) :
    (q.push job project tags time).1 = (l.push job project tags time).1 ∧
      (q.push job project tags time).2.ShownBy (l.push job project tags time).2 := by
  have hhas := h.has_eq job
  unfold Lineup.push
  rw [hhas]
  cases hjob : q.get? job with
  | some e =>
    rw [q.push_of_get? job project tags time hjob]
    exact ⟨rfl, h⟩
  | none =>
    have hnumber : UInt64.ofNat (l.issued + 1) = q.lastSequence + 1 := by
      rw [← h.issued, UInt64.ofNat_add, UInt64.ofNat_toNat]
      rfl
    have hroom' : q.lastSequence.toNat + 1 < UInt64.size := by
      rw [h.issued]
      exact hroom
    have haligned := h.aligned.push project tags time hjob hroom'
    have hlist := h.aligned.toList_push project tags time hjob
    rw [q.push_of_get?_eq_none job project tags time hjob] at haligned hlist ⊢
    dsimp only
    rw [if_neg (by simp), hnumber]
    refine ⟨rfl, haligned, ?_, ?_⟩
    · rw [hlist, h.entries]
      rfl
    · show (q.lastSequence + 1).toNat = l.issued + 1
      rw [← h.issued, UInt64.toNat_add]
      exact Nat.mod_eq_of_lt hroom'

lemma pop (h : q.ShownBy l) (job : JobId) :
    (q.pop job).1 = (l.pop job).1 ∧ (q.pop job).2.ShownBy (l.pop job).2 := by
  refine ⟨(q.pop_fst job).trans (h.has_eq job).symm, h.aligned.pop job, ?_, ?_⟩
  · show _ = l.entries.filter fun e => e.job != job
    rw [← h.entries]
    cases hjob : q.get? job with
    | none =>
      rw [pop_of_get?_eq_none hjob]
      refine (List.filter_eq_self.2 fun e he => ?_).symm
      rw [bne_iff_ne]
      rintro rfl
      rw [mem_toList h.aligned he] at hjob
      cases hjob
    | some e =>
      -- the entry is the only one of its job, and the only one with its number
      rw [h.aligned.toList_pop hjob]
      refine List.filter_congr fun e' he' => ?_
      have hget := mem_toList h.aligned he'
      rw [Bool.eq_iff_iff, bne_iff_ne, bne_iff_ne, not_iff_not]
      constructor
      · intro hseq
        have hlisted := (h.aligned.listed _ _ hget).2
        rw [hseq] at hlisted
        exact h.aligned.job_unique hlisted (h.aligned.listed _ _ hjob).2
      · rintro rfl
        rw [hget] at hjob
        cases hjob
        rfl
  · rw [lastSequence_pop]
    exact h.issued

lemma scan (h : q.ShownBy l) (limit : UInt64) (after : Option Cursor) :
    ((q.scan limit after).entries, (q.scan limit after).next?.map Subtype.val) =
      l.scan limit after := by
  have hlater : q.entriesAfter after = l.later after := by
    unfold Queue.entriesAfter
    rw [h.entries]
    rfl
  have hpage := h.aligned.scan_entries limit after
  unfold Lineup.scan
  rw [hpage, hlater]
  refine Prod.ext rfl ?_
  dsimp only
  by_cases hle : (l.later after).length ≤ limit.toNat
  · rw [h.aligned.scan_next?_of_le (by rw [hlater]; exact hle), List.take_of_length_le hle,
      if_neg (Nat.lt_irrefl _)]
    rfl
  · have hlt : limit.toNat < (l.later after).length := Nat.not_le.1 hle
    rw [if_pos (by rw [List.length_take]; omega)]
    cases hlast : ((l.later after).take limit.toNat).getLast? with
    | none =>
      -- a page without entries names nothing
      have hnil : (q.scan limit after).entries.getLast? = none := by rw [hpage, hlater, hlast]
      unfold Queue.scan at hnil ⊢
      dsimp only at hnil ⊢
      rw [hnil]
      rfl
    | some last =>
      rw [← hlater] at hlt hlast
      obtain ⟨hnext, hscan⟩ := h.aligned.scan_next?_of_lt hlt hlast
      rw [hscan]
      rfl

/-- **One inquiry is answered alike**, and the lineup goes on to show the queue. -/
theorem ask (h : q.ShownBy l) (i : Inquiry) (hroom : i.isPush = true → l.issued + 1 < UInt64.size) :
    (q.ask i).1 = (l.ask i).1 ∧ (q.ask i).2.ShownBy (l.ask i).2 := by
  cases i with
  | push job project tags time => exact h.push job project tags time (hroom rfl)
  | pop job => exact h.pop job
  | get job =>
    refine ⟨?_, h⟩
    show q.get? job = l.entries.find? _
    rw [h.aligned.get?_eq_find? job, h.entries]
  | contains job => exact ⟨(h.has_eq job).symm, h⟩
  | scan limit after => exact ⟨h.scan limit after, h⟩
  | length =>
    refine ⟨?_, h⟩
    show q.length = l.entries.length
    rw [h.aligned.length_eq, h.entries]
  | counts =>
    refine ⟨funext fun project => ?_, h⟩
    show q.counts.find? project = l.count? project
    rw [h.aligned.find?_counts, h.entries]
    unfold countEntry Lineup.count?
    cases l.entries.countP fun e => e.project == project <;> rfl

end Queue.ShownBy

/-- Each inquiry gives out one number at most, and only if it is a push. -/
lemma Lineup.issued_ask (l : Lineup) (i : Inquiry) :
    (l.ask i).2.issued ≤ l.issued + i.isPush.toNat := by
  cases i with
  | push job project tags time =>
    show (l.push job project tags time).2.issued ≤ l.issued + 1
    unfold Lineup.push
    split
    · exact Nat.le_succ _
    · exact Nat.le_refl _
  | _ => exact Nat.le_refl _

/-- **All inquiries are answered alike** as long as there are numbers for the pushes among them. -/
theorem Queue.ShownBy.afterAll {q : Queue} {l : Lineup} (h : q.ShownBy l) (is : List Inquiry)
    (hroom : l.issued + is.countP Inquiry.isPush < UInt64.size) :
    (q.afterAll is).ShownBy (l.afterAll is) ∧
      (l.afterAll is).issued ≤ l.issued + is.countP Inquiry.isPush := by
  induction is generalizing q l with
  | nil => exact ⟨h, Nat.le_refl _⟩
  | cons i is ih =>
    have hissued := l.issued_ask i
    rw [Inquiry.countP_isPush_cons] at hroom ⊢
    have hnext := (h.ask i fun hpush => by
      rw [hpush] at hroom
      exact Nat.lt_of_le_of_lt (by simp) hroom).2
    obtain ⟨hshown, hle⟩ := ih hnext (by omega)
    exact ⟨hshown, by
      show ((l.ask i).2.afterAll is).issued ≤ _
      omega⟩

/-- **The queue answers as a list would.** After any inquiries, as long as there are numbers for all
pushes, the next one is answered as by the lineup after the same inquiries; and the lineup is in
the order of its numbers, which are at most those given out, and has one entry for a job. Index and
table of the queue are inverse to each other, so that no entry is left out of a page. -/
theorem queue_answers_as_lineup (before : List Inquiry) (next : Inquiry)
    (hroom : (before ++ [next]).countP Inquiry.isPush < UInt64.size) :
    let q := Queue.empty.afterAll before
    let l := Lineup.empty.afterAll before
    (q.ask next).1 = (l.ask next).1 ∧
    ((q.ask next).2.toList = (l.ask next).2.entries ∧
      (q.ask next).2.lastSequence.toNat = (l.ask next).2.issued) ∧
    (l.entries.Pairwise (fun a b => a.sequence < b.sequence) ∧
      (∀ e ∈ l.entries, e.sequence.toNat ≤ l.issued) ∧
      l.entries.Pairwise (fun a b => a.job ≠ b.job)) ∧
    ∀ n job, (n, job) ∈ q.order ↔ ∃ e, q.entries.find? job = some e ∧ e.sequence = n := by
  intro q l
  rw [List.countP_append, List.countP_singleton] at hroom
  have hissued : Lineup.empty.issued = 0 := rfl
  obtain ⟨hshown, hle⟩ := Queue.ShownBy.empty.afterAll before (by rw [hissued]; omega)
  obtain ⟨hanswer, hafter⟩ := hshown.ask next fun hpush => by
    rw [hpush, if_pos rfl] at hroom
    omega
  refine ⟨hanswer, ⟨hafter.entries, hafter.issued⟩, ⟨?_, fun e he => ?_, ?_⟩,
    hshown.aligned.mem_order_iff⟩
  · show (Lineup.empty.afterAll before).entries.Pairwise _
    rw [← hshown.entries]
    exact hshown.aligned.toList_ascending
  · have hmem : e ∈ (Queue.empty.afterAll before).toList := by
      rw [hshown.entries]
      exact he
    have hlisted := (hshown.aligned.listed _ _ (Queue.mem_toList hshown.aligned hmem)).2
    have hbound := UInt64.le_iff_toNat_le.1 (hshown.aligned.bounded _ hlisted)
    rw [hshown.issued] at hbound
    exact hbound
  · show (Lineup.empty.afterAll before).entries.Pairwise _
    rw [← hshown.entries]
    exact hshown.aligned.toList_distinct

/-- The first of two jobs leaves the queue and comes again. -/
def backInLine : List Inquiry :=
  let push (job : Nat) : Inquiry := .push ⟨.ofNat job⟩ ⟨.ofNat 4⟩ .empty .epoch
  [push 2, push 3, .pop ⟨.ofNat 2⟩, push 2]

theorem queue_answers_as_lineup_backInLine :
    (backInLine ++ [Inquiry.scan 1 none]).countP Inquiry.isPush < UInt64.size ∧
      ((Queue.empty.afterAll backInLine).ask (.scan 1 none)).1 =
        ([⟨⟨.ofNat 3⟩, ⟨.ofNat 4⟩, .empty, .epoch, 2⟩], some ⟨2⟩) ∧
      ∀ n job, (n, job) ∈ (Queue.empty.afterAll backInLine).order ↔
        ∃ e, (Queue.empty.afterAll backInLine).entries.find? job = some e ∧ e.sequence = n := by
  have hroom : (backInLine ++ [Inquiry.scan 1 none]).countP Inquiry.isPush < UInt64.size := by
    decide
  obtain ⟨hanswer, -, -, hinverse⟩ := queue_answers_as_lineup backInLine (.scan 1 none) hroom
  exact ⟨hroom, hanswer.trans (by decide +kernel), hinverse⟩

end JobDispatch

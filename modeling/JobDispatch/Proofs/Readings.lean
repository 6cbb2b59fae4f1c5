import JobDispatch.Proofs.Evolution
import JobDispatch.Proofs.Lineup

/-!
Reading the whole queue while it changes. A reader takes a page, then anything may be asked of the
queue, then the reader goes on from the cursor that the page named. What it has got covers the
queue up to that cursor, and goes on to do so while the queue evolves (`Covered.read`). So it gets
nothing twice, and at the end it has all that is left (`reading_complete`).
-/

namespace JobDispatch

/-- A page of a length is read, and then other things are asked of the queue. -/
structure PageTurn where
  limit : UInt64
  meanwhile : List Inquiry

structure Reading where
  pages : List (List QueueEntry)
  /-- The queue at the last page, if the reader has come to the end. -/
  queue : Queue
  ended : Bool

namespace Queue

/-- Reads the pages after a cursor until one of them names no next one, or all turns are used up. -/
def read (q : Queue) (after : Option Cursor) : List PageTurn → Reading
  | [] => ⟨[], q, false⟩
  | turn :: turns =>
    let page := q.scan turn.limit after
    match page.next? with
    | none => ⟨[page.entries], q, true⟩
    | some next =>
      let rest := (q.afterAll turn.meanwhile).read (some next.1) turns
      { rest with pages := page.entries :: rest.pages }

/-! ### Between two pages -/

lemma Aligned.evolves_ask {q : Queue} (h : q.Aligned) (i : Inquiry)
    (hroom : q.lastSequence.toNat + i.isPush.toNat < UInt64.size) :
    q.Evolves (q.ask i).2 ∧
      (q.ask i).2.lastSequence.toNat ≤ q.lastSequence.toNat + i.isPush.toNat := by
  cases i with
  | push job project tags time =>
    refine ⟨.push h job project tags time hroom, ?_⟩
    show (q.push job project tags time).2.lastSequence.toNat ≤ _
    cases hjob : q.get? job with
    | some e =>
      rw [push_of_get?_eq_some project tags time hjob]
      exact Nat.le_add_right _ _
    | none =>
      rw [push_of_get?_eq_none _ _ _ _ _ hjob]
      show (q.lastSequence + 1).toNat ≤ _
      rw [UInt64.toNat_add]
      exact Nat.mod_le _ _
  | pop job =>
    refine ⟨.pop h job, ?_⟩
    show (q.pop job).2.lastSequence.toNat ≤ _
    rw [lastSequence_pop]
    exact Nat.le_refl _
  | _ => exact ⟨.refl h, Nat.le_refl _⟩

lemma Aligned.evolves_afterAll {q : Queue} (h : q.Aligned) (is : List Inquiry)
    (hroom : q.lastSequence.toNat + is.countP Inquiry.isPush < UInt64.size) :
    q.Evolves (q.afterAll is) ∧
      (q.afterAll is).lastSequence.toNat ≤ q.lastSequence.toNat + is.countP Inquiry.isPush := by
  induction is generalizing q with
  | nil => exact ⟨.refl h, Nat.le_refl _⟩
  | cons i is ih =>
    rw [Inquiry.countP_isPush_cons] at hroom ⊢
    obtain ⟨hfirst, hnumber⟩ := h.evolves_ask i (by omega)
    obtain ⟨hrest, hnumbers⟩ := ih hfirst.aligned (by omega)
    refine ⟨hfirst.trans hrest, ?_⟩
    show ((q.ask i).2.afterAll is).lastSequence.toNat ≤ _
    omega

end Queue

/-! ### Page after page -/

/-- **A reader goes on covering the queue**, whatever is asked for between its pages: what it has
got ascends, and at the last page it has got all that is in the queue then. -/
theorem Covered.read {q : Queue} {after : Option Cursor} {es : List QueueEntry}
    (h : Covered after es q) (hq : q.Aligned) {turns : List PageTurn}
    (hlimit : ∀ turn ∈ turns, turn.limit ≠ 0)
    (hroom : q.lastSequence.toNat + (turns.flatMap PageTurn.meanwhile).countP Inquiry.isPush <
      UInt64.size) :
    (es ++ (q.read after turns).pages.flatten).Pairwise (fun a b => a.sequence < b.sequence) ∧
      ((q.read after turns).ended = true → ∀ job e,
        (q.read after turns).queue.get? job = some e →
          e ∈ es ++ (q.read after turns).pages.flatten) := by
  induction turns generalizing q after es with
  | nil =>
    refine ⟨?_, nofun⟩
    rw [show (q.read after []).pages.flatten = [] from rfl, List.append_nil]
    exact h.ascending
  | cons turn turns ih =>
    have hturn := hlimit turn List.mem_cons_self
    unfold Queue.read
    dsimp only
    split
    · rename_i hnone
      obtain ⟨hascending, hall⟩ := h.lastPage hq hturn hnone
      simp only [List.flatten_cons, List.flatten_nil, List.append_nil]
      exact ⟨hascending, fun _ => hall⟩
    · rename_i next hnext
      rw [List.flatMap_cons, List.countP_append] at hroom
      obtain ⟨hevolves, hnumbers⟩ := hq.evolves_afterAll turn.meanwhile (by omega)
      rw [List.flatten_cons, ← List.append_assoc]
      exact ih ((h.page hq hturn hnext).evolves hevolves) hevolves.aligned
        (fun t ht => hlimit t (List.mem_cons_of_mem _ ht)) (by omega)

/-- A reader whom nobody disturbs gets what comes after the cursor, with as many pages as it takes
to hold that. -/
theorem Queue.Aligned.read_unchanged {q : Queue} (h : q.Aligned) {limit : UInt64}
    (hlimit : limit ≠ 0) {after : Option Cursor} {turns : List PageTurn}
    (hturns : ∀ turn ∈ turns, turn.limit = limit ∧ q.afterAll turn.meanwhile = q)
    (henough : pageCount limit.toNat (q.entriesAfter after).length ≤ turns.length) :
    (q.read after turns).ended = true ∧
      (q.read after turns).pages.length =
        pageCount limit.toNat (q.entriesAfter after).length ∧
      (q.read after turns).pages.flatten = q.entriesAfter after := by
  have hpos : 0 < limit.toNat := toNat_pos_of_ne_zero hlimit
  induction turns generalizing after with
  | nil => exact absurd henough (Nat.not_le.2 (pageCount_pos _ _))
  | cons turn turns ih =>
    obtain ⟨rfl, hmeanwhile⟩ := hturns turn List.mem_cons_self
    have hentries := h.scan_entries turn.limit after
    unfold Queue.read
    dsimp only
    by_cases hle : (q.entriesAfter after).length ≤ turn.limit.toNat
    · rw [h.scan_next?_of_le hle, hentries, List.take_of_length_le hle, pageCount_of_le hpos hle]
      exact ⟨rfl, rfl, List.append_nil _⟩
    · have hlt := Nat.not_le.1 hle
      obtain ⟨last, hlast⟩ := getLast?_page hpos hlt
      obtain ⟨hprecedes, hnext⟩ := h.scan_next?_of_lt hlt hlast
      have hrest := h.entriesAfter_getLast hlast
      rw [pageCount_of_lt hpos hlt] at henough ⊢
      have hleft : (q.entriesAfter (some last.cursor)).length =
          (q.entriesAfter after).length - turn.limit.toNat := by rw [hrest, List.length_drop]
      have henough' : pageCount turn.limit.toNat (q.entriesAfter (some last.cursor)).length ≤
          turns.length := by
        rw [hleft]
        exact Nat.le_of_succ_le_succ henough
      obtain ⟨hended, hpages, hflatten⟩ :=
        ih (fun t ht => hturns t (List.mem_cons_of_mem _ ht)) henough'
      rw [hnext, hmeanwhile]
      refine ⟨hended, ?_, ?_⟩
      · rw [List.length_cons, hpages, hleft]
      · rw [List.flatten_cons, hflatten, hrest, hentries, List.take_append_drop]

/-- **Reading page by page is complete.** Whatever was asked of the queue before and whatever is
asked of it between two pages, the entries of all pages are in the order of their numbers; and when
a page names no next one, each entry that is in the queue then has been read once. If the queue is
left as it is in between and all pages are of one length, the reader comes to the end, with one page
if the queue is empty and else with as many as it takes to hold the entries, which it gets in the
order in which they were put in. -/
theorem reading_complete (before : List Inquiry) (turns : List PageTurn)
    (hlimit : ∀ turn ∈ turns, turn.limit ≠ 0)
    (hroom : (before ++ turns.flatMap PageTurn.meanwhile).countP Inquiry.isPush < UInt64.size) :
    let q := Queue.empty.afterAll before
    let reading := q.read none turns
    (reading.pages.flatten.Pairwise (fun a b => a.sequence < b.sequence) ∧
      (reading.ended = true → ∀ job e, reading.queue.get? job = some e →
        reading.pages.flatten.count e = 1)) ∧
    ∀ limit, (∀ turn ∈ turns, turn.limit = limit ∧ q.afterAll turn.meanwhile = q) →
      max 1 (q.length ⌈/⌉ limit.toNat) ≤ turns.length →
      reading.ended = true ∧ reading.pages.length = max 1 (q.length ⌈/⌉ limit.toNat) ∧
        reading.pages.flatten = (Lineup.empty.afterAll before).entries ∧
        reading.pages.flatten.length = q.length := by
  intro q reading
  rw [List.countP_append] at hroom
  have hissued : Lineup.empty.issued = 0 := rfl
  obtain ⟨hshown, hle⟩ := Queue.ShownBy.empty.afterAll before (by rw [hissued]; omega)
  have hnumbers : q.lastSequence.toNat ≤ before.countP Inquiry.isPush := by
    rw [hshown.issued]
    omega
  obtain ⟨hascending, hall⟩ := (Covered.start q).read hshown.aligned hlimit (by omega)
  refine ⟨⟨hascending, fun hended job e he => ?_⟩, fun limit hturns henough => ?_⟩
  · exact List.count_eq_one_of_mem (nodup_of_ascending hascending) (hall hended job e he)
  · have hpos : 0 < turns.length := Nat.lt_of_lt_of_le (Queue.pageCount_pos _ _) henough
    have hlimit : limit ≠ 0 := by
      obtain ⟨turn, hturn⟩ := List.exists_mem_of_length_pos hpos
      rw [← (hturns turn hturn).1]
      exact hlimit turn hturn
    have hlength : (q.entriesAfter none).length = q.length := by
      rw [Queue.entriesAfter_none, hshown.aligned.length_eq]
    have henough' : Queue.pageCount limit.toNat (q.entriesAfter none).length ≤ turns.length := by
      rw [hlength]
      exact henough
    obtain ⟨hended, hpages, hflatten⟩ := hshown.aligned.read_unchanged hlimit hturns henough'
    refine ⟨hended, ?_, ?_, ?_⟩
    · rw [hpages, hlength]
      rfl
    · rw [hflatten, Queue.entriesAfter_none]
      exact hshown.entries
    · rw [hflatten, hlength]

/-- Between the pages the entry that was read is taken out and put in again, another one is put in,
and one that was not read yet is taken out. -/
def busyTurns : List PageTurn :=
  let push (job : Nat) : Inquiry := .push ⟨.ofNat job⟩ ⟨.ofNat 4⟩ .empty .epoch
  [⟨1, [.pop ⟨.ofNat 3⟩, push 3, push 5]⟩, ⟨2, [.pop ⟨.ofNat 5⟩, push 6]⟩, ⟨1, []⟩]

theorem reading_complete_busyTurns :
    let reading := (Queue.empty.afterAll backInLine).read none busyTurns
    reading.ended = true ∧
      reading.pages.map (List.map QueueEntry.job) =
        [[⟨.ofNat 3⟩], [⟨.ofNat 2⟩, ⟨.ofNat 3⟩], [⟨.ofNat 6⟩]] ∧
      (∀ job e, reading.queue.get? job = some e → reading.pages.flatten.count e = 1) ∧
      ((Queue.empty.afterAll backInLine).read none [⟨1, []⟩, ⟨1, [.pop ⟨.ofNat 5⟩]⟩]).pages.length =
        2 := by
  intro reading
  have hended : reading.ended = true := by decide +kernel
  obtain ⟨⟨-, hall⟩, -⟩ := reading_complete backInLine busyTurns (by decide) (by decide)
  obtain ⟨-, hquiet⟩ := reading_complete backInLine [⟨1, []⟩, ⟨1, [.pop ⟨.ofNat 5⟩]⟩] (by decide)
    (by decide)
  obtain ⟨-, hpages, -⟩ := hquiet 1 (by decide +kernel) (by decide +kernel)
  exact ⟨hended, by decide +kernel, hall hended, hpages.trans (by decide +kernel)⟩

end JobDispatch

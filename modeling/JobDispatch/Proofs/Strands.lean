import JobDispatch.Proofs.Balance
import JobDispatch.Proofs.Operations
import JobDispatch.Proofs.Sharing

/-!
Passes pulled apart. While the ticks of a page are under way, a pass has the locks of several jobs,
which no single thread of a sound system has. But each tick has one lock at most, and what a pass
asks besides needs none. So a pass is woven from strands (`Woven`), and a run in which passes are
operations goes like one in which each strand is a thread of its own: the same requests are answered
from the same worlds (`Unravels.run`).
-/

namespace JobDispatch

open Program

/-! ### Strands -/

/-- The request may come in a pass outside of its ticks. -/
def Request.isLone (r : Request) : Bool := r.isLoose || r.isLease

lemma Request.isLone_iff {r : Request} :
    r.isLone = true ↔ r.isLoose = true ∨ r.isLease = true := Bool.or_eq_true_iff

/-- What is a thread by itself: an operation, a tick of a pass, or another request of a pass. -/
inductive Strand
  | operation (o : Engine.Operation)
  | offer (e : QueueEntry)
  | lone (r : Request) (hr : r.isLone = true)

def Strand.program (c : Config) : Strand → Program Unit
  | operation o => o.program c
  | offer e => discard (offerEntry c.untaggedOnly e)
  | lone r _ => discard (request r)

lemma Strand.program_leasing (c : Config) (q : Strand) : Leasing (q.program c) := by
  cases q with
  | operation o => exact o.program_leasing c
  | offer e => exact (offerEntry_loose _ e).leasing.discard
  | lone r hr => exact (Composed.request (Request.isLone_iff.1 hr)).discard

/-- The program makes the requests of the strands that have begun, in any order, and of strands that
it begins itself, and all are over when it is at its end. -/
inductive Woven (untaggedOnly : Bool) {α : Type} : List (Program Unit) → Program α → Prop
  | done {strands : List (Program Unit)} {a : α} (h : ∀ q ∈ strands, q = .done ()) :
    Woven untaggedOnly strands (.done a)
  | own {strands : List (Program Unit)} {r : Request} {p : r.Answer → Program α}
    (hr : r.isLone = true) (h : ∀ x, Woven untaggedOnly (.done () :: strands) (p x)) :
    Woven untaggedOnly strands (.ask r p)
  | begin {strands : List (Program Unit)} {r : Request} {next : r.Answer → Program Unit}
    {p : r.Answer → Program α} (e : QueueEntry)
    (he : discard (offerEntry untaggedOnly e) = .ask r next)
    (h : ∀ x, Woven untaggedOnly (next x :: strands) (p x)) : Woven untaggedOnly strands (.ask r p)
  | goOn {strands rest : List (Program Unit)} {r : Request} {next : r.Answer → Program Unit}
    {p : r.Answer → Program α} (hr : strands.Perm (.ask r next :: rest))
    (h : ∀ x, Woven untaggedOnly (next x :: rest) (p x)) : Woven untaggedOnly strands (.ask r p)

/-- The program is woven from strands that it begins itself. -/
def Program.Weaves {α : Type} (untaggedOnly : Bool) (p : Program α) : Prop :=
  ∀ strands : List (Program Unit), (∀ q ∈ strands, q = .done ()) → Woven untaggedOnly strands p

section

variable {untaggedOnly : Bool} {α β : Type} {strands strands' : List (Program Unit)}
  {p : Program α} {f : α → Program β}

namespace Woven

lemma perm (h : Woven untaggedOnly strands p) (hs : strands.Perm strands') :
    Woven untaggedOnly strands' p := by
  induction h generalizing strands' with
  | done hover => exact .done fun q hq => hover q (hs.mem_iff.2 hq)
  | own hr _ ih => exact .own hr fun x => ih x (hs.cons _)
  | begin e he _ ih => exact .begin e he fun x => ih x (hs.cons _)
  | goOn hr hnext => exact .goOn (hs.symm.trans hr) hnext

lemma bind (h : Woven untaggedOnly strands p) (hf : ∀ a, (f a).Weaves untaggedOnly) :
    Woven untaggedOnly strands (p >>= f) := by
  induction h with
  | done hover => exact hf _ _ hover
  | own hr _ ih => exact .own hr ih
  | begin e he _ ih => exact .begin e he ih
  | goOn hr _ ih => exact .goOn hr ih

/-- A program is a strand of itself. -/
lemma self (p : Program Unit) : Woven untaggedOnly [p] p := by
  induction p with
  | done a => exact .done fun q hq => List.mem_singleton.1 hq
  | ask r next ih => exact .goOn (.refl _) ih

end Woven

lemma Program.weaves_pure (a : α) : (pure a : Program α).Weaves untaggedOnly := fun _ => .done

lemma Program.Weaves.bind (hp : p.Weaves untaggedOnly) (hf : ∀ a, (f a).Weaves untaggedOnly) :
    (p >>= f).Weaves untaggedOnly := fun strands hover => (hp strands hover).bind hf

lemma Program.Asks.weaves (hp : p.Asks fun r => r.isLone = true) : p.Weaves untaggedOnly := by
  induction p with
  | done a => exact weaves_pure a
  | ask r next ih =>
    exact fun strands hover => .own hp.1 fun x =>
      ih x (hp.2 x) _ (List.forall_mem_cons.2 ⟨rfl, hover⟩)

lemma Program.Weaves.next {r : Request} {f : r.Answer → Program α} (hr : r.isLone = true)
    (hf : ∀ x, (f x).Weaves untaggedOnly) : (request r >>= f).Weaves untaggedOnly :=
  (Asks.weaves ((asks_request r).2 hr)).bind hf

end

/-! ### Passes -/

section

variable {untaggedOnly : Bool}

/-- **A pool of ticks is woven from them.** -/
theorem Program.Pooled.woven {active waiting : List (Program (Except DispatchError TickOutcome))}
    {results : List (Except DispatchError TickOutcome)}
    {p : Program (List (Except DispatchError TickOutcome))}
    (h : Pooled active waiting results p)
    (hwaiting : ∀ q ∈ waiting, ∃ e, q = offerEntry untaggedOnly e)
    {strands ended : List (Program Unit)} (hended : ∀ q ∈ ended, q = .done ())
    (hstrands : strands.Perm (active.map discard ++ ended)) : Woven untaggedOnly strands p := by
  induction h generalizing strands ended with
  | finish results => exact .done fun q hq => hended q (hstrands.mem_iff.1 hq)
  | collect hi _ ih =>
    -- its strand is over, too
    refine ih hwaiting (List.forall_mem_cons.2 ⟨rfl, hended⟩) (hstrands.trans ?_)
    exact (((perm_cons_eraseIdx hi).map discard).append_right ended).trans List.perm_middle.symm
  | @goOn active waiting results i r next p hi _ ih =>
    refine .goOn (hstrands.trans (((perm_cons_eraseIdx hi).map discard).append_right ended))
      fun x => ih x hwaiting hended ?_
    have hset := List.set_perm_cons_eraseIdx (List.getElem?_eq_some_iff.1 hi).1 (next x)
    exact ((hset.map discard).append_right ended).symm
  | @begin active waiting results r next p _ ih =>
    obtain ⟨⟨e, he⟩, hwaiting⟩ := List.forall_mem_cons.1 hwaiting
    refine .begin e (congrArg discard he.symm) fun x => ih x hwaiting hended ?_
    rw [List.map_append, List.append_assoc]
    exact (hstrands.cons _).trans List.perm_middle.symm
  | skip _ _ =>
    -- ticks do not end before they have asked anything
    obtain ⟨⟨e, he⟩, -⟩ := List.forall_mem_cons.1 hwaiting
    cases he

lemma offerPage_weaves (plan : SweepPlan) (picks : List Nat) (es : List QueueEntry) :
    (offerPage plan untaggedOnly picks es).Weaves untaggedOnly := by
  intro strands hover
  refine (pooled_offerPage plan untaggedOnly picks es).woven (fun q hq => ?_) hover (.refl _)
  obtain ⟨e, -, rfl⟩ := List.mem_map.1 hq
  exact ⟨e, rfl⟩

lemma Program.Asks.weaves_of_logs {α : Type} {p : Program α}
    (hp : p.Asks fun r => ∃ e, r = .log e) : p.Weaves untaggedOnly :=
  (hp.mono fun _ ⟨_, hr⟩ => hr ▸ rfl).weaves

lemma sweepFromBy_weaves (rota : Rota) (plan : SweepPlan) (after : Option Cursor)
    (report : PassReport) :
    (sweepFromBy rota plan untaggedOnly after report).Weaves untaggedOnly := by
  induction h : Cursor.room after using Nat.strongRecOn generalizing after report with
  | _ n ih =>
    subst h
    rw [sweepFromBy]
    split
    · exact .next rfl fun _ => .next rfl fun _ => weaves_pure _
    refine .next rfl fun found => ?_
    split
    · exact weaves_pure _
    refine (offerPage_weaves plan _ _).bind fun outcomes => ?_
    refine (recordOutcomes_asks outcomes report).weaves_of_logs.bind fun report' => ?_
    dsimp only
    split
    · rename_i next hnext _
      exact .next rfl fun _ => ih _ (Cursor.room_lt hnext) _ _ rfl
    · exact .next rfl fun _ => weaves_pure _

lemma beginPass_weaves : beginPass.Weaves untaggedOnly := by
  refine (beginPass_asks.mono ?_).weaves
  rintro _ (rfl | ⟨now, rfl⟩ | ⟨e, rfl⟩) <;> rfl

/-- **A pass is woven from its ticks and from requests that need no lock.** -/
theorem sweepBy_weaves (rota : Rota) (plan : SweepPlan) :
    (sweepBy rota plan untaggedOnly).Weaves untaggedOnly := by
  have hpass : (passBy rota plan untaggedOnly).Weaves untaggedOnly :=
    .next rfl fun _ => .next rfl fun _ =>
      beginPass_weaves.bind fun _ => sweepFromBy_weaves rota plan _ _
  rw [sweepBy_eq_logPass]
  refine .next rfl fun now => .next rfl fun lease => ?_
  split
  · exact weaves_pure _
  · exact hpass.bind fun result => .next rfl fun inForce =>
      (logPass_asks _ inForce result).weaves_of_logs.bind fun _ => weaves_pure _

end

/-! ### Systems of strands -/

/-- What may be called of the engine, where the ticks of a pass come on as a rota tells. -/
inductive Engine.Call
  | operation (o : Engine.Operation)
  | sweep (rota : Rota)

def Engine.Call.program (c : Config) : Engine.Call → Program Unit
  | operation o => o.program c
  | sweep rota => discard (Engine.sweepBy rota c)

/-- A system in which each thread is a strand of a numbered thread. -/
abbrev Unravelled := System (Nat × Strand) Unit

namespace Unravelled

def program (c : Config) (q : Nat × Strand) : Program Unit := q.2.program c

def strands (ts : List (Thread (Nat × Strand) Unit)) (i : Nat) : List (Program Unit) :=
  (ts.filter fun t => t.operation.1 == i).map Thread.rest

lemma strands_append (ts us : List (Thread (Nat × Strand) Unit)) (i : Nat) :
    strands (ts ++ us) i = strands ts i ++ strands us i := by
  rw [strands, List.filter_append, List.map_append]
  rfl

lemma strands_self (i : Nat) (q : Strand) (p : Program Unit) : strands [⟨(i, q), p⟩] i = [p] := by
  simp [strands]

lemma strands_eq_nil {ts : List (Thread (Nat × Strand) Unit)} {i : Nat}
    (h : ∀ t ∈ ts, t.operation.1 ≠ i) : strands ts i = [] :=
  List.map_eq_nil_iff.2 (List.filter_eq_nil_iff.2 fun t ht howner => h t ht (beq_iff_eq.1 howner))

lemma strands_of_ne {i j : Nat} (h : i ≠ j) (q : Strand) (p : Program Unit) :
    strands [⟨(i, q), p⟩] j = [] := strands_eq_nil (List.forall_mem_singleton.2 h)

/-- A strand is a thread, which may go on. -/
lemma exists_thread {ts : List (Thread (Nat × Strand) Unit)} {i : Nat} {p : Program Unit}
    {rest : List (Program Unit)} (h : (strands ts i).Perm (p :: rest)) :
    ∃ k q, ts[k]? = some ⟨(i, q), p⟩ ∧ ∀ p',
      (strands (ts.set k ⟨(i, q), p'⟩) i).Perm (p' :: rest) ∧
        ∀ j, j ≠ i → strands (ts.set k ⟨(i, q), p'⟩) j = strands ts j := by
  obtain ⟨⟨⟨i', q⟩, p⟩, hmem, rfl⟩ := List.mem_map.1 (h.mem_iff.2 List.mem_cons_self)
  obtain ⟨hthread, howner⟩ := List.mem_filter.1 hmem
  obtain rfl : i' = i := beq_iff_eq.1 howner
  obtain ⟨front, back, rfl⟩ := List.append_of_mem hthread
  have hmid (p' : Program Unit) (j : Nat) : strands (front ++ ⟨(i', q), p'⟩ :: back) j =
      strands front j ++ (strands [⟨(i', q), p'⟩] j ++ strands back j) := by
    rw [strands_append, ← strands_append _ back, List.singleton_append]
  have hset (p' : Program Unit) : (front ++ ⟨(i', q), p⟩ :: back).set front.length ⟨(i', q), p'⟩ =
      front ++ ⟨(i', q), p'⟩ :: back := by
    rw [List.set_append_right _ _ (Nat.le_refl _), Nat.sub_self, List.set_cons_zero]
  refine ⟨front.length, q, ?_, fun p' => ⟨?_, fun j hj => ?_⟩⟩
  · rw [List.getElem?_append_right (Nat.le_refl _), Nat.sub_self, List.getElem?_cons_zero]
  · rw [hmid, strands_self] at h
    rw [hset, hmid, strands_self]
    exact List.perm_middle.trans ((List.perm_middle.symm.trans h).cons_inv.cons p')
  · rw [hset, hmid, hmid, strands_of_ne hj.symm, strands_of_ne hj.symm]

end Unravelled

open Unravelled (strands)

/-- The system of strands has come to the same as the system, each thread of which is woven from its
strands. -/
structure Unravels (c : Config) {κ : Type} (s : System κ Unit) (s' : Unravelled) : Prop where
  world : s'.world = s.world
  deeds : s'.deeds.map (fun d => (d.request, d.world)) =
    s.deeds.map fun d => (d.request, d.world)
  locks : ∀ id, s'.locks.contains id = s.locks.contains id
  owned : ∀ t ∈ s'.threads, t.operation.1 < s.threads.length
  woven : ∀ i t, s.threads[i]? = some t → Woven c.untaggedOnly (strands s'.threads i) t.rest

namespace Unravels

variable {c : Config} {κ : Type} {s : System κ Unit} {s' : Unravelled} {i : Nat}

lemma waits (h : Unravels c s s') (r : Request) : s'.waits r = s.waits r := by
  cases r with
  | lockJob id | readJob id => exact h.locks id
  | _ => rfl

lemma locksAfter (h : Unravels c s s') (l i : Nat) (r : Request) (id : JobId) :
    (s'.locksAfter l r).contains id = (s.locksAfter i r).contains id := by
  have hlocks := h.locks id
  unfold Table.contains at hlocks ⊢
  cases r with
  | lockJob k =>
    simp only [System.locksAfter, h.world]
    split
    · rw [Table.find?_insert, Table.find?_insert]
      split
      · rfl
      · exact hlocks
    · exact hlocks
  | storeJob record =>
    simp only [System.locksAfter, Table.find?_erase]
    split
    · rfl
    · exact hlocks
  | unlockJob k =>
    simp only [System.locksAfter, Table.find?_erase]
    split
    · rfl
    · exact hlocks
  | _ => exact hlocks

lemma start (h : Unravels c s s') (hi : i < s.threads.length) (q : Strand)
    (hwoven : ∀ t, s.threads[i]? = some t →
      Woven c.untaggedOnly (q.program c :: strands s'.threads i) t.rest) :
    Unravels c s (s'.move (Unravelled.program c) (.start (i, q))) where
  world := h.world
  deeds := h.deeds
  locks := h.locks
  owned t ht := by
    rcases List.mem_append.1 ht with ht | ht
    · exact h.owned t ht
    · rw [List.mem_singleton.1 ht]
      exact hi
  woven j t ht := by
    show Woven _ (strands (s'.threads ++ [⟨(i, q), q.program c⟩]) j) _
    rw [Unravelled.strands_append]
    by_cases hj : i = j
    · subst hj
      rw [Unravelled.strands_self]
      exact (hwoven t ht).perm (List.perm_append_singleton _ _).symm
    · rw [Unravelled.strands_of_ne hj, List.append_nil]
      exact h.woven j t ht

/-- An answer to a strand is one to its thread. -/
lemma goOn (h : Unravels c s s') {k : κ} {r : Request} {p next : r.Answer → Program Unit}
    {rest : List (Program Unit)} (ht : s.threads[i]? = some ⟨k, .ask r p⟩)
    (hw : s.waits r = false) (hr : (strands s'.threads i).Perm (.ask r next :: rest))
    (hnext : ∀ x, Woven c.untaggedOnly (next x :: rest) (p x)) :
    ∃ l, Unravels c (s.answered i k r p) (s'.step l) := by
  obtain ⟨l, q, hl, hset⟩ := Unravelled.exists_thread hr
  refine ⟨l, ?_⟩
  have hstep : s'.step l = s'.answered l (i, q) r next := by
    simp only [System.step, hl, h.waits r, hw, Bool.false_eq_true, if_false]
  have hanswer : (s'.world.answer r).1 = (s.world.answer r).1 := by rw [h.world]
  rw [hstep]
  refine ⟨?_, ?_, h.locksAfter l i r, fun t hmem => ?_, fun j t hj => ?_⟩
  · show (s'.world.answer r).2 = (s.world.answer r).2
    rw [h.world]
  · show (r, s'.world) :: s'.deeds.map _ = (r, s.world) :: s.deeds.map _
    rw [h.deeds, h.world]
  · show t.operation.1 < (s.threads.set i _).length
    rw [List.length_set]
    rcases List.mem_or_eq_of_mem_set hmem with hmem | rfl
    · exact h.owned t hmem
    · exact (List.getElem?_eq_some_iff.1 ht).1
  · change (s.threads.set i _)[j]? = some t at hj
    show Woven _ (strands (s'.threads.set l ⟨(i, q), next (s'.world.answer r).1⟩) j) _
    obtain ⟨hmine, hothers⟩ := hset (next (s'.world.answer r).1)
    by_cases hij : i = j
    · subst hij
      rw [List.getElem?_set_self (List.getElem?_eq_some_iff.1 ht).1] at hj
      cases hj
      refine Woven.perm ?_ hmine.symm
      rw [hanswer]
      exact hnext _
    · rw [List.getElem?_set_ne hij] at hj
      rw [hothers j (Ne.symm hij)]
      exact h.woven j t hj

/-- **An answer to a thread is one to a strand**, which may be a new one. -/
theorem answered (h : Unravels c s s') {k : κ} {r : Request} {p : r.Answer → Program Unit}
    (ht : s.threads[i]? = some ⟨k, .ask r p⟩) (hw : s.waits r = false) :
    ∃ moves, (∀ m ∈ moves, m.Plain) ∧
      Unravels c (s.answered i k r p) (s'.run (Unravelled.program c) moves) := by
  have hlen := (List.getElem?_eq_some_iff.1 ht).1
  -- a new strand begins and gets the answer
  have hnew (q : Strand) {next : r.Answer → Program Unit} (hq : q.program c = .ask r next)
      (hnext : ∀ x, Woven c.untaggedOnly (next x :: strands s'.threads i) (p x)) :
      ∃ moves, (∀ m ∈ moves, m.Plain) ∧
        Unravels c (s.answered i k r p) (s'.run (Unravelled.program c) moves) := by
    have hstart := h.start hlen q fun t ht' => by
      rw [ht] at ht'
      cases ht'
      rw [hq]
      exact .goOn (.refl _) hnext
    have hbegun : (strands (s'.threads ++ [⟨(i, q), q.program c⟩]) i).Perm
        (.ask r next :: strands s'.threads i) := by
      rw [Unravelled.strands_append, Unravelled.strands_self, hq]
      exact List.perm_append_comm
    obtain ⟨l, hl⟩ := hstart.goOn ht hw hbegun hnext
    exact ⟨[.start (i, q), .step l], by simp [Move.Plain], hl⟩
  cases h.woven i _ ht with
  | own hr hnext => exact hnew (.lone r hr) rfl hnext
  | begin e he hnext => exact hnew (.offer e) he hnext
  | goOn hr hnext =>
    obtain ⟨l, hl⟩ := h.goOn ht hw hr hnext
    exact ⟨[.step l], by simp [Move.Plain], hl⟩

/-! ### Runs -/

variable {s : System Engine.Call Unit}

lemma initial (w : World) :
    Unravels c (System.initial w : System Engine.Call Unit) (System.initial w) where
  world := rfl
  deeds := rfl
  locks _ := rfl
  owned _ ht := absurd ht List.not_mem_nil
  woven _ _ ht := by cases ht

lemma call (h : Unravels c s s') (k : Engine.Call) (ts : List (Thread (Nat × Strand) Unit))
    (hts : ∀ t ∈ ts, t.operation.1 = s.threads.length)
    (hwoven : Woven c.untaggedOnly (strands ts s.threads.length) (k.program c)) :
    Unravels c (s.move (Engine.Call.program c) (.start k))
      { s' with threads := s'.threads ++ ts } := by
  refine ⟨h.world, h.deeds, h.locks, fun t ht => ?_, fun i t ht => ?_⟩
  · show t.operation.1 < (s.threads ++ [_]).length
    rw [List.length_append, List.length_singleton]
    rcases List.mem_append.1 ht with ht | ht
    · exact Nat.lt_succ_of_lt (h.owned t ht)
    · rw [hts t ht]
      exact Nat.lt_succ_self _
  · show Woven _ (strands (s'.threads ++ ts) i) _
    change (s.threads ++ [(⟨k, k.program c⟩ : Thread Engine.Call Unit)])[i]? = some t at ht
    rw [Unravelled.strands_append]
    by_cases hi : i < s.threads.length
    · have hnone : strands ts i = [] :=
        Unravelled.strands_eq_nil fun u hu => hts u hu ▸ Nat.ne_of_gt hi
      rw [hnone, List.append_nil]
      exact h.woven i t ((List.getElem?_append_left hi).symm.trans ht)
    · rw [List.getElem?_append_right (Nat.not_lt.1 hi), List.getElem?_singleton] at ht
      split at ht
      · rename_i hlen
        obtain rfl : i = s.threads.length := by omega
        cases ht
        have hnone : strands s'.threads s.threads.length = [] :=
          Unravelled.strands_eq_nil fun u hu => Nat.ne_of_lt (h.owned u hu)
        rw [hnone, List.nil_append]
        exact hwoven
      · cases ht

/-- **A move is one or more of the strands.** -/
theorem move (h : Unravels c s s') (m : Move Engine.Call) (hm : m.Plain) :
    ∃ moves, (∀ m ∈ moves, m.Plain) ∧
      Unravels c (s.move (Engine.Call.program c) m) (s'.run (Unravelled.program c) moves) := by
  cases m with
  | start k =>
    cases k with
    | operation o =>
      refine ⟨[.start (s.threads.length, .operation o)], by simp [Move.Plain],
        h.call (.operation o) [_] (List.forall_mem_singleton.2 rfl) ?_⟩
      rw [Unravelled.strands_self]
      exact .self _
    | sweep rota =>
      have hbegun : Woven c.untaggedOnly [] (Engine.Call.program c (.sweep rota)) :=
        (sweepBy_weaves rota c.sweepPlan).bind (fun _ => weaves_pure ()) []
          fun q hq => absurd hq List.not_mem_nil
      have hcall := h.call (.sweep rota) [] (fun t ht => absurd ht List.not_mem_nil) hbegun
      rw [List.append_nil] at hcall
      exact ⟨[], by simp, hcall⟩
  | step i =>
    rcases s.step_cases (fun _ => .start) i with ⟨hstep, -⟩ | ⟨k, r, p, ht, hw, hstep, -⟩
    · refine ⟨[], by simp, ?_⟩
      show Unravels c (s.step i) s'
      rwa [hstep]
    · show ∃ moves, _ ∧ Unravels c (s.step i) _
      rw [hstep]
      exact h.answered ht hw
  | setClock now =>
    refine ⟨[.setClock now], by simp [Move.Plain], ?_, h.deeds, h.locks, h.owned, h.woven⟩
    exact congrArg (fun w : World => { w with now }) h.world
  | plan call skip e =>
    refine ⟨[.plan call skip e], List.forall_mem_singleton.2 hm, ?_, h.deeds, h.locks, h.owned,
      h.woven⟩
    exact congrArg (fun w : World => { w with queue := w.queue.arm ⟨call, skip, .error e⟩ }) h.world

/-- **A run with passes is one of strands.** -/
theorem run (h : Unravels c s s') (moves : List (Move Engine.Call))
    (hmoves : ∀ m ∈ moves, m.Plain) :
    ∃ moves', (∀ m ∈ moves', m.Plain) ∧
      Unravels c (s.run (Engine.Call.program c) moves) (s'.run (Unravelled.program c) moves') := by
  induction moves generalizing s s' with
  | nil => exact ⟨[], by simp, h⟩
  | cons m moves ih =>
    obtain ⟨first, hfirst, hmove⟩ := h.move m (hmoves m List.mem_cons_self)
    obtain ⟨others, hothers, hrun⟩ := ih hmove fun m' hm' => hmoves m' (List.mem_cons_of_mem _ hm')
    refine ⟨first ++ others, List.forall_mem_append.2 ⟨hfirst, hothers⟩, ?_⟩
    unfold System.run at hrun ⊢
    rwa [List.foldl_append]

/-! ### What the systems have in common -/

/-- The strands of threads at their ends are at theirs. -/
lemma idle (h : Unravels c s s') (hs : s.Idle) : s'.Idle := by
  intro t ht
  have hthread := List.getElem?_eq_getElem (h.owned t ht)
  obtain ⟨a, ha⟩ := hs.done hthread
  have hwoven := h.woven _ _ hthread
  rw [ha] at hwoven
  cases hwoven with
  | done hover =>
    rw [hover t.rest (List.mem_map.2 ⟨t, List.mem_filter.2 ⟨ht, beq_self_eq_true _⟩, rfl⟩)]
    rfl

lemma quiet_iff (h : Unravels c s s') : s'.Quiet ↔ s.Quiet := by
  refine forall_congr' fun id => ?_
  have hlocks := h.locks id
  rw [Table.contains, Table.contains, Bool.eq_iff_iff, ← not_iff_not, Option.not_isSome_iff_eq_none,
    Option.not_isSome_iff_eq_none] at hlocks
  exact hlocks

lemma filterMap_deeds (h : Unravels c s s') {β : Type} (f : Request → Option β) :
    (s'.deeds.filterMap fun d => f d.request) = s.deeds.filterMap fun d => f d.request := by
  have hmap {κ : Type} (ds : List (Deed κ)) : (ds.filterMap fun d => f d.request) =
      (ds.map fun d => (d.request, d.world)).filterMap fun q => f q.1 := by
    rw [List.filterMap_map]
    rfl
  rw [hmap, hmap, h.deeds]

lemma metrics (h : Unravels c s s') : s'.metrics = s.metrics := h.filterMap_deeds Request.metric?

lemma handovers (h : Unravels c s s') : s'.handovers = s.handovers :=
  h.filterMap_deeds Request.handover?

lemma balanced (h : Unravels c s s') {books : Counters} (hs : s'.Balanced books) :
    s.Balanced books := by
  obtain ⟨hpushed, hqueued, hclaimed, hleft, hconserved⟩ := hs
  rw [h.world] at hpushed hqueued hleft hconserved
  rw [h.handovers] at hclaimed
  exact ⟨hpushed, hqueued, hclaimed, hleft, hconserved⟩

end Unravels

end JobDispatch

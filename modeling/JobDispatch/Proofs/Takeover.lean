import JobDispatch.Proofs.Leasing
import JobDispatch.Proofs.Operations
import JobDispatch.Proofs.Trails

/-!
Sweeps that overlap. Engines of any configurations share the leases, and their operations take
turns while the clock goes forward. A pass gives back no lease but its own, so the lease of a pass
that is under way stays on record or has run out (`System.Passing`): another pass gets the lease
only in the latter case (`lease_exclusive`).
-/

namespace JobDispatch

open Program

/-! ### What passes ask for -/

/-- The lease that was issued last and not given back since. -/
def Trail.lease? (h : Trail) : Option Lease :=
  h.foldl (fun lease? q => match q.1 with
    | .obtainLease key ttl now => (q.2.leases.obtain? key ttl now).1.toOption
    | .releaseLease _ => none
    | _ => lease?) none

lemma Trail.lease?_of_not (h : Trail) {r : Request} (hr : r.isLease = false) (w : World) :
    Trail.lease? (h ++ [(r, w)]) = h.lease? := by
  rw [lease?, List.foldl_append]
  cases r with
  | obtainLease _ _ _ | releaseLease _ => cases hr
  | _ => rfl

lemma Trail.lease?_append (h : Trail) {t : Trail} (ht : ∀ q ∈ t, q.1.isLease = false) :
    Trail.lease? (h ++ t) = h.lease? := by
  induction t generalizing h with
  | nil => rw [List.append_nil]
  | cons q t ih =>
    rw [List.append_cons, ih _ fun p hp => ht p (List.mem_cons_of_mem q hp)]
    exact h.lease?_of_not (ht q List.mem_cons_self) q.2

lemma Trail.lease?_obtainLease (h : Trail) (key : String) (ttl : Int) (now : Timestamp)
    (w : World) : Trail.lease? (h ++ [(.obtainLease key ttl now, w)]) =
      (w.leases.obtain? key ttl now).1.toOption := by
  rw [lease?, List.foldl_append]
  rfl

lemma Trail.lease?_releaseLease (h : Trail) (lease : Lease) (w : World) :
    Trail.lease? (h ++ [(.releaseLease lease, w)]) = none := by
  rw [lease?, List.foldl_append]
  rfl

/-- Leases are asked for under the key of sweeps, at the time that the clock has shown before, and
only what was issued is given back. -/
def KeepsLease (h : Trail) (r : Request) (_ : World) : Prop :=
  match r with
  | .obtainLease key _ now => key = sweepLeaseKey ∧ ∃ q ∈ h, now = q.2.now
  | .releaseLease lease => h.lease? = some lease
  | _ => True

lemma keepsLease_of_not {r : Request} (hr : r.isLease = false) (h : Trail) (w : World) :
    KeepsLease h r w := by
  cases r with
  | obtainLease _ _ _ | releaseLease _ => cases hr
  | _ => trivial

lemma Composed.keepsLease {α : Type} {p : Program α} (hp : Loose p) (h : Trail) (w : World) :
    p.Along .anything KeepsLease (fun _ _ _ => True) h w :=
  hp.asks_isLease.along fun h _ v hr => keepsLease_of_not hr h v

lemma sweep_keepsLease (plan : SweepPlan) (untaggedOnly : Bool) (h : Trail) (w : World) :
    (sweep plan untaggedOnly).Along .anything KeepsLease (fun _ _ _ => True) h w := by
  rw [sweep_eq]
  refine Along.ask fun v _ => ⟨trivial, Along.ask fun v₁ _ => ⟨⟨rfl, (.clock, v), ?_, rfl⟩, ?_⟩⟩
  · exact List.mem_append_right h (List.mem_singleton_self _)
  split
  · exact along_pure fun _ _ => trivial
  rename_i lease hlease
  have hpass := passUnderLease_loose plan untaggedOnly
  refine Along.bind_trail (hpass.keepsLease _ _) hpass.asks_isLease fun result t v ht => ?_
  -- the pass keeps the lease, so that it is the one that is given back
  refine Along.ask fun v₂ _ => ⟨?_, ?_⟩
  · show Trail.lease? _ = some lease
    rw [Trail.lease?_append _ ht, Trail.lease?_obtainLease]
    exact congrArg Except.toOption hlease
  exact ((logPass_asks lease _ result).loose_of_logs.bind fun _ => .pure _).keepsLease _ _

lemma Engine.Operation.keepsLease (c : Config) (o : Engine.Operation) (w : World) :
    (o.program c).Along .anything KeepsLease (fun _ _ _ => True) [] w := by
  by_cases ho : o = .sweep
  · rw [ho]
    exact Along.bind ((sweep_keepsLease c.sweepPlan c.untaggedOnly [] w).mono (fun _ _ _ h => h)
      fun _ _ _ _ => along_pure fun _ _ => trivial)
  · exact (o.program_loose c ho).keepsLease [] w

/-! ### Engines that share their stores -/

abbrev Engines := System (Config × Engine.Operation) Unit

def Engines.program (o : Config × Engine.Operation) : Program Unit := o.2.program o.1

def Move.time? {κ : Type} : Move κ → Option Timestamp
  | .setClock now => some now
  | _ => none

namespace System

variable {κ ρ : Type} {program : κ → Program ρ} {s : System κ ρ} {i k : Nat} {a b : Lease}

/-- The thread has got the lease and not given it back. -/
def Sweeps (s : System κ ρ) (i : Nat) (a : Lease) : Prop := (s.trail i).lease? = some a

/-- Leases of passes that are under way are on record or have run out. -/
structure Passing (s : System κ ρ) : Prop where
  /-- No deed is of a time to come. -/
  earlier : ∀ d ∈ s.deeds, d.world.now ≤ s.world.now
  issued : ∀ i a, s.Sweeps i a → a.key = sweepLeaseKey ∧ a.serial < s.world.leases.issued
  apart : ∀ i k a b, s.Sweeps i a → s.Sweeps k b → a.serial = b.serial → i = k
  standing : ∀ i a, s.Sweeps i a → s.world.leases.Recorded a ∨ a.expiresAt ≤ s.world.now

end System

lemma World.leases_answer (w : World) {r : Request} (hr : r.isLease = false) :
    (w.answer r).2.leases = w.leases := by
  cases r with
  | obtainLease _ _ _ | releaseLease _ => cases hr
  | addJob draft =>
    simp only [World.answer, World.addJob]
    split <;> rfl
  | _ => rfl

namespace System.Passing

variable {κ ρ : Type} {program : κ → Program ρ} {s : System κ ρ} {i k : Nat} {a b : Lease}

lemma initial (w : World) : (System.initial w : System κ ρ).Passing where
  earlier _ h := absurd h List.not_mem_nil
  issued _ _ h := by cases h
  apart _ _ _ _ h := by cases h
  standing _ _ h := by cases h

section

variable {c : κ} {r : Request} {next : r.Answer → Program ρ}

lemma now_le_of_mem_trail (hs : s.Passing) {q : Request × World} (hq : q ∈ s.trail k) :
    q.2.now ≤ s.world.now := by
  obtain ⟨d, hd, rfl⟩ := List.mem_map.1 (List.mem_reverse.1 hq)
  exact hs.earlier d (List.mem_filter.1 hd).1

lemma sweeps_of_ne (h : (s.answered k c r next).Sweeps i a) (hik : i ≠ k) : s.Sweeps i a := by
  unfold Sweeps at h
  rw [trail_answered_of_ne _ (Ne.symm hik)] at h
  exact h

lemma obtained (hs : s.Passing) {key : String} {ttl : Int} {now : Timestamp}
    (hr : KeepsLease (s.trail k) (.obtainLease key ttl now) s.world)
    (hok : (s.world.leases.obtain? key ttl now).1 = .ok b) :
    (b.key = sweepLeaseKey ∧ b.serial = s.world.leases.issued) ∧
      ∀ i a, s.Sweeps i a → a.expiresAt ≤ s.world.now := by
  obtain ⟨hkey, q, hq, rfl⟩ := hr
  obtain ⟨-, hbkey, hserial, -, hover⟩ := Leases.obtain?_of_ok hok
  refine ⟨⟨hbkey.trans hkey, hserial⟩, fun i a ha => ?_⟩
  rcases hs.standing i a ha with hrecorded | hout
  · have hfind : s.world.leases.held.find? key = some a := by
      rw [hkey, ← (hs.issued i a ha).1]
      exact hrecorded
    exact Int.le_trans (hover a hfind) (hs.now_le_of_mem_trail hq)
  · exact hout

/-- A thread that gets the lease does so when the leases of all that sweep have run out. -/
lemma over_of_obtained (hs : s.Passing) (hr : KeepsLease (s.trail k) r s.world)
    (hnot : ¬s.Sweeps k b) (hb : (s.answered k c r next).Sweeps k b) (ha : s.Sweeps i a) :
    a.expiresAt ≤ s.world.now := by
  unfold Sweeps at hb
  rw [trail_answered_self] at hb
  cases r with
  | obtainLease key ttl now =>
    rw [Trail.lease?_obtainLease] at hb
    cases hok : (s.world.leases.obtain? key ttl now).1 with
    | error e =>
      rw [hok] at hb
      cases hb
    | ok lease => exact (hs.obtained hr hok).2 i a ha
  | releaseLease lease =>
    rw [Trail.lease?_releaseLease] at hb
    cases hb
  | _ =>
    rw [Trail.lease?_of_not _ rfl] at hb
    exact absurd hb hnot

lemma earlier_answered (hs : s.Passing) : ∀ d ∈ (s.answered k c r next).deeds,
    d.world.now ≤ (s.answered k c r next).world.now := by
  intro d hd
  rw [show (s.answered k c r next).world.now = s.world.now from s.world.now_answer r]
  rcases List.mem_cons.1 hd with rfl | hd
  · exact Int.le_refl _
  · exact hs.earlier d hd

lemma answered_of_not (hs : s.Passing) (hlease : r.isLease = false) :
    (s.answered k c r next).Passing := by
  have hleases : (s.answered k c r next).world.leases = s.world.leases :=
    s.world.leases_answer hlease
  have hsame {i : Nat} {a : Lease} (h : (s.answered k c r next).Sweeps i a) : s.Sweeps i a := by
    by_cases hik : i = k
    · subst hik
      unfold Sweeps at h
      rw [trail_answered_self, Trail.lease?_of_not _ hlease] at h
      exact h
    · exact sweeps_of_ne h hik
  refine ⟨hs.earlier_answered, fun i a ha => ?_, fun i j a b ha hb => ?_, fun i a ha => ?_⟩
  · rw [hleases]
    exact hs.issued i a (hsame ha)
  · exact hs.apart i j a b (hsame ha) (hsame hb)
  · rw [hleases, show (s.answered k c r next).world.now = s.world.now from s.world.now_answer r]
    exact hs.standing i a (hsame ha)

lemma obtain?_of_sweeps {key : String} {ttl : Int} {now : Timestamp}
    {next : Except DispatchError Lease → Program ρ}
    (h : (s.answered k c (.obtainLease key ttl now) next).Sweeps k a) :
    (s.world.leases.obtain? key ttl now).1 = .ok a := by
  unfold Sweeps at h
  rw [trail_answered_self, Trail.lease?_obtainLease] at h
  cases hok : (s.world.leases.obtain? key ttl now).1 with
  | error e =>
    rw [hok] at h
    cases h
  | ok lease =>
    rw [hok] at h
    cases h
    rfl

/-- Who gets the lease has a serial of its own, and the lease of every other pass has run out. -/
lemma answered_obtain (hs : s.Passing) {key : String} {ttl : Int} {now : Timestamp}
    {next : Except DispatchError Lease → Program ρ}
    (hr : KeepsLease (s.trail k) (.obtainLease key ttl now) s.world) :
    (s.answered k c (.obtainLease key ttl now) next).Passing := by
  have hissued : s.world.leases.issued ≤ (s.world.leases.obtain? key ttl now).2.issued :=
    s.world.leases.issued_call (.obtain key ttl now)
  have hfresh {i : Nat} {a b : Lease} (ha : s.Sweeps i a)
      (hok : (s.world.leases.obtain? key ttl now).1 = .ok b) : a.serial ≠ b.serial := by
    rw [(hs.obtained hr hok).1.2]
    exact Nat.ne_of_lt (hs.issued i a ha).2
  refine ⟨hs.earlier_answered, fun i a ha => ?_, fun i j a b ha hb hserial => ?_, fun i a ha => ?_⟩
  · show _ ∧ a.serial < (s.world.leases.obtain? key ttl now).2.issued
    by_cases hik : i = k
    · subst hik
      have hok := obtain?_of_sweeps ha
      obtain ⟨hkey, hserial⟩ := (hs.obtained hr hok).1
      rw [hserial, (Leases.obtain?_of_ok hok).2.2.2.1]
      exact ⟨hkey, Nat.lt_succ_self _⟩
    · obtain ⟨hkey, hserial⟩ := hs.issued i a (sweeps_of_ne ha hik)
      exact ⟨hkey, Nat.lt_of_lt_of_le hserial hissued⟩
  · by_cases hik : i = k
    · subst hik
      by_cases hji : j = i
      · exact hji.symm
      · exact absurd hserial.symm (hfresh (sweeps_of_ne hb hji) (obtain?_of_sweeps ha))
    · by_cases hjk : j = k
      · subst hjk
        exact absurd hserial (hfresh (sweeps_of_ne ha hik) (obtain?_of_sweeps hb))
      · exact hs.apart i j a b (sweeps_of_ne ha hik) (sweeps_of_ne hb hjk) hserial
  · show (s.world.leases.obtain? key ttl now).2.held.find? a.key = some a ∨
      a.expiresAt ≤ s.world.now
    by_cases hik : i = k
    · subst hik
      obtain ⟨-, hkey, -, hafter, -⟩ := Leases.obtain?_of_ok (obtain?_of_sweeps ha)
      rw [hafter, hkey]
      exact .inl (Table.find?_insert_self _ _ _)
    · have ha := sweeps_of_ne ha hik
      cases hok : (s.world.leases.obtain? key ttl now).1 with
      | ok lease => exact .inr ((hs.obtained hr hok).2 i a ha)
      | error e =>
        rw [Leases.obtain?_of_error hok]
        exact hs.standing i a ha

lemma answered_release (hs : s.Passing) {lease : Lease} {next : Bool → Program ρ}
    (hown : s.Sweeps k lease) : (s.answered k c (.releaseLease lease) next).Passing := by
  have hother {i : Nat} {a : Lease} (h : (s.answered k c (.releaseLease lease) next).Sweeps i a) :
      s.Sweeps i a ∧ i ≠ k := by
    by_cases hik : i = k
    · subst hik
      unfold Sweeps at h
      rw [trail_answered_self, Trail.lease?_releaseLease] at h
      cases h
    · exact ⟨sweeps_of_ne h hik, hik⟩
  refine ⟨hs.earlier_answered, fun i a ha => ?_, fun i j a b ha hb => ?_, fun i a ha => ?_⟩
  · obtain ⟨hkey, hserial⟩ := hs.issued i a (hother ha).1
    exact ⟨hkey, Nat.lt_of_lt_of_le hserial (s.world.leases.issued_call (.release lease))⟩
  · exact hs.apart i j a b (hother ha).1 (hother hb).1
  · obtain ⟨ha, hik⟩ := hother ha
    rcases hs.standing i a ha with hrecorded | hout
    · refine .inl ?_
      rcases hrecorded.call (hs.issued i a ha).2 (.release lease) with hstill |
        ⟨-, ⟨token, htoken, -, hserial, -⟩ | ⟨b, ttl, now, hcall, -⟩⟩
      · exact hstill
      · cases htoken
        exact absurd (hs.apart i k a lease ha hown hserial.symm) hik
      · cases hcall
    · exact .inr hout

/-- **An answer keeps the leases of passes on record**, unless they have run out. -/
theorem answered (hs : s.Passing) (hr : KeepsLease (s.trail k) r s.world) :
    (s.answered k c r next).Passing := by
  cases r with
  | obtainLease key ttl now => exact hs.answered_obtain hr
  | releaseLease lease => exact hs.answered_release hr
  | _ => exact hs.answered_of_not rfl

end

/-- **A move keeps the leases of passes on record**, unless they have run out. -/
theorem move (hs : s.Passing) (halong : s.AllAlong fun _ => KeepsLease) (m : Move κ)
    (hclock : ∀ t, m.time? = some t → s.world.now ≤ t) : (s.move program m).Passing := by
  cases m with
  | step k =>
    show (s.step k).Passing
    rcases s.step_eq_or_answered k with hstep | ⟨c, r, next, ht, hstep⟩
    · rw [hstep]
      exact hs
    · rw [hstep]
      exact hs.answered (halong.next ht)
  | setClock now =>
    have hle := hclock now rfl
    exact ⟨fun d hd => Int.le_trans (hs.earlier d hd) hle, hs.issued, hs.apart,
      fun i a ha => (hs.standing i a ha).imp id fun hout => Int.le_trans hout hle⟩
  | start c => exact ⟨hs.earlier, hs.issued, hs.apart, hs.standing⟩
  | plan call skip e => exact ⟨hs.earlier, hs.issued, hs.apart, hs.standing⟩

/-- **The leases of passes are on record in every run** whose clock does not go back. -/
theorem run (hprog : ∀ c w, (program c).Along .anything KeepsLease (fun _ _ _ => True) [] w)
    (hs : s.Passing) (halong : s.AllAlong fun _ => KeepsLease) (moves : List (Move κ))
    (hclock : (s.world.now :: moves.filterMap Move.time?).Pairwise fun t u => t ≤ u) :
    (s.run program moves).Passing := by
  induction moves generalizing s with
  | nil => exact hs
  | cons m moves ih =>
    have hhead := (List.pairwise_cons.1 hclock).1
    have hnext : (s.move program m).Passing := hs.move halong m fun t ht =>
      hhead t (List.mem_filterMap.2 ⟨m, List.mem_cons_self, ht⟩)
    refine ih hnext (halong.move hprog m) ?_
    have hstill (hnow : (s.move program m).world.now = s.world.now) (hm : m.time? = none) :
        ((s.move program m).world.now :: moves.filterMap Move.time?).Pairwise
          fun t u => t ≤ u := by
      rw [hnow]
      rw [List.filterMap_cons_none hm] at hclock
      exact hclock
    cases m with
    | setClock now => exact (List.pairwise_cons.1 hclock).2
    | start c => exact hstill rfl rfl
    | plan call skip e => exact hstill rfl rfl
    | step k =>
      refine hstill ?_ rfl
      show (s.step k).world.now = _
      rcases s.step_eq_or_answered k with hstep | ⟨c, r, next, -, hstep⟩
      · rw [hstep]
      · rw [hstep]
        exact s.world.now_answer r

end System.Passing

/-- **Leases exclude each other.** In any sequence of calls whose times do not go back, each lease
is issued after the one before it was given back or has run out. So in any run of operations during
which the clock does not go back, a pass that gets the lease while another pass is under way does so
only once the lease of that pass has run out. -/
theorem lease_exclusive (calls : List LeaseCall) (hcalls : LeaseCall.Ascending calls) (c : Config)
    (sink : Sink) (now : Timestamp) (moves : List (Move (Config × Engine.Operation)))
    (hclock : (now :: moves.filterMap Move.time?).Pairwise fun t u => t ≤ u) :
    Leases.Lawful calls ∧
      let s := (System.initial (Engine.initial c sink now)).run Engines.program moves
      ∀ i k a b, s.Sweeps i a → ¬s.Sweeps k b → (s.step k).Sweeps k b →
        a.expiresAt ≤ s.world.now := by
  refine ⟨Leases.lawful hcalls, ?_⟩
  intro s i k a b ha hnot hb
  have hprog (o : Config × Engine.Operation) (w : World) :
      (Engines.program o).Along .anything KeepsLease (fun _ _ _ => True) [] w :=
    o.2.keepsLease o.1 w
  have hstart : (System.initial (Engine.initial c sink now) : Engines).AllAlong
      fun _ => KeepsLease := .initial _
  have halong : s.AllAlong fun _ => KeepsLease := hstart.run hprog moves
  have hpassing : s.Passing := (System.Passing.initial _).run hprog hstart moves hclock
  rcases s.step_eq_or_answered k with hstep | ⟨o, r, next, ht, hstep⟩
  · rw [hstep] at hb
    exact absurd hb hnot
  · rw [hstep] at hb
    exact hpassing.over_of_obtained (halong.next ht) hnot hb ha

def tenMinutes : Timestamp := ⟨600000000000, by decide, by decide⟩

/-- A pass is under way, and when its lease runs out another one is about to ask for it. -/
def overtaking : List (Move (Config × Engine.Operation)) :=
  [.start (.standard, .sweep), .step 0, .step 0, .setClock tenMinutes, .start (.standard, .sweep),
    .step 1]

theorem lease_exclusive_overtaking :
    let s := (System.initial (Engine.initial .standard .silent .epoch)).run Engines.program
      overtaking
    Leases.Lawful [.obtain sweepLeaseKey 1 .epoch, .release ⟨"other", 0, .epoch⟩,
        .obtain sweepLeaseKey 0 tenMinutes] ∧
      s.Sweeps 0 ⟨sweepLeaseKey, 0, tenMinutes⟩ ∧
      (∃ b, ¬s.Sweeps 1 b ∧ (s.step 1).Sweeps 1 b) ∧ tenMinutes ≤ s.world.now := by
  intro s
  have hfirst : s.Sweeps 0 ⟨sweepLeaseKey, 0, tenMinutes⟩ := by
    show (s.trail 0).lease? = _
    decide +kernel
  have hnot : ¬s.Sweeps 1 ⟨sweepLeaseKey, 1, ⟨1200000000000, by decide, by decide⟩⟩ := by
    show (s.trail 1).lease? ≠ _
    decide +kernel
  have hsecond : (s.step 1).Sweeps 1 ⟨sweepLeaseKey, 1, ⟨1200000000000, by decide, by decide⟩⟩ := by
    show ((s.step 1).trail 1).lease? = _
    decide +kernel
  obtain ⟨hlawful, hover⟩ := lease_exclusive [.obtain sweepLeaseKey 1 .epoch,
    .release ⟨"other", 0, .epoch⟩, .obtain sweepLeaseKey 0 tenMinutes]
    (by unfold LeaseCall.Ascending; decide) .standard .silent .epoch overtaking (by decide)
  exact ⟨hlawful, hfirst, ⟨_, hnot, hsecond⟩, hover 0 1 _ _ hfirst hnot hsecond⟩

end JobDispatch

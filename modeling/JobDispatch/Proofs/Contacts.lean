import JobDispatch.Proofs.Occupancy
import JobDispatch.Proofs.Rankings

/-!
Heartbeats that come out of order. What the registry knows of a worker by its heartbeats alone, that
is, what the worker offers and when it was last in contact, follows from them in the order in which
they come; claims and releases do not touch it (`Registry.Named.sighting?_afterAll`). The time of
the last contact is the latest of theirs, whatever their order. What the worker offers, however, is
what the last one to come says, even if a later one came before it (`contacts_settle`,
`late_heartbeat_prevails`).
-/

namespace JobDispatch

lemma Timestamp.le_antisymm {s t : Timestamp} (h : s ≤ t) (h' : t ≤ s) : s = t := by
  have hnanos : s.nanos = t.nanos := Int.le_antisymm h h'
  cases s
  cases t
  cases hnanos
  rfl

/-! ### What heartbeats tell -/

/-- What a worker says of itself in its heartbeats. -/
structure Profile where
  tags : Tags
  capacity : UInt32
  scope : Scope
  runUntagged : Bool
deriving DecidableEq

/-- What is known of a worker by its heartbeats. -/
structure Sighting where
  profile : Profile
  contact : Timestamp
deriving DecidableEq

def Heartbeat.profile (h : Heartbeat) : Profile := ⟨h.tags, h.capacity, h.scope, h.runUntagged⟩

def Worker.profile (w : Worker) : Profile := ⟨w.tags, w.capacity, w.scope, w.runUntagged⟩

def Worker.sighting (w : Worker) : Sighting := ⟨w.profile, w.lastContact⟩

/-- The heartbeat is the latest of some, in whatever order they come. -/
def Heartbeat.IsLatest (h : Heartbeat) (hs : List Heartbeat) : Prop :=
  h ∈ hs ∧ ∀ h' ∈ hs, h'.contactTime ≤ h.contactTime

def Sighting.hear (known? : Option Sighting) (h : Heartbeat) : Option Sighting :=
  some ⟨h.profile,
    match known? with
    | none => h.contactTime
    | some s => if s.contact < h.contactTime then h.contactTime else s.contact⟩

namespace Heartbeat

variable {h h' : Heartbeat} {hs hs' : List Heartbeat}

lemma isLatest_singleton (h : Heartbeat) : h.IsLatest [h] := by
  refine ⟨List.mem_singleton_self h, fun h' hmem => ?_⟩
  rw [List.mem_singleton.1 hmem]
  exact Int.le_refl _

/-- One more heartbeat is the latest now, or the one that was so before still is. -/
lemma IsLatest.concat (hlatest : h.IsLatest hs) (h' : Heartbeat) :
    (if h.contactTime < h'.contactTime then h' else h).IsLatest (hs ++ [h']) := by
  split
  · rename_i hlt
    refine ⟨List.mem_append_right _ (List.mem_singleton_self h'), fun k hk => ?_⟩
    rcases List.mem_append.1 hk with hk | hk
    · exact Int.le_trans (hlatest.2 k hk) (Int.le_of_lt hlt)
    · rw [List.mem_singleton.1 hk]
      exact Int.le_refl _
  · rename_i hge
    refine ⟨List.mem_append_left _ hlatest.1, fun k hk => ?_⟩
    rcases List.mem_append.1 hk with hk | hk
    · exact hlatest.2 k hk
    · rw [List.mem_singleton.1 hk]
      exact Int.not_lt.1 hge

lemma IsLatest.contactTime_eq (hlatest : h.IsLatest hs) (hlatest' : h'.IsLatest hs')
    (hperm : hs'.Perm hs) : h'.contactTime = h.contactTime := by
  have hle : h'.contactTime ≤ h.contactTime := hlatest.2 h' (hperm.mem_iff.1 hlatest'.1)
  have hge : h.contactTime ≤ h'.contactTime := hlatest'.2 h (hperm.mem_iff.2 hlatest.1)
  exact Timestamp.le_antisymm hle hge

end Heartbeat

/-- **Of some heartbeats the latest tells the time and the last to come all else.** -/
lemma Sighting.heard {hs : List Heartbeat} {last : Heartbeat} (hlast : hs.getLast? = some last) :
    ∃ latest : Heartbeat, latest.IsLatest hs ∧
      hs.foldl Sighting.hear none = some ⟨last.profile, latest.contactTime⟩ := by
  induction hs using List.reverseRecOn generalizing last with
  | nil => cases hlast
  | append_singleton hs h ih =>
    rw [List.getLast?_concat] at hlast
    cases hlast
    rw [List.foldl_append, List.foldl_cons, List.foldl_nil]
    cases hbefore : hs.getLast? with
    | none =>
      rw [List.getLast?_eq_none_iff.1 hbefore]
      exact ⟨h, h.isLatest_singleton, rfl⟩
    | some before =>
      obtain ⟨latest, hlatest, hknown⟩ := ih hbefore
      refine ⟨_, hlatest.concat h, ?_⟩
      rw [hknown, apply_ite Heartbeat.contactTime]
      rfl

/-! ### Heartbeats among other calls -/

namespace RegistryCall

def report? (id : WorkerId) : RegistryCall → Option Heartbeat
  | .heartbeat h => if h.worker = id then some h else none
  | .takePlace _ _ | .release _ => none

def reports (id : WorkerId) (calls : List RegistryCall) : List Heartbeat :=
  calls.filterMap (report? id)

end RegistryCall

namespace Registry

variable {r : Registry} {id : WorkerId}

/-- What the registry knows of a worker by its heartbeats. -/
def sighting? (r : Registry) (id : WorkerId) : Option Sighting := (r.get? id).map Worker.sighting

lemma sighting?_put_of_ne {worker : Worker} (h : id ≠ worker.id) :
    (r.put worker).sighting? id = r.sighting? id := by
  rw [sighting?, get?_put, if_neg h]
  rfl

/-- A record that changes in other respects does not change what is known by heartbeats. -/
lemma sighting?_put_of_eq {worker before : Worker} (hget : r.get? worker.id = some before)
    (hsame : worker.sighting = before.sighting) :
    (r.put worker).sighting? id = r.sighting? id := by
  by_cases hid : id = worker.id
  · rw [sighting?, get?_put, if_pos hid, sighting?, hid, hget, Option.map_some, Option.map_some,
      hsame]
  · exact sighting?_put_of_ne hid

lemma Named.get?_id (hr : r.Named) {w : Worker} (hget : r.get? id = some w) :
    r.get? w.id = some w := by
  rw [hr id w hget]
  exact hget

lemma sighting_after (r : Registry) (h : Heartbeat) :
    some (r.after h).sighting = Sighting.hear (r.sighting? h.worker) h := by
  unfold after sighting?
  cases r.get? h.worker with
  | none => rfl
  | some w => rfl

/-- **A call adds to what is known of a worker what a heartbeat of it says**, and nothing if it is
another call. -/
lemma Named.sighting?_call (hr : r.Named) (id : WorkerId) (c : RegistryCall) :
    (r.call c).sighting? id =
      match c.report? id with
      | some h => Sighting.hear (r.sighting? id) h
      | none => r.sighting? id := by
  cases c with
  | heartbeat h =>
    have hcall : r.call (.heartbeat h) = r.put (r.after h) := by
      rw [call, heartbeat_eq]
    rw [hcall, RegistryCall.report?]
    by_cases hid : h.worker = id
    · rw [if_pos hid, sighting?, get?_put, if_pos (by rw [r.id_after hr h, hid]), Option.map_some,
        sighting_after, hid]
    · rw [if_neg hid]
      exact sighting?_put_of_ne (by rw [r.id_after hr h]; exact Ne.symm hid)
  | takePlace worker now =>
    show (r.takePlace worker now).2.sighting? id = r.sighting? id
    cases hplace : (r.takePlace worker now).1 with
    | some reason => rw [r.takePlace_of_blocked hplace]
    | none =>
      obtain ⟨w, hget, -, -, htaken⟩ := r.takePlace_eq_none hplace
      have hown := hr.get?_id hget
      rw [htaken]
      exact sighting?_put_of_eq hown rfl
  | release worker =>
    show (r.release worker).2.sighting? id = r.sighting? id
    unfold release
    split
    · rfl
    · rename_i w hget
      split
      · rfl
      · have hown := hr.get?_id hget
        exact sighting?_put_of_eq hown rfl

/-- **What is known of a worker is what its heartbeats have told**, one after the other. -/
theorem Named.sighting?_afterAll (hr : r.Named) (id : WorkerId) (calls : List RegistryCall) :
    (r.afterAll calls).sighting? id =
      (RegistryCall.reports id calls).foldl Sighting.hear (r.sighting? id) := by
  induction calls generalizing r with
  | nil => rfl
  | cons c calls ih =>
    have hnext : (r.call c).Named := hr.afterAll [c]
    show ((r.call c).afterAll calls).sighting? id = _
    rw [ih hnext, hr.sighting?_call id c, RegistryCall.reports, RegistryCall.reports,
      List.filterMap_cons]
    cases c.report? id with
    | none => rfl
    | some h => rfl

end Registry

/-! ### Records after all heartbeats -/

open RegistryCall (reports)

lemma Registry.named_empty (staleAfter : Int) : (empty staleAfter).Named :=
  fun _ _ hget => by cases hget

lemma Registry.exists_sighted (staleAfter : Int) {id : WorkerId} {calls : List RegistryCall}
    {last : Heartbeat} (hlast : (reports id calls).getLast? = some last) :
    ∃ w, ∃ latest : Heartbeat, ((empty staleAfter).afterAll calls).get? id = some w ∧
      latest.IsLatest (reports id calls) ∧ w.sighting = ⟨last.profile, latest.contactTime⟩ := by
  obtain ⟨latest, hlatest, hheard⟩ := Sighting.heard hlast
  have hknown := ((named_empty staleAfter).sighting?_afterAll id calls).trans hheard
  obtain ⟨w, hget, hw⟩ := Option.map_eq_some_iff.1 hknown
  exact ⟨w, latest, hget, hlatest, hw⟩

/-- **What heartbeats leave in the record of a worker**, among any claims and releases. The last
contact is that of the latest of them, whatever order they come in; all else is what the last one to
come says. So the record tells what the latest says if that one comes last, and two orders that end
with the same heartbeat agree. -/
theorem contacts_settle (staleAfter : Int) (id : WorkerId) (calls : List RegistryCall)
    (last : Heartbeat) (hlast : (reports id calls).getLast? = some last) :
    ∃ w, ((Registry.empty staleAfter).afterAll calls).get? id = some w ∧
      w.profile = last.profile ∧
      (∃ latest : Heartbeat, latest.IsLatest (reports id calls) ∧
        w.lastContact = latest.contactTime) ∧
      (last.IsLatest (reports id calls) → w.sighting = ⟨last.profile, last.contactTime⟩) ∧
      ∀ others, (reports id others).Perm (reports id calls) →
        ∃ w', ((Registry.empty staleAfter).afterAll others).get? id = some w' ∧
          w'.lastContact = w.lastContact ∧
          ((reports id others).getLast? = some last → w'.profile = w.profile) := by
  obtain ⟨w, latest, hget, hlatest, hw⟩ := Registry.exists_sighted staleAfter hlast
  have hcontact : w.lastContact = latest.contactTime := congrArg Sighting.contact hw
  refine ⟨w, hget, congrArg Sighting.profile hw, ⟨latest, hlatest, hcontact⟩, fun h => ?_,
    fun others hperm => ?_⟩
  · rw [hw, h.contactTime_eq hlatest (.refl _)]
  · have hne : reports id others ≠ [] := fun hnil => by
      rw [hnil, List.nil_perm] at hperm
      rw [hperm] at hlast
      cases hlast
    obtain ⟨w', latest', hget', hlatest', hw'⟩ :=
      Registry.exists_sighted staleAfter (List.getLast?_eq_some_getLast hne)
    refine ⟨w', hget', ?_, fun hlast' => ?_⟩
    · rw [hcontact, ← hlatest.contactTime_eq hlatest' hperm]
      exact congrArg Sighting.contact hw'
    · rw [List.getLast?_eq_some_getLast hne, Option.some.injEq] at hlast'
      rw [hlast'] at hw'
      exact (congrArg Sighting.profile hw').trans (congrArg Sighting.profile hw).symm

/-- What a worker says first, and what it says a moment later, when all has changed. -/
def earlyReport : Heartbeat :=
  ⟨⟨.ofNat 1⟩, SortedSet.ofList ["docker"], 1, .epoch, .only (SortedSet.ofList [⟨.ofNat 4⟩]), false⟩

def lateReport : Heartbeat :=
  ⟨⟨.ofNat 1⟩, SortedSet.ofList ["linux"], 5, ⟨1000000, by decide, by decide⟩, .everyProject, true⟩

theorem contacts_settle_delayed :
    let calls : List RegistryCall :=
      [.heartbeat lateReport, .takePlace ⟨.ofNat 1⟩ .epoch, .heartbeat earlyReport,
        .release ⟨.ofNat 1⟩]
    (reports ⟨.ofNat 1⟩ calls).getLast? = some earlyReport ∧
      ∃ w, ((Registry.empty 10).afterAll calls).get? ⟨.ofNat 1⟩ = some w ∧
        w.profile = earlyReport.profile ∧ w.lastContact = lateReport.contactTime := by
  intro calls
  have hlast : (reports ⟨.ofNat 1⟩ calls).getLast? = some earlyReport := by decide +kernel
  obtain ⟨w, hget, hprofile, ⟨latest, ⟨hmem, hlatest⟩, hcontact⟩, -⟩ :=
    contacts_settle 10 ⟨.ofNat 1⟩ calls earlyReport hlast
  refine ⟨hlast, w, hget, hprofile, ?_⟩
  have hreports : reports ⟨.ofNat 1⟩ calls = [lateReport, earlyReport] := by decide +kernel
  rw [hreports] at hmem hlatest
  rw [hcontact]
  rcases List.mem_cons.1 hmem with rfl | hmem
  · rfl
  · rw [List.mem_singleton.1 hmem] at hlatest
    exact absurd (hlatest lateReport List.mem_cons_self) (by decide)

/-- **A heartbeat that comes late puts out-of-date facts into the record**: the worker is back at
its former tags, capacity, scope and rule on untagged jobs, under the time of the later contact.
Had the heartbeats come in their order, the record would tell what the later one says. -/
theorem late_heartbeat_prevails :
    ∃ (staleAfter : Int) (id : WorkerId) (early late : Heartbeat) (w w' : Worker),
      early.contactTime < late.contactTime ∧
      ((Registry.empty staleAfter).afterAll [.heartbeat late, .heartbeat early]).get? id = some w ∧
      w.lastContact = late.contactTime ∧ w.tags ≠ late.tags ∧ w.capacity ≠ late.capacity ∧
      w.scope ≠ late.scope ∧ w.runUntagged ≠ late.runUntagged ∧
      ((Registry.empty staleAfter).afterAll [.heartbeat early, .heartbeat late]).get? id =
        some w' ∧
      w'.sighting = ⟨late.profile, late.contactTime⟩ := by
  refine ⟨10, ⟨.ofNat 1⟩, earlyReport, lateReport,
    (Worker.ofHeartbeat lateReport).refresh earlyReport,
    (Worker.ofHeartbeat earlyReport).refresh lateReport, by decide, rfl, rfl, ?_, ?_, ?_, ?_, rfl,
    rfl⟩
  · decide +kernel
  · decide
  · decide
  · decide

end JobDispatch

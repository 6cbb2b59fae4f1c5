import JobDispatch.Lease
import Mathlib.Order.Lattice
import Mathlib.Tactic.Lemma

/-!
Leases among calls of any parties. Whoever calls may pass any key, any time to live and any lease,
also one that ran out, was given back before or was never issued.

A lease that is issued is on record until it is given back or another one is issued for its key,
which happens only once it has run out (`Leases.fate`); from then on it is gone for good
(`Leases.Gone`). So a lease that is still to run and was not given back is the only one of its key
(`Leases.lawful`).
-/

namespace JobDispatch

namespace Leases

variable {l : Leases} {a b : Lease} {key : String} {ttl : Int} {now : Timestamp}

/-! ### Single calls -/

/-- Asking for a lease fails without effect, or puts a lease with a new serial on record where
there was none or one that had run out. -/
lemma obtain?_cases (l : Leases) (key : String) (ttl : Int) (now : Timestamp) :
    (∃ e, l.obtain? key ttl now = (.error e, l)) ∨
      ∃ expiresAt, now.add? ttl = some expiresAt ∧
        l.obtain? key ttl now =
          (.ok ⟨key, l.issued, expiresAt⟩,
            ⟨l.held.insert key ⟨key, l.issued, expiresAt⟩, l.issued + 1⟩) ∧
        ∀ held, l.held.find? key = some held → held.expiresAt ≤ now := by
  unfold obtain?
  cases hadd : now.add? ttl with
  | none => exact .inl ⟨_, rfl⟩
  | some expiresAt =>
    dsimp only
    split
    · exact .inl ⟨_, rfl⟩
    · rename_i hfree
      refine .inr ⟨expiresAt, rfl, rfl, fun held hheld => ?_⟩
      rw [hheld] at hfree
      simpa [Lease.hasRunOut] using hfree

lemma obtain?_of_error {e : DispatchError} (h : (l.obtain? key ttl now).1 = .error e) :
    (l.obtain? key ttl now).2 = l := by
  rcases l.obtain?_cases key ttl now with ⟨e', herr⟩ | ⟨expiresAt, -, hok, -⟩
  · rw [herr]
  · rw [hok] at h
    cases h

lemma obtain?_of_ok (h : (l.obtain? key ttl now).1 = .ok a) :
    (∃ expiresAt, now.add? ttl = some expiresAt) ∧ a.key = key ∧ a.serial = l.issued ∧
      (l.obtain? key ttl now).2 = ⟨l.held.insert key a, l.issued + 1⟩ ∧
      ∀ held, l.held.find? key = some held → held.expiresAt ≤ now := by
  rcases l.obtain?_cases key ttl now with ⟨e, herr⟩ | ⟨expiresAt, hadd, hok, hover⟩
  · rw [herr] at h
    cases h
  · rw [hok] at h ⊢
    cases h
    exact ⟨⟨expiresAt, hadd⟩, rfl, rfl, rfl, hover⟩

/-- A lease that is given back is the one on record; any other changes nothing. -/
lemma release_cases (l : Leases) (lease : Lease) :
    (∃ held, l.held.find? lease.key = some held ∧ held.serial = lease.serial ∧
        l.release lease = (true, { l with held := l.held.erase lease.key })) ∨
      (∀ held, l.held.find? lease.key = some held → held.serial ≠ lease.serial) ∧
        l.release lease = (false, l) := by
  unfold release
  cases hheld : l.held.find? lease.key with
  | none => exact .inr ⟨fun _ h => (by cases h), rfl⟩
  | some held =>
    dsimp only
    split
    · rename_i hserial
      exact .inl ⟨held, rfl, hserial, rfl⟩
    · rename_i hserial
      exact .inr ⟨fun held' h => by cases h; exact hserial, rfl⟩

/-- The lease is on record for its key. -/
def Recorded (l : Leases) (a : Lease) : Prop := l.held.find? a.key = some a

/-- The serial was given out and is not on record any more. -/
structure Gone (l : Leases) (a : Lease) : Prop where
  issued : a.serial < l.issued
  unheld : ∀ held, l.held.find? a.key = some held → held.serial ≠ a.serial

lemma release_of_gone (h : l.Gone a) : l.release a = (false, l) := by
  rcases l.release_cases a with ⟨held, hheld, hserial, -⟩ | ⟨-, hfalse⟩
  · exact absurd hserial (h.unheld held hheld)
  · exact hfalse

end Leases

/-! ### Sequences of calls -/

inductive LeaseCall
  | obtain (key : String) (ttl : Int) (now : Timestamp)
  | release (lease : Lease)

namespace LeaseCall

def key : LeaseCall → String
  | obtain key _ _ => key
  | release lease => lease.key

def time? : LeaseCall → Option Timestamp
  | obtain _ _ now => some now
  | release _ => none

/-- The times that callers give never go back. -/
def Ascending (calls : List LeaseCall) : Prop := (calls.filterMap time?).Pairwise fun s t => s ≤ t

end LeaseCall

namespace Leases

def call (l : Leases) : LeaseCall → Leases
  | .obtain key ttl now => (l.obtain? key ttl now).2
  | .release lease => (l.release lease).2

def after (calls : List LeaseCall) (n : Nat) : Leases := (calls.take n).foldl call empty

def Issues (calls : List LeaseCall) (i : Nat) (a : Lease) (now : Timestamp) : Prop :=
  ∃ ttl, calls[i]? = some (.obtain a.key ttl now) ∧
    ((after calls i).obtain? a.key ttl now).1 = .ok a

/-- A call gives the lease back. -/
def GivesBack (calls : List LeaseCall) (i : Nat) (a : Lease) : Prop :=
  ∃ token, calls[i]? = some (.release token) ∧ token.key = a.key ∧ token.serial = a.serial ∧
    ((after calls i).release token).1 = true

/-- After the first calls and at a time, the lease was issued, is still to run and was not given
back. -/
def InForce (calls : List LeaseCall) (n : Nat) (t : Timestamp) (a : Lease) : Prop :=
  ∃ i now, i < n ∧ Issues calls i a now ∧ (∀ j, i < j → j < n → ¬GivesBack calls j a) ∧
    t < a.expiresAt

variable {l : Leases} {a b : Lease} {calls : List LeaseCall} {i k n : Nat} {s t : Timestamp}

/-- What a call does to the record of a key: nothing, or it gives the lease back that is on record,
or it issues a new one where there was none or one that had run out. -/
lemma find?_call_cases (l : Leases) (c : LeaseCall) (key : String) :
    (l.call c).held.find? key = l.held.find? key ∨
      (∃ token held, c = .release token ∧ token.key = key ∧ l.held.find? key = some held ∧
        held.serial = token.serial ∧ (l.release token).1 = true ∧
        (l.call c).held.find? key = none) ∨
      ∃ b ttl now, c = .obtain key ttl now ∧ b.key = key ∧ b.serial = l.issued ∧
        (l.obtain? key ttl now).1 = .ok b ∧ (l.call c).held.find? key = some b ∧
        (l.call c).issued = l.issued + 1 ∧
        ∀ held, l.held.find? key = some held → held.expiresAt ≤ now := by
  cases c with
  | obtain other ttl now =>
    rcases l.obtain?_cases other ttl now with ⟨e, herr⟩ | ⟨expiresAt, -, hok, hover⟩
    · exact .inl (by simp only [call, herr])
    by_cases hkey : other = key
    · subst hkey
      refine .inr (.inr ⟨⟨other, l.issued, expiresAt⟩, ttl, now, rfl, rfl, rfl, ?_⟩)
      simp only [call, hok, Table.find?_insert_self]
      exact ⟨trivial, trivial, trivial, hover⟩
    · simp only [call, hok, Table.find?_insert_of_ne _ _ (Ne.symm hkey)]
      exact .inl trivial
  | release token =>
    rcases l.release_cases token with ⟨held, hheld, hserial, htrue⟩ | ⟨-, hfalse⟩
    · by_cases hkey : token.key = key
      · subst hkey
        refine .inr (.inl ⟨token, held, rfl, rfl, hheld, hserial, ?_⟩)
        simp only [call, htrue, Table.find?_erase, if_true]
        exact ⟨trivial, trivial⟩
      · simp only [call, htrue, Table.find?_erase, if_neg (Ne.symm hkey)]
        exact .inl trivial
    · exact .inl (by simp only [call, hfalse])

lemma find?_call (c : LeaseCall) {key : String} (h : c.key ≠ key) :
    (l.call c).held.find? key = l.held.find? key := by
  rcases l.find?_call_cases c key with hsame | ⟨token, held, rfl, hkey, -⟩ | ⟨b, ttl, now, rfl, -⟩
  · exact hsame
  · exact absurd hkey h
  · exact absurd rfl h

lemma issued_call (l : Leases) (c : LeaseCall) : l.issued ≤ (l.call c).issued := by
  cases c with
  | obtain key ttl now =>
    rcases l.obtain?_cases key ttl now with ⟨e, herr⟩ | ⟨expiresAt, -, hok, -⟩
    · simp [call, herr]
    · simp [call, hok]
  | release lease =>
    rcases l.release_cases lease with ⟨held, -, -, htrue⟩ | ⟨-, hfalse⟩
    · simp [call, htrue]
    · simp [call, hfalse]

/-- **What is gone stays gone**: new leases have new serials. -/
lemma Gone.call (h : l.Gone a) (c : LeaseCall) : (l.call c).Gone a := by
  refine ⟨Nat.lt_of_lt_of_le h.issued (l.issued_call c), fun held hheld => ?_⟩
  rcases l.find?_call_cases c a.key with
    hsame | ⟨token, old, -, -, -, -, -, hnone⟩ | ⟨b, ttl, now, -, -, hserial, -, hnew, -⟩
  · rw [hsame] at hheld
    exact h.unheld held hheld
  · rw [hnone] at hheld
    cases hheld
  · rw [hnew] at hheld
    cases hheld
    rw [hserial]
    exact Nat.ne_of_gt h.issued

/-- **A lease stays on record** unless the call gives it back or issues another one, which it does
only if this one has run out. -/
lemma Recorded.call (h : l.Recorded a) (hissued : a.serial < l.issued) (c : LeaseCall) :
    (l.call c).Recorded a ∨ (l.call c).Gone a ∧
      ((∃ token, c = .release token ∧ token.key = a.key ∧ token.serial = a.serial ∧
          (l.release token).1 = true) ∨
        ∃ b ttl now, c = .obtain b.key ttl now ∧ (l.obtain? b.key ttl now).1 = .ok b ∧
          b.key = a.key ∧ a.expiresAt ≤ now) := by
  have hlater := Nat.lt_of_lt_of_le hissued (l.issued_call c)
  rcases l.find?_call_cases c a.key with hsame | ⟨token, held, rfl, hkey, hheld, hserial, htrue,
    hnone⟩ | ⟨b, ttl, now, rfl, hkey, hserial, hok, hnew, -, hover⟩
  · exact .inl (hsame.trans h)
  · rw [show l.held.find? a.key = some a from h] at hheld
    cases hheld
    refine .inr ⟨⟨hlater, fun held hheld => ?_⟩, .inl ⟨token, rfl, hkey, hserial.symm, htrue⟩⟩
    rw [hnone] at hheld
    cases hheld
  · refine .inr ⟨⟨hlater, fun held hheld => ?_⟩,
      .inr ⟨b, ttl, now, by rw [hkey], by rw [hkey]; exact hok, hkey, hover a h⟩⟩
    rw [hnew] at hheld
    cases hheld
    rw [hserial]
    exact Nat.ne_of_gt hissued

/-! ### What becomes of a lease -/

lemma after_succ (calls : List LeaseCall) (n : Nat) :
    after calls (n + 1) = after calls n ∨
      ∃ c, calls[n]? = some c ∧ after calls (n + 1) = (after calls n).call c := by
  unfold after
  rw [List.take_add_one]
  cases hc : calls[n]? with
  | none => exact .inl (by rw [Option.toList_none, List.append_nil])
  | some c => exact .inr ⟨c, rfl, by rw [Option.toList_some, List.foldl_append]; rfl⟩

lemma after_of_call {c : LeaseCall} (h : calls[n]? = some c) :
    after calls (n + 1) = (after calls n).call c := by
  unfold after
  rw [List.take_add_one, h, Option.toList_some, List.foldl_append]
  rfl

lemma issued_of_find? (calls : List LeaseCall) (n : Nat) {key : String} {held : Lease}
    (h : (after calls n).held.find? key = some held) : held.serial < (after calls n).issued := by
  induction n generalizing held with
  | zero => cases h
  | succ n ih =>
    rcases after_succ calls n with hsame | ⟨c, -, hcall⟩
    · rw [hsame] at h ⊢
      exact ih h
    rw [hcall] at h ⊢
    rcases (after calls n).find?_call_cases c key with
      hsame | ⟨token, old, -, -, -, -, -, hnone⟩ | ⟨b, ttl, now, -, -, hserial, -, hnew, hnext, -⟩
    · rw [hsame] at h
      exact Nat.lt_of_lt_of_le (ih h) ((after calls n).issued_call c)
    · rw [hnone] at h
      cases h
    · rw [hnew] at h
      cases h
      rw [hserial, hnext]
      exact Nat.lt_succ_self _

lemma Gone.after (h : (after calls k).Gone a) (hkn : k ≤ n) : (Leases.after calls n).Gone a := by
  induction n, hkn using Nat.le_induction with
  | base => exact h
  | succ n _ ih =>
    rcases after_succ calls n with hsame | ⟨c, -, hcall⟩
    · rw [hsame]
      exact ih
    · rw [hcall]
      exact ih.call c

lemma Issues.recorded (h : Issues calls i a s) :
    (after calls (i + 1)).Recorded a ∧ a.serial = (after calls i).issued ∧
      a.serial < (after calls (i + 1)).issued := by
  obtain ⟨ttl, hcall, hok⟩ := h
  obtain ⟨-, -, hserial, hafter, -⟩ := obtain?_of_ok hok
  rw [after_of_call hcall]
  show ((after calls i).obtain? a.key ttl s).2.held.find? a.key = some a ∧ _ ∧
    a.serial < ((after calls i).obtain? a.key ttl s).2.issued
  rw [hafter, Table.find?_insert_self]
  exact ⟨rfl, hserial, hserial ▸ Nat.lt_succ_self _⟩

/-- **The fate of a lease**: it is on record, or it is gone because it was given back or because
another one was issued for its key when it had run out. -/
theorem fate (h : Issues calls i a s) (hin : i < n) :
    a.serial < (after calls n).issued ∧
      ((after calls n).Recorded a ∨ (after calls n).Gone a ∧ ∃ j, i < j ∧ j < n ∧
        (GivesBack calls j a ∨ ∃ b t, Issues calls j b t ∧ b.key = a.key ∧ a.expiresAt ≤ t)) := by
  induction n, hin using Nat.le_induction with
  | base =>
    obtain ⟨hrecorded, -, hserial⟩ := h.recorded
    exact ⟨hserial, .inl hrecorded⟩
  | succ n hin ih =>
    obtain ⟨hserial, hcases⟩ := ih
    rcases after_succ calls n with hsame | ⟨c, hc, hcall⟩
    · rw [hsame]
      refine ⟨hserial, hcases.imp id ?_⟩
      rintro ⟨hgone, j, hij, hjn, hj⟩
      exact ⟨hgone, j, hij, Nat.lt_succ_of_lt hjn, hj⟩
    rw [hcall]
    refine ⟨Nat.lt_of_lt_of_le hserial ((after calls n).issued_call c), ?_⟩
    rcases hcases with hrecorded | ⟨hgone, j, hij, hjn, hj⟩
    · refine (hrecorded.call hserial c).imp id ?_
      rintro ⟨hgone, ⟨token, rfl, hkey, hsame, htrue⟩ | ⟨b, ttl, now, rfl, hok, hkey, hover⟩⟩
      · exact ⟨hgone, n, hin, Nat.lt_succ_self n, .inl ⟨token, hc, hkey, hsame, htrue⟩⟩
      · exact ⟨hgone, n, hin, Nat.lt_succ_self n, .inr ⟨b, now, ⟨ttl, hc, hok⟩, hkey, hover⟩⟩
    · exact .inr ⟨hgone.call c, j, hij, Nat.lt_succ_of_lt hjn, hj⟩

/-! ### The law of leases -/

lemma Issues.le (hcalls : LeaseCall.Ascending calls) (ha : Issues calls i a s)
    (hb : Issues calls k b t) (hik : i < k) : s ≤ t := by
  obtain ⟨ttl, hi, -⟩ := ha
  obtain ⟨ttl', hk, -⟩ := hb
  obtain ⟨hik', hi'⟩ := List.getElem?_eq_some_iff.1 hi
  obtain ⟨hkl, hk'⟩ := List.getElem?_eq_some_iff.1 hk
  have hpairs := List.pairwise_filterMap.1 hcalls
  rw [List.pairwise_iff_getElem] at hpairs
  have hle := hpairs i k hik' hkl hik s (by rw [hi']; rfl) t (by rw [hk']; rfl)
  exact hle

/-- What holds of leases in a sequence of calls. -/
structure Lawful (calls : List LeaseCall) : Prop where
  /-- No two leases have the same serial. -/
  distinct : ∀ i k a b s t, Issues calls i a s → Issues calls k b t → a.serial = b.serial → i = k
  /-- The next lease for a key is issued after the one before was given back or has run out. -/
  succession : ∀ i k a b s t, Issues calls i a s → Issues calls k b t → i < k → a.key = b.key →
    (∃ j, i < j ∧ j < k ∧ GivesBack calls j a) ∨ a.expiresAt ≤ t
  /-- At no time are two leases for a key in force. -/
  exclusive : ∀ n t a b, (∀ i c s, i < n → Issues calls i c s → s ≤ t) → InForce calls n t a →
    InForce calls n t b → a.key = b.key → a = b
  /-- A lease can be given back as long as it is on record. -/
  release_iff : ∀ i n a s, Issues calls i a s → i < n →
    (((after calls n).release a).1 = true ↔ (after calls n).Recorded a)
  /-- Whatever is passed to be given back, it has the serial of the lease on record. -/
  release_token : ∀ n token, ((after calls n).release token).1 = true ↔
    ∃ held, (after calls n).held.find? token.key = some held ∧ held.serial = token.serial
  /-- A lease is given back once at most. -/
  once : ∀ i k a, GivesBack calls i a → GivesBack calls k a → i = k
  /-- Giving back a lease that was taken over has no effect. -/
  overtaken : ∀ i k n a b s t, Issues calls i a s → Issues calls k b t → i < k → a.key = b.key →
    k < n → (after calls n).release a = (false, after calls n)
  /-- Asking for a lease in vain has no effect. -/
  refused : ∀ n key ttl now e, ((after calls n).obtain? key ttl now).1 = .error e →
    ((after calls n).obtain? key ttl now).2 = after calls n
  /-- Calls on one key leave the leases of all others as they are. -/
  separate : ∀ n c key, c.key ≠ key →
    ((after calls n).call c).held.find? key = (after calls n).held.find? key

lemma serial_lt (ha : Issues calls i a s) (hb : Issues calls k b t) (hik : i < k) :
    a.serial < b.serial := by
  obtain ⟨-, hserial, -⟩ := hb.recorded
  rw [hserial]
  exact (fate ha hik).1

lemma succession (hcalls : LeaseCall.Ascending calls) (ha : Issues calls i a s)
    (hb : Issues calls k b t) (hik : i < k) (hkey : a.key = b.key) :
    (∃ j, i < j ∧ j < k ∧ GivesBack calls j a) ∨ a.expiresAt ≤ t := by
  rcases (fate ha hik).2 with hrecorded | ⟨-, j, hij, hjk, hback | ⟨c, u, hc, -, hover⟩⟩
  · obtain ⟨ttl, -, hok⟩ := hb
    obtain ⟨-, -, -, -, hover⟩ := obtain?_of_ok hok
    exact .inr (hover a (hkey ▸ hrecorded))
  · exact .inl ⟨j, hij, hjk, hback⟩
  · -- a third lease came in between, no earlier than this one ran out
    exact .inr (Int.le_trans hover (hc.le hcalls hb hjk))

lemma gone_of_overtaken (ha : Issues calls i a s) (hb : Issues calls k b t) (hik : i < k)
    (hkey : a.key = b.key) (hkn : k < n) : (after calls n).Gone a := by
  obtain ⟨hrecorded, hserial, hissued⟩ := hb.recorded
  have hlt := serial_lt ha hb hik
  refine Gone.after (k := k + 1) ⟨Nat.lt_trans hlt hissued, fun held hheld => ?_⟩ hkn
  rw [hkey, show (after calls (k + 1)).held.find? b.key = some b from hrecorded] at hheld
  cases hheld
  exact Nat.ne_of_gt hlt

lemma gone_of_givesBack (h : GivesBack calls i a) (hin : i < n) : (after calls n).Gone a := by
  obtain ⟨token, hc, hkey, hserial, htrue⟩ := h
  refine Gone.after (k := i + 1) ?_ hin
  rcases (after calls i).release_cases token with ⟨held, hheld, hsame, hback⟩ | ⟨-, hfalse⟩
  · have hissued := issued_of_find? calls i hheld
    rw [hsame, hserial] at hissued
    rw [after_of_call hc]
    show ((after calls i).release token).2.Gone a
    rw [hback, hkey]
    refine ⟨hissued, fun held' hheld' => ?_⟩
    change ((after calls i).held.erase a.key).find? a.key = some held' at hheld'
    rw [Table.find?_erase, if_pos rfl] at hheld'
    cases hheld'
  · rw [hfalse] at htrue
    cases htrue

lemma not_givesBack_of_gone (h : (after calls n).Gone a) : ¬GivesBack calls n a := by
  rintro ⟨token, -, hkey, hserial, htrue⟩
  rcases (after calls n).release_cases token with ⟨held, hheld, hsame, -⟩ | ⟨-, hfalse⟩
  · rw [hkey] at hheld
    exact h.unheld held hheld (hsame.trans hserial)
  · rw [hfalse] at htrue
    cases htrue

/-- **The law of leases** holds of all sequences of calls whose times do not go back. -/
theorem lawful (hcalls : LeaseCall.Ascending calls) : Lawful calls where
  distinct i k a b s t ha hb heq := by
    rcases Nat.lt_trichotomy i k with hik | rfl | hki
    · exact absurd heq (Nat.ne_of_lt (serial_lt ha hb hik))
    · rfl
    · exact absurd heq (Nat.ne_of_gt (serial_lt hb ha hki))
  succession i k a b s t ha hb hik hkey := succession hcalls ha hb hik hkey
  exclusive n t a b hnow := by
    -- the earlier of two leases was given back, or had run out by now
    have hearlier {i k : Nat} {a b : Lease} {s u : Timestamp} (ha : Issues calls i a s)
        (hb : Issues calls k b u) (hback : ∀ j, i < j → j < n → ¬GivesBack calls j a)
        (hrun : t < a.expiresAt) (hkey : a.key = b.key) (hkn : k < n) : ¬i < k := fun hik => by
      rcases succession hcalls ha hb hik hkey with ⟨j, hij, hjk, hj⟩ | hover
      · exact hback j hij (Nat.lt_trans hjk hkn) hj
      · exact absurd hrun (Int.not_lt.2 (Int.le_trans hover (hnow k b u hkn hb)))
    rintro ⟨i, s, hin, ha, hbackA, hrunA⟩ ⟨k, u, hkn, hb, hbackB, hrunB⟩ hkey
    have hik : i = k := Nat.le_antisymm
      (Nat.not_lt.1 (hearlier hb ha hbackB hrunB hkey.symm hin))
      (Nat.not_lt.1 (hearlier ha hb hbackA hrunA hkey hkn))
    subst hik
    obtain ⟨ttl, hi, hok⟩ := ha
    obtain ⟨ttl', hi', hok'⟩ := hb
    rw [hi] at hi'
    obtain ⟨-, rfl, rfl⟩ := LeaseCall.obtain.inj (Option.some.inj hi')
    rw [← hkey] at hok'
    exact Except.ok.inj (hok.symm.trans hok')
  release_iff i n a s ha hin := by
    constructor
    · intro htrue
      rcases (fate ha hin).2 with hrecorded | ⟨hgone, -⟩
      · exact hrecorded
      · rw [release_of_gone hgone] at htrue
        cases htrue
    · intro hrecorded
      rcases (after calls n).release_cases a with ⟨held, -, -, htrue⟩ | ⟨hother, -⟩
      · rw [htrue]
      · exact absurd rfl (hother a hrecorded)
  release_token n token := by
    rcases (after calls n).release_cases token with ⟨held, hheld, hsame, htrue⟩ | ⟨hother, hfalse⟩
    · rw [htrue]
      exact ⟨fun _ => ⟨held, hheld, hsame⟩, fun _ => rfl⟩
    · rw [hfalse]
      exact ⟨nofun, fun ⟨held, hheld, hsame⟩ => absurd hsame (hother held hheld)⟩
  once i k a hi hk := by
    rcases Nat.lt_trichotomy i k with hik | rfl | hki
    · exact absurd hk (not_givesBack_of_gone (gone_of_givesBack hi hik))
    · rfl
    · exact absurd hi (not_givesBack_of_gone (gone_of_givesBack hk hki))
  overtaken i k n a b s t ha hb hik hkey hkn :=
    release_of_gone (gone_of_overtaken ha hb hik hkey hkn)
  refused n key ttl now e := obtain?_of_error
  separate n c key h := find?_call c h

end Leases

end JobDispatch

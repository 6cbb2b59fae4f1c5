import JobDispatch.Proofs.Calls
import JobDispatch.Proofs.Threads

/-!
A job goes to one worker at most. In a run of critical sections that take turns request by request,
at most one claim of a job ever succeeds, and none does if the job was canceled while it waited, nor
is it canceled then once a claim has succeeded (`claim_exclusive`). Both take the job out of the
state `pending`, and a job leaves a state only once (`System.Sound.left_once`).
-/

namespace JobDispatch

/-- The footing that a call ends with. -/
def Call.Ends (c : Call) (reply : Reply) (f : Footing) : Prop := f = ⟨none, c.edges reply⟩

namespace System

variable {s : System Call Reply} {footing : Nat → Footing} {i k : Nat} {id : JobId}

def HasClaimed (s : System Call Reply) (i : Nat) (id : JobId) : Prop :=
  ∃ asked worker time, s.threads[i]? =
    some ⟨.claim id asked, .done (.claimed (.ok (.claimed worker time)))⟩

def HasCanceled (s : System Call Reply) (i : Nat) (id : JobId) : Prop :=
  ∃ applied, s.threads[i]? =
    some ⟨.change id Engine.cancelEdge, .done (.changed (.ok applied))⟩

/-- A thread at its end has taken the edges that its reply tells of. -/
lemma Sound.taken_of_done (hs : s.Sound Call.Ends footing) {c : Call} {reply : Reply}
    (h : s.threads[i]? = some ⟨c, .done reply⟩) : (footing i).taken = c.edges reply := by
  have hends : footing i = ⟨none, c.edges reply⟩ := hs.orderly i _ h
  rw [hends]

lemma Sound.mem_taken_of_hasClaimed (hs : s.Sound Call.Ends footing) (h : s.HasClaimed i id) :
    (id, claimEdge) ∈ (footing i).taken := by
  obtain ⟨asked, worker, time, ht⟩ := h
  rw [hs.taken_of_done ht]
  exact List.mem_singleton_self _

lemma Sound.mem_taken_of_hasCanceled (hs : s.Sound Call.Ends footing) (h : s.HasCanceled i id) :
    (id, Engine.cancelEdge) ∈ (footing i).taken := by
  obtain ⟨applied, ht⟩ := h
  rw [hs.taken_of_done ht]
  exact List.mem_singleton_self _

lemma sound_run_calls (c : Config) (sink : Sink) (now : Timestamp) (moves : List (Move Call)) :
    ∃ footing, ((System.initial (Engine.initial c sink now)).run Call.program moves).Sound
      Call.Ends footing := by
  have hstart : (Engine.initial c sink now).Sound .free := World.sound_initial _ sink now
  obtain ⟨footing, hs, -⟩ := (Sound.initial hstart).run (I := fun _ _ => True)
    Call.program_orderly (fun _ _ _ _ _ => trivial) trivial moves
  exact ⟨footing, hs⟩

end System

/-- **At most one claim of a job succeeds**, and claims and cancellations exclude each other,
however the calls take turns. -/
theorem claim_exclusive (c : Config) (sink : Sink) (now : Timestamp) (moves : List (Move Call))
    (id : JobId) :
    let s := (System.initial (Engine.initial c sink now)).run Call.program moves
    (∀ i k, s.HasClaimed i id → s.HasClaimed k id → i = k) ∧
      ∀ i k, s.HasClaimed i id → ¬s.HasCanceled k id := by
  intro s
  obtain ⟨footing, hs⟩ := System.sound_run_calls c sink now moves
  refine ⟨fun i k hi hk => ?_, fun i k hi hk => ?_⟩
  · exact hs.left_once i k id claimEdge claimEdge (hs.mem_taken_of_hasClaimed hi)
      (hs.mem_taken_of_hasClaimed hk) rfl
  · have hik := hs.left_once i k id claimEdge Engine.cancelEdge (hs.mem_taken_of_hasClaimed hi)
      (hs.mem_taken_of_hasCanceled hk) rfl
    subst hik
    -- one thread cannot be at the end of two calls
    obtain ⟨asked, worker, time, ht⟩ := hi
    obtain ⟨applied, ht'⟩ := hk
    rw [ht] at ht'
    cases ht'

/-- A claim and a cancellation take turns, and the claim is first at the lock. -/
example :
    let worker : WorkerId := ⟨.ofNat 1⟩
    let job : JobId := ⟨.ofNat 2⟩
    let calls : List Call :=
      [.heartbeat ⟨worker, .empty, 1, .epoch, .everyProject, true⟩,
        .register ⟨job, ⟨.ofNat 3⟩, .empty⟩, .change job Engine.enqueueEdge, .claim job worker,
        .change job Engine.cancelEdge]
    let turns := List.replicate 2 [0] ++ List.replicate 2 [1] ++ List.replicate 7 [2] ++
      List.replicate 9 [3, 4]
    let moves := calls.map Move.start ++ turns.flatten.map Move.step
    ((System.initial (Engine.initial .standard .silent .epoch)).run Call.program
      moves).HasClaimed 3 job :=
  ⟨_, _, _, rfl⟩

end JobDispatch

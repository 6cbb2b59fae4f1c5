import JobDispatch.Program

/-!
# Pools of programs

A pool works through a list of programs and has several of them under way at once. They begin in
the order of the list, each as soon as there is a place. A pool turns from one program to another
where the first has to wait for an answer, and which requests have to wait is not known to it, so
that the requests of its programs are answered in any order. Who comes next is told by a list of
picks: a pick names one of the programs under way by its position, and a pick past the last of them
begins the next program. What is left when the picks are used up is done one program after the
other. The results come in the order in which they are collected.
-/

namespace JobDispatch.Program

variable {α β : Type}

/-- Has the next request of a program answered, and goes on with what is left of the program. -/
def advance : Program α → (Program α → Program β) → Program β
  | done a, go => go (done a)
  | ask r next, go => ask r fun x => go (next x)

def inTurn : List (Program α) → Program (List α)
  | [] => pure []
  | p :: ps => do
    let a ← p
    let rest ← inTurn ps
    pure (a :: rest)

/-- A pool with some programs under way, others waiting, and the results so far. -/
def poolOn (width : Nat) : (picks : List Nat) → (active waiting : List (Program α)) →
    (results : List α) → Program (List α)
  | [], active, waiting, results => do
    let rest ← inTurn (active ++ waiting)
    pure (results ++ rest)
  | i :: picks, active, waiting, results =>
    match active[i]?, waiting with
    | some (done a), _ => poolOn width picks (active.eraseIdx i) waiting (results ++ [a])
    | some p, _ => p.advance fun p => poolOn width picks (active.set i p) waiting results
    | none, [] => poolOn width picks active [] results
    | none, p :: ps =>
      if active.length < width then
        p.advance fun p => poolOn width picks (active ++ [p]) ps results
      else poolOn width picks active (p :: ps) results

/-- A pool that has at most `width` programs under way. -/
def pool (width : Nat) (picks : List Nat) (ps : List (Program α)) : Program (List α) :=
  poolOn width picks [] ps []

end JobDispatch.Program

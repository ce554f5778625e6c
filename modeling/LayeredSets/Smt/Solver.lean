import LayeredSets.Host.Program

/-!
# Solvers

A solver answers a complete script with a verdict, or fails with a message. One kind runs a
program for each question, the other takes the replies that the host has prepared.
-/

namespace LayeredSets

structure Solver where
  ask : String → Host → Except String Verdict × Host

namespace Solver

/-- What a solver program's output amounts to. -/
def verdictOf (program : String) (finished : Finished) : Except String Verdict :=
  match Verdict.ofOutput? finished.output with
  | some verdict => .ok verdict
  | none =>
    let printed := Text.trim finished.output ++ Text.trim finished.errors
    .error s!"solver '{program}' gave no verdict: {printed}"

/-- How much input waits for a program that does not read it. What exceeds this cannot be sent. -/
def pipeCapacity : Nat := 65536

/-- Run `program` on each script. Its exit status does not count. -/
def ofProgram (program : String) (args : List String) : Solver where
  ask script host :=
    match host.run program args script with
    | none => (.error s!"failed to start solver '{program}'", host)
    | some (finished, host) =>
      if pipeCapacity < finished.unread then (.error s!"failed to send query to '{program}'", host)
      else (verdictOf program finished, host)

def z3 : Solver := ofProgram "z3" ["-in", "-smt2"]

def cvc5 : Solver := ofProgram "cvc5" ["--lang=smt2"]

/-- Take the replies prepared by the host in turn, and keep every script. -/
def prepared : Solver where
  ask script host :=
    let host := { host with questions := host.questions ++ [script] }
    match host.replies with
    | [] => (.error "no canned answer left", host)
    | reply :: rest =>
      let host := { host with replies := rest }
      match reply with
      | some verdict => (.ok verdict, host)
      | none => (.error "solver failed", host)

end Solver
end LayeredSets

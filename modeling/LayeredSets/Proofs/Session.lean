import LayeredSets.Proofs.Tap
import LayeredSets.Session

/-!
# Letting go of the input

However a session ends, the release actions of its input run once each and in order. After a run
they are the last thing that happens, the domain being gone by then. A session that never gets to
run anything leaves its domain alone.
-/

namespace LayeredSets

namespace Input

/-- Attach release actions one after the other. -/
def attach (input : Input) (actions : List (Host → Host)) : Input := actions.foldl onRelease input

theorem attach_eq (input : Input) (actions : List (Host → Host)) :
    input.attach actions = { input with release := input.release ++ actions } := by
  induction actions generalizing input with
  | nil => simp [attach]
  | cons action actions ih =>
    change (input.onRelease action).attach actions = _
    rw [ih, onRelease, List.append_assoc]
    rfl

end Input

namespace Session

variable {σ : Type} (ops : Operations σ) (limit : Option Nat) (domain : σ) (name : String)
  (format : Format) (actions : List (Host → Host)) (host : Host)

/-- Run each action once, in order. -/
def runAll (actions : List (Host → Host)) (host : Host) : Host :=
  actions.foldl (fun host action => action host) host

theorem executeOn_unread (reason : String) :
    executeOn ops limit domain ((Input.ofSource name format (.error reason)).attach actions) host =
      ⟨.input, "", some domain, ops.dispose domain
        (runAll actions (host.printLine s!"error: cannot read input '{name}': {reason}"))⟩ := by
  rw [Input.attach_eq]
  rfl

theorem executeOn_unparsed {bytes : ByteArray} {e : ParseError}
    (h : Program.read format bytes = .error e) :
    executeOn ops limit domain ((Input.ofSource name format (.ok bytes)).attach actions) host =
      ⟨.parse, "", some domain, ops.dispose domain (runAll actions
        ((host.report (.parseFailed name e.message)).printLine s!"{name}: {e.message}"))⟩ := by
  rw [Input.attach_eq, executeOn]
  simp only [Input.readAll, Input.ofSource, h]
  rfl

theorem executeOn_parsed {bytes : ByteArray} {program : Program}
    (h : Program.read format bytes = .ok program) :
    executeOn ops limit domain ((Input.ofSource name format (.ok bytes)).attach actions) host =
      let ran := interpret ops limit domain program (announce ops domain program format host)
      ⟨.ofResult ran.1, ran.2.1, some ran.2.2.1,
        runAll actions (tell name format ran.1 (ops.dispose ran.2.2.1 ran.2.2.2))⟩ := by
  rw [Input.attach_eq, executeOn]
  simp only [Input.readAll, Input.ofSource, h]
  rfl

/-- The source holds a program, and `ran` is what comes of running it. -/
def Runs (source : Except String ByteArray) (ran : Except RunError Nat × String × σ × Host) : Prop :=
  ∃ bytes program, source = .ok bytes ∧ Program.read format bytes = .ok program ∧
    interpret ops limit domain program (announce ops domain program format host) = ran

/-- How one run of a session goes, on any domain. Whatever release actions are attached to the
input, they run once each and in order: `before` is the host as they find it, and `after` is what
comes after them. The status tells what failed, if anything did. A session whose input is not read
or not parsed prints nothing and makes no call on its domain, on which a tap hears nothing, and it
disposes of the domain last. In all others nothing comes after the release actions, and the domain
has been disposed of before. -/
theorem execute_releases (source : Except String ByteArray) :
    ∃ (status : Status) (output : String) (left : σ) (before : Host) (after : Host → Host),
      (∀ actions,
        executeOn ops limit domain ((Input.ofSource name format source).attach actions) host =
          ⟨status, output, some left, after (runAll actions before)⟩) ∧
      (status = .input ↔ ∃ reason, source = .error reason) ∧
      (status = .parse ↔ ∃ bytes e, source = .ok bytes ∧ Program.read format bytes = .error e) ∧
      (status = .interpret ↔
        ∃ ran, Runs ops limit domain format host source ran ∧ ∃ e, ran.1 = .error e) ∧
      (status = .input ∨ status = .parse ∨ status = .interpret ∨ status = .success) ∧
      (status = .input ∨ status = .parse →
        after = ops.dispose domain ∧ output = "" ∧ left = domain ∧ ∀ actions,
          (executeOn (Tap.operations ops) limit ⟨[], domain⟩
            ((Input.ofSource name format source).attach actions) host).domain =
              some ⟨[], domain⟩) ∧
      (status = .interpret ∨ status = .success →
        after = id ∧ ∃ ran, Runs ops limit domain format host source ran ∧ output = ran.2.1 ∧
          left = ran.2.2.1 ∧ before = tell name format ran.1 (ops.dispose ran.2.2.1 ran.2.2.2)) := by
  cases source with
  | error reason =>
    refine ⟨.input, "", domain, _, ops.dispose domain,
      fun actions => executeOn_unread ops limit domain name format actions host reason, ?_⟩
    have htap (actions : List (Host → Host)) := congrArg Ended.domain
      (executeOn_unread (Tap.operations ops) limit ⟨[], domain⟩ name format actions host reason)
    simp [Runs, htap]
  | ok bytes =>
    cases hread : Program.read format bytes with
    | error e =>
      refine ⟨.parse, "", domain, _, ops.dispose domain,
        fun actions => executeOn_unparsed ops limit domain name format actions host hread, ?_⟩
      have htap (actions : List (Host → Host)) := congrArg Ended.domain
        (executeOn_unparsed (Tap.operations ops) limit ⟨[], domain⟩ name format actions host hread)
      simp [Runs, hread, htap]
    | ok program =>
      refine ⟨_, _, _, _, id,
        fun actions => executeOn_parsed ops limit domain name format actions host hread, ?_⟩
      have hruns (ran) : Runs ops limit domain format host (.ok bytes) ran ↔
          interpret ops limit domain program (announce ops domain program format host) = ran := by
        simp [Runs, hread]
      generalize interpret ops limit domain program _ = ran at hruns
      obtain ⟨e | executed, output, left, last⟩ := ran
      · simp [hruns, hread, Status.ofResult]
      · simp [hruns, hread, Status.ofResult]

/-- Two release actions on an input that ends too early. -/
example :
    let input := (Input.ofSource "mem" .script (.ok "var x".toUTF8)).attach
      [(·.mark "first"), (·.mark "second")]
    let ended := execute (.explicit 4) input Host.initial
    ended.status = .parse ∧ ended.host.marks = ["first", "second"] := by
  decide +kernel

end Session

end LayeredSets

import LayeredSets.Proofs.Smt.Agrees
import Mathlib.Data.List.TakeWhile

/-!
# Names in scripts

The name of a variable stands in a comment of each script, and the comment ends with the first line
break there is. So what a name has up to its first line break makes no difference to the commands of
a script, and a name on one line makes none at all. The rest of a name is read as commands.
-/

namespace LayeredSets

namespace SmtLib

/-- Nothing is left of a comment, up to the end of its line. -/
theorem uncomment_true (cs : List Char) :
    uncomment true cs = uncomment false (cs.dropWhile (!isLineBreak ·)) := by
  induction cs with
  | nil => rfl
  | cons c cs ih =>
    cases hbreak : isLineBreak c with
    | false => simp [uncomment, hbreak, ih]
    | true =>
      have hsemicolon : (c == ';') = false := by
        rw [beq_eq_false_iff_ne]
        rintro rfl
        cases hbreak
      simp [uncomment, hbreak, hsemicolon]

/-- What comes first does not look at what comes later. -/
theorem uncomment_append_congr {rest rest' : List Char}
    (h : ∀ inside, uncomment inside rest = uncomment inside rest') (inside : Bool)
    (cs : List Char) : uncomment inside (cs ++ rest) = uncomment inside (cs ++ rest') := by
  induction cs generalizing inside with
  | nil => exact h inside
  | cons c cs ih => cases inside <;> simp only [List.cons_append, uncomment, ih]

/-- What a name has from its first line break on. -/
def spill (name : String) : List Char := name.toList.dropWhile (!isLineBreak ·)

theorem spill_eq_nil {name : String} (h : ∀ c ∈ name.toList, isLineBreak c = false) :
    spill name = [] := by
  rw [spill, List.dropWhile_eq_nil_iff]
  intro c hc
  rw [h c hc, Bool.not_false]

/-- The line that comes after the name of a variable. -/
def constantLine (index : Nat) (bits : UInt32) : List Char :=
  s!"(declare-const v{index} (_ BitVec {bits}))\n".toList

theorem toList_declaration (v : Variable) (index : Nat) : (v.declaration index).toList =
    ';' :: ' ' :: (v.name.toList ++ '\n' :: constantLine index v.bits) := by
  simp [Variable.declaration, constantLine, toString_self]

/-- A declaration comes to what its name spills and the line after it, be it met within another
comment or not. -/
theorem uncomment_declaration (inside : Bool) (v : Variable) (index : Nat) (rest : List Char) :
    uncomment inside ((v.declaration index).toList ++ rest) =
      uncomment false (spill v.name ++ '\n' :: (constantLine index v.bits ++ rest)) := by
  have hcomment (cs : List Char) : uncomment inside (';' :: ' ' :: cs) = uncomment true cs := by
    cases inside <;> simp [uncomment, isLineBreak]
  have hspill (cs : List Char) :
      (v.name.toList ++ '\n' :: cs).dropWhile (!isLineBreak ·) = spill v.name ++ '\n' :: cs := by
    rw [List.dropWhile_append, spill]
    split
    · next hempty =>
      rw [List.isEmpty_iff.mp hempty, List.dropWhile_cons_of_neg (by decide), List.nil_append]
    · rfl
  rw [toList_declaration, List.cons_append, List.cons_append, hcomment, List.append_assoc,
    List.cons_append, uncomment_true, hspill]

/-- The texts are the same once the comments have been removed. -/
def SameCommands (text text' : String) : Prop :=
  uncomment false text.toList = uncomment false text'.toList

/-- A solver that is listened to: what it is asked is written down among the questions. -/
def overheard (solver : Solver) : Solver where
  ask script host :=
    let (answer, after) := solver.ask script host
    (answer, { after with questions := host.questions ++ [script] })

end SmtLib

open SmtLib

/-- The widths are the same, and so is what the names spill. -/
structure Variable.Alike (v v' : Variable) : Prop where
  bits : v.bits = v'.bits
  spill : spill v.name = spill v'.name

/-- The declarations of variables that are numbered from `start` on. -/
def declarationLines (vars : List Variable) (start : Nat) : List Char :=
  (String.join ((vars.zipIdx start).map fun (v, index) => v.declaration index)).toList

theorem declarationLines_cons (v : Variable) (vars : List Variable) (start : Nat) :
    declarationLines (v :: vars) start =
      (v.declaration start).toList ++ declarationLines vars (start + 1) := by
  simp only [declarationLines, List.zipIdx_cons, List.map_cons, String.join_cons,
    String.toList_append]

theorem uncomment_declarationLines {vars vars' : List Variable}
    (h : List.Forall₂ Variable.Alike vars vars') (start : Nat) (inside : Bool) (rest : List Char) :
    uncomment inside (declarationLines vars start ++ rest) =
      uncomment inside (declarationLines vars' start ++ rest) := by
  induction h generalizing start inside with
  | nil => rfl
  | @cons v v' vars vars' hv _ ih =>
    have hline := uncomment_append_congr (ih (start + 1)) false
      (spill v'.name ++ '\n' :: constantLine start v'.bits)
    simp only [List.append_assoc, List.cons_append] at hline
    simp only [declarationLines_cons, List.append_assoc]
    rw [uncomment_declaration, uncomment_declaration, hv.bits, hv.spill, hline]

theorem sameCommands_queryScript {vars vars' : List Variable}
    (h : List.Forall₂ Variable.Alike vars vars') (formula : String) :
    SameCommands (queryScript vars formula) (queryScript vars' formula) := by
  simp only [SameCommands, queryScript, String.toList_append (s := String.join _)]
  exact uncomment_declarationLines h 0 false _

/-- The calls are the same but for the name that is declared, and names spill the same. -/
inductive Request.Alike : Request → Request → Prop
  | declare {name name' : String} (hspill : spill name = spill name') (bits : UInt32) :
    Alike ⟨.declare name bits⟩ ⟨.declare name' bits⟩
  | refl (request : Request) : Alike request request

/-- Names that stand on one line spill nothing. -/
theorem Request.Alike.ofLines {name name' : String} (h : ∀ c ∈ name.toList, isLineBreak c = false)
    (h' : ∀ c ∈ name'.toList, isLineBreak c = false) (bits : UInt32) :
    Alike ⟨.declare name bits⟩ ⟨.declare name' bits⟩ :=
  .declare ((spill_eq_nil h).trans (spill_eq_nil h').symm) bits

namespace Smt

/-- The domains are the same but for the names of their variables, which spill the same. -/
structure Alike (d d' : Smt) : Prop where
  label : d.label = d'.label
  solver : d.solver = d'.solver
  vars : List.Forall₂ Variable.Alike d.vars d'.vars
  sets : d.sets = d'.sets
  issued : d.issued = d'.issued

namespace Alike

variable {d d' : Smt}

theorem map_bits (h : d.Alike d') : d.vars.map (·.bits) = d'.vars.map (·.bits) := by
  have hvars := h.vars
  generalize d.vars = vars at hvars ⊢
  generalize d'.vars = vars' at hvars ⊢
  induction hvars with
  | nil => rfl
  | cons hv _ ih => exact congrArg₂ List.cons hv.bits ih

theorem bitsOf (h : d.Alike d') (var : VarId) : d.bitsOf var = d'.bitsOf var := by
  have hbits := congrArg (·[var.index.toNat]?) h.map_bits
  simp only [List.getElem?_map] at hbits
  rw [Smt.bitsOf, Smt.bitsOf]
  cases hv : d.vars[var.index.toNat]? <;> cases hv' : d'.vars[var.index.toNat]? <;>
    simp_all

theorem formula (h : d.Alike d') (set : SetId) : d.formula set = d'.formula set := by
  rw [Smt.formula, Smt.formula, h.sets]

theorem made (h : d.Alike d') (call : Call .set) : d.made call = d'.made call := by
  cases call <;> simp only [Smt.made, h.bitsOf, h.formula, h.label]

theorem asked (h : d.Alike d') (call : Call .bool) : d.asked call = d'.asked call := by
  cases call <;> simp only [Smt.asked, h.formula]

theorem declare (h : d.Alike d') {v v' : Variable} (hv : v.Alike v') :
    { d with vars := d.vars ++ [v] }.Alike { d' with vars := d'.vars ++ [v'] } :=
  { h with vars := List.rel_append h.vars (.cons hv .nil) }

theorem release (h : d.Alike d') (set : SetId) :
    { d with sets := d.sets.erase set }.Alike { d' with sets := d'.sets.erase set } :=
  { h with sets := congrArg (Table.erase · set) h.sets }

theorem store (h : d.Alike d') (f : Formula) :
    (d.store f).1 = (d'.store f).1 ∧ (d.store f).2.Alike (d'.store f).2 := by
  simp only [Smt.store, h.issued, h.sets]
  exact ⟨trivial, h.label, h.solver, h.vars, rfl, rfl⟩

end Alike

/-- One that listens to the solver hears the script of each question. -/
theorem questions_isUnsatisfiable {d : Smt} {solver : Solver} (h : d.solver = overheard solver)
    (f : Formula) (host : Host) :
    (d.isUnsatisfiable f host).2.questions = host.questions ++ [d.script f] := by
  simp only [isUnsatisfiable, h, overheard]
  cases (solver.ask (d.script f) host).1 with
  | error message => rfl
  | ok verdict => cases verdict <;> rfl

/-- Where two runs have come to from these hosts: the domains are alike, and as many questions have
been heard, with the same commands. -/
structure Parallel (solver : Solver) (host host' : Host) (after after' : Smt × Host) : Prop where
  alike : after.1.Alike after'.1
  solver : after.1.solver = overheard solver
  questions : ∃ scripts scripts', after.2.questions = host.questions ++ scripts ∧
    after'.2.questions = host'.questions ++ scripts' ∧ List.Forall₂ SameCommands scripts scripts'

namespace Parallel

variable {d d' : Smt} {solver : Solver}

/-- Nothing is asked. -/
theorem silent (h : d.Alike d') (hsolver : d.solver = overheard solver) (host host' : Host) :
    Parallel solver host host' (d, host) (d', host') :=
  ⟨h, hsolver, [], [], (List.append_nil _).symm, (List.append_nil _).symm, .nil⟩

theorem trans {host host' : Host} {after after' last last' : Smt × Host}
    (h : Parallel solver host host' after after')
    (hrest : Parallel solver after.2 after'.2 last last') :
    Parallel solver host host' last last' := by
  obtain ⟨first, first', hfirst, hfirst', hsame⟩ := h.questions
  obtain ⟨rest, rest', hlast, hlast', hsames⟩ := hrest.questions
  refine ⟨hrest.alike, hrest.solver, first ++ rest, first' ++ rest', ?_, ?_,
    List.rel_append hsame hsames⟩
  · rw [hlast, hfirst, List.append_assoc]
  · rw [hlast', hfirst', List.append_assoc]

theorem declare (h : d.Alike d') (hsolver : d.solver = overheard solver) {name name' : String}
    (hspill : spill name = spill name') (bits : UInt32) (host host' : Host) :
    Parallel solver host host' (Smt.operations.respond ⟨.declare name bits⟩ d host).2
      (Smt.operations.respond ⟨.declare name' bits⟩ d' host').2 := by
  have hv : Variable.Alike ⟨name, bits⟩ ⟨name', bits⟩ := ⟨rfl, hspill⟩
  simp only [Operations.respond, Smt.operations, Smt.step, Smt.react, Smt.declare]
  cases isValidWidth bits with
  | false => exact silent h hsolver host host'
  | true => exact silent (h.declare hv) hsolver host host'

/-- One call on either domain. -/
theorem respond (h : d.Alike d') (hsolver : d.solver = overheard solver)
    {request request' : Request} (hr : request.Alike request') (host host' : Host) :
    Parallel solver host host' (Smt.operations.respond request d host).2
      (Smt.operations.respond request' d' host').2 := by
  cases hr with
  | declare hspill bits => exact declare h hsolver hspill bits host host'
  | refl request =>
    obtain @⟨k, call⟩ := request
    cases k with
    | var =>
      obtain ⟨name, bits⟩ := call
      exact declare h hsolver rfl bits host host'
    | set =>
      simp only [Operations.respond, Smt.operations, Smt.step, Smt.react_set, h.made]
      cases d'.made call with
      | error e => exact silent h hsolver host host'
      | ok f => exact silent (h.store f).2 hsolver host host'
    | bool =>
      simp only [Operations.respond, Smt.operations, Smt.step, Smt.react_bool, h.asked]
      cases d'.asked call with
      | error e => exact silent h hsolver host host'
      | ok f =>
        exact ⟨h, hsolver, [d.script f], [d'.script f], questions_isUnsatisfiable hsolver f host,
          questions_isUnsatisfiable (h.solver ▸ hsolver) f host',
          .cons (sameCommands_queryScript h.vars f.text) .nil⟩
    | unit =>
      cases call with
      | release set =>
        simp only [Operations.respond, Smt.operations, Smt.step, Smt.react, h.formula]
        cases d'.formula set with
        | error e => exact silent h hsolver host host'
        | ok f => exact silent (h.release set) hsolver host host'

/-- By induction on the calls. -/
theorem run (h : d.Alike d') (hsolver : d.solver = overheard solver)
    {requests requests' : List Request} (hrequests : List.Forall₂ Request.Alike requests requests')
    (host host' : Host) :
    Parallel solver host host' (Smt.operations.run requests d host).2
      (Smt.operations.run requests' d' host').2 := by
  induction hrequests generalizing d d' host host' with
  | nil => exact silent h hsolver host host'
  | cons hr _ ih =>
    have hfirst := respond h hsolver hr host host'
    exact hfirst.trans (ih hfirst.alike hfirst.solver _ _)

end Parallel

/-- In two runs of calls that differ in names only, as many scripts are put to the solver, and each
has the same commands as its counterpart: they are the same text once the comments are removed. This
is so for all names that stand on one line (`Request.Alike.ofLines`), and for others as long as they
have the same from their first line break on. -/
theorem questions_sameCommands (label : String) (solver : Solver)
    {requests requests' : List Request} (h : List.Forall₂ Request.Alike requests requests')
    (host host' : Host) :
    ∃ scripts scripts',
      (Smt.operations.run requests (new label (overheard solver)) host).2.2.questions =
        host.questions ++ scripts ∧
      (Smt.operations.run requests' (new label (overheard solver)) host').2.2.questions =
        host'.questions ++ scripts' ∧
      List.Forall₂ SameCommands scripts scripts' :=
  (Parallel.run ⟨rfl, rfl, .nil, rfl, rfl⟩ rfl h host host').questions

/-- A name that looks like a comment with a command in it, and names of two lines. -/
theorem questions_sameCommands_sample :
    let requests (x y : String) : List Request :=
      [⟨.declare x 2⟩, ⟨.declare y 1⟩, ⟨.varEqConst ⟨0⟩ 1⟩, ⟨.isEmpty ⟨1⟩⟩, ⟨.top⟩,
        ⟨.subset ⟨1⟩ ⟨2⟩⟩]
    let asked (x y : String) : List String :=
      (Smt.operations.run (requests x y) (new "z3" (overheard .prepared)) Host.initial).2.2.questions
    List.Forall₂ Request.Alike (requests "x" "y\n; 1") (requests "; (exit)" "\n; 1") ∧
      asked "x" "y\n; 1" ≠ asked "; (exit)" "\n; 1" ∧
        List.Forall₂ SameCommands (asked "x" "y\n; 1") (asked "; (exit)" "\n; 1") := by
  intro requests asked
  have halike : List.Forall₂ Request.Alike (requests "x" "y\n; 1") (requests "; (exit)" "\n; 1") :=
    .cons (.ofLines (by simp [isLineBreak]) (by simp [isLineBreak]) 2)
      (.cons (.declare (by decide) 1)
        (.cons (.refl _) (.cons (.refl _) (.cons (.refl _) (.cons (.refl _) .nil)))))
  obtain ⟨scripts, scripts', h, h', hsame⟩ :=
    questions_sameCommands "z3" .prepared halike Host.initial Host.initial
  have hscripts : asked "x" "y\n; 1" = scripts := h
  have hscripts' : asked "; (exit)" "\n; 1" = scripts' := h'
  refine ⟨halike, by decide +kernel, ?_⟩
  rw [hscripts, hscripts']
  exact hsame

/-- A name with a line break in it puts a command of its own into the script. -/
theorem questions_not_sameCommands :
    let asked (name : String) : List String :=
      (Smt.operations.run [⟨.declare name 1⟩, ⟨.top⟩, ⟨.isEmpty ⟨1⟩⟩] (new "z3" .prepared)
        Host.initial).2.2.questions
    ¬ List.Forall₂ SameCommands (asked "x") (asked "x\n(assert false)") := by
  intro asked h
  have hx : asked "x" =
      ["; x\n(declare-const v0 (_ BitVec 1))\n(assert true)\n(check-sat)\n(exit)\n"] := by
    decide +kernel
  have hbreak : asked "x\n(assert false)" =
      ["; x\n(assert false)\n(declare-const v0 (_ BitVec 1))\n(assert true)\n(check-sat)\n(exit)\n"] := by
    decide +kernel
  rw [hx, hbreak] at h
  obtain ⟨hsame, -⟩ := List.forall₂_cons.mp h
  revert hsame
  rw [SameCommands]
  decide +kernel

end Smt
end LayeredSets

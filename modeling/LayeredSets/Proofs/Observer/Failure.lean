import LayeredSets.Domain.Chain
import LayeredSets.Proofs.Observer.Alike
import LayeredSets.Proofs.Packed.Transport
import LayeredSets.Proofs.Smt.Agrees
import Mathlib

/-!
# What becomes of a write that fails

What a domain does depends on files only through its observers, which tell nobody what becomes of
their writes, and through its solvers. If these pay no heed to some files, then neither does the
domain: on hosts that differ in these files only, all calls have the same outcomes.

An observer that cannot write to its file reports so once. From then on it leaves the file and the
host alone, and whoever asks is told that the file is not complete. The calls of the observed domain
have the same outcomes as ever.
-/

/-! ## Domains that pay no heed to some files -/

namespace LayeredSets

variable {F : FileId → Prop}

/-- The solver pays no heed to what the files in `F` hold and take, nor to what is reported about
writes that fail. -/
def Solver.Blind (F : FileId → Prop) (solver : Solver) : Prop :=
  ∀ (script : String) {host host' : Host}, host.Alike F host' →
    (solver.ask script host).1 = (solver.ask script host').1 ∧
      (solver.ask script host).2.Alike F (solver.ask script host').2

theorem Solver.blind_prepared (F : FileId → Prop) : prepared.Blind F := by
  intro script host host' h
  simp only [prepared, h.questions, h.replies]
  split
  · exact ⟨rfl, { h with questions := rfl, replies := rfl }⟩
  · split <;> exact ⟨rfl, { h with questions := rfl, replies := rfl }⟩

/-! ## Backends -/

theorem Explicit.couples :
    Explicit.operations.Couples (· = ·) (Host.Alike F) Explicit.operations where
  step call d d' hd host host' hhost := by
    subst hd
    simp only [Explicit.operations, Explicit.step]
    split
    · exact ⟨rfl, rfl, hhost.reports _⟩
    · exact ⟨rfl, rfl, hhost⟩
  describe _ _ _ := rfl
  dispose _ _ _ _ _ hhost := hhost

namespace Smt

/-- No call changes whom a domain asks. -/
theorem solver_react {d after : Smt} {k : Answer} {call : Call k} {value : k.Value}
    (h : d.react call = .ok (.answer value after)) : after.solver = d.solver := by
  cases k with
  | var =>
    obtain ⟨name, bits⟩ := call
    simp only [react, declare] at h
    split at h <;> cases h
    rfl
  | set =>
    rw [react_set] at h
    cases hmade : d.made call <;> rw [hmade] at h <;> cases h
    rfl
  | bool =>
    rw [react_bool] at h
    cases hasked : d.asked call <;> rw [hasked] at h <;> cases h
  | unit =>
    cases call with
    | release set =>
      simp only [react] at h
      cases hformula : d.formula set <;> rw [hformula] at h <;> cases h
      rfl

/-- The domain is the same, and its solver pays no heed to the files in `F`. -/
def Heedless (F : FileId → Prop) (d d' : Smt) : Prop := d = d' ∧ d.solver.Blind F

theorem couples : operations.Couples (Heedless F) (Host.Alike F) operations where
  step {k} call d d' hd host host' hhost := by
    obtain ⟨rfl, hblind⟩ := hd
    simp only [operations, step]
    cases hreact : d.react call with
    | error e => exact ⟨rfl, ⟨rfl, hblind⟩, hhost⟩
    | ok reaction =>
      cases reaction with
      | answer value after => exact ⟨rfl, ⟨rfl, solver_react hreact ▸ hblind⟩, hhost⟩
      | question f ofUnsat =>
        obtain ⟨hverdict, hafter⟩ := hblind (d.script f) hhost
        simp only [isUnsatisfiable]
        generalize d.solver.ask (d.script f) host = asked at hverdict hafter
        generalize d.solver.ask (d.script f) host' = asked' at hverdict hafter
        obtain ⟨verdict, after⟩ := asked
        obtain ⟨_, after'⟩ := asked'
        subst hverdict
        cases verdict with
        | error message => exact ⟨rfl, ⟨rfl, hblind⟩, hafter⟩
        | ok verdict => cases verdict <;> exact ⟨rfl, ⟨rfl, hblind⟩, hafter⟩
  describe _ _ h := congrArg label h.1
  dispose _ _ _ _ _ hhost := hhost

end Smt

/-! ## Chains -/

namespace Shape

/-- The solvers that a domain may ask. -/
def solvers : (shape : Shape) → shape.State → List Solver
  | explicit, _ => []
  | smt, d => [d.solver]
  | observed inner, s => inner.solvers s.inner
  | equalities inner, s => inner.solvers s.inner
  | points inner, s => inner.solvers s.inner
  | packed first further, s =>
    let ofPack := Sum.elim first.solvers further.solvers
    s.packs.flatMap (fun p => ofPack p.domain) ++ s.blank.toOption.elim [] ofPack

/-- The domains are the same but for their observers, which are alike, and no solver pays heed to
the files in `F`. -/
def Alike (F : FileId → Prop) : (shape : Shape) → shape.State → shape.State → Prop
  | explicit => (· = ·)
  | smt => Smt.Heedless F
  | observed inner => Atop.Related (Observer.Alike F) (inner.Alike F)
  | equalities inner => Atop.Related (· = ·) (inner.Alike F)
  | points inner => Atop.Related (· = ·) (inner.Alike F)
  | packed first further => Packed.Related (Sum.LiftRel (first.Alike F) (further.Alike F))

theorem alike_refl (shape : Shape) {s : shape.State}
    (h : ∀ solver ∈ shape.solvers s, solver.Blind F) : shape.Alike F s s := by
  induction shape with
  | explicit => rfl
  | smt => exact ⟨rfl, h _ (List.mem_singleton.mpr rfl)⟩
  | observed inner ih => exact ⟨s.layer.alike_refl, ih h⟩
  | equalities inner ih | points inner ih => exact ⟨rfl, ih h⟩
  | packed first further ihFirst ihFurther =>
    have hdomain (d : first.State ⊕ further.State)
        (hd : ∀ solver ∈ Sum.elim first.solvers further.solvers d, solver.Blind F) :
        Sum.LiftRel (first.Alike F) (further.Alike F) d d := by
      cases d with
      | inl d => exact .inl (ihFirst hd)
      | inr d => exact .inr (ihFurther hd)
    refine ⟨?_, rfl, rfl, ?_, rfl, rfl, rfl⟩
    · refine List.forall₂_same.mpr fun p hp => ⟨hdomain _ fun solver hsolver => ?_, rfl⟩
      exact h _ (List.mem_append_left _ (List.mem_flatMap.mpr ⟨p, hp, hsolver⟩))
    · cases hblank : s.blank with
      | error e => exact .inl ⟨e, rfl, rfl⟩
      | ok d =>
        refine .inr ⟨d, d, rfl, rfl, hdomain d fun solver hsolver => ?_⟩
        refine h _ (List.mem_append_right _ ?_)
        rw [hblank]
        exact hsolver

/-- Domains that are alike do the same on hosts that are alike. -/
theorem couples (F : FileId → Prop) (shape : Shape) :
    shape.operations.Couples (shape.Alike F) (Host.Alike F) shape.operations := by
  induction shape with
  | explicit => exact Explicit.couples
  | smt => exact Smt.couples
  | observed inner ih => exact Observed.couples (Observer.coupled_alike F) ih
  | equalities inner ih => exact Equalities.couples ih
  | points inner ih => exact Points.couples ih
  | packed first further ihFirst ihFurther =>
    exact Packed.couples (Operations.couples_sum ihFirst ihFurther)

end Shape

/-! ## Observed domains -/

/-- The file that an observer writes to. -/
def Observer.file? (o : Observer) : Option FileId := o.recorder?.map (·.writer.file)

namespace Observer.Lives

variable {o : Observer} {moments : List Moment} {r : Recorder}

/-- There is one report if a write fails, and else there is none. -/
theorem length_reports (h : o.Lives moments) (hr : o.recorder? = some r)
    (halive : r.failed = false) :
    (moments.flatMap Moment.reports).length =
      if ∃ m ∈ moments, m.fault?.isSome = true then 1 else 0 := by
  have hnone {part : List Moment} (hpart : ∀ m ∈ part, m.reports = []) :
      part.flatMap Moment.reports = [] := List.flatMap_eq_nil_iff.mpr hpart
  split
  next hfails =>
    obtain ⟨m, hm, hfault⟩ := hfails
    obtain ⟨before, after, rfl⟩ := List.append_of_mem hm
    obtain ⟨fault, hfault⟩ := Option.isSome_iff_exists.mp hfault
    obtain ⟨hbefore, hreports, -, hafter⟩ := h.fails hr halive hfault
    rw [List.flatMap_append, List.flatMap_cons, hnone fun m' hm' => (hbefore m' hm').reports,
      hnone fun m' hm' => (hafter m' hm').2.reports, hreports]
    rfl
  next hfails =>
    have hsound := h.sound hr halive fun m hm =>
      Option.not_isSome_iff_eq_none.mp fun hfault => hfails ⟨m, hm, hfault⟩
    rw [hnone fun m hm => (hsound m hm).reports]
    rfl

end Observer.Lives

namespace Observed

open Observer (Moment)

/-- Observed domains that are alike cannot be told apart by the outcomes of their calls. -/
theorem outcomes_live {σ : Type} {F : FileId → Prop} {S : σ → σ → Prop} {inner : Operations σ}
    (h : inner.Couples S (Host.Alike F) inner) (uses : List Use) {s t : Observed σ}
    (hst : Atop.Related (Observer.Alike F) S s t) {host host' : Host} (hhost : host.Alike F host') :
    (live inner uses s host).outcomes = (live inner uses t host').outcomes := by
  induction uses generalizing s t host host' with
  | nil => rfl
  | cons use uses ih =>
    cases use with
    | call request =>
      obtain ⟨houtcome, hstate, hafter⟩ :=
        (couples (Observer.coupled_alike F) h).respond request hst hhost
      exact congrArg₂ List.cons houtcome (ih hstate hafter)
    | finish =>
      obtain ⟨hlayer, hafter⟩ := Moment.alike hst.1 .finish hhost
      exact ih (s := ⟨_, s.inner⟩) (t := ⟨_, t.inner⟩) ⟨hlayer, hst.2⟩ hafter

/-- A write that fails is reported once and stays contained. Whatever is called, however often the
observer is asked to finish and whatever its file refuses: from its making to its disposal it makes
one report if a write or a flush fails, and else none. After the failure it stays as it is, leaves
the host alone, and denies to have finished. And no call has another outcome than it has if the file
holds and takes something else, as long as the solvers do not look at that file. -/
theorem live_contains_failure {path : String} {host₀ host₁ : Host} {o : Observer}
    (hopens : o.Opens path host₀ host₁) (d : Domain) (uses : List Use) (host : Host) :
    let life := live d.shape.operations uses ⟨o, d.state⟩ host
    let reports := life.moments.flatMap Moment.reports
    host₁.messages = host₀.messages ∧
      (∀ m ∈ life.moments, m.after.2.messages = m.host.messages ++ m.reports) ∧
      reports.length ≤ 1 ∧
      (reports.length = 1 ↔ ∃ m ∈ life.moments, m.fault?.isSome = true) ∧
      (∃ before m, life.moments = before ++ [m] ∧ m.occasion = .finish ∧ m.after.2 = life.host) ∧
      (∀ before m after fault, life.moments = before ++ m :: after → m.fault? = some fault →
        m.reports = [.writeFailed o.kind path fault.message] ∧ m.answer? ≠ some true ∧
          ∀ m' ∈ after, m'.observer = m.after.1 ∧ m'.after = (m'.observer, m'.host) ∧
            m'.answer? ≠ some true) ∧
      ((∀ solver ∈ d.shape.solvers d.state, solver.Blind (o.file? = some ·)) →
        ∀ host', host.Alike (o.file? = some ·) host' →
          (live d.shape.operations uses ⟨o, d.state⟩ host').outcomes = life.outcomes) := by
  intro life reports
  obtain ⟨id, files, w, -, rfl, hr, -, -⟩ := hopens.exists_created
  have hlives : o.Lives life.moments := lives_live d.shape.operations uses ⟨o, d.state⟩ host
  have hlength := hlives.length_reports hr rfl
  refine ⟨rfl, fun m _ => m.messages_after, ?_, ?_, ?_, ?_, ?_⟩
  · rw [hlength]
    split <;> omega
  · rw [hlength]
    split <;> simp_all
  · exact exists_last d.shape.operations uses ⟨o, d.state⟩ host (by rw [hr, Option.isSome_some])
  · intro before m after fault hmoments hfault
    obtain ⟨-, hreports, hanswer, hafter⟩ := (hmoments ▸ hlives).fails hr rfl hfault
    refine ⟨hreports, hanswer, fun m' hm' => ?_⟩
    obtain ⟨hobserver, hidle⟩ := hafter m' hm'
    exact ⟨hobserver, hidle.after, hidle.answer⟩
  · intro hblind host' hhost
    have halike := Shape.alike_refl d.shape hblind
    exact (outcomes_live (Shape.couples _ d.shape) uses ⟨o.alike_refl, halike⟩ hhost).symm

/-- A log in a file that takes twenty bytes. The flush that is asked for first fails, and the calls
go on as if the file took everything. -/
theorem live_contains_failure_sample :
    let files (room : Option Nat) : Files :=
      ⟨⟨[(⟨false, []⟩, .directory), (⟨false, ["f"]⟩, .file ⟨0⟩)]⟩, #[⟨.empty, false, room, false⟩]⟩
    let host (room : Option Nat) : Host := { Host.initial with files := files room }
    let log : Log := ⟨⟨"log", "f", .new ⟨0⟩, false⟩, 0⟩
    let uses : List Use :=
      [.call ⟨.top⟩, .finish, .call ⟨.isEmpty ⟨1⟩⟩, .finish, .call ⟨.release ⟨2⟩⟩]
    let life := live Explicit.operations uses ⟨.log log, .new 8⟩ (host (some 20))
    Log.create "f" (host (some 20)) = (.ok log, host (some 20)) ∧
      (∃ m ∈ life.moments, m.fault? = some .noSpace) ∧
      (life.moments.flatMap Moment.reports).length = 1 ∧
      (live Explicit.operations uses ⟨.log log, .new 8⟩ (host none)).outcomes = life.outcomes := by
  intro files host log uses life
  have hcreated : (files (some 20)).create "f" = .ok (⟨0⟩, files (some 20)) := by cbv
  have hcreate : Log.create "f" (host (some 20)) = (.ok log, host (some 20)) := by
    rw [Log.create, Recorder.create, show (host (some 20)).files = files (some 20) from rfl,
      hcreated]
    rfl
  have hinside : (Observer.log log).file? = some ⟨0⟩ := rfl
  have hfiles : (files (some 20)).Alike ((Observer.log log).file? = some ·) (files none) :=
    Files.Alike.update_inside (F := ((Observer.log log).file? = some ·)) hinside (files (some 20))
      ⟨.empty, false, none, false⟩
  have halike : (host (some 20)).Alike ((Observer.log log).file? = some ·) (host none) :=
    ⟨hfiles, rfl, rfl, rfl, rfl, rfl, rfl⟩
  have hfails : ∃ m ∈ life.moments, m.fault? = some .noSpace := by decide +kernel
  obtain ⟨-, -, -, hcount, -, -, houtcomes⟩ :=
    live_contains_failure (.log hcreate) (.explicit 8) uses (host (some 20))
  obtain ⟨m, hm, hfault⟩ := hfails
  exact ⟨hcreate, ⟨m, hm, hfault⟩, hcount.mpr ⟨m, hm, by rw [hfault]; rfl⟩,
    houtcomes (List.forall_mem_nil _) _ halike⟩

end Observed

end LayeredSets

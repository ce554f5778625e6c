import LayeredSets.Proofs.Observer.Recording

/-!
# The life of an observer with a file

A log or a recording that has just been made has written nothing to its file, which is empty. What
it has written, the header of a recording, is held back by its writer. Making it reports nothing.

Then the observer is told of calls and asked to bring everything to its file, in any order, and at
last it is disposed of, which asks it once more. Each time it may write. The first write that fails
is reported and is the last: after it nothing is written, nothing is reported, and whoever asks is
told that the file is not complete.
-/

namespace LayeredSets

/-! ## Before the first call -/

namespace Writer

/-- A text that the buffer has room for is held back. -/
theorem write_small (w : Writer) (text : String)
    (h : w.pending.size + text.toUTF8.size < capacity) (files : Files) :
    w.write text files = (.ok (), { w with pending := w.pending ++ text.toUTF8 }, files) := by
  rw [write, if_neg (by omega)]
  exact if_neg (by omega)

end Writer

namespace Recorder

/-- These lines have been written, and nothing has reached the file. -/
structure Holds (r : Recorder) (lines : List String) : Prop where
  failed : r.failed = false
  offset : r.writer.offset = 0
  pending : r.writer.pending = (Recording.text lines).toUTF8

theorem Holds.writeLine {r : Recorder} {lines : List String} (h : r.Holds lines) {line : String}
    (hsize : (Recording.text (lines ++ [line])).toUTF8.size < Writer.capacity) (host : Host) :
    ∃ w, r.writeLine [line] host = ({ r with writer := w }, host) ∧ w.file = r.writer.file ∧
      Holds { r with writer := w } (lines ++ [line]) := by
  have hbytes : (Recording.text (lines ++ [line])).toUTF8 =
      r.writer.pending ++ line.toUTF8 ++ "\n".toUTF8 := by
    rw [Recording.text_snoc, h.pending, ByteArray.append_assoc]
    exact congrArg _ String.toByteArray_append
  rw [hbytes, ByteArray.size_append, ByteArray.size_append] at hsize
  have hline := r.writer.write_small line (by omega) host.files
  have hbreak := Writer.write_small { r.writer with pending := r.writer.pending ++ line.toUTF8 }
    "\n" (by simpa using hsize) host.files
  refine ⟨{ r.writer with pending := r.writer.pending ++ line.toUTF8 ++ "\n".toUTF8 }, ?_, rfl,
    ⟨h.failed, h.offset, hbytes.symm⟩⟩
  simp only [Recorder.writeLine, h.failed, Bool.false_eq_true, if_false, List.cons_append,
    List.nil_append, Writer.writeAll, hline, hbreak, settle]

theorem Holds.writeLines (added : List String) {r : Recorder} {lines : List String}
    (h : r.Holds lines) (hsize : (Recording.text (lines ++ added)).toUTF8.size < Writer.capacity)
    (host : Host) :
    ∃ w, added.foldl (fun x line => x.1.writeLine [line] x.2) (r, host) =
        ({ r with writer := w }, host) ∧ w.file = r.writer.file ∧
      Holds { r with writer := w } (lines ++ added) := by
  induction added generalizing r lines with
  | nil => exact ⟨r.writer, rfl, rfl, by rwa [List.append_nil]⟩
  | cons line added ih =>
    rw [List.append_cons] at hsize ⊢
    have hfirst : (Recording.text (lines ++ [line])).toUTF8.size < Writer.capacity := by
      have happend : (Recording.text (lines ++ [line] ++ added)).toUTF8 =
          (Recording.text (lines ++ [line])).toUTF8 ++ (Recording.text added).toUTF8 := by
        rw [Recording.text_append]
        exact String.toByteArray_append
      rw [happend, ByteArray.size_append] at hsize
      omega
    obtain ⟨w, hline, hfile, hholds⟩ := h.writeLine hfirst host
    obtain ⟨w', hlines, hfile', hholds'⟩ := ih hholds hsize
    exact ⟨w', by rw [List.foldl_cons, hline, hlines], hfile'.trans hfile, hholds'⟩

/-- All is handed over at once, if the file has room for it. -/
theorem Holds.flush {r : Recorder} {lines : List String} (h : r.Holds lines) {files : Files}
    {f : File} (hfile : files.file? r.writer.file = some f) (hempty : f.content = .empty)
    (hregular : f.device = false)
    (hroom : ∀ room ∈ f.room, (Recording.text lines).toUTF8.size ≤ room) :
    ∃ f', (r.writer.flush files).2.2.file? r.writer.file = some f' ∧
      f'.content = (Recording.text lines).toUTF8 := by
  have hwrote : r.writer.Wrote files (Recording.text lines).toUTF8 :=
    ⟨.empty, ⟨⟨f, hfile, hregular, hempty⟩, h.offset⟩, by rw [h.pending, ByteArray.empty_append]⟩
  have hcount : (f.room.map (min r.writer.pending.size)).getD r.writer.pending.size =
      r.writer.pending.size := by
    rw [h.pending]
    cases hf : f.room with
    | none => rfl
    | some room => exact min_eq_left (hroom room hf)
  have hok : (r.writer.flush files).1 = .ok () := by
    simp only [Writer.flush, Writer.send, Files.writeAt, hfile, hcount, lt_irrefl, if_false]
    split <;> rfl
  obtain ⟨f', hf', -, hcontent⟩ := (hwrote.flush hok).2.file
  rw [(r.writer.spares_flush files).file] at hf'
  exact ⟨f', hf', hcontent⟩

end Recorder

namespace Observer

/-- The recorder of an observer that writes to a file. -/
def recorder? : Observer → Option Recorder
  | log l => some l.recorder
  | trace r => some r.recorder
  | _ => none

/-- What an observer writes before it is told of anything. -/
def opening : Observer → List String
  | trace r => Recording.header r.checkMode
  | _ => []

/-- The observer is made for the file at `path`, which leaves the host behind. -/
inductive Opens (path : String) (host : Host) : Observer → Host → Prop
  | log {l : Log} {after : Host} (h : Log.create path host = (.ok l, after)) :
    Opens path host (.log l) after
  | trace {checkMode : Bool} {r : Recording} {after : Host}
    (h : Recording.create ⟨path, checkMode⟩ host = (.ok r, after)) :
    Opens path host (.trace r) after

/-- The kind of an observer with a file, as its warnings name it. -/
def kind : Observer → String
  | log _ => "log"
  | stats _ => "stats"
  | debug _ => "debug"
  | trace _ => "trace"

/-- Nothing happens but that the file is created, and the opening is held back. -/
theorem Opens.exists_created {path : String} {host after : Host} {o : Observer}
    (h : Opens path host o after) :
    ∃ id files w, host.files.create path = .ok (id, files) ∧ after = { host with files } ∧
      o.recorder? = some ⟨o.kind, path, w, false⟩ ∧ w.file = id ∧
        Recorder.Holds ⟨o.kind, path, w, false⟩ o.opening := by
  cases h with
  | @log l _ h =>
    rw [Log.create, Recorder.create] at h
    cases hcreate : host.files.create path with
    | error fault => simp [hcreate, Except.map] at h
    | ok created =>
      obtain ⟨id, files⟩ := created
      simp only [hcreate, Except.map] at h
      obtain ⟨hl, rfl⟩ := Prod.mk.inj h
      obtain rfl := Except.ok.inj hl
      exact ⟨id, files, .new id, rfl, rfl, rfl, rfl, rfl, rfl, rfl⟩
  | @trace checkMode r _ h =>
    rw [Recording.create, Recorder.create] at h
    cases hcreate : host.files.create path with
    | error fault => simp [hcreate] at h
    | ok created =>
      obtain ⟨id, files⟩ := created
      simp only [hcreate] at h
      have hstart : Recorder.Holds ⟨"trace", path, .new id, false⟩ [] := ⟨rfl, rfl, rfl⟩
      have hsize : (Recording.text ([] ++ Recording.header checkMode)).toUTF8.size <
          Writer.capacity := by
        cases checkMode <;> decide +kernel
      obtain ⟨w, hheader, hfile, hholds⟩ :=
        hstart.writeLines (Recording.header checkMode) hsize { host with files }
      rw [hheader] at h
      obtain ⟨hr, rfl⟩ := Prod.mk.inj h
      obtain rfl := Except.ok.inj hr
      exact ⟨id, files, w, rfl, rfl, rfl, hfile, hholds⟩

end Observer

/-! ## Moments -/

namespace Observer

/-- Observers with a file are disposed of by finishing them. -/
theorem dispose_eq {o : Observer} (h : o.recorder?.isSome = true) (host : Host) :
    o.dispose host = (o.finish host).2.2 := by
  cases o with
  | log | trace => rfl
  | stats | debug => cases h

/-- What is written for a call, up to the line break. -/
def parts {k : Answer} : Observer → Call k → Outcome → List String
  | log l, call, outcome => (Log.record (l.seq + 1) call outcome).parts
  | trace r, call, outcome => [Recording.line r.checkMode call outcome]
  | _, _, _ => []

/-- What an observer may be asked to do. -/
inductive Occasion
  | told (request : Request) (outcome : Outcome)
  | finish

/-- An observer on some occasion, and the host that it finds. -/
structure Moment where
  observer : Observer
  occasion : Occasion
  host : Host

namespace Moment

def after (m : Moment) : Observer × Host :=
  match m.occasion with
  | .told request outcome => m.observer.observe request.call outcome m.host
  | .finish => (m.observer.finish m.host).2

/-- The answer to whoever asks to bring everything to the file. -/
def answer? (m : Moment) : Option Bool :=
  match m.occasion with
  | .told .. => none
  | .finish => some (m.observer.finish m.host).1

/-- What the recorder writes on this occasion. -/
def write (m : Moment) (r : Recorder) : Except FileFault Unit × Writer × Files :=
  match m.occasion with
  | .told request outcome =>
    r.writer.writeAll m.host.files (m.observer.parts request.call outcome ++ ["\n"])
  | .finish => r.writer.flush m.host.files

/-- What is written at this moment, if anything is. -/
def written? (m : Moment) : Option (Except FileFault Unit × Writer × Files) :=
  m.observer.recorder?.bind fun r => if r.failed then none else some (m.write r)

/-- Why a write or a flush fails at this moment, if one does. -/
def fault? (m : Moment) : Option FileFault :=
  match m.written? with
  | some (.error fault, _) => some fault
  | _ => none

/-- What the observer reports at this moment. -/
def reports (m : Moment) : List Message := m.after.2.messages.drop m.host.messages.length

/-- The observer works as it should. -/
structure Sound (m : Moment) : Prop where
  fault : m.fault? = none
  reports : m.reports = []
  answer : m.answer? ≠ some false

/-- The observer does nothing any more. -/
structure Idle (m : Moment) : Prop where
  fault : m.fault? = none
  reports : m.reports = []
  answer : m.answer? ≠ some true
  after : m.after = (m.observer, m.host)

theorem reports_of_messages {m : Moment} {reports : List Message}
    (h : m.after.2.messages = m.host.messages ++ reports) : m.reports = reports := by
  rw [Moment.reports, h, List.drop_left]

variable {m : Moment} {r : Recorder}

theorem isSome_recorder (m : Moment) :
    m.after.1.recorder?.isSome = m.observer.recorder?.isSome := by
  obtain ⟨o, occasion, host⟩ := m
  cases o <;> cases occasion <;> rfl

/-- As long as nothing has failed, what is written at a moment decides what comes of it. -/
theorem settles (hr : m.observer.recorder? = some r) (halive : r.failed = false) :
    m.written? = some (m.write r) ∧
      m.after.1.recorder? = some (r.settle (m.write r) m.host).1 ∧
      m.after.1.kind = m.observer.kind ∧ m.after.2 = (r.settle (m.write r) m.host).2 ∧
      ∀ done, m.answer? = some done → done = !(r.settle (m.write r) m.host).1.failed := by
  refine ⟨by simp [written?, hr, halive], ?_⟩
  obtain ⟨o, occasion, host⟩ := m
  cases o with
  | stats | debug => cases hr
  | log l =>
    obtain rfl := Option.some.inj hr
    cases occasion with
    | told request outcome =>
      simp only [after, observe, Log.observe, Recorder.writeLine, halive, Bool.false_eq_true,
        if_false]
      exact ⟨rfl, rfl, rfl, fun done hdone => by cases hdone⟩
    | finish =>
      simp only [after, answer?, Observer.finish, Recorder.finish, halive, Bool.false_eq_true,
        if_false]
      exact ⟨rfl, rfl, rfl, fun done hdone => (Option.some.inj hdone).symm⟩
  | trace r =>
    obtain rfl := Option.some.inj hr
    cases occasion with
    | told request outcome =>
      simp only [after, observe, Recording.observe, Recorder.writeLine, halive, Bool.false_eq_true,
        if_false]
      exact ⟨rfl, rfl, rfl, fun done hdone => by cases hdone⟩
    | finish =>
      simp only [after, answer?, Observer.finish, Recorder.finish, halive, Bool.false_eq_true,
        if_false]
      exact ⟨rfl, rfl, rfl, fun done hdone => (Option.some.inj hdone).symm⟩

/-- After a failure an observer does nothing. -/
theorem idle (hr : m.observer.recorder? = some r) (hfailed : r.failed = true) : m.Idle := by
  have hwritten : m.written? = none := by simp [written?, hr, hfailed]
  have hrest : m.after = (m.observer, m.host) ∧ m.answer? ≠ some true := by
    obtain ⟨o, occasion, host⟩ := m
    cases o with
    | stats | debug => cases hr
    | log l =>
      obtain rfl := Option.some.inj hr
      cases occasion <;>
        simp [after, answer?, observe, Log.observe, Observer.finish, Recorder.finish, hfailed]
    | trace r =>
      obtain rfl := Option.some.inj hr
      cases occasion <;>
        simp [after, answer?, observe, Recording.observe, Recorder.writeLine, Observer.finish,
          Recorder.finish, hfailed]
  refine ⟨by simp [fault?, hwritten], reports_of_messages ?_, hrest.2, hrest.1⟩
  rw [hrest.1, List.append_nil]

/-- An observer works until a write fails. -/
theorem sound (hr : m.observer.recorder? = some r) (halive : r.failed = false)
    (hfault : m.fault? = none) :
    m.Sound ∧ m.after.1.kind = m.observer.kind ∧
      ∃ w, m.after.1.recorder? = some { r with writer := w } := by
  obtain ⟨hwritten, hrecorder, hkind, hhost, hanswer⟩ := settles hr halive
  have hcame := hfault
  rw [fault?, hwritten] at hcame
  generalize m.write r = written at hcame hrecorder hhost hanswer
  obtain ⟨fault | _, w, files⟩ := written
  · cases hcame
  · refine ⟨⟨hfault, reports_of_messages ?_, fun h => ?_⟩, hkind, w, hrecorder⟩
    · rw [hhost]
      exact (List.append_nil _).symm
    · have := hanswer false h
      simp [Recorder.settle, halive] at this

/-- The first failure is reported. -/
theorem reports_eq (hr : m.observer.recorder? = some r) (halive : r.failed = false)
    {fault : FileFault} (hfault : m.fault? = some fault) :
    m.reports = [.writeFailed r.observer r.path fault.message] ∧ m.answer? ≠ some true ∧
      ∃ r', m.after.1.recorder? = some r' ∧ r'.failed = true := by
  obtain ⟨hwritten, hrecorder, -, hhost, hanswer⟩ := settles hr halive
  rw [fault?, hwritten] at hfault
  generalize m.write r = written at hfault hrecorder hhost hanswer
  obtain ⟨fault' | _, w, files⟩ := written
  · obtain rfl := Option.some.inj hfault
    refine ⟨reports_of_messages (by rw [hhost]; rfl), fun h => ?_, _, hrecorder, rfl⟩
    have := hanswer true h
    simp [Recorder.settle, Recorder.giveUp] at this
  · cases hfault

/-- No report is ever taken back. -/
theorem messages_after (m : Moment) : m.after.2.messages = m.host.messages ++ m.reports := by
  obtain ⟨reports, h⟩ : ∃ reports, m.after.2.messages = m.host.messages ++ reports := by
    cases hr : m.observer.recorder? with
    | some r =>
      cases hfailed : r.failed with
      | true => exact ⟨[], by rw [(idle hr hfailed).after, List.append_nil]⟩
      | false =>
        rw [(settles hr hfailed).2.2.2.1]
        obtain ⟨fault | _, w, files⟩ := m.write r
        · exact ⟨[_], rfl⟩
        · exact ⟨[], (List.append_nil _).symm⟩
    | none =>
      -- Such an observer has nothing to report.
      refine ⟨[], (Eq.trans ?_ (List.append_nil _).symm)⟩
      obtain ⟨o, occasion, host⟩ := m
      cases o with
      | log | trace => cases hr
      | stats => cases occasion <;> rfl
      | debug d =>
        cases occasion with
        | told request outcome =>
          simp only [after, observe, Debug.observe]
          split <;> rfl
        | finish => rfl
  rw [reports_of_messages h, h]

end Moment

/-- The moments of an observer, each of which finds it as the one before has left it. -/
inductive Lives : Observer → List Moment → Prop
  | nil (o : Observer) : Lives o []
  | cons {o : Observer} {m : Moment} {rest : List Moment} (hm : m.observer = o)
    (hrest : Lives m.after.1 rest) : Lives o (m :: rest)

theorem Lives.of_cons {o : Observer} {m : Moment} {rest : List Moment} (h : o.Lives (m :: rest)) :
    m.observer = o ∧ m.after.1.Lives rest := by
  cases h with
  | cons hm hrest => exact ⟨hm, hrest⟩

theorem Lives.idle {o : Observer} {moments : List Moment} (h : o.Lives moments) {r : Recorder}
    (hr : o.recorder? = some r) (hfailed : r.failed = true) :
    ∀ m ∈ moments, m.observer = o ∧ m.Idle := by
  induction h with
  | nil => simp
  | cons hm hrest ih =>
    subst hm
    have hidle := Moment.idle hr hfailed
    rw [hidle.after] at ih
    exact List.forall_mem_cons.mpr ⟨⟨rfl, hidle⟩, ih hr⟩

/-- If no write fails at all, then all is well. By induction on the moments. -/
theorem Lives.sound {o : Observer} {moments : List Moment} (h : o.Lives moments) {r : Recorder}
    (hr : o.recorder? = some r) (halive : r.failed = false)
    (hfault : ∀ m ∈ moments, m.fault? = none) : ∀ m ∈ moments, m.Sound := by
  induction h generalizing r with
  | nil => exact List.forall_mem_nil _
  | cons hm hrest ih =>
    subst hm
    obtain ⟨hfirst, hfault⟩ := List.forall_mem_cons.mp hfault
    obtain ⟨hsound, -, w, hrecorder⟩ := Moment.sound hr halive hfirst
    exact List.forall_mem_cons.mpr ⟨hsound, ih hrecorder halive hfault⟩

/-- If a write fails, then all is well before it, it is reported, and nothing happens after it. By
induction on the moments before it. -/
theorem Lives.fails {o : Observer} {before after : List Moment} {m : Moment}
    (h : o.Lives (before ++ m :: after)) {r : Recorder} (hr : o.recorder? = some r)
    (halive : r.failed = false) {fault : FileFault} (hfault : m.fault? = some fault) :
    (∀ m' ∈ before, m'.Sound) ∧ m.reports = [.writeFailed r.observer r.path fault.message] ∧
      m.answer? ≠ some true ∧ ∀ m' ∈ after, m'.observer = m.after.1 ∧ m'.Idle := by
  induction before generalizing o r with
  | nil =>
    obtain ⟨rfl, hrest⟩ := h.of_cons
    obtain ⟨hreports, hanswer, r', hr', hfailed⟩ := Moment.reports_eq hr halive hfault
    exact ⟨List.forall_mem_nil _, hreports, hanswer, hrest.idle hr' hfailed⟩
  | cons first before ih =>
    obtain ⟨rfl, hrest⟩ := h.of_cons
    cases hfirst : first.fault? with
    | none =>
      obtain ⟨hsound, -, w, hrecorder⟩ := Moment.sound hr halive hfirst
      obtain ⟨hbefore, hfails⟩ := ih hrest hrecorder halive
      exact ⟨List.forall_mem_cons.mpr ⟨hsound, hbefore⟩, hfails⟩
    | some earlier =>
      -- After the earlier failure nothing is written, so no further write fails.
      obtain ⟨-, -, r', hr', hfailed⟩ := Moment.reports_eq hr halive hfirst
      have hidle := (hrest.idle hr' hfailed m (by simp)).2
      rw [hidle.fault] at hfault
      cases hfault

/-- Whoever asks last is told that the file is complete if and only if no write has failed. -/
theorem Lives.finished_iff {o : Observer} {before : List Moment} {m : Moment}
    (h : o.Lives (before ++ [m])) {r : Recorder} (hr : o.recorder? = some r)
    (halive : r.failed = false) (hfinish : m.occasion = .finish) :
    m.answer? = some true ↔ ∀ m' ∈ before ++ [m], m'.fault? = none := by
  constructor
  · intro hdone m' hm'
    by_contra hfails
    obtain ⟨fault, hfault⟩ := Option.ne_none_iff_exists'.mp hfails
    obtain ⟨earlier, later, hsplit⟩ := List.append_of_mem hm'
    obtain ⟨-, -, hanswer, hlater⟩ := (hsplit ▸ h).fails hr halive hfault
    -- Nobody is told so where a write fails, nor after that.
    have hlast : m ∈ m' :: later := by
      refine List.mem_of_getLast? ?_
      rw [← List.getLast?_append_cons earlier, ← hsplit, List.getLast?_concat]
    rcases List.mem_cons.mp hlast with rfl | hm
    · exact hanswer hdone
    · exact (hlater m hm).2.answer hdone
  · intro hnone
    obtain ⟨done, hdone⟩ : ∃ done, m.answer? = some done := by
      rw [Moment.answer?, hfinish]
      exact ⟨_, rfl⟩
    cases done with
    | true => exact hdone
    | false => exact absurd hdone (h.sound hr halive hnone m (by simp)).answer

end Observer

namespace Observed

variable {σ : Type}

/-- What may be done with an observed domain: to make a call, or to ask the observer to bring
everything to its file. -/
inductive Use
  | call (request : Request)
  | finish

/-- What comes of a domain that is used and then disposed of: the outcomes of its calls, the moments
of its observer, and the host in the end. -/
structure History where
  outcomes : List Outcome
  moments : List Observer.Moment
  host : Host

/-- The history of a domain. -/
def live (inner : Operations σ) : List Use → Observed σ → Host → History
  | [], s, host =>
    ⟨[], [⟨s.layer, .finish, inner.dispose s.inner host⟩], (operations inner).dispose s host⟩
  | .call request :: uses, s, host =>
    let (outcome, _, between) := inner.respond request s.inner host
    let (answer, s', host') := (operations inner).respond request s host
    let rest := live inner uses s' host'
    ⟨answer :: rest.outcomes, ⟨s.layer, .told request outcome, between⟩ :: rest.moments, rest.host⟩
  | .finish :: uses, s, host =>
    let (_, o, host') := s.layer.finish host
    let rest := live inner uses ⟨o, s.inner⟩ host'
    ⟨rest.outcomes, ⟨s.layer, .finish, host⟩ :: rest.moments, rest.host⟩

theorem lives_live (inner : Operations σ) (uses : List Use) (s : Observed σ) (host : Host) :
    s.layer.Lives (live inner uses s host).moments := by
  induction uses generalizing s host with
  | nil => exact .cons rfl (.nil _)
  | cons use uses ih =>
    cases use with
    | call request =>
      exact .cons rfl (ih ((operations inner).respond request s host).2.1
        ((operations inner).respond request s host).2.2)
    | finish => exact .cons rfl (ih ⟨(s.layer.finish host).2.1, s.inner⟩ (s.layer.finish host).2.2)

/-- The last moment is that of the disposal. -/
theorem exists_last (inner : Operations σ) (uses : List Use) (s : Observed σ) (host : Host)
    (hfile : s.layer.recorder?.isSome = true) :
    ∃ before m, (live inner uses s host).moments = before ++ [m] ∧ m.occasion = .finish ∧
      m.after.2 = (live inner uses s host).host := by
  induction uses generalizing s host with
  | nil => exact ⟨[], _, rfl, rfl, (Observer.dispose_eq hfile _).symm⟩
  | cons use uses ih =>
    have hafter (m : Observer.Moment) (hm : m.observer = s.layer) :
        m.after.1.recorder?.isSome = true := by rw [m.isSome_recorder, hm, hfile]
    cases use with
    | call request =>
      obtain ⟨before, m, hmoments, hlast⟩ := ih ((operations inner).respond request s host).2.1
        ((operations inner).respond request s host).2.2 (hafter ⟨s.layer, .told request
          (inner.respond request s.inner host).1, (inner.respond request s.inner host).2.2⟩ rfl)
      exact ⟨_ :: before, m, congrArg (_ :: ·) hmoments, hlast⟩
    | finish =>
      obtain ⟨before, m, hmoments, hlast⟩ := ih ⟨(s.layer.finish host).2.1, s.inner⟩
        (s.layer.finish host).2.2 (hafter ⟨s.layer, .finish, host⟩ rfl)
      exact ⟨_ :: before, m, congrArg (_ :: ·) hmoments, hlast⟩

end Observed

end LayeredSets

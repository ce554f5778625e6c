import LayeredSets.Domain.Chain
import LayeredSets.Proofs.Host.Writer
import LayeredSets.Proofs.Layer.Transport
import LayeredSets.Proofs.Tap

/-!
# What a recording holds

The file of a recording has a line for each call, in order, after its header. Observers that write
to other files do not disturb it.
-/

namespace LayeredSets

/-! ## Observers that write elsewhere -/

/-- The observer does not write to this file. -/
def Observer.Elsewhere (id : FileId) : Observer → Prop
  | log l => id ≠ l.recorder.writer.file
  | trace r => id ≠ r.recorder.writer.file
  | _ => True

namespace Observer

variable {id : FileId}

theorem elsewhere_observe {o : Observer} (h : o.Elsewhere id) {k : Answer} (call : Call k)
    (outcome : Outcome) (host : Host) :
    (o.observe call outcome host).1.Elsewhere id ∧
      (o.observe call outcome host).2.files.file? id = host.files.file? id := by
  cases o with
  | log l =>
    have hline := l.recorder.spares_writeLine (Log.record (l.seq + 1) call outcome).parts host
    simp only [observe, Log.observe]
    split
    · exact ⟨h, rfl⟩
    · exact ⟨ne_of_ne_of_eq h hline.file.symm, hline.others id h⟩
  | stats s => exact ⟨trivial, rfl⟩
  | debug d =>
    refine ⟨trivial, ?_⟩
    simp only [observe, Debug.observe]
    split <;> rfl
  | trace r =>
    have hline := r.recorder.spares_writeLine [Recording.line r.checkMode call outcome] host
    exact ⟨ne_of_ne_of_eq h hline.file.symm, hline.others id h⟩

theorem file?_dispose {o : Observer} (h : o.Elsewhere id) (host : Host) :
    (o.dispose host).files.file? id = host.files.file? id := by
  cases o with
  | log l => exact (l.recorder.spares_finish host).others id h
  | stats s =>
    simp only [dispose, Stats.finish]
    split <;> rfl
  | debug d => rfl
  | trace r => exact (r.recorder.spares_finish host).others id h

end Observer

/-- No observer of a chain writes to this file. Other domains are not chains. -/
def Shape.Elsewhere (id : FileId) : (shape : Shape) → shape.State → Prop
  | explicit, _ => True
  | observed inner, s => s.layer.Elsewhere id ∧ inner.Elsewhere id s.inner
  | equalities inner, s => inner.Elsewhere id s.inner
  | points inner, s => inner.Elsewhere id s.inner
  | smt, _ => False
  | packed _ _, _ => False

namespace Shape

variable {id : FileId}

/-- Calls on a chain leave the file alone if its observers do. -/
theorem keeps_elsewhere (shape : Shape) (file : Option File) (k : Answer) (call : Call k) :
    Action.Keeps (fun s host => shape.Elsewhere id s ∧ host.files.file? id = file)
      (shape.operations.step call) := by
  induction shape generalizing k with
  | explicit =>
    refine ⟨fun d host h => ⟨trivial, ?_⟩⟩
    simp only [operations, Explicit.operations, Explicit.step]
    split
    · cases call <;> exact h.2
    · exact h.2
  | smt | packed => exact ⟨fun s host h => h.1.elim⟩
  | observed inner ih =>
    refine ⟨fun s host h => ?_⟩
    obtain ⟨hinner, hfile⟩ := (ih k call).keeps s.inner host ⟨h.1.2, h.2⟩
    obtain ⟨hlayer, hsame⟩ := Observer.elsewhere_observe h.1.1 call
      ((inner.operations.step call s.inner host).1.map k.reply)
      (inner.operations.step call s.inner host).2.2
    exact ⟨⟨hlayer, hinner⟩, hsame.trans hfile⟩
  | equalities inner ih => exact Equalities.keeps_step inner.operations call (h := ih)
  | points inner ih => exact Points.keeps_step inner.operations call (h := ih)

theorem file?_dispose (shape : Shape) {s : shape.State} (h : shape.Elsewhere id s) (host : Host) :
    (shape.operations.dispose s host).files.file? id = host.files.file? id := by
  induction shape generalizing host with
  | explicit => rfl
  | smt | packed => exact h.elim
  | observed inner ih =>
    exact (Observer.file?_dispose h.1 _).trans (ih h.2 host)
  | equalities inner ih | points inner ih => exact ih h host

end Shape

namespace Recording

/-- A text of lines. -/
def text (lines : List String) : String := String.join (lines.map (· ++ "\n"))

theorem text_append (lines more : List String) : text (lines ++ more) = text lines ++ text more := by
  rw [text, List.map_append, String.join_append]
  rfl

theorem toList_text (lines : List String) :
    (text lines).toList = (lines.map String.toList).flatMap (· ++ ['\n']) := by
  simp [text, String.toList_join, List.flatMap_map]

/-- The lines of calls and their outcomes. -/
def lines (checkMode : Bool) (requests : List Request) (outcomes : List Outcome) : List String :=
  (requests.zip outcomes).map fun (request, outcome) => line checkMode request.call outcome

/-- The recording has written these lines to a regular file. -/
def Wrote (r : Recording) (files : Files) (lines : List String) : Prop :=
  r.recorder.Wrote files (text lines).toUTF8

theorem text_snoc (lines : List String) (line : String) :
    (text (lines ++ [line])).toUTF8 = (text lines).toUTF8 ++ (line ++ "\n").toUTF8 := by
  have hline : text [line] = line ++ "\n" := by simp [text]
  rw [text_append, hline]
  exact String.toByteArray_append

theorem Wrote.observe {r : Recording} {host : Host} {lines : List String}
    (h : r.Wrote host.files lines) {k : Answer} (call : Call k) (outcome : Outcome) :
    (r.observe call outcome host).1.Wrote (r.observe call outcome host).2.files
      (lines ++ [line r.checkMode call outcome]) := by
  have hline := h.writeLine (line r.checkMode call outcome)
  rwa [← text_snoc] at hline

/-- The lines that are written do not depend on what happens to other files. -/
theorem Wrote.of_file? {r : Recording} {files files' : Files} {lines : List String}
    (h : r.Wrote files lines)
    (hsame : files'.file? r.recorder.writer.file = files.file? r.recorder.writer.file) :
    r.Wrote files' lines :=
  Recorder.Wrote.of_file? h hsame

/-- A file that has just been created is empty. -/
theorem content_create {files files' : Files} {path : String} {id : FileId}
    (h : files.create path = .ok (id, files')) {f : File} (hfile : files'.file? id = some f) :
    f.content = .empty := by
  rw [Files.create] at h
  cases hprovide : files.provide path with
  | error fault => simp [hprovide, bind, Except.bind] at h
  | ok provided =>
    obtain ⟨id', provided⟩ := provided
    simp only [hprovide, bind, Except.bind] at h
    split at h
    · next old hold =>
      obtain ⟨rfl, rfl⟩ := Prod.mk.inj (Except.ok.inj h)
      rw [Files.file?_update_self hold] at hfile
      rw [← Option.some.inj hfile]
    · next hnone =>
      obtain ⟨rfl, rfl⟩ := Prod.mk.inj (Except.ok.inj h)
      simp [hnone] at hfile

/-- A recorder that has just been made has written nothing. -/
theorem wrote_created {observer path : String} {host host' : Host} {r : Recorder}
    (h : Recorder.create observer path host = (.ok r, host'))
    (hregular : (host'.files.file? r.writer.file).map (·.device) = some false) :
    r.Wrote host'.files (text []).toUTF8 := by
  rw [Recorder.create] at h
  cases hcreate : host.files.create path with
  | error fault => simp [hcreate] at h
  | ok created =>
    obtain ⟨file, files⟩ := created
    simp only [hcreate] at h
    obtain ⟨hr, rfl⟩ := Prod.mk.inj h
    obtain rfl := Except.ok.inj hr
    intro _
    obtain ⟨f, hfile, hf⟩ := Option.map_eq_some_iff.mp hregular
    exact ⟨.empty, ⟨⟨f, hfile, hf, content_create hcreate hfile⟩, rfl⟩, rfl⟩

/-- The lines of a header are written one by one. -/
theorem wrote_header (added : List String) {r : Recorder} {host : Host} {lines : List String}
    (h : (host.files.file? r.writer.file).map (·.device) = some false →
      r.Wrote host.files (text lines).toUTF8) :
    let after := added.foldl (fun x line => x.1.writeLine [line] x.2) (r, host)
    (after.2.files.file? after.1.writer.file).map (·.device) = some false →
      after.1.Wrote after.2.files (text (lines ++ added)).toUTF8 := by
  induction added generalizing r host lines with
  | nil => simpa using h
  | cons line added ih =>
    intro after hregular
    have hnext (hdevice : ((r.writeLine [line] host).2.files.file?
        (r.writeLine [line] host).1.writer.file).map (·.device) = some false) :
        (r.writeLine [line] host).1.Wrote (r.writeLine [line] host).2.files
          (text (lines ++ [line])).toUTF8 := by
      have hspares := r.spares_writeLine [line] host
      rw [hspares.file, hspares.device] at hdevice
      rw [text_snoc]
      exact (h hdevice).writeLine line
    rw [List.append_cons]
    exact ih hnext hregular

/-- A recording starts with its header. -/
theorem wrote_create {target : RecordingTarget} {host host' : Host} {r : Recording}
    (h : create target host = (.ok r, host'))
    (hregular : (host'.files.file? r.recorder.writer.file).map (·.device) = some false) :
    r.checkMode = target.checkMode ∧ r.Wrote host'.files (header target.checkMode) := by
  rw [create] at h
  generalize hcreate : Recorder.create "trace" target.path host = created at h
  obtain ⟨message | started, host₁⟩ := created
  · cases (Prod.mk.inj h).1
  · obtain ⟨hr, rfl⟩ := Prod.mk.inj h
    obtain rfl := Except.ok.inj hr
    exact ⟨rfl, wrote_header (header target.checkMode) (wrote_created hcreate) hregular⟩

end Recording

/-- A recorded run: a line is written for each call. By induction on the calls. -/
theorem Observed.run_recording {σ : Type} {ops : Operations σ} {id : FileId} {I : σ → Prop}
    (hkeeps : ∀ (file : Option File) (k : Answer) (call : Call k),
      Action.Keeps (fun s host => I s ∧ host.files.file? id = file) (ops.step call))
    (requests : List Request) {r : Recording} {s : σ} (host : Host) {lines : List String}
    (hid : r.recorder.writer.file = id) (hs : I s) (hr : r.Wrote host.files lines) :
    let whole := (Observed.operations ops).run requests ⟨.trace r, s⟩ host
    ∃ r', whole.2.1.layer = .trace r' ∧ r'.recorder.writer.file = id ∧ I whole.2.1.inner ∧
      r'.Wrote whole.2.2.files (lines ++ Recording.lines r.checkMode requests whole.1) := by
  induction requests generalizing r s host lines with
  | nil =>
    intro whole
    exact ⟨r, rfl, hid, hs, by simpa [Recording.lines, whole, Operations.run] using hr⟩
  | cons request requests ih =>
    intro whole
    obtain ⟨hs', hfile⟩ := (hkeeps _ request.kind request.call).keeps s host ⟨hs, rfl⟩
    let asked := ops.step request.call s host
    let outcome := asked.1.map request.kind.reply
    have hwrote := (hr.of_file? (hid ▸ hfile)).observe request.call outcome
    have hfile' : (r.observe request.call outcome asked.2.2).1.recorder.writer.file = id :=
      (r.recorder.spares_writeLine _ _).file.trans hid
    obtain ⟨r', hlayer, hr'file, hinner, hlines⟩ := ih _ hfile' hs' hwrote
    refine ⟨r', hlayer, hr'file, hinner, ?_⟩
    rw [List.append_assoc] at hlines
    exact hlines

end LayeredSets

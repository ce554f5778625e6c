import LayeredSets.Proofs.Host.Writer
import LayeredSets.Proofs.Layer.Transport
import LayeredSets.Proofs.Observer.Life

/-!
# Hosts that differ in some files only

Two hosts may be the same but for what some files hold and take, and for what has been reported
about writes that fail. A writer to another file does the same on both; one to such a file leaves
them as alike as they were, whatever becomes of its writes. So observers that are the same, or that
both write to such a file, cannot be told apart by what is around them.
-/

namespace LayeredSets

/-- The files are the same, apart from what is known of those in `F`. -/
structure Files.Alike (F : FileId → Prop) (files files' : Files) : Prop where
  places : files.places = files'.places
  size : files.stored.size = files'.stored.size
  others : ∀ id, ¬ F id → files.file? id = files'.file? id

def Message.isWriteFailed : Message → Bool
  | .writeFailed .. => true
  | _ => false

/-- The hosts are the same, apart from what is known of the files in `F` and from what is reported
about writes that fail. -/
structure Host.Alike (F : FileId → Prop) (host host' : Host) : Prop where
  files : host.files.Alike F host'.files
  stdin : host.stdin = host'.stdin
  diagnostics : host.diagnostics = host'.diagnostics
  messages : host.messages.filter (!·.isWriteFailed) = host'.messages.filter (!·.isWriteFailed)
  replies : host.replies = host'.replies
  questions : host.questions = host'.questions
  marks : host.marks = host'.marks

variable {F : FileId → Prop} {files files' : Files} {host host' : Host}

namespace Files.Alike

theorem refl (files : Files) : files.Alike F files := ⟨rfl, rfl, fun _ _ => rfl⟩

theorem symm (h : files.Alike F files') : files'.Alike F files :=
  ⟨h.places.symm, h.size.symm, fun id hid => (h.others id hid).symm⟩

theorem trans {files'' : Files} (h : files.Alike F files') (h' : files'.Alike F files'') :
    files.Alike F files'' :=
  ⟨h.places.trans h'.places, h.size.trans h'.size,
    fun id hid => (h.others id hid).trans (h'.others id hid)⟩

theorem update (h : files.Alike F files') (id : FileId) (f : File) :
    (files.update id f).Alike F (files'.update id f) := by
  refine ⟨h.places, by simp [Files.update, h.size], fun other hother => ?_⟩
  by_cases hid : other = id
  · subst hid
    simp only [file?, Files.update, Array.getElem?_setIfInBounds_self, h.size]
  · rw [file?_update_of_ne _ hid, file?_update_of_ne _ hid, h.others other hother]

theorem update_inside {id : FileId} (hid : F id) (files : Files) (f : File) :
    files.Alike F (files.update id f) := by
  refine ⟨rfl, by simp [Files.update], fun other hother => ?_⟩
  have hne : other ≠ id := fun heq => hother (heq ▸ hid)
  rw [file?_update_of_ne _ hne]

theorem writeAt (h : files.Alike F files') {id : FileId} (hid : ¬ F id) (offset : Nat)
    (bytes : ByteArray) :
    ∃ written after after', files.writeAt id offset bytes = (written, after) ∧
      files'.writeAt id offset bytes = (written, after') ∧ after.Alike F after' := by
  rw [Files.writeAt, Files.writeAt, ← h.others id hid]
  cases files.file? id with
  | none => exact ⟨_, _, _, rfl, rfl, h⟩
  | some f => exact ⟨_, _, _, rfl, rfl, h.update id _⟩

theorem writeAt_inside {id : FileId} (hid : F id) (files : Files) (offset : Nat)
    (bytes : ByteArray) : files.Alike F (files.writeAt id offset bytes).2 := by
  rw [Files.writeAt]
  split
  · exact refl files
  · exact update_inside hid files _

end Files.Alike

/-! ## Writers -/

namespace Writer

variable {w : Writer}

theorem alike_send (h : files.Alike F files') (hw : ¬ F w.file) (bytes : ByteArray) :
    ∃ o n w' after after', w.send bytes files = (o, n, w', after) ∧
      w.send bytes files' = (o, n, w', after') ∧ w'.file = w.file ∧ after.Alike F after' := by
  obtain ⟨written, after, after', hwritten, hwritten', halike⟩ := h.writeAt hw w.offset bytes
  simp only [send, hwritten, hwritten']
  split <;> exact ⟨_, _, _, _, _, rfl, rfl, rfl, halike⟩

theorem alike_flush (h : files.Alike F files') (hw : ¬ F w.file) :
    ∃ o w' after after', w.flush files = (o, w', after) ∧ w.flush files' = (o, w', after') ∧
      w'.file = w.file ∧ after.Alike F after' := by
  rw [flush, flush]
  split
  · exact ⟨_, _, _, _, rfl, rfl, rfl, h⟩
  · obtain ⟨o, n, w', after, after', hsent, hsent', hfile, halike⟩ := alike_send h hw w.pending
    rw [hsent, hsent']
    exact ⟨_, _, _, _, rfl, rfl, hfile, halike⟩

theorem alike_write (h : files.Alike F files') (hw : ¬ F w.file) (text : String) :
    ∃ o w' after after', w.write text files = (o, w', after) ∧
      w.write text files' = (o, w', after') ∧ w'.file = w.file ∧ after.Alike F after' := by
  obtain ⟨o, w₁, mid, mid', hmade, hmade', hfile, hmid⟩ :
      ∃ o w₁ mid mid', (if capacity < w.pending.size + text.toUTF8.size then w.flush files
          else (.ok (), w, files)) = (o, w₁, mid) ∧
        (if capacity < w.pending.size + text.toUTF8.size then w.flush files'
          else (.ok (), w, files')) = (o, w₁, mid') ∧ w₁.file = w.file ∧ mid.Alike F mid' := by
    split
    · exact alike_flush h hw
    · exact ⟨_, _, _, _, rfl, rfl, rfl, h⟩
  simp only [write, hmade, hmade']
  cases o with
  | error fault => exact ⟨_, _, _, _, rfl, rfl, hfile, hmid⟩
  | ok _ =>
    dsimp only
    split
    · obtain ⟨o, n, w', after, after', hsent, hsent', hfile', halike⟩ :=
        alike_send hmid (hfile ▸ hw) text.toUTF8
      rw [hsent, hsent']
      exact ⟨_, _, _, _, rfl, rfl, hfile'.trans hfile, halike⟩
    · exact ⟨_, _, _, _, rfl, rfl, hfile, hmid⟩

theorem alike_writeAll (texts : List String) (h : files.Alike F files') (hw : ¬ F w.file) :
    ∃ o w' after after', w.writeAll files texts = (o, w', after) ∧
      w.writeAll files' texts = (o, w', after') ∧ w'.file = w.file ∧ after.Alike F after' := by
  induction texts generalizing w files files' with
  | nil => exact ⟨_, _, _, _, rfl, rfl, rfl, h⟩
  | cons text texts ih =>
    obtain ⟨o, w₁, mid, mid', hwritten, hwritten', hfile, hmid⟩ := alike_write h hw text
    rw [writeAll, writeAll, hwritten, hwritten']
    cases o with
    | error fault => exact ⟨_, _, _, _, rfl, rfl, hfile, hmid⟩
    | ok _ =>
      obtain ⟨o, w', after, after', hrest, hrest', hfile', halike⟩ := ih hmid (hfile ▸ hw)
      exact ⟨o, w', after, after', hrest, hrest', hfile'.trans hfile, halike⟩

theorem alike_send_inside (hw : F w.file) (bytes : ByteArray) (files : Files) :
    files.Alike F (w.send bytes files).2.2.2 := by
  have h := Files.Alike.writeAt_inside hw files w.offset bytes
  rw [send]
  generalize files.writeAt w.file w.offset bytes = r at h ⊢
  obtain ⟨written, after⟩ := r
  cases hfault : written.fault <;> simpa [hfault] using h

theorem alike_flush_inside (hw : F w.file) (files : Files) : files.Alike F (w.flush files).2.2 := by
  rw [flush]
  split
  · exact .refl files
  · exact alike_send_inside hw w.pending files

theorem alike_write_inside (hw : F w.file) (text : String) (files : Files) :
    files.Alike F (w.write text files).2.2 := by
  obtain ⟨o, w₁, mid, hmade, hfile, hmid⟩ :
      ∃ o w₁ mid, (if capacity < w.pending.size + text.toUTF8.size then w.flush files
        else (.ok (), w, files)) = (o, w₁, mid) ∧ w₁.file = w.file ∧ files.Alike F mid := by
    split
    · exact ⟨_, _, _, rfl, (w.spares_flush files).file, alike_flush_inside hw files⟩
    · exact ⟨_, _, _, rfl, rfl, .refl files⟩
  simp only [write, hmade]
  cases o with
  | error fault => exact hmid
  | ok _ =>
    dsimp only
    split
    · exact hmid.trans (alike_send_inside (hfile ▸ hw) text.toUTF8 mid)
    · exact hmid

theorem alike_writeAll_inside (texts : List String) (hw : F w.file) (files : Files) :
    files.Alike F (w.writeAll files texts).2.2 := by
  induction texts generalizing w files with
  | nil => exact .refl files
  | cons text texts ih =>
    have hwrite := alike_write_inside hw text files
    have hfile := (w.spares_write text files).file
    rw [writeAll]
    generalize w.write text files = written at hwrite hfile ⊢
    obtain ⟨fault | _, w', after⟩ := written
    · exact hwrite
    · exact hwrite.trans (ih (hfile ▸ hw) after)

end Writer

/-! ## Hosts -/

namespace Host.Alike

theorem refl (host : Host) : host.Alike F host := ⟨.refl _, rfl, rfl, rfl, rfl, rfl, rfl⟩

theorem symm (h : host.Alike F host') : host'.Alike F host :=
  ⟨h.files.symm, h.stdin.symm, h.diagnostics.symm, h.messages.symm, h.replies.symm,
    h.questions.symm, h.marks.symm⟩

theorem trans {host'' : Host} (h : host.Alike F host') (h' : host'.Alike F host'') :
    host.Alike F host'' :=
  ⟨h.files.trans h'.files, h.stdin.trans h'.stdin, h.diagnostics.trans h'.diagnostics,
    h.messages.trans h'.messages, h.replies.trans h'.replies, h.questions.trans h'.questions,
    h.marks.trans h'.marks⟩

theorem report (h : host.Alike F host') (m : Message) :
    (host.report m).Alike F (host'.report m) :=
  { h with messages := by simp only [Host.report, List.filter_append, h.messages] }

theorem reports (messages : List Message) (h : host.Alike F host') :
    (messages.foldl Host.report host).Alike F (messages.foldl Host.report host') := by
  induction messages generalizing host host' with
  | nil => exact h
  | cons m messages ih => exact ih (h.report m)

theorem printLine (h : host.Alike F host') (line : String) :
    (host.printLine line).Alike F (host'.printLine line) :=
  { h with diagnostics := by simp only [Host.printLine, h.diagnostics] }

end Host.Alike

/-! ## Recorders -/

namespace Recorder

theorem alike_settle (h : host.Alike F host') (r : Recorder) (o : Except FileFault Unit)
    (w : Writer) {after after' : Files} (hfiles : after.Alike F after') :
    ∃ r' host₁ host₁', r.settle (o, w, after) host = (r', host₁) ∧
      r.settle (o, w, after') host' = (r', host₁') ∧ r'.writer = w ∧ host₁.Alike F host₁' := by
  have hafter : Host.Alike F { host with files := after } { host' with files := after' } :=
    { h with files := hfiles }
  cases o with
  | error fault => exact ⟨_, _, _, rfl, rfl, rfl, hafter.report _⟩
  | ok _ => exact ⟨_, _, _, rfl, rfl, rfl, hafter⟩

theorem alike_settle_inside (r : Recorder) {written : Except FileFault Unit × Writer × Files}
    (hfiles : host.files.Alike F written.2.2) : host.Alike F (r.settle written host).2 := by
  obtain ⟨fault | _, w, after⟩ := written
  · exact ⟨hfiles, rfl, rfl, by simp [settle, giveUp, Host.report, Message.isWriteFailed], rfl, rfl,
      rfl⟩
  · exact ⟨hfiles, rfl, rfl, rfl, rfl, rfl, rfl⟩

variable {r : Recorder}

theorem alike_writeLine (h : host.Alike F host') (hr : ¬ F r.writer.file) (parts : List String) :
    ∃ r' after after', r.writeLine parts host = (r', after) ∧
      r.writeLine parts host' = (r', after') ∧ r'.writer.file = r.writer.file ∧
        after.Alike F after' := by
  rw [writeLine, writeLine]
  split
  · exact ⟨_, _, _, rfl, rfl, rfl, h⟩
  · obtain ⟨o, w, files, files', hwritten, hwritten', hfile, hfiles⟩ :=
      Writer.alike_writeAll (parts ++ ["\n"]) h.files hr
    rw [hwritten, hwritten']
    obtain ⟨r', after, after', hsettled, hsettled', hwriter, hafter⟩ :=
      alike_settle h r o w hfiles
    exact ⟨r', after, after', hsettled, hsettled', hwriter ▸ hfile, hafter⟩

theorem alike_finish (h : host.Alike F host') (hr : ¬ F r.writer.file) :
    ∃ done r' after after', r.finish host = (done, r', after) ∧
      r.finish host' = (done, r', after') ∧ r'.writer.file = r.writer.file ∧
        after.Alike F after' := by
  rw [finish, finish]
  split
  · exact ⟨_, _, _, _, rfl, rfl, rfl, h⟩
  · obtain ⟨o, w, files, files', hwritten, hwritten', hfile, hfiles⟩ :=
      Writer.alike_flush h.files hr
    rw [hwritten, hwritten']
    obtain ⟨r', after, after', hsettled, hsettled', hwriter, hafter⟩ :=
      alike_settle h r o w hfiles
    rw [hsettled, hsettled']
    exact ⟨_, r', after, after', rfl, rfl, hwriter ▸ hfile, hafter⟩

end Recorder

/-! ## Observers -/

namespace Observer

/-- The observer writes to a file in `F`. -/
def Inside (F : FileId → Prop) (o : Observer) : Prop :=
  ∃ r, o.recorder? = some r ∧ F r.writer.file

/-- Either the observers are the same and write to no file in `F`, or both write to such a file and
go by the same label. -/
inductive Alike (F : FileId → Prop) : Observer → Observer → Prop
  | outside {o : Observer} (h : ¬ o.Inside F) : Alike F o o
  | inside {o o' : Observer} (h : o.Inside F) (h' : o'.Inside F) (hlabel : o.label = o'.label) :
    Alike F o o'

theorem alike_refl (o : Observer) : o.Alike F o := by
  by_cases h : o.Inside F
  · exact .inside h h rfl
  · exact .outside h

theorem not_inside {o : Observer} (h : o.recorder? = none) : ¬ o.Inside F := by
  rintro ⟨r, hr, -⟩
  rw [h] at hr
  cases hr

namespace Moment

theorem label_after (m : Moment) : m.after.1.label = m.observer.label := by
  obtain ⟨o, occasion, host⟩ := m
  cases o <;> cases occasion <;> rfl

/-- An observer that writes to a file in `F` leaves everything else as it is. -/
theorem inside {m : Moment} (h : m.observer.Inside F) :
    m.after.1.Inside F ∧ m.host.Alike F m.after.2 := by
  obtain ⟨r, hr, hfile⟩ := h
  cases hfailed : r.failed with
  | true =>
    rw [(idle hr hfailed).after]
    exact ⟨⟨r, hr, hfile⟩, .refl _⟩
  | false =>
    obtain ⟨-, hrecorder, -, hhost, -⟩ := settles hr hfailed
    have hwrite : (m.write r).2.1.file = r.writer.file ∧
        m.host.files.Alike F (m.write r).2.2 := by
      obtain ⟨o, occasion, host⟩ := m
      cases occasion with
      | told request outcome =>
        exact ⟨(r.writer.spares_writeAll _ _).file, Writer.alike_writeAll_inside _ hfile _⟩
      | finish => exact ⟨(r.writer.spares_flush _).file, Writer.alike_flush_inside hfile _⟩
    refine ⟨⟨_, hrecorder, ?_⟩, hhost ▸ r.alike_settle_inside hwrite.2⟩
    rw [(r.settle_eq (m.write r) m.host).1, hwrite.1]
    exact hfile

/-- Any other observer does the same on both hosts. -/
theorem outside {o : Observer} (h : ¬ o.Inside F) (occasion : Occasion)
    (hhost : host.Alike F host') :
    let m : Moment := ⟨o, occasion, host⟩
    let m' : Moment := ⟨o, occasion, host'⟩
    m.after.1 = m'.after.1 ∧ ¬ m.after.1.Inside F ∧ m.after.2.Alike F m'.after.2 := by
  intro m m'
  have hkept {o : Observer} {r r' : Recorder} (ho : o.recorder? = some r')
      (hfile : r'.writer.file = r.writer.file) (hr : ¬ F r.writer.file) : ¬ o.Inside F := by
    rintro ⟨r₁, hr₁, hinside⟩
    obtain rfl := Option.some.inj (ho.symm.trans hr₁)
    exact hr (hfile ▸ hinside)
  cases o with
  | log l =>
    have hr : ¬ F l.recorder.writer.file := fun hfile => h ⟨l.recorder, rfl, hfile⟩
    cases occasion with
    | told request outcome =>
      simp only [m, m', after, observe, Log.observe]
      split
      · exact ⟨rfl, h, hhost⟩
      · obtain ⟨r', _, _, hline, hline', hfile, hafter⟩ := Recorder.alike_writeLine hhost hr
          (Log.record (l.seq + 1) request.call outcome).parts
        rw [hline, hline']
        exact ⟨rfl, hkept rfl hfile hr, hafter⟩
    | finish =>
      obtain ⟨_, r', _, _, hdone, hdone', hfile, hafter⟩ := Recorder.alike_finish hhost hr
      simp only [m, m', after, Observer.finish, hdone, hdone']
      exact ⟨trivial, hkept rfl hfile hr, hafter⟩
  | trace t =>
    have hr : ¬ F t.recorder.writer.file := fun hfile => h ⟨t.recorder, rfl, hfile⟩
    cases occasion with
    | told request outcome =>
      obtain ⟨r', _, _, hline, hline', hfile, hafter⟩ := Recorder.alike_writeLine hhost hr
        [Recording.line t.checkMode request.call outcome]
      simp only [m, m', after, observe, Recording.observe, hline, hline']
      exact ⟨trivial, hkept rfl hfile hr, hafter⟩
    | finish =>
      obtain ⟨_, r', _, _, hdone, hdone', hfile, hafter⟩ := Recorder.alike_finish hhost hr
      simp only [m, m', after, Observer.finish, hdone, hdone']
      exact ⟨trivial, hkept rfl hfile hr, hafter⟩
  | stats s =>
    cases occasion with
    | told request outcome => exact ⟨rfl, not_inside rfl, hhost⟩
    | finish => exact ⟨rfl, not_inside rfl, hhost⟩
  | debug d =>
    cases occasion with
    | told request outcome =>
      simp only [m, m', after, observe, Debug.observe]
      split
      · exact ⟨rfl, not_inside rfl, hhost.printLine _⟩
      · exact ⟨rfl, not_inside rfl, hhost⟩
    | finish => exact ⟨rfl, not_inside rfl, hhost⟩

/-- Whatever observers that are alike do, they stay so, and so do the hosts. -/
theorem alike {o o' : Observer} (h : o.Alike F o') (occasion : Occasion)
    (hhost : host.Alike F host') :
    let m : Moment := ⟨o, occasion, host⟩
    let m' : Moment := ⟨o', occasion, host'⟩
    m.after.1.Alike F m'.after.1 ∧ m.after.2.Alike F m'.after.2 := by
  intro m m'
  cases h with
  | outside h =>
    obtain ⟨hsame, houtside, hafter⟩ := outside h occasion hhost
    exact ⟨hsame ▸ .outside houtside, hafter⟩
  | inside h h' hlabel =>
    obtain ⟨hinside, hafter⟩ := inside (m := m) h
    obtain ⟨hinside', hafter'⟩ := inside (m := m') h'
    refine ⟨.inside hinside hinside' ?_, (hafter.symm.trans hhost).trans hafter'⟩
    rw [label_after, label_after]
    exact hlabel

end Moment

theorem alike_dispose {o o' : Observer} (h : o.Alike F o') (hhost : host.Alike F host') :
    (o.dispose host).Alike F (o'.dispose host') := by
  cases h with
  | outside h =>
    cases o with
    | log l => exact (Moment.alike (.outside h) .finish hhost).2
    | trace r => exact (Moment.alike (.outside h) .finish hhost).2
    | debug d => exact hhost
    | stats s =>
      simp only [dispose, Stats.finish]
      split
      · exact (hhost.report _).printLine _
      · exact hhost
  | inside h h' hlabel =>
    have hfile {o : Observer} (h : o.Inside F) : o.recorder?.isSome = true := by
      obtain ⟨r, hr, -⟩ := h
      rw [hr, Option.isSome_some]
    rw [dispose_eq (hfile h), dispose_eq (hfile h')]
    exact (Moment.alike (.inside h h' hlabel) .finish hhost).2

/-- Observers that are alike do the same to hosts that are alike. -/
theorem coupled_alike (F : FileId → Prop) : Coupled (Alike F) (Host.Alike F) where
  observe h _ call outcome _ _ hhost := Moment.alike h (.told ⟨call⟩ outcome) hhost
  label h := by
    cases h with
    | outside => rfl
    | inside _ _ hlabel => exact hlabel
  dispose h _ _ hhost := alike_dispose h hhost

end Observer
end LayeredSets

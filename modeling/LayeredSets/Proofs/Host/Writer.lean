import LayeredSets.Observer.Recorder
import Mathlib.Tactic

/-!
# What buffered writers write

A writer stands for the bytes that it has handed to its file followed by those that it holds back.
As long as no write fails, every text is added at the end of these, whatever the buffer does, and
once the writer has been flushed they are the content of the file. No other file is touched.
-/

namespace LayeredSets

namespace Files

theorem file?_update_of_ne (files : Files) {id other : FileId} (h : other ≠ id) (file : File) :
    (files.update id file).file? other = files.file? other := by
  have hindex : id.index ≠ other.index := fun heq => h (by cases id; cases other; simp_all)
  simp only [file?, update, Array.getElem?_setIfInBounds_ne hindex]

theorem file?_update_self {files : Files} {id : FileId} {f : File} (h : files.file? id = some f)
    (file : File) : (files.update id file).file? id = some file := by
  obtain ⟨hindex, -⟩ := Array.getElem?_eq_some_iff.mp h
  simp only [file?, update, Array.getElem?_setIfInBounds_self, hindex, if_true]

theorem overwrite_end (content bytes : ByteArray) :
    overwrite content content.size bytes = content ++ bytes := by
  have hgap : (⟨Array.replicate (content.size - content.size) 0⟩ : ByteArray) = .empty := by
    rw [Nat.sub_self, Array.replicate_zero]
    rfl
  have hrest : content.extract (content.size + bytes.size) content.size = .empty :=
    ByteArray.extract_add_left
  rw [overwrite, hgap, hrest, ByteArray.extract_zero_size, ByteArray.append_empty,
    ByteArray.append_empty]

end Files

namespace Writer

/-- The file is a regular one with this content, all of which the writer has written. -/
structure Behind (w : Writer) (files : Files) (content : ByteArray) : Prop where
  file : ∃ f, files.file? w.file = some f ∧ f.device = false ∧ f.content = content
  offset : w.offset = content.size

/-- The bytes written so far are those in the file and those held back. -/
def Wrote (w : Writer) (files : Files) (bytes : ByteArray) : Prop :=
  ∃ content, w.Behind files content ∧ content ++ w.pending = bytes

variable {w : Writer} {files : Files} {content bytes : ByteArray}

theorem Behind.send (h : w.Behind files content) (bytes : ByteArray)
    (hok : (w.send bytes files).1 = .ok ()) :
    let after := w.send bytes files
    after.2.1 = bytes.size ∧ after.2.2.1.pending = w.pending ∧
      after.2.2.1.Behind after.2.2.2 (content ++ bytes) := by
  obtain ⟨⟨f, hfile, hregular, rfl⟩, hoffset⟩ := h
  have hle : (f.room.map (min bytes.size)).getD bytes.size ≤ bytes.size := by
    cases f.room <;> simp
  simp only [send, Files.writeAt, hfile, hregular] at hok ⊢
  generalize (f.room.map (min bytes.size)).getD bytes.size = count at hle hok ⊢
  by_cases hshort : count < bytes.size
  · simp [hshort] at hok
  · obtain rfl : count = bytes.size := by omega
    refine ⟨by simp, by simp, ?_⟩
    simp only [lt_irrefl, if_false, Bool.false_eq_true]
    refine ⟨⟨_, Files.file?_update_self hfile _, rfl, ?_⟩, ?_⟩
    · rw [hoffset, ByteArray.extract_zero_size, Files.overwrite_end]
    · simp [hoffset]

theorem Wrote.flush (h : w.Wrote files bytes) (hok : (w.flush files).1 = .ok ()) :
    (w.flush files).2.1.pending = .empty ∧
      (w.flush files).2.1.Behind (w.flush files).2.2 bytes := by
  obtain ⟨content, hbehind, rfl⟩ := h
  rw [flush] at hok ⊢
  split at hok
  · next hempty =>
    have hpending : w.pending = .empty := by
      simpa [ByteArray.isEmpty, ByteArray.size_eq_zero_iff] using hempty
    rw [if_pos hempty, hpending, ByteArray.append_empty]
    exact ⟨rfl, hbehind⟩
  · next hempty =>
    obtain ⟨hcount, hpending, hafter⟩ := hbehind.send w.pending hok
    rw [if_neg hempty]
    refine ⟨?_, hafter.file, hafter.offset⟩
    simp only [hcount, hpending, ByteArray.extract_same]

/-- A text that the buffer has no room for goes straight to the file, once nothing is pending. -/
theorem Wrote.add (h : w.Wrote files bytes) {more : ByteArray}
    (hlarge : capacity ≤ more.size → w.pending = .empty)
    {after : Except FileFault Unit × Writer × Files}
    (hafter : after = if capacity ≤ more.size then
        ((w.send more files).1, (w.send more files).2.2.1, (w.send more files).2.2.2)
      else (.ok (), { w with pending := w.pending ++ more }, files))
    (hok : after.1 = .ok ()) : after.2.1.Wrote after.2.2 (bytes ++ more) := by
  obtain ⟨content, hbehind, rfl⟩ := h
  subst hafter
  split at hok
  · next hsize =>
    obtain ⟨-, hpending, hsent⟩ := hbehind.send more hok
    rw [if_pos hsize]
    refine ⟨content ++ more, hsent, ?_⟩
    simp only [hpending, hlarge hsize, ByteArray.append_empty]
  · next hsize =>
    rw [if_neg hsize]
    exact ⟨content, ⟨hbehind.file, hbehind.offset⟩, ByteArray.append_assoc.symm⟩

theorem Wrote.write (h : w.Wrote files bytes) (text : String)
    (hok : (w.write text files).1 = .ok ()) :
    (w.write text files).2.1.Wrote (w.write text files).2.2 (bytes ++ text.toUTF8) := by
  by_cases hfull : capacity < w.pending.size + text.toUTF8.size
  · cases hflush : (w.flush files).1 with
    | error fault =>
      simp only [Writer.write, if_pos hfull, hflush] at hok
      cases hok
    | ok _ =>
      obtain ⟨hpending, hbehind⟩ := h.flush hflush
      have hwrote : (w.flush files).2.1.Wrote (w.flush files).2.2 bytes :=
        ⟨bytes, hbehind, by rw [hpending, ByteArray.append_empty]⟩
      refine hwrote.add (fun _ => hpending) ?_ hok
      simp only [Writer.write, if_pos hfull, hflush]
  · refine h.add (fun hsize => ?_) ?_ hok
    · exact ByteArray.size_eq_zero_iff.mp (by omega)
    · simp only [Writer.write, if_neg hfull]

theorem Wrote.writeAll (h : w.Wrote files bytes) (texts : List String)
    (hok : (w.writeAll files texts).1 = .ok ()) :
    (w.writeAll files texts).2.1.Wrote (w.writeAll files texts).2.2
      (bytes ++ (String.join texts).toUTF8) := by
  induction texts generalizing w files bytes with
  | nil => simpa [Writer.writeAll] using h
  | cons text texts ih =>
    have hwrite := h.write text
    rw [Writer.writeAll] at hok ⊢
    generalize w.write text files = written at hwrite hok ⊢
    obtain ⟨fault | _, w', files'⟩ := written
    · cases hok
    · have hbytes : (String.join (text :: texts)).toUTF8 =
          text.toUTF8 ++ (String.join texts).toUTF8 := by
        rw [String.join_cons]
        exact String.toByteArray_append
      rw [hbytes, ← ByteArray.append_assoc]
      exact ih (hwrite rfl) hok

/-! ## Other files -/

/-- The writer goes on writing to its file, which remains what it is, and no other file has
changed. -/
structure Spares (w : Writer) (files : Files) (w' : Writer) (files' : Files) : Prop where
  file : w'.file = w.file
  others : ∀ id, id ≠ w.file → files'.file? id = files.file? id
  device : (files'.file? w.file).map (·.device) = (files.file? w.file).map (·.device)

theorem Spares.refl (w : Writer) (files : Files) : w.Spares files w files :=
  ⟨rfl, fun _ _ => rfl, rfl⟩

theorem Spares.trans {w' w'' : Writer} {files' files'' : Files} (h : w.Spares files w' files')
    (h' : w'.Spares files' w'' files'') : w.Spares files w'' files'' where
  file := h'.file.trans h.file
  others id hid := (h'.others id (h.file ▸ hid)).trans (h.others id hid)
  device := (h.file ▸ h'.device).trans h.device

theorem spares_send (w : Writer) (bytes : ByteArray) (files : Files) :
    w.Spares files (w.send bytes files).2.2.1 (w.send bytes files).2.2.2 := by
  have hfiles : ∀ id, id ≠ w.file →
      (files.writeAt w.file w.offset bytes).2.file? id = files.file? id := by
    intro id hid
    rw [Files.writeAt]
    split
    · rfl
    · exact Files.file?_update_of_ne _ hid _
  have hdevice : ((files.writeAt w.file w.offset bytes).2.file? w.file).map (·.device) =
      (files.file? w.file).map (·.device) := by
    rw [Files.writeAt]
    split
    · rfl
    · next f hf => rw [Files.file?_update_self hf, hf, Option.map_some, Option.map_some]
  simp only [send]
  split <;> exact ⟨rfl, hfiles, hdevice⟩

theorem spares_flush (w : Writer) (files : Files) :
    w.Spares files (w.flush files).2.1 (w.flush files).2.2 := by
  rw [flush]
  split
  · exact .refl w files
  · have h := w.spares_send w.pending files
    exact ⟨h.file, h.others, h.device⟩

/-- A text that does not fit is sent at once, and one that does is left pending. -/
theorem spares_add (w : Writer) (text : String) (files : Files) :
    let after := if capacity ≤ text.toUTF8.size then
        let (outcome, _, w, files) := w.send text.toUTF8 files
        (outcome, w, files)
      else (.ok (), { w with pending := w.pending ++ text.toUTF8 }, files)
    w.Spares files after.2.1 after.2.2 := by
  intro after
  have h := w.spares_send text.toUTF8 files
  simp only [after]
  split
  · exact ⟨h.file, h.others, h.device⟩
  · exact ⟨rfl, fun _ _ => rfl, rfl⟩

theorem spares_write (w : Writer) (text : String) (files : Files) :
    w.Spares files (w.write text files).2.1 (w.write text files).2.2 := by
  by_cases hfull : capacity < w.pending.size + text.toUTF8.size
  · have hflush := w.spares_flush files
    simp only [write, if_pos hfull]
    generalize w.flush files = flushed at hflush ⊢
    obtain ⟨fault | _, w', files'⟩ := flushed
    · exact hflush
    · exact hflush.trans (spares_add w' text files')
  · simp only [write, if_neg hfull]
    exact spares_add w text files

theorem spares_writeAll (w : Writer) (texts : List String) (files : Files) :
    w.Spares files (w.writeAll files texts).2.1 (w.writeAll files texts).2.2 := by
  induction texts generalizing w files with
  | nil => exact .refl w files
  | cons text texts ih =>
    have hwrite := w.spares_write text files
    rw [writeAll]
    generalize w.write text files = written at hwrite ⊢
    obtain ⟨fault | _, w', files'⟩ := written
    · exact hwrite
    · exact hwrite.trans (ih w' files')

end Writer

namespace Recorder

/-- Unless a write has failed, the recorder has written these bytes to a regular file. -/
def Wrote (r : Recorder) (files : Files) (bytes : ByteArray) : Prop :=
  r.failed = false → r.writer.Wrote files bytes

variable {r : Recorder} {host : Host} {bytes : ByteArray}

/-- Settling what a write left behind keeps its writer and its files. -/
theorem settle_eq (r : Recorder) (written : Except FileFault Unit × Writer × Files) (host : Host) :
    (r.settle written host).1.writer = written.2.1 ∧
      (r.settle written host).2.files = written.2.2 ∧
      ((r.settle written host).1.failed = false → written.1 = .ok ()) := by
  obtain ⟨fault | _, w, files⟩ := written
  · exact ⟨rfl, rfl, fun h => by cases h⟩
  · exact ⟨rfl, rfl, fun _ => rfl⟩

/-- Only the file itself matters. -/
theorem Wrote.of_file? {files files' : Files} (h : r.Wrote files bytes)
    (hsame : files'.file? r.writer.file = files.file? r.writer.file) : r.Wrote files' bytes := by
  intro hok
  obtain ⟨content, ⟨hfile, hoffset⟩, hbytes⟩ := h hok
  exact ⟨content, ⟨by rwa [hsame], hoffset⟩, hbytes⟩

theorem Wrote.writeParts (h : r.Wrote host.files bytes) (parts : List String) :
    (r.writeLine parts host).1.Wrote (r.writeLine parts host).2.files
      (bytes ++ (String.join parts ++ "\n").toUTF8) := by
  rw [Recorder.writeLine]
  split
  · next hfailed =>
    intro hok
    rw [hfailed] at hok
    cases hok
  · next hfailed =>
    obtain ⟨hwriter, hfiles, hsuccess⟩ :=
      settle_eq r (r.writer.writeAll host.files (parts ++ ["\n"])) host
    intro hok
    have hwrote := (h (by simpa using hfailed)).writeAll (parts ++ ["\n"]) (hsuccess hok)
    rw [String.join_append, String.join_cons, String.join_nil, String.append_empty] at hwrote
    simp only [hwriter, hfiles]
    exact hwrote

theorem Wrote.writeLine (h : r.Wrote host.files bytes) (line : String) :
    (r.writeLine [line] host).1.Wrote (r.writeLine [line] host).2.files
      (bytes ++ (line ++ "\n").toUTF8) := by
  have hline := h.writeParts [line]
  rwa [String.join_cons, String.join_nil, String.append_empty] at hline

/-- Handing everything over leaves nothing out. -/
theorem Wrote.handOver (h : r.Wrote host.files bytes) :
    (r.finish host).2.1.Wrote (r.finish host).2.2.files bytes := by
  rw [Recorder.finish]
  split
  · exact h
  · next hfailed =>
    obtain ⟨hwriter, hfiles, hsuccess⟩ := settle_eq r (r.writer.flush host.files) host
    intro hok
    obtain ⟨hpending, hbehind⟩ := (h (by simpa using hfailed)).flush (hsuccess hok)
    simp only [hwriter, hfiles]
    exact ⟨bytes, hbehind, by rw [hpending, ByteArray.append_empty]⟩

/-- Once all has been handed over, the bytes are what the file holds. -/
theorem Wrote.finish (h : r.Wrote host.files bytes) (hdone : (r.finish host).1 = true) :
    ∃ f, (r.finish host).2.2.files.file? r.writer.file = some f ∧ f.content = bytes := by
  rw [Recorder.finish] at hdone ⊢
  split at hdone
  · cases hdone
  · next hfailed =>
    obtain ⟨hwriter, hfiles, hsuccess⟩ := settle_eq r (r.writer.flush host.files) host
    have hflush := (h (by simpa using hfailed)).flush (hsuccess (by simpa using hdone))
    obtain ⟨f, hfile, -, hcontent⟩ := hflush.2.file
    rw [(r.writer.spares_flush host.files).file] at hfile
    rw [if_neg hfailed]
    simp only [hfiles]
    exact ⟨f, hfile, hcontent⟩

theorem spares_writeLine (r : Recorder) (parts : List String) (host : Host) :
    r.writer.Spares host.files (r.writeLine parts host).1.writer
      (r.writeLine parts host).2.files := by
  rw [writeLine]
  split
  · exact .refl _ _
  · obtain ⟨hwriter, hfiles, -⟩ :=
      settle_eq r (r.writer.writeAll host.files (parts ++ ["\n"])) host
    rw [hwriter, hfiles]
    exact r.writer.spares_writeAll _ _

theorem spares_finish (r : Recorder) (host : Host) :
    r.writer.Spares host.files (r.finish host).2.1.writer (r.finish host).2.2.files := by
  rw [finish]
  split
  · exact .refl _ _
  · obtain ⟨hwriter, hfiles, -⟩ := settle_eq r (r.writer.flush host.files) host
    simp only [hwriter, hfiles]
    exact r.writer.spares_flush _

end Recorder
end LayeredSets

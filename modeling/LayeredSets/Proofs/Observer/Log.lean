import LayeredSets.Proofs.Observer.Life
import LayeredSets.Proofs.Text.Json
import Mathlib

/-!
# Interaction logs are read back

A line of a log tells the number of an interaction, the call with all its arguments, and the reply
or the text of the error. All of this can be read back from it. So the file of a log, once it has
been brought there, holds the whole history of what the log has been told, one line for each
interaction.
-/

namespace LayeredSets

open Text (Json)

/-! ## Reading records -/

/-- The members of an object, by their names. -/
abbrev Members : Type := List (String × Json)

namespace Members

def number? (members : Members) (name : String) : Option Nat :=
  match members.lookup name with
  | some (.number n) => some n
  | _ => none

def string? (members : Members) (name : String) : Option String :=
  match members.lookup name with
  | some (.string text) => some text
  | _ => none

/-- A number of 32 bits. -/
def word? (members : Members) (name : String) : Option UInt32 :=
  ((members.number? name).filter (· < UInt32.size)).map UInt32.ofNat

def var? (members : Members) (name : String) : Option VarId := (members.word? name).map VarId.mk

def set? (members : Members) (name : String) : Option SetId := (members.word? name).map SetId.mk

end Members

/-- A number of 64 bits. -/
def Text.Json.value? : Json → Option UInt64
  | .number n => if n < UInt64.size then some (UInt64.ofNat n) else none
  | _ => none

/-- The call that the members tell. -/
def Request.read? (members : Members) : Option Request := do
  match ← members.string? "op" with
  | "declare" => return ⟨.declare (← members.string? "name") (← members.word? "bits")⟩
  | "top" => return ⟨.top⟩
  | "bottom" => return ⟨.bottom⟩
  | "var_eq_const" =>
    return ⟨.varEqConst (← members.var? "var") (← (← members.lookup "value").value?)⟩
  | "var_eq_var" => return ⟨.varEqVar (← members.var? "a") (← members.var? "b")⟩
  | "singleton" =>
    match ← members.lookup "point" with
    | .array items => return ⟨.singleton (← items.mapM Json.value?)⟩
    | _ => none
  | "union" => return ⟨.union (← members.set? "a") (← members.set? "b")⟩
  | "intersect" => return ⟨.intersect (← members.set? "a") (← members.set? "b")⟩
  | "difference" => return ⟨.difference (← members.set? "a") (← members.set? "b")⟩
  | "complement" => return ⟨.complement (← members.set? "a")⟩
  | "exists" => return ⟨.exists (← members.set? "set") (← members.var? "var")⟩
  | "is_empty" => return ⟨.isEmpty (← members.set? "set")⟩
  | "equal" => return ⟨.equal (← members.set? "a") (← members.set? "b")⟩
  | "subset" => return ⟨.subset (← members.set? "a") (← members.set? "b")⟩
  | "release" => return ⟨.release (← members.set? "set")⟩
  | _ => none

def Reply.read? : Json → Option Reply
  | .object [("var", n)] => Reply.var <$> Members.var? [("var", n)] "var"
  | .object [("set", n)] => Reply.set <$> Members.set? [("set", n)] "set"
  | .object [("bool", .bool answer)] => some (.bool answer)
  | .string "unit" => some .unit
  | _ => none

namespace Log

/-- What a line of a log tells. -/
structure Entry where
  seq : Nat
  request : Request
  /-- The reply, or the text of the error. -/
  outcome : Except String Reply

/-- The outcome that the members tell. -/
def Entry.outcome? (members : Members) : Option (Except String Reply) :=
  match members.lookup "reply", members.lookup "error" with
  | some reply, none => Except.ok <$> Reply.read? reply
  | none, some (.string text) => some (.error text)
  | _, _ => none

def Entry.read? (line : String) : Option Entry := do
  match ← Json.read? line with
  | .object members =>
    return ⟨← Members.number? members "seq", ← Request.read? members, ← outcome? members⟩
  | _ => none

end Log

/-! ## Records are read back -/

namespace Members

variable {members : Members} {name : String}

theorem word?_eq {w : UInt32} (h : members.lookup name = some (.number w.toNat)) :
    members.word? name = some w := by
  simp [word?, number?, h, Option.filter, w.toNat_lt_size]

theorem string?_eq {text : String} (h : members.lookup name = some (.string text)) :
    members.string? name = some text := by
  rw [string?, h]

theorem var?_eq {var : VarId} (h : members.lookup name = some (.number var.index.toNat)) :
    members.var? name = some var := by
  rw [var?, word?_eq h, Option.map_some]

theorem set?_eq {set : SetId} (h : members.lookup name = some (.number set.index.toNat)) :
    members.set? name = some set := by
  rw [set?, word?_eq h, Option.map_some]

end Members

theorem Text.Json.value?_number (w : UInt64) : value? (.number w.toNat) = some w := by
  rw [value?, if_pos w.toNat_lt_size, UInt64.ofNat_toNat]

theorem Text.Json.mapM_value? (point : List UInt64) :
    point.mapM (value? ∘ fun value => .number value.toNat) = some point := by
  induction point with
  | nil => rfl
  | cons value point ih => simp [value?_number, ih]

/-- A call is read where its operation and its arguments are found. -/
theorem Request.read?_eq {k : Answer} {call : Call k} {members : Members}
    (hop : members.lookup "op" = some (.string call.kind))
    (harguments : ∀ m ∈ call.jsonArguments, members.lookup m.1 = some m.2) :
    Request.read? members = some ⟨call⟩ := by
  rw [Request.read?, Members.string?_eq hop]
  cases call with
  | top | bottom => rfl
  | declare name bits =>
    simp only [Call.jsonArguments, List.forall_mem_cons] at harguments
    simp [Call.kind, Members.string?_eq harguments.1, Members.word?_eq harguments.2.1]
  | varEqConst var value =>
    simp only [Call.jsonArguments, List.forall_mem_cons] at harguments
    simp [Call.kind, Members.var?_eq harguments.1, harguments.2.1, Text.Json.value?_number]
  | varEqVar a b =>
    simp only [Call.jsonArguments, List.forall_mem_cons] at harguments
    simp [Call.kind, Members.var?_eq harguments.1, Members.var?_eq harguments.2.1]
  | singleton point =>
    simp only [Call.jsonArguments, List.forall_mem_cons] at harguments
    simp [Call.kind, harguments.1, Text.Json.mapM_value?]
  | union a b | intersect a b | difference a b | equal a b | subset a b =>
    simp only [Call.jsonArguments, List.forall_mem_cons] at harguments
    simp [Call.kind, Members.set?_eq harguments.1, Members.set?_eq harguments.2.1]
  | «exists» set var =>
    simp only [Call.jsonArguments, List.forall_mem_cons] at harguments
    simp [Call.kind, Members.set?_eq harguments.1, Members.var?_eq harguments.2.1]
  | complement a | isEmpty a | release a =>
    simp only [Call.jsonArguments, List.forall_mem_cons] at harguments
    simp [Call.kind, Members.set?_eq harguments.1]

theorem Reply.read?_json (reply : Reply) : Reply.read? reply.json = some reply := by
  cases reply with
  | var v =>
    have hv : Members.var? [("var", .number v.index.toNat)] "var" = some v := Members.var?_eq rfl
    simp [read?, json, hv]
  | set s =>
    have hs : Members.set? [("set", .number s.index.toNat)] "set" = some s := Members.set?_eq rfl
    simp [read?, json, hs]
  | bool | unit => rfl

namespace Log

/-- The members of a record have different names, so each is found. -/
theorem lookup_record (seq : Nat) {k : Answer} (call : Call k) (outcome : Outcome) :
    let members : Members := ("seq", .number seq) :: call.jsonMembers ++ [outcomeMember outcome]
    members.lookup "seq" = some (.number seq) ∧ members.lookup "op" = some (.string call.kind) ∧
      (∀ m ∈ call.jsonArguments, members.lookup m.1 = some m.2) ∧
      Entry.outcome? members = some (outcome.mapError DomainError.message) := by
  intro members
  refine ⟨rfl, rfl, ?_, ?_⟩
  · cases call <;> simp [members, Call.jsonMembers, Call.jsonArguments, List.lookup]
  · have hlookup (name : String) (hname : call.jsonMembers.lookup name = none)
        (hseq : (name == "seq") = false) :
        members.lookup name = [outcomeMember outcome].lookup name := by
      simp [members, List.lookup_cons, List.lookup_append, hseq, hname]
    rw [Entry.outcome?, hlookup "reply" (by cases call <;> rfl) rfl,
      hlookup "error" (by cases call <;> rfl) rfl]
    cases outcome with
    | ok reply => simp [outcomeMember, List.lookup, Reply.read?_json, Except.mapError]
    | error e => rfl

/-- Everything that a record tells is read back from its text. -/
theorem read?_record (seq : Nat) {k : Answer} (call : Call k) (outcome : Outcome) :
    Entry.read? (record seq call outcome).text =
      some ⟨seq, ⟨call⟩, outcome.mapError DomainError.message⟩ := by
  obtain ⟨hseq, hop, harguments, houtcome⟩ := lookup_record seq call outcome
  have hnumber : Members.number? (("seq", .number seq) :: call.jsonMembers ++
      [outcomeMember outcome]) "seq" = some seq := by
    rw [Members.number?, hseq]
  rw [Entry.read?, Text.Json.read?_text]
  simp only [record, Option.bind_eq_bind, Option.bind_some, hnumber, houtcome,
    Request.read?_eq hop harguments]
  rfl

/-- Records with the same text tell the same. -/
theorem record_injective {seq seq' : Nat} {request request' : Request} {outcome outcome' : Outcome}
    (h : (record seq request.call outcome).text = (record seq' request'.call outcome').text) :
    seq = seq' ∧ request = request' ∧
      outcome.mapError DomainError.message = outcome'.mapError DomainError.message := by
  have hread := read?_record seq request.call outcome
  rw [h, read?_record] at hread
  obtain ⟨hseq, hrequest, houtcome⟩ := Entry.mk.inj (Option.some.inj hread)
  exact ⟨hseq.symm, hrequest.symm, houtcome.symm⟩

theorem not_mem_record (seq : Nat) {k : Answer} (call : Call k) (outcome : Outcome) :
    '\n' ∉ (record seq call outcome).text.toList := fun h =>
  absurd (Text.Json.visible_text _ _ h) (by decide)

end Log

/-! ## The file of a log -/

namespace Observer

/-- What is told at this moment, if anything is. -/
def Moment.told? (m : Moment) : Option (Request × Outcome) :=
  match m.occasion with
  | .told request outcome => some (request, outcome)
  | .finish => none

/-- Nobody else changes the file, which is found as it has been left. -/
inductive Undisturbed (id : FileId) : Files → List Moment → Prop
  | nil (files : Files) : Undisturbed id files []
  | cons {files : Files} {m : Moment} {rest : List Moment}
    (hm : m.host.files.file? id = files.file? id) (hrest : Undisturbed id m.after.2.files rest) :
    Undisturbed id files (m :: rest)

theorem Undisturbed.of_cons {id : FileId} {files : Files} {m : Moment} {rest : List Moment}
    (h : Undisturbed id files (m :: rest)) :
    m.host.files.file? id = files.file? id ∧ Undisturbed id m.after.2.files rest := by
  cases h with
  | cons hm hrest => exact ⟨hm, hrest⟩

end Observer

namespace Log

open Observer (Moment Undisturbed)
open Recording (text text_snoc)

/-- The records of interactions, numbered on from `seq`. -/
def records (seq : Nat) : List (Request × Outcome) → List String
  | [] => []
  | (request, outcome) :: told =>
    (record (seq + 1) request.call outcome).text :: records (seq + 1) told

theorem records_append (seq : Nat) (told more : List (Request × Outcome)) :
    records seq (told ++ more) = records seq told ++ records (seq + told.length) more := by
  induction told generalizing seq with
  | nil => rfl
  | cons _ told ih =>
    rw [List.cons_append, records, records, List.cons_append, ih, List.length_cons, Nat.add_assoc,
      Nat.add_comm 1]

theorem length_records (seq : Nat) (told : List (Request × Outcome)) :
    (records seq told).length = told.length := by
  induction told generalizing seq with
  | nil => rfl
  | cons _ told ih => rw [records, List.length_cons, ih, List.length_cons]

theorem mem_records {seq : Nat} {told : List (Request × Outcome)} {line : String}
    (h : line ∈ records seq told) :
    ∃ n request outcome, line = (record n (Request.call request) outcome).text := by
  induction told generalizing seq with
  | nil => cases h
  | cons interaction told ih =>
    rcases List.mem_cons.mp h with rfl | h
    · exact ⟨_, _, _, rfl⟩
    · exact ih h

theorem getElem?_records (seq : Nat) (told : List (Request × Outcome)) (i : Nat) :
    (records seq told)[i]? = told[i]?.map fun interaction =>
      (record (seq + i + 1) interaction.1.call interaction.2).text := by
  induction told generalizing seq i with
  | nil => rfl
  | cons interaction told ih =>
    cases i with
    | zero => rfl
    | succ i =>
      rw [records, List.getElem?_cons_succ, List.getElem?_cons_succ, ih]
      simp only [Nat.add_assoc, Nat.add_comm 1 i]

/-- A log that has just been made has written nothing. -/
theorem wrote_create {path : String} {host host' : Host} {l : Log}
    (h : create path host = (.ok l, host'))
    (hregular : (host'.files.file? l.recorder.writer.file).map (·.device) = some false) :
    l.seq = 0 ∧ l.recorder.Wrote host'.files (text []).toUTF8 := by
  rw [create] at h
  generalize hcreate : Recorder.create "log" path host = created at h
  obtain ⟨message | r, after⟩ := created
  · cases (Prod.mk.inj h).1
  · obtain ⟨hl, rfl⟩ := Prod.mk.inj h
    obtain rfl := Except.ok.inj hl
    exact ⟨rfl, Recording.wrote_created hcreate hregular⟩

/-- A log that works writes a record when it is told something, and else nothing. -/
theorem wrote_after {m : Moment} {l : Log} {lines : List String} (hm : m.observer = .log l)
    (halive : l.recorder.failed = false)
    (hwrote : l.recorder.Wrote m.host.files (text lines).toUTF8) :
    ∃ l', m.after.1 = .log l' ∧ l'.recorder.writer.file = l.recorder.writer.file ∧
      l'.seq = l.seq + m.told?.toList.length ∧
      l'.recorder.Wrote m.after.2.files (text (lines ++ records l.seq m.told?.toList)).toUTF8 := by
  obtain ⟨o, occasion, host⟩ := m
  subst hm
  cases occasion with
  | finish =>
    refine ⟨⟨(l.recorder.finish host).2.1, l.seq⟩, rfl, (l.recorder.spares_finish host).file, rfl,
      ?_⟩
    have hsame : lines ++ records l.seq [] = lines := List.append_nil lines
    rw [Moment.told?, Option.toList_none, hsame]
    exact hwrote.handOver
  | told request outcome =>
    let j := record (l.seq + 1) request.call outcome
    let written := l.recorder.writeLine j.parts host
    have hafter : Moment.after ⟨.log l, .told request outcome, host⟩ =
        (.log ⟨written.1, l.seq + 1⟩, written.2) := by
      simp only [Moment.after, Observer.observe, Log.observe, halive, Bool.false_eq_true, if_false]
      rfl
    rw [hafter]
    refine ⟨_, rfl, (l.recorder.spares_writeLine j.parts host).file, rfl, ?_⟩
    have hline := hwrote.writeParts j.parts
    rwa [← Text.Json.text, ← text_snoc] at hline

/-- Once a log has brought everything to its file, the file holds a record for whatever the log has
been told. By induction on the moments. -/
theorem content_finish {before : List Moment} {m : Moment} {l : Log} {files : Files}
    {lines : List String} (hlives : (Observer.log l).Lives (before ++ [m]))
    (hundisturbed : Undisturbed l.recorder.writer.file files (before ++ [m]))
    (hwrote : l.recorder.Wrote files (text lines).toUTF8) (hdone : m.answer? = some true) :
    ∃ f, m.after.2.files.file? l.recorder.writer.file = some f ∧
      f.content = (text (lines ++ records l.seq (before.filterMap Moment.told?))).toUTF8 := by
  induction before generalizing l files lines with
  | nil =>
    obtain ⟨hm, -⟩ := hlives.of_cons
    obtain ⟨hfile, -⟩ := hundisturbed.of_cons
    obtain ⟨o, occasion, host⟩ := m
    subst hm
    cases occasion with
    | told request outcome => cases hdone
    | finish =>
      obtain ⟨f, hf, hcontent⟩ := (hwrote.of_file? hfile).finish (Option.some.inj hdone)
      exact ⟨f, hf, hcontent.trans (by simp [records])⟩
  | cons first before ih =>
    obtain ⟨hfirst, hrest⟩ := hlives.of_cons
    obtain ⟨hfile, hundisturbed⟩ := hundisturbed.of_cons
    have halive : l.recorder.failed = false := by
      by_contra hfailed
      have hidle := hlives.idle rfl (by simpa using hfailed) m (by simp)
      exact hidle.2.answer hdone
    obtain ⟨l', hl', hsame, hseq, hline⟩ := wrote_after hfirst halive (hwrote.of_file? hfile)
    obtain ⟨f, hf, hcontent⟩ := ih (hl' ▸ hrest) (hsame ▸ hundisturbed) hline
    refine ⟨f, hsame ▸ hf, hcontent.trans ?_⟩
    have htold : (first :: before).filterMap Moment.told? =
        first.told?.toList ++ before.filterMap Moment.told? := by
      cases h : first.told? <;> simp [h]
    rw [hseq, List.append_assoc, ← records_append, ← htold]

/-- The file of a log decodes to the history of the log. If no write fails until everything has been
brought to the file, then there is one line for each interaction, and the `i`-th of them tells the
number `i`, the call and the reply or the text of the error. -/
theorem finish_writes_entries {path : String} {host₀ host₁ : Host} {l : Log}
    (hcreate : create path host₀ = (.ok l, host₁))
    (hregular : (host₁.files.file? l.recorder.writer.file).map (·.device) = some false)
    {before : List Moment} {m : Moment} (hlives : (Observer.log l).Lives (before ++ [m]))
    (hundisturbed : Undisturbed l.recorder.writer.file host₁.files (before ++ [m]))
    (hfinish : m.occasion = .finish) :
    let told := before.filterMap Moment.told?
    (m.answer? = some true ↔ ∀ m' ∈ before ++ [m], m'.fault? = none) ∧
      (m.answer? = some true →
        ∃ f lines, m.after.2.files.file? l.recorder.writer.file = some f ∧
          f.content = (text lines).toUTF8 ∧ (∀ line ∈ lines, '\n' ∉ line.toList) ∧
          lines.length = told.length ∧
          ∀ (i : Nat) (line : String) (request : Request) (outcome : Outcome),
            lines[i]? = some line → told[i]? = some (request, outcome) →
              Entry.read? line = some ⟨i + 1, request, outcome.mapError DomainError.message⟩) ∧
      ∀ (seq seq' : Nat) (request request' : Request) (outcome outcome' : Outcome),
        (record seq request.call outcome).text = (record seq' request'.call outcome').text →
          seq = seq' ∧ request = request' ∧
            outcome.mapError DomainError.message = outcome'.mapError DomainError.message := by
  intro told
  obtain ⟨_, _, _, -, -, hrecorder, -, -⟩ := (Observer.Opens.log hcreate).exists_created
  obtain ⟨hseq, hwrote⟩ := wrote_create hcreate hregular
  refine ⟨hlives.finished_iff hrecorder rfl hfinish, fun hdone => ?_,
    fun _ _ _ _ _ _ h => record_injective h⟩
  obtain ⟨f, hf, hcontent⟩ := content_finish hlives hundisturbed hwrote hdone
  rw [hseq, List.nil_append] at hcontent
  refine ⟨f, records 0 told, hf, hcontent, fun line hline => ?_, length_records 0 told, ?_⟩
  · obtain ⟨seq, request, outcome, rfl⟩ := mem_records hline
    exact not_mem_record seq request.call outcome
  · intro i line request outcome hline htold
    rw [getElem?_records, htold, Option.map_some, Nat.zero_add] at hline
    rw [← Option.some.inj hline]
    exact read?_record (i + 1) request.call outcome

/-- A declaration and a failed query, both with line breaks and quotes in what they tell. -/
theorem finish_writes_entries_sample :
    let name := "a\n\"b\""
    let error : DomainError := .backend "no\nidea"
    let files : Files := ⟨⟨[(⟨false, []⟩, .directory), (⟨false, ["f"]⟩, .file ⟨0⟩)]⟩,
      #[⟨.empty, false, none, false⟩]⟩
    let host : Host := { Host.initial with files }
    let log : Log := ⟨⟨"log", "f", .new ⟨0⟩, false⟩, 0⟩
    let first : Moment := ⟨.log log, .told ⟨.declare name 3⟩ (.ok (.var ⟨0⟩)), host⟩
    let second : Moment := ⟨first.after.1, .told ⟨.isEmpty ⟨7⟩⟩ (.error error), first.after.2⟩
    let last : Moment := ⟨second.after.1, .finish, second.after.2⟩
    create "f" host = (.ok log, host) ∧ last.answer? = some true ∧
      ∃ lines f, last.after.2.files.file? ⟨0⟩ = some f ∧ f.content = (text lines).toUTF8 ∧
        lines.map Entry.read? = [some ⟨1, ⟨.declare name 3⟩, .ok (.var ⟨0⟩)⟩,
          some ⟨2, ⟨.isEmpty ⟨7⟩⟩, .error error.message⟩] := by
  intro name error files host log first second last
  have hfiles : files.create "f" = .ok (⟨0⟩, files) := by cbv
  have hcreate : create "f" host = (.ok log, host) := by
    rw [create, Recorder.create, show host.files = files from rfl, hfiles]
    rfl
  have hlives : (Observer.log log).Lives ([first, second] ++ [last]) :=
    .cons rfl (.cons rfl (.cons rfl (.nil _)))
  obtain ⟨hcomplete, hdecodes, -⟩ :=
    finish_writes_entries hcreate (by decide +kernel) hlives
      (.cons rfl (.cons rfl (.cons rfl (.nil _)))) rfl
  have hdone : last.answer? = some true := hcomplete.mpr (by decide +kernel)
  obtain ⟨f, lines, hf, hcontent, -, hlength, hlines⟩ := hdecodes hdone
  refine ⟨hcreate, hdone, lines, f, hf, hcontent, ?_⟩
  obtain ⟨a, b, rfl⟩ := List.length_eq_two.mp hlength
  simp only [List.map_cons, List.map_nil]
  rw [hlines 0 a _ _ rfl rfl, hlines 1 b _ _ rfl rfl]
  rfl

end Log

end LayeredSets

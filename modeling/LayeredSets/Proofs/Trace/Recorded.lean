import LayeredSets.Proofs.Observer.Recording
import LayeredSets.Proofs.Trace.Line
import LayeredSets.Proofs.Chain.Transparent
import LayeredSets.Proofs.Trace.Replay
import Mathlib

/-!
# Recordings can be replayed

A line that is recorded of a successful call is a trace of one step, and a whole recording is a
trace of the calls that succeeded. The line of a failed call is a comment as far as the text of its
error stays on one line: the text is not escaped, so what it has after a line break is read as lines
of their own.

What a chain over an explicit domain records is a trace, and a fresh explicit domain replays it to
its end with the recorded answers. By induction on the calls: each line is a step that the replay
takes beside the recorded call, or a comment.
-/

namespace LayeredSets

open Trace (Reads)

namespace Recording

/-- What was recorded of a successful call is read back: a step with the handles and arguments of
the call and its reply, in their order, and with the answer of a query if it is to be checked. -/
theorem parse_recorded_line {k : Answer} (call : Call k) (value : k.Value) (checkMode : Bool)
    (hnamed : call.Named) (hwide : call.Wide) :
    Trace.parse (line checkMode call (.ok (k.reply value))).toList =
      .ok [⟨1, (stepOp call value).inMode checkMode⟩] :=
  ((reads_step value hnamed hwide checkMode).stepsAt 1).parse

theorem parse_recorded_line_sample :
    let declare : Call .var := .declare "x" 2
    let empty : Call .bool := .isEmpty ⟨3⟩
    Trace.parse (line false declare (.ok (.var ⟨7⟩))).toList = .ok [⟨1, .declare "v7" "x" 2⟩] ∧
      Trace.parse (line true empty (.ok (.bool false))).toList =
        .ok [⟨1, .query (.empty "s3") (some false)⟩] ∧
      Trace.parse (line false empty (.ok (.bool false))).toList =
        .ok [⟨1, .query (.empty "s3") none⟩] :=
  ⟨@parse_recorded_line .var (.declare "x" 2) ⟨7⟩ false (show isName "x" = true by decide)
      (show 0 < UInt32.toNat 2 by decide),
    @parse_recorded_line .bool (.isEmpty ⟨3⟩) false true trivial trivial,
    @parse_recorded_line .bool (.isEmpty ⟨3⟩) false false trivial trivial⟩

end Recording

/-! ## Whole recordings -/

/-- A call and what came of it. -/
structure Interaction where
  {kind : Answer}
  call : Call kind
  outcome : Except DomainError kind.Value

namespace Interaction

def line (checkMode : Bool) (i : Interaction) : String :=
  Recording.line checkMode i.call (i.outcome.map i.kind.reply)

/-- The step that stands for the call, if it succeeded. -/
def step? (checkMode : Bool) (i : Interaction) : Option Trace.Op :=
  match i.outcome with
  | .ok value => some ((Recording.stepOp i.call value).inMode checkMode)
  | .error _ => none

/-- The call can be recorded: its name is one, and a width that was accepted is positive. -/
structure Recordable (i : Interaction) : Prop where
  named : i.call.Named
  wide : ∀ value, i.outcome = .ok value → i.call.Wide

/-- The text of an error does not go on on another line. -/
def OnLine (i : Interaction) : Prop := ∀ e, i.outcome = .error e → Recording.OnLine e.message

theorem Recordable.reads {i : Interaction} (h : i.Recordable) (honLine : i.OnLine) (checkMode : Bool) :
    Reads (i.line checkMode).toList (i.step? checkMode) := by
  obtain ⟨call, outcome⟩ := i
  cases outcome with
  | ok value => exact Recording.reads_step value h.named (h.wide value rfl) checkMode
  | error e => exact Recording.reads_error h.named (honLine e rfl) checkMode

end Interaction

theorem Trace.map_op_stepsFrom (n : Nat) (ops : List (Option Op)) :
    (stepsFrom n ops).map (·.op) = ops.filterMap id := by
  induction ops generalizing n with
  | nil => rfl
  | cons o ops ih => cases o <;> simp [stepsFrom, ih]

namespace Recording

/-- The text of a recording of these interactions. -/
def transcript (checkMode : Bool) (interactions : List Interaction) : String :=
  text (header checkMode ++ interactions.map (·.line checkMode))

/-- The text of lines that can be read is parsed as their steps. -/
theorem parse_text {lines : List String} {ops : List (Option Trace.Op)}
    (h : List.Forall₂ Reads (lines.map String.toList) ops) :
    Trace.parse (text lines).toList = .ok (Trace.stepsFrom 1 ops) := by
  rw [toList_text]
  exact Trace.parse_textOf h

/-- A recording is a trace of the calls that succeeded, in their order, each on the line that was
recorded of it, provided that the texts of errors stay on their lines. -/
theorem parse_transcript (checkMode : Bool) (interactions : List Interaction)
    (h : ∀ i ∈ interactions, i.Recordable) (honLine : ∀ i ∈ interactions, i.OnLine) :
    ∃ trace, Trace.parse (transcript checkMode interactions).toList = .ok trace ∧
      trace = Trace.stepsFrom ((header checkMode).length + 1)
        (interactions.map (·.step? checkMode)) ∧
      trace.map (·.op) = interactions.filterMap (·.step? checkMode) := by
  have hlines : List.Forall₂ Reads ((interactions.map (·.line checkMode)).map String.toList)
      (interactions.map (·.step? checkMode)) := by
    simp only [List.forall₂_map_left_iff, List.forall₂_map_right_iff, List.forall₂_same]
    exact fun i hi => (h i hi).reads (honLine i hi) checkMode
  have hparse := parse_text (reads_header_append checkMode hlines)
  rw [Trace.stepsFrom_append, Trace.stepsFrom_replicate_none, List.length_replicate,
    List.nil_append, Nat.add_comm] at hparse
  refine ⟨_, hparse, rfl, ?_⟩
  rw [Trace.map_op_stepsFrom, List.filterMap_map]
  rfl

/-- A failure among calls that succeed. -/
theorem parse_transcript_sample :
    let interactions : List Interaction :=
      [⟨.top, .ok ⟨1⟩⟩, ⟨.equal ⟨1⟩ ⟨2⟩, .error (.backend "gave no verdict: # release s1")⟩,
        ⟨.isEmpty ⟨1⟩, .ok false⟩]
    Trace.parse (transcript true interactions).toList =
      .ok [⟨3, .define "s1" .top⟩, ⟨5, .query (.empty "s1") (some false)⟩] := by
  intro interactions
  have honLine : OnLine (DomainError.backend "gave no verdict: # release s1").message := by decide
  obtain ⟨trace, hparse, rfl, -⟩ := parse_transcript true interactions
    (by simp only [interactions, List.forall_mem_cons]
        exact ⟨⟨trivial, fun _ _ => trivial⟩, ⟨trivial, fun _ _ => trivial⟩,
          ⟨trivial, fun _ _ => trivial⟩, nofun⟩)
    (by simp only [interactions, List.forall_mem_cons]
        exact ⟨nofun, fun e he => Except.error.inj he ▸ honLine, nofun, nofun⟩)
  exact hparse

/-- A message with a line break is not inert: what stands after it is read as a step, although no
call has succeeded. -/
theorem not_inert_of_break :
    ¬ ∀ (checkMode : Bool) (interactions : List Interaction), (∀ i ∈ interactions, i.Recordable) →
      ∃ trace, Trace.parse (transcript checkMode interactions).toList = .ok trace ∧
        trace.map (·.op) = interactions.filterMap (·.step? checkMode) := by
  intro hinert
  let failed : Interaction := ⟨.isEmpty ⟨1⟩, .error (.backend "boom\nrelease s1")⟩
  obtain ⟨trace, hparse, hsteps⟩ := hinert false [failed]
    (List.forall_mem_singleton.mpr ⟨trivial, fun _ _ => trivial⟩)
  have htext : transcript false [failed] =
      text (header false ++ ["# failed: is_empty(s1): boom", "release s1"]) := by decide +kernel
  have hrelease : Reads "release s1".toList (some (.release "s1")) :=
    @reads_step .unit (.release ⟨1⟩) () trivial trivial false
  have hlines : List.Forall₂ Reads
      (["# failed: is_empty(s1): boom", "release s1"].map String.toList)
      [none, some (.release "s1")] := .cons (.comment (by decide)) (.cons hrelease .nil)
  have hread := parse_text (reads_header_append false hlines)
  rw [htext] at hparse
  obtain rfl := Except.ok.inj (hparse.symm.trans hread)
  cases hsteps

end Recording

/-! ## Replaying -/

namespace Explicit

theorem Follows.plain {d d' : Explicit} {k : Answer} {call : Call k} {e : DomainError}
    (h : d.Follows call (.error e) d') : e.Plain :=
  d.failsPlainly_apply call e (follows_error_iff.mp h).1

end Explicit

namespace Trace

/-- Replay one line: its step, if it has one. -/
def replayLine (line : Nat) : Option Op → Run Explicit Unit
  | none => pure ()
  | some o => execute Explicit.operations line o

/-- Replay the steps of a trace. -/
def replay (trace : Trace) : Run Explicit Unit :=
  trace.forM fun step => execute Explicit.operations step.line step.op

theorem replay_cons (n : Nat) (o : Option Op) (ops : List (Option Op)) :
    replay (stepsFrom n (o :: ops)) = replayLine n o >>= fun _ => replay (stepsFrom (n + 1) ops) := by
  cases o <;> rfl

theorem length_stepsFrom (n : Nat) (ops : List (Option Op)) :
    (stepsFrom n ops).length = ops.countP Option.isSome := by
  induction ops generalizing n with
  | nil => rfl
  | cons o ops ih =>
    cases o with
    | none => exact ih (n + 1)
    | some o => simp [stepsFrom, ih]

/-- The line `text` of a call that took the recorded chain from `d` to `d'`, with this outcome, is
read, and what is read is replayed beside the call. -/
structure Records (text : String) (outcome : Outcome) (d d' : Explicit) (o : Option Op) : Prop where
  reads : Reads text.toList o
  isSome : o.isSome = succeeded outcome
  replays : ∀ (line : Nat) (issued : List SetId) (st : State Explicit) (host : Host),
    Replays issued d st → ∃ st' host', replayLine line o st host = (.ok (), st', host') ∧
      Replays (issued ++ issuedSets [outcome]) d' st' ∧
        st'.checked = st.checked + [outcome].countP answered

theorem exists_records {d d' : Explicit} {k : Answer} {call : Call k}
    {outcome : Except DomainError k.Value} (h : d.Follows call outcome d') (hnamed : call.Named) :
    ∃ o, Records (Recording.line true call (outcome.map k.reply)) (outcome.map k.reply) d d' o := by
  cases outcome with
  | error e =>
    refine ⟨none, Recording.reads_error hnamed (Recording.onLine_message h.plain) true, rfl,
      fun line issued st host hst => ?_⟩
    refine ⟨st, host, rfl, ?_, rfl⟩
    simpa [issuedSets, Except.map] using hst.similar h.similar_of_error
  | ok value =>
    exact ⟨_, Recording.reads_ok value hnamed h.known.wide, rfl,
      fun line issued st host hst => hst.execute_ok h line host⟩

/-! ## Runs -/

section

variable {σ : Type} {ops : Operations σ} {bottom : σ → Bottom} {Good : σ → Prop}

/-- One call on a chain, and its line. -/
theorem records_respond (h : Rests ops bottom Good) (request : Request)
    (hnamed : request.call.Named) {s : σ} (hs : Good s) (host : Host)
    (hroom : ¬ (bottom (ops.respond request s host).2.1).Spent) :
    let first := ops.respond request s host
    Good first.2.1 ∧ ∃ o, Records (Recording.line true request.call first.1) first.1
      (bottom s).inner (bottom first.2.1).inner o := by
  intro first
  obtain ⟨hgood, hfollows⟩ := h.step request.call hs host hroom
  exact ⟨hgood, exists_records hfollows hnamed⟩

/-- The recording of a run is read line by line, and replaying it goes through. -/
theorem exists_replay (h : Rests ops bottom Good) (requests : List Request)
    (hnamed : ∀ request ∈ requests, request.call.Named) {s : σ} (hs : Good s) (host : Host)
    (hroom : ¬ (bottom (ops.run requests s host).2.1).Spent) :
    let whole := ops.run requests s host
    ∃ steps, List.Forall₂ Reads ((Recording.lines true requests whole.1).map String.toList) steps ∧
      steps.countP Option.isSome = whole.1.countP succeeded ∧
      ∀ (n : Nat) (issued : List SetId) (st : State Explicit) (host' : Host),
        Replays issued (bottom s).inner st →
          ∃ st' host'', replay (stepsFrom n steps) st host' = (.ok (), st', host'') ∧
            st'.checked = st.checked + whole.1.countP answered := by
  induction requests generalizing s host with
  | nil =>
    intro whole
    exact ⟨[], .nil, rfl, fun n issued st host' _ => ⟨st, host', rfl, rfl⟩⟩
  | cons request requests ih =>
    intro whole
    let first := ops.respond request s host
    have hkeeps := Operations.run_keeps h.keeps requests first.2.1 first.2.2
    obtain ⟨hrequest, hrequests⟩ := List.forall_mem_cons.mp hnamed
    obtain ⟨hgood, o, ho⟩ := records_respond h request hrequest hs host
      fun hspent => hroom (hkeeps hspent)
    obtain ⟨steps, hreads, hcount, hreplay⟩ := ih hrequests hgood first.2.2 hroom
    have hwhole : whole.1 = first.1 :: (ops.run requests first.2.1 first.2.2).1 := rfl
    refine ⟨o :: steps, .cons ho.reads hreads, ?_, ?_⟩
    · rw [hwhole, List.countP_cons, List.countP_cons, hcount, ho.isSome]
    · intro n issued st host' hst
      obtain ⟨st₁, host₁, hline, hst₁, hchecked₁⟩ := ho.replays n issued st host' hst
      obtain ⟨st₂, host₂, hrest, hchecked₂⟩ := hreplay (n + 1) _ st₁ host₁ hst₁
      refine ⟨st₂, host₂, ?_, ?_⟩
      · rw [replay_cons]
        exact (Action.bind_apply_ok hline).trans hrest
      · rw [hchecked₂, hchecked₁, Nat.add_assoc, ← List.countP_append]
        rfl

/-- If one answer is changed, the recording is still read line by line, and its replay ends at the
line of this answer. -/
theorem exists_replay_flipped (h : Rests ops bottom Good) (requests : List Request)
    (hnamed : ∀ request ∈ requests, request.call.Named) {s : σ} (hs : Good s) (host : Host)
    (hroom : ¬ (bottom (ops.run requests s host).2.1).Spent) {i : Nat} {answer : Bool}
    (hi : (ops.run requests s host).1[i]? = some (.ok (.bool answer))) :
    let lines := Recording.lines true requests (ops.run requests s host).1
    ∃ query, lines[i]? = some (query ++ " -> " ++ toString answer) ∧
      ∃ steps, List.Forall₂ Reads
          ((lines.set i (query ++ " -> " ++ toString (!answer))).map String.toList) steps ∧
        ∀ (n : Nat) (issued : List SetId) (st : State Explicit) (host' : Host),
          Replays issued (bottom s).inner st →
            (replay (stepsFrom n steps) st host').1 =
              .error (.checkFailed (!answer) answer (n + i)) := by
  induction requests generalizing s host i with
  | nil => simp [Operations.run] at hi
  | cons request requests ih =>
    intro lines
    let first := ops.respond request s host
    have hkeeps := Operations.run_keeps h.keeps requests first.2.1 first.2.2
    obtain ⟨hrequest, hrequests⟩ := List.forall_mem_cons.mp hnamed
    have hmid : ¬ (bottom first.2.1).Spent := fun hspent => hroom (hkeeps hspent)
    cases i with
    | zero =>
      obtain @⟨k, call⟩ := request
      obtain ⟨hgood, hfollows⟩ := h.step call hs host hmid
      have houtcome : (ops.step call s host).1.map k.reply = .ok (.bool answer) :=
        Option.some.inj hi
      cases htyped : (ops.step call s host).1 with
      | error e => simp [htyped, Except.map] at houtcome
      | ok value =>
        rw [htyped] at houtcome hfollows
        cases k with
        | bool =>
          obtain rfl : value = answer := by simpa [Except.map, Answer.reply] using houtcome
          obtain ⟨query, hquery⟩ := Recording.line_query call
          obtain ⟨steps, hreads, -⟩ := exists_replay h requests hrequests hgood first.2.2 hroom
          refine ⟨query, ?_, some (Recording.stepOp call (!value)) :: steps, ?_, ?_⟩
          · rw [← hquery, ← Option.some.inj hi]
            rfl
          · have hwide : call.Wide := by cases call <;> trivial
            rw [← hquery]
            exact .cons (@Recording.reads_ok .bool call (!value) hrequest hwide) hreads
          · intro n issued st host' hst
            have hfails := hst.execute_flipped hfollows n host'
            rw [replay_cons]
            exact Action.bind_apply_fst_error hfails
        | var | set | unit => simp [Except.map, Answer.reply] at houtcome
    | succ i =>
      obtain ⟨hgood, o, ho⟩ := records_respond h request hrequest hs host hmid
      obtain ⟨query, hquery, steps, hreads, hreplay⟩ := ih hrequests hgood first.2.2 hroom hi
      refine ⟨query, hquery, o :: steps, .cons ho.reads hreads, ?_⟩
      intro n issued st host' hst
      obtain ⟨st₁, host₁, hline, hst₁, -⟩ := ho.replays n issued st host' hst
      have hrest := hreplay (n + 1) _ st₁ host₁ hst₁
      rw [replay_cons, Action.bind_apply_ok hline, hrest, Nat.add_right_comm, Nat.add_assoc]

end

/-- A line that can be read has no line break in it. -/
theorem Reads.onLine {line : List Char} {o : Option Op} (h : Reads line o) : '\n' ∉ line := by
  cases h with
  | comment hbody => simpa using hbody
  | op hline => exact hline.break_notMem

theorem onLine_of_reads {lines : List String} {steps : List (Option Op)}
    (h : List.Forall₂ Reads (lines.map String.toList) steps) :
    ∀ line ∈ lines, '\n' ∉ line.toList := by
  induction lines generalizing steps with
  | nil => simp
  | cons line lines ih =>
    rw [List.map_cons] at h
    cases h with
    | cons hline hlines => exact List.forall_mem_cons.mpr ⟨hline.onLine, ih hlines⟩

/-- A header and lines that can be read are lines, and their text is parsed as the steps. -/
theorem parse_text {lines : List String} {steps : List (Option Op)}
    (h : List.Forall₂ Reads (lines.map String.toList) steps) :
    (∀ line ∈ Recording.header true ++ lines, '\n' ∉ line.toList) ∧
      parse (Recording.text (Recording.header true ++ lines)).toList = .ok (stepsFrom 3 steps) := by
  have hreads := Recording.reads_header_append true h
  exact ⟨onLine_of_reads hreads, Recording.parse_text hreads⟩

theorem elsewhere_stack (limit : UInt32) {layers : List Layer} {id : FileId}
    (h : ∀ o, Layer.observer o ∈ layers → o.Elsewhere id) :
    (Domain.stack limit layers).shape.Elsewhere id (Domain.stack limit layers).state := by
  induction layers with
  | nil => trivial
  | cons layer below ih =>
    have hbelow := ih fun o ho => h o (List.mem_cons_of_mem layer ho)
    cases layer with
    | observer o => exact ⟨h o List.mem_cons_self, hbelow⟩
    | equalities | points => exact hbelow

/-- A recording that has been closed without failure holds its lines. -/
theorem content_finish {r : Recording} {host : Host} {lines : List String}
    (h : r.Wrote host.files lines) (hdone : ((Observer.trace r).finish host).1 = true) :
    ∃ f, ((Observer.trace r).finish host).2.2.files.file? r.recorder.writer.file = some f ∧
      f.content = (Recording.text lines).toUTF8 :=
  h.finish hdone

/-- A run of a trace is a replay of its steps that is counted at the end. -/
theorem run_of_replay {trace : Trace} {st st' : State Explicit} {host host' : Host}
    (h : replay trace st host = (.ok (), st', host')) :
    run Explicit.operations trace st host = (.ok trace.length, st', host') :=
  Action.bind_apply_ok h

/-- What a chain of layers records in check mode, failing calls included, is the text of a trace
that a fresh explicit domain replays: it makes as many steps as there were calls that succeeded, and
confirms as many answers as were given. If one answer is changed, it stops at the line of this
answer. All writes must succeed, and no other observer may write to the file. -/
theorem recording_replays (limit : UInt32) (layers : List Layer) (requests : List Request)
    {path : String} {host host₁ : Host} {recording : Recording}
    (hcreate : Recording.create ⟨path, true⟩ host = (.ok recording, host₁))
    (hregular : (host₁.files.file? recording.recorder.writer.file).map (·.device) = some false)
    (hothers : ∀ o, Layer.observer o ∈ layers → o.Elsewhere recording.recorder.writer.file)
    (hnamed : ∀ request ∈ requests, request.call.Named) :
    let inner := Domain.stack limit layers
    let d := inner.observe (.trace recording)
    let ends := (Observed.operations inner.shape.operations).run requests d.state host₁
    let closed := ends.2.1.layer.finish (inner.shape.operations.dispose ends.2.1.inner ends.2.2)
    let lines := Recording.header true ++ Recording.lines true requests ends.1
    closed.1 = true →
    (∀ t ∈ d.transcripts requests host₁,
      t.sets < 2 ^ 32 ∧ (2 ^ 32 - 64 < limit.toNat → t.vars < 2 ^ 32)) →
    (∃ f, closed.2.2.files.file? recording.recorder.writer.file = some f ∧
      f.content = (Recording.text lines).toUTF8) ∧
    (∀ line ∈ lines, '\n' ∉ line.toList) ∧
    (∃ trace, parse (Recording.text lines).toList = .ok trace ∧
      ∀ host', ∃ st host'',
        run Explicit.operations trace (.new (Explicit.new limit)) host' =
          (.ok (ends.1.countP succeeded), st, host'') ∧
        st.checked = ends.1.countP answered) ∧
    ∀ i answer, ends.1[i]? = some (.ok (.bool answer)) →
      ∃ query, lines[i + 2]? = some (query ++ " -> " ++ toString answer) ∧
        ∃ trace,
          parse (Recording.text
            (lines.set (i + 2) (query ++ " -> " ++ toString (!answer)))).toList = .ok trace ∧
          ∀ host', (run Explicit.operations trace (.new (Explicit.new limit)) host').1 =
            .error (.checkFailed (!answer) answer (i + 3)) := by
  intro inner d ends closed lines hdone hroom
  obtain ⟨hcheck, hheader⟩ := Recording.wrote_create hcreate hregular
  have hwritten := Observed.run_recording inner.shape.keeps_elsewhere requests host₁ rfl
    (elsewhere_stack limit hothers) hheader
  rw [hcheck] at hwritten
  obtain ⟨r, (hlayer : ends.2.1.layer = .trace r), hfile,
    (hinner : inner.shape.Elsewhere _ ends.2.1.inner),
    (hwrote : r.Wrote ends.2.2.files lines)⟩ := hwritten
  have hclosed : closed = (Observer.trace r).finish
      (inner.shape.operations.dispose ends.2.1.inner ends.2.2) :=
    congrArg (Observer.finish · _) hlayer
  have hcontent := content_finish
    (hwrote.of_file? (hfile ▸ inner.shape.file?_dispose hinner ends.2.2)) (hclosed ▸ hdone)
  rw [← hclosed, hfile] at hcontent
  have houtcomes : ends.1 = (d.shape.tapped.run requests (d.shape.tap d.state) host₁).1 :=
    congrArg (·.1) (d.run_eq_tapped requests host₁)
  obtain ⟨bottom, Good, hrests, hgood, hstart, hmem⟩ :
      ∃ (bottom : d.shape.Tapped → Bottom) (Good : d.shape.Tapped → Prop),
        Rests d.shape.tapped bottom Good ∧ Good (d.shape.tap d.state) ∧
          bottom (d.shape.tap d.state) = ⟨[], Explicit.new limit⟩ ∧
            ∀ t, (bottom t).layer ∈ d.shape.transcripts t :=
    Domain.exists_rests limit (.observer (.trace recording) :: layers)
  have hleft := hrests.not_spent requests hstart host₁ (hroom _ (hmem _))
  have hreplays : Replays [] (bottom (d.shape.tap d.state)).inner (.new (Explicit.new limit)) :=
    hstart ▸ Replays.new limit
  obtain ⟨steps, hreads, hcount, hreplay⟩ := exists_replay hrests requests hnamed hgood host₁ hleft
  rw [← houtcomes] at hreads hcount
  refine ⟨hcontent, (parse_text hreads).1, ⟨stepsFrom 3 steps, (parse_text hreads).2, ?_⟩, ?_⟩
  · intro host'
    obtain ⟨st, host'', hrun, hchecked⟩ := hreplay 3 [] _ host' hreplays
    rw [← houtcomes] at hchecked
    refine ⟨st, host'', ?_, hchecked.trans (Nat.zero_add _)⟩
    rw [run_of_replay hrun, length_stepsFrom, hcount]
  · intro i answer hi
    rw [houtcomes] at hi
    obtain ⟨query, hquery, steps', hreads', hflipped⟩ :=
      exists_replay_flipped hrests requests hnamed hgood host₁ hleft hi
    rw [← houtcomes] at hquery hreads'
    refine ⟨query, hquery, stepsFrom 3 steps', (parse_text hreads').2, fun host' => ?_⟩
    rw [Nat.add_comm i 3]
    exact Action.bind_apply_fst_error (hflipped 3 [] _ host' hreplays)

/-- A point is made in the middle, two queries are answered and two calls fail. -/
theorem recording_replays_sample :
    let layers : List Layer := [.equalities, .observer (.stats (.new false)), .points]
    let requests : List Request :=
      [⟨.declare "x" 2⟩, ⟨.declare "y" 1⟩, ⟨.singleton [1, 0]⟩, ⟨.varEqConst ⟨0⟩ 4⟩,
        ⟨.varEqConst ⟨1⟩ 0⟩, ⟨.intersect ⟨5⟩ ⟨6⟩⟩, ⟨.equal ⟨5⟩ ⟨7⟩⟩, ⟨.subset ⟨6⟩ ⟨5⟩⟩,
        ⟨.release ⟨5⟩⟩, ⟨.isEmpty ⟨5⟩⟩]
    let lines :=
      ["# setstack operation trace", "# check mode: queries carry their recorded answers",
        "v0 = declare x 2", "v1 = declare y 1", "s5 = single 1 0",
        "# failed: var_eq_const(v0, 4): value 4 does not fit in 2 bits", "s6 = const v1 0",
        "s7 = inter s5 s6", "equal s5 s7 -> true", "subset s6 s5 -> false", "release s5",
        "# failed: is_empty(s5): unknown set handle s5"]
    ∃ recording host₁ trace, Recording.create ⟨"t", true⟩ Host.initial = (.ok recording, host₁) ∧
      Recording.header true ++ Recording.lines true requests
        ((Observed.operations (Domain.stack 20 layers).shape.operations).run requests
          ((Domain.stack 20 layers).observe (.trace recording)).state host₁).1 = lines ∧
      parse (Recording.text lines).toList = .ok trace ∧
        ∀ host', ∃ st host'',
          run Explicit.operations trace (.new (Explicit.new 20)) host' = (.ok 8, st, host'') ∧
            st.checked = 2 := by
  intro layers requests lines
  let created := Files.initial.add ⟨false, ["t"]⟩ ⟨.empty, false, none, false⟩
  let started := (Recording.header true).foldl
    (fun after line => Recorder.writeLine after.1 [line] after.2)
    (⟨"trace", "t", .new created.1, false⟩, { Host.initial with files := created.2 })
  have hfiles : Files.initial.create "t" = .ok created := by cbv
  have hcreate : Recording.create ⟨"t", true⟩ Host.initial = (.ok ⟨started.1, true⟩, started.2) := by
    rw [Recording.create, Recorder.create]
    simp only [show Host.initial.files = Files.initial from rfl, hfiles]
    rfl
  have hregular : (started.2.files.file? started.1.writer.file).map (·.device) = some false := by
    decide +kernel
  have hothers : ∀ o, Layer.observer o ∈ layers → o.Elsewhere started.1.writer.file := by
    simp [layers, Observer.Elsewhere]
  have hnamed : ∀ request ∈ requests, request.call.Named := by
    simp [requests, Call.Named, show isName "x" = true by decide, show isName "y" = true by decide]
  have hends :
      let outcomes := ((Observed.operations (Domain.stack 20 layers).shape.operations).run requests
        ((Domain.stack 20 layers).observe (.trace ⟨started.1, true⟩)).state started.2).1
      Recording.header true ++ Recording.lines true requests outcomes = lines ∧
        outcomes.countP succeeded = 8 ∧ outcomes.countP answered = 2 := by
    decide +kernel
  obtain ⟨hlines, hsucceeded, hanswered⟩ := hends
  obtain ⟨-, -, ⟨trace, hparse, hrun⟩, -⟩ := recording_replays 20 layers requests hcreate hregular
    hothers hnamed (by decide +kernel) (by decide +kernel)
  rw [hlines] at hparse
  rw [hsucceeded, hanswered] at hrun
  exact ⟨_, _, trace, hcreate, hlines, hparse, hrun⟩

end Trace

end LayeredSets

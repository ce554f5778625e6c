import LayeredSets.Proofs.Assembly.Segments
import Mathlib

/-!
# How an assembly ends

To dispose of a domain is to dispose of its observers, the innermost first, and those that write to
a file hand over what they have held back. In an assembly that is all they have ever written: before
the first call a log has no record, a recording has its header, and none of it has reached a file.

Of the domains on the stack the last that was pushed is kept. The others are given up from the top
down, which brings what they have written to their files, and a warning lists them in that order.
-/

namespace LayeredSets

/-! ## Disposing of observers -/

/-- The observers of a domain, the innermost first. -/
def Shape.observers : (shape : Shape) → shape.State → List Observer
  | explicit, _ | smt, _ => []
  | observed inner, s => inner.observers s.inner ++ [s.layer]
  | equalities inner, s => inner.observers s.inner
  | points inner, s => inner.observers s.inner
  | packed first further, s => s.packs.flatMap fun p =>
    match p.domain with
    | .inl d => first.observers d
    | .inr d => further.observers d

def Domain.observers (d : Domain) : List Observer := d.shape.observers d.state

theorem Shape.dispose_eq (shape : Shape) (s : shape.State) (host : Host) :
    shape.operations.dispose s host =
      (shape.observers s).foldl (fun host o => o.dispose host) host := by
  induction shape generalizing host with
  | explicit | smt => rfl
  | observed inner ih =>
    rw [observers, List.foldl_append, ← ih]
    rfl
  | equalities inner ih | points inner ih => exact ih s.inner host
  | packed first further ih ih' =>
    rw [observers, List.foldl_flatMap]
    refine congrArg (fun f => s.packs.foldl f host) ?_
    funext host p
    cases p.domain with
    | inl d => exact ih d host
    | inr d => exact ih' d host

namespace Observer

/-- What becomes of the files as the observer is disposed of: its writer is flushed. -/
def handOver (o : Observer) (files : Files) : Files :=
  match o.recorder? with
  | some r => if r.failed then files else (r.writer.flush files).2.2
  | none => files

end Observer

namespace Files

/-- What a file held is still there, unless it is empty now. -/
theorem file?_create {files files' : Files} {path : String} {id : FileId}
    (h : files.create path = .ok (id, files')) {other : FileId} {f : File}
    (hfile : files'.file? other = some f) : f.content = .empty ∨ files.file? other = some f := by
  have hprovide {id : FileId} {provided : Files} (h : files.provide path = .ok (id, provided))
      {f : File} (hfile : provided.file? other = some f) :
      f.content = .empty ∨ files.file? other = some f := by
    rw [provide] at h
    cases hplace : files.locate path with
    | error fault => simp [hplace, bind, Except.bind] at h
    | ok place =>
      simp only [hplace, bind, Except.bind] at h
      split at h
      · cases h
      · cases h
        exact .inr hfile
      · split at h
        · cases h
        · cases h
          change (files.stored.push _)[other.index]? = some f at hfile
          rw [Array.getElem?_push] at hfile
          split at hfile
          · cases hfile
            exact .inl rfl
          · exact .inr hfile
  rw [create] at h
  cases hprovided : files.provide path with
  | error fault => simp [hprovided, bind, Except.bind] at h
  | ok provided =>
    obtain ⟨id', provided⟩ := provided
    simp only [hprovided, bind, Except.bind] at h
    split at h
    · next old hold =>
      obtain ⟨rfl, rfl⟩ := Prod.mk.inj (Except.ok.inj h)
      by_cases hother : other = id'
      · subst hother
        rw [file?_update_self hold] at hfile
        rw [← Option.some.inj hfile]
        exact .inl rfl
      · rw [file?_update_of_ne _ hother] at hfile
        exact hprovide hprovided hfile
    · obtain ⟨rfl, rfl⟩ := Prod.mk.inj (Except.ok.inj h)
      exact hprovide hprovided hfile

end Files

namespace Observer

/-- Nothing has reached the file of the observer, which is empty. -/
def Untouched (files : Files) (o : Observer) : Prop :=
  ∀ r, o.recorder? = some r → r.Holds o.opening ∧
    ∀ f, files.file? r.writer.file = some f → f.content = .empty

variable {o : Observer}

theorem untouched_of_none {files : Files} (h : o.recorder? = none) : o.Untouched files := by
  intro r hr
  rw [h] at hr
  cases hr

theorem Untouched.create {files files' : Files} {path : String} {id : FileId}
    (h : o.Untouched files) (hcreate : files.create path = .ok (id, files')) :
    o.Untouched files' := by
  intro r hr
  obtain ⟨hholds, hempty⟩ := h r hr
  refine ⟨hholds, fun f hf => ?_⟩
  rcases Files.file?_create hcreate hf with hnew | hold
  · exact hnew
  · exact hempty f hold

theorem Opens.untouched {path : String} {host after : Host} (h : Opens path host o after) :
    o.Untouched after.files ∧
      ∀ o' : Observer, o'.Untouched host.files → o'.Untouched after.files := by
  obtain ⟨id, files, w, hcreate, rfl, hrecorder, hfile, hholds⟩ := h.exists_created
  refine ⟨fun r hr => ?_, fun o' ho' => ho'.create hcreate⟩
  obtain rfl := Option.some.inj (hrecorder.symm.trans hr)
  exact ⟨hholds, fun f hf => Recording.content_create hcreate (hfile ▸ hf)⟩

end Observer

theorem Domain.mem_observers_observe {d : Domain} {o o' : Observer} :
    o' ∈ (d.observe o).observers ↔ o' ∈ d.observers ∨ o' = o := by
  rw [← List.mem_singleton, ← List.mem_append]
  rfl

theorem Domain.observers_pack (d : Domain) (backend : String)
    (further : Except DomainError Domain) (capacity : Nat) :
    (d.pack backend further capacity).observers = d.observers := by
  cases further <;> exact List.append_nil _

theorem Host.files_reports (messages : List Message) (host : Host) :
    (messages.foldl report host).files = host.files := by
  induction messages generalizing host with
  | nil => rfl
  | cons m messages ih => exact ih (host.report m)

/-- A constructor that succeeds adds at most an observer that is untouched, and touches no other. -/
theorem Decorator.untouched_wrap {decorator : Decorator} {d d' : Domain} {value : Option String}
    {host host' : Host} (h : decorator.wrap d value host = (.ok d', host')) :
    (∀ o ∈ d'.observers, o ∈ d.observers ∨ o.Untouched host'.files) ∧
      ∀ o : Observer, o.Untouched host.files → o.Untouched host'.files := by
  have hobserve {o : Observer} {files : Files} (ho : o.Untouched files) :
      ∀ o' ∈ (d.observe o).observers, o' ∈ d.observers ∨ o'.Untouched files := by
    intro o' ho'
    rcases Domain.mem_observers_observe.mp ho' with hold | rfl
    · exact .inl hold
    · exact .inr ho
  cases decorator with
  | log =>
    cases value with
    | none => cases h
    | some path =>
      simp only [wrap, wrapLog] at h
      generalize hcreate : Log.create path host = made at h
      obtain ⟨l | l, host₁⟩ := made
      · cases h
      · cases h
        obtain ⟨hnew, hothers⟩ := (Observer.Opens.log hcreate).untouched
        exact ⟨hobserve hnew, hothers⟩
  | trace =>
    cases value with
    | none => cases h
    | some argument =>
      simp only [wrap, wrapTrace] at h
      split at h
      · cases h
      · next target _ =>
        generalize hcreate : Recording.create target host = made at h
        obtain ⟨r | r, host₁⟩ := made
        · cases h
        · cases h
          obtain ⟨hnew, hothers⟩ := (Observer.Opens.trace hcreate).untouched
          exact ⟨hobserve hnew, hothers⟩
  | pack =>
    cases value with
    | none => cases h
    | some argument =>
      simp only [wrap, wrapPack] at h
      split at h
      · cases h
      · split at h
        · cases h
        · split at h
          · cases h
            refine ⟨fun o ho => .inl (by rwa [Domain.observers_pack] at ho), fun o ho => ?_⟩
            rwa [Host.files_reports]
          · cases h
  | stats | debug =>
    cases h
    exact ⟨hobserve (Observer.untouched_of_none rfl), fun o ho => ho⟩
  | equalities | singleton =>
    cases h
    exact ⟨fun o ho => .inl ho, fun o ho => ho⟩

namespace Assembly

theorem Wraps.untouched {cs : List StackCommand} {d last : Domain} {host after : Host}
    (h : Wraps cs d host last after) (hd : ∀ o ∈ d.observers, o.Untouched host.files) :
    (∀ o ∈ last.observers, o.Untouched after.files) ∧
      ∀ o : Observer, o.Untouched host.files → o.Untouched after.files := by
  induction h with
  | done => exact ⟨hd, fun o ho => ho⟩
  | wrap _ hwrap _ ih =>
    obtain ⟨hadded, hothers⟩ := Decorator.untouched_wrap hwrap
    obtain ⟨hlast, hafter⟩ := ih fun o ho =>
      (hadded o ho).elim (fun hold => hothers o (hd o hold)) id
    exact ⟨hlast, fun o ho => hafter o (hothers o ho)⟩

/-- As long as no call is made, nothing is handed over to any file. -/
theorem Piles.untouched {depth : Nat} {segments : List Segment} {host after : Host}
    {domains : List Domain} (h : Piles depth segments host domains after) :
    (∀ o ∈ domains.flatMap Domain.observers, o.Untouched after.files) ∧
      ∀ o : Observer, o.Untouched host.files → o.Untouched after.files := by
  induction h with
  | done => exact ⟨nofun, fun o ho => ho⟩
  | @push _ _ _ backend _ _ _ _ _ _ hwraps _ ih =>
    obtain ⟨hfirst, hkept⟩ := hwraps.untouched (by cases backend <;> exact nofun)
    obtain ⟨hrest, hafter⟩ := ih
    refine ⟨fun o ho => ?_, fun o ho => hafter o (hkept o ho)⟩
    rw [List.flatMap_cons, List.mem_append] at ho
    exact ho.elim (fun hd => hafter o (hfirst o hd)) (hrest o)

/-- The end of an assembly that keeps a domain and gives up others, listed from the top down. -/
structure Ends (kept : Domain) (others : List Domain) (host : Host)
    (finished : Except ConfigError Assembled × Host) : Prop where
  result : finished.1 = .ok ⟨kept, others.map Domain.describe⟩
  warning : ∀ assembled, finished.1 = .ok assembled → assembled.warning? =
    if others = [] then none
    else some (s!"{others.length + 1} domain(s) left on the stack; " ++
      (s!"using '{kept.describe}' and discarding " ++
        ", ".intercalate (others.map fun d => s!"'{d.describe}'")))
  /-- A domain is reported before it is disposed of, and that before the next one. -/
  turns : finished.2 =
    (others.foldl (fun host d => d.dispose (host.report (.domainDiscarded d.describe))) host).report
      (.domainAssembled kept.describe others.length)
  /-- Nothing becomes of the files but that the writers of the others are flushed. -/
  files : finished.2.files =
    (others.flatMap Domain.observers).foldl (fun files o => o.handOver files) host.files
  /-- What one of the others has written is then in its file, if that is a regular file which has
  room for it and which none but one observer writes to. -/
  content : ∀ before o after, others.flatMap Domain.observers = before ++ o :: after →
    ∀ r, o.recorder? = some r → (∀ o' ∈ before ++ after, o'.Elsewhere r.writer.file) →
      ∀ f, host.files.file? r.writer.file = some f → f.device = false →
        (∀ room ∈ f.room, (Recording.text o.opening).toUTF8.size ≤ room) →
          ∃ f', finished.2.files.file? r.writer.file = some f' ∧
            f'.content = (Recording.text o.opening).toUTF8

end Assembly
end LayeredSets

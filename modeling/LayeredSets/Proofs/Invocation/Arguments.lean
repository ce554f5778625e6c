import LayeredSets.Invocation
import LayeredSets.Proofs.Action

/-!
# Complete arguments

A command line is read one complete argument at a time: an option together with the value that it
takes, which may be the next word whatever that looks like, or an input. What a complete argument
gives does not depend on what stands in front of it or behind it.
-/

namespace LayeredSets.Invocation

/-! ## The forms of arguments -/

theorem cutAt_of_notMem {c : Char} {cs : List Char} (h : c ∉ cs) : cutAt c cs = (cs, none) := by
  induction cs with
  | nil => rfl
  | cons d cs ih =>
    obtain ⟨hd, hcs⟩ := not_or.mp (List.mem_cons.not.mp h)
    rw [cutAt, if_neg (Ne.symm hd), ih hcs]

theorem cutAt_append {c : Char} {front : List Char} (h : c ∉ front) (back : List Char) :
    cutAt c (front ++ c :: back) = (front, some back) := by
  induction front with
  | nil => rw [List.nil_append, cutAt, if_pos rfl]
  | cons d front ih =>
    obtain ⟨hd, hfront⟩ := not_or.mp (List.mem_cons.not.mp h)
    rw [List.cons_append, cutAt, if_neg (Ne.symm hd), ih hfront]

/-- How an option is written, with the value that follows its equals sign if it has one there. -/
def optionText (name : String) : Option String → String
  | some value => s!"--{name}={value}"
  | none => s!"--{name}"

theorem toList_optionText (name : String) (inline : Option String) :
    (optionText name inline).toList = '-' :: '-' :: (name.toList ++
      match inline with
      | some value => '=' :: value.toList
      | none => []) := by
  cases inline <;> simp [optionText, toString]

/-- An option is told by its name, which goes up to the first equals sign. -/
theorem form_eq_option_iff {argument name : String} {inline : Option String} :
    Form.of argument = .option name inline ↔
      argument = optionText name inline ∧ '=' ∉ name.toList ∧ argument ≠ "--help" ∧
        argument ≠ "--" := by
  constructor
  · intro h
    rw [Form.of] at h
    split_ifs at h with hhelp hterminator
    split at h
    · next rest hlist =>
      obtain ⟨hname, hinline⟩ := Form.option.inj h
      suffices hcut : argument.toList = (optionText name inline).toList ∧ '=' ∉ name.toList from
        ⟨String.toList_inj.mp hcut.1, hcut.2, fun h => hhelp (.inr h), hterminator⟩
      rw [hlist, toList_optionText, ← hname, ← hinline]
      by_cases hmem : '=' ∈ rest
      · obtain ⟨front, back, rfl, hfront⟩ := List.eq_append_cons_of_mem hmem
        simpa [cutAt_append hfront] using hfront
      · simpa [cutAt_of_notMem hmem] using hmem
    · cases h
    · cases h
  · rintro ⟨htext, hname, hhelp, hterminator⟩
    have hshort : argument ≠ "-h" := by
      rintro rfl
      have hlist := congrArg String.toList htext
      rw [toList_optionText] at hlist
      cases hlist
    rw [Form.of, if_neg (not_or.mpr ⟨hshort, hhelp⟩), if_neg hterminator]
    rw [htext, toList_optionText]
    cases inline with
    | none => simp [cutAt_of_notMem hname]
    | some value => simp [cutAt_append hname]

theorem eq_of_form_terminator {argument : String} (h : Form.of argument = .terminator) :
    argument = "--" := by
  rw [Form.of] at h
  split_ifs at h with hhelp hterminator
  · exact hterminator
  · split at h <;> cases h

/-! ## What an argument gives -/

/-- What a complete argument gives. -/
inductive Item
  | command (command : StackCommand)
  | input (path : String)

def add (inv : Invocation) : Item → Except ConfigError Invocation
  | .command c => .ok (inv.addCommand c.entry c.value)
  | .input path => inv.addInput path

variable (registry : Registry)

/-- The words of a complete argument, and what it gives. -/
inductive Given : List String → Item → Prop
  | flag {argument name : String} {entry : Entry} (hform : Form.of argument = .option name none)
    (hlookup : registry.lookup name = some entry) (htakes : entry.takesValue = false) :
    Given [argument] (.command ⟨entry, none⟩)
  | inline {argument name value : String} {entry : Entry}
    (hform : Form.of argument = .option name (some value))
    (hlookup : registry.lookup name = some entry) (htakes : entry.takesValue = true)
    (hvalue : value ≠ "") : Given [argument] (.command ⟨entry, some value⟩)
  | separate {argument name value : String} {entry : Entry}
    (hform : Form.of argument = .option name none) (hlookup : registry.lookup name = some entry)
    (htakes : entry.takesValue = true) (hvalue : value ≠ "") :
    Given [argument, value] (.command ⟨entry, some value⟩)
  | input {argument : String} (hform : Form.of argument = .input) :
    Given [argument] (.input argument)

/-- Words that are complete arguments one after the other. -/
inductive Complete : List String → Prop
  | nil : Complete []
  | cons {words rest : List String} {item : Item} (h : Given registry words item)
    (hrest : Complete rest) : Complete (words ++ rest)

/-- Words as they are read: complete arguments one after the other, up to the end, to what asks for
help, to the terminator or to what is wrong whatever stands in front of it. -/
inductive Arguments : List String → Prop
  | nil : Arguments []
  | help {argument : String} {rest : List String} (hform : Form.of argument = .help) :
    Arguments (argument :: rest)
  | terminator {inputs : List String} : Arguments ("--" :: inputs)
  | given {words rest : List String} {item : Item} (h : Given registry words item)
    (hrest : Arguments rest) : Arguments (words ++ rest)
  | wrong {words : List String} (e : ConfigError)
    (h : ∀ inv, parseFrom registry inv words = .error e) : Arguments words

variable {registry}

theorem lookup_name {name : String} {entry : Entry} (h : registry.lookup name = some entry) :
    entry.name = name := by
  simpa using List.find?_some h

/-- A complete argument is read as what it gives, wherever it stands. -/
theorem Given.parseFrom {words : List String} {item : Item} (h : Given registry words item)
    (inv : Invocation) (rest : List String) :
    parseFrom registry inv (words ++ rest) = (do
      let inv' ← inv.add item
      Invocation.parseFrom registry inv' rest) := by
  cases h with
  | flag hform hlookup htakes =>
    rw [List.singleton_append, Invocation.parseFrom, hform]
    simp only [hlookup, htakes]
    rfl
  | inline hform hlookup htakes hvalue =>
    rw [List.singleton_append, Invocation.parseFrom, hform]
    simp only [hlookup, htakes, checkValue, if_neg hvalue]
    rfl
  | separate hform hlookup htakes hvalue =>
    rw [List.cons_append, Invocation.parseFrom, hform]
    simp only [hlookup, htakes, List.cons_append, checkValue, if_neg hvalue]
    rfl
  | input hform =>
    rw [List.singleton_append, Invocation.parseFrom, hform]
    rfl

/-- What stands behind complete arguments is read from what these give. -/
theorem Complete.parseFrom_append {words : List String} (h : Complete registry words)
    (inv : Invocation) (rest : List String) :
    parseFrom registry inv (words ++ rest) =
      parseFrom registry inv words >>= (parseFrom registry · rest) := by
  induction h generalizing inv with
  | nil => rfl
  | cons h _ ih =>
    rw [List.append_assoc, h.parseFrom, h.parseFrom, bind_assoc]
    simp only [ih]

theorem Complete.parse {words : List String} (h : Complete registry words) (rest : List String) :
    parse registry (words ++ rest) = parse registry words >>= (parseFrom registry · rest) :=
  h.parseFrom_append .empty rest

variable (registry) in
/-- Every list of words is read in one of these ways: the first word that is not taken as part of a
complete argument decides what follows. -/
theorem arguments : ∀ words, Arguments registry words
  | [] => .nil
  | argument :: rest => by
    cases hform : Form.of argument with
    | help => exact .help hform
    | terminator => exact eq_of_form_terminator hform ▸ .terminator
    | unknown => exact .wrong (.unknownArgument argument) fun _ => by rw [parseFrom, hform]
    | input => exact .given (.input hform) (arguments rest)
    | option name inline =>
      cases hlookup : registry.lookup name with
      | none =>
        exact .wrong (.unknownArgument argument) fun _ => by simp [parseFrom, hform, hlookup]
      | some entry =>
        -- whether the next word is the option's value is up to the entry, not to the word
        match htakes : entry.takesValue, inline, rest with
        | false, none, rest => exact .given (.flag hform hlookup htakes) (arguments rest)
        | false, some value, rest =>
          exact .wrong (.unexpectedValue name value) fun _ => by
            simp [parseFrom, hform, hlookup, htakes]
        | true, some value, rest =>
          by_cases hvalue : value = ""
          · exact .wrong (.missingValue name) fun _ => by
              simp [parseFrom, hform, hlookup, htakes, checkValue, hvalue, bind, Except.bind]
          · exact .given (.inline hform hlookup htakes hvalue) (arguments rest)
        | true, none, value :: rest =>
          by_cases hvalue : value = ""
          · exact .wrong (.missingValue name) fun _ => by
              simp [parseFrom, hform, hlookup, htakes, checkValue, hvalue, bind, Except.bind]
          · exact .given (.separate hform hlookup htakes hvalue) (arguments rest)
        | true, none, [] =>
          exact .wrong (.missingValue name) fun _ => by simp [parseFrom, hform, hlookup, htakes]

end LayeredSets.Invocation

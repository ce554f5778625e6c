import LayeredSets.Proofs.Invocation.Arguments

/-!
# Writing an invocation

However its arguments were spelled, an invocation can be written with each command as one argument
and the input behind the terminator, where nothing is taken for an option.
-/

namespace LayeredSets

/-- A command as it is made: its entry is found by its name, and it has a value exactly if the entry
takes one. -/
structure StackCommand.Fits (registry : Registry) (c : StackCommand) : Prop where
  lookup : registry.lookup c.entry.name = some c.entry
  value : c.value.isSome ↔ c.entry.takesValue = true
  nonempty : c.value ≠ some ""

namespace Invocation

/-- The arguments that ask for an invocation. -/
def rendering (inv : Invocation) : List String :=
  inv.commands.map StackCommand.text ++
    match inv.input with
    | some path => ["--", path]
    | none => []

variable {registry : Registry} {words : List String} {inv inv' : Invocation}

/-! ## One command -/

theorem optionText_eq_text (c : StackCommand) : optionText c.entry.name c.value = c.text := by
  unfold optionText StackCommand.text
  cases c.value <;> rfl

theorem Given.fits {c : StackCommand} (h : Given registry words (.command c)) :
    c.Fits registry := by
  cases h with
  | flag hform hlookup htakes => exact ⟨lookup_name hlookup ▸ hlookup, by simp [htakes], nofun⟩
  | inline hform hlookup htakes hvalue
  | separate hform hlookup htakes hvalue =>
    exact ⟨lookup_name hlookup ▸ hlookup, by simp [htakes], fun h => hvalue (Option.some.inj h)⟩

/-- A value that is given as the next word can be written behind an equals sign, whatever it is. -/
theorem form_inline {argument name : String} (h : Form.of argument = .option name none)
    (value : String) :
    Form.of (optionText name (some value)) = .option name (some value) := by
  obtain ⟨-, hname, -, -⟩ := form_eq_option_iff.mp h
  have hmem : '=' ∈ (optionText name (some value)).toList := by
    rw [toList_optionText]
    simp
  exact form_eq_option_iff.mpr ⟨rfl, hname, fun htext => absurd (htext ▸ hmem) (by decide),
    fun htext => absurd (htext ▸ hmem) (by decide)⟩

theorem Given.text {c : StackCommand} (h : Given registry words (.command c)) :
    Given registry [c.text] (.command c) := by
  rw [← optionText_eq_text]
  cases h with
  | flag hform hlookup htakes =>
    rw [lookup_name hlookup, ← (form_eq_option_iff.mp hform).1]
    exact .flag hform hlookup htakes
  | inline hform hlookup htakes hvalue =>
    rw [lookup_name hlookup, ← (form_eq_option_iff.mp hform).1]
    exact .inline hform hlookup htakes hvalue
  | separate hform hlookup htakes hvalue =>
    rw [lookup_name hlookup]
    exact .inline (form_inline hform _) hlookup htakes hvalue

/-! ## Every command -/

variable (registry) in
/-- The commands were all given in arguments. -/
def Made (inv : Invocation) : Prop :=
  ∀ c ∈ inv.commands, ∃ words, Given registry words (.command c)

theorem Made.addInput (h : inv.Made registry) {path : String}
    (hadd : inv.addInput path = .ok inv') : inv'.Made registry := by
  rw [Invocation.addInput] at hadd
  split at hadd
  · cases hadd
  · cases hadd
    exact h

theorem Made.add (h : inv.Made registry) {item : Item} (hitem : Given registry words item)
    (hadd : inv.add item = .ok inv') : inv'.Made registry := by
  cases item with
  | command c =>
    cases hadd
    intro d hd
    rcases List.mem_append.mp hd with hd | hd
    · exact h d hd
    · exact ⟨words, List.mem_singleton.mp hd ▸ hitem⟩
  | input path => exact h.addInput hadd

theorem Made.addInputs {inputs : List String} (h : inv.Made registry)
    (hadd : inv.addInputs inputs = .ok inv') : inv'.Made registry := by
  induction inputs generalizing inv with
  | nil => exact Except.ok.inj hadd ▸ h
  | cons input inputs ih =>
    obtain ⟨inv'', hinput, hrest⟩ := bind_eq_ok hadd
    exact ih (h.addInput hinput) hrest

theorem Made.parseFrom (h : inv.Made registry)
    (hread : parseFrom registry inv words = .ok inv') : inv'.Made registry := by
  induction arguments registry words generalizing inv with
  | nil => exact Except.ok.inj hread ▸ h
  | help hform =>
    rw [Invocation.parseFrom, hform] at hread
    cases hread
    exact h
  | terminator => exact h.addInputs hread
  | given hitem _ ih =>
    rw [hitem.parseFrom] at hread
    obtain ⟨inv'', hadd, hrest⟩ := bind_eq_ok hread
    exact ih (h.add hitem hadd) hrest
  | wrong e hwrong => cases (hwrong inv).symm.trans hread

theorem made_of_parse (h : parse registry words = .ok inv) : inv.Made registry :=
  Made.parseFrom (fun _ hc => absurd hc List.not_mem_nil) h

/-- Commands that are written out are read back behind those already read. -/
theorem parseFrom_texts {commands : List StackCommand}
    (h : ∀ c ∈ commands, ∃ words, Given registry words (.command c)) (inv : Invocation)
    (rest : List String) :
    parseFrom registry inv (commands.map StackCommand.text ++ rest) =
      parseFrom registry { inv with commands := inv.commands ++ commands } rest := by
  induction commands generalizing inv with
  | nil => simp
  | cons c commands ih =>
    obtain ⟨words, hc⟩ := h c List.mem_cons_self
    calc parseFrom registry inv ([c.text] ++ (commands.map StackCommand.text ++ rest))
      _ = parseFrom registry (inv.addCommand c.entry c.value)
          (commands.map StackCommand.text ++ rest) := hc.text.parseFrom inv _
      _ = parseFrom registry { inv with commands := inv.commands ++ [c] ++ commands } rest :=
          ih (fun d hd => h d (List.mem_cons_of_mem c hd)) _
      _ = _ := by rw [List.append_assoc, List.singleton_append]

/-- An invocation is read back from its rendering, whatever the arguments that it was read from. -/
theorem parse_rendering (hread : parse registry words = .ok inv) (hhelp : inv.help = false) :
    (∀ c ∈ inv.commands, c.Fits registry) ∧ parse registry inv.rendering = .ok inv := by
  have hmade := made_of_parse hread
  constructor
  · intro c hc
    obtain ⟨words, hgiven⟩ := hmade c hc
    exact hgiven.fits
  · rw [parse, rendering, parseFrom_texts hmade]
    obtain ⟨commands, input, help⟩ := inv
    cases hhelp
    cases input <;> rfl

/-- A value may look like an option with a value of its own, and an input like an option. -/
theorem parse_rendering_sample : ∃ inv,
    parse (.standard .none) ["--explicit", "--log", "--a=b", "--", "--stats"] = .ok inv ∧
      inv.help = false ∧ inv.rendering = ["--explicit", "--log=--a=b", "--", "--stats"] ∧
      (∀ c ∈ inv.commands, c.Fits (.standard .none)) ∧
      parse (.standard .none) inv.rendering = .ok inv := by
  exact ⟨_, rfl, rfl, by decide,
    @parse_rendering _ ["--explicit", "--log", "--a=b", "--", "--stats"] _ rfl rfl⟩

end Invocation
end LayeredSets

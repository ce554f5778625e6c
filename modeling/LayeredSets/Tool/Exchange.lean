import LayeredSets.Text.CharClass
import LayeredSets.Tool.Format
import LayeredSets.Tool.Usage

/-!
# Exchanging characters

The `tr` tool: characters of one set are exchanged for those at the same places of another, dropped,
or kept only once when they are repeated.
-/

namespace LayeredSets.Tool

def rangeOf (low high : Char) : List Char :=
  (List.range (high.toNat + 1 - low.toNat)).map fun i => Char.ofNat (low.toNat + i)

/-- A character at the front of a set, which may be escaped. -/
def setChar : List Char → Char × List Char
  | '\\' :: c :: rest =>
    if Text.isOctal c then
      let digits := ((c :: rest).take 3).takeWhile Text.isOctal
      (Text.byteOfDigits 8 digits, (c :: rest).drop digits.length)
    else ((Text.escapeLetter? c).getD c, rest)
  | c :: rest => (c, rest)
  | [] => ('\\', [])

/-- A repetition such as `[c*3]` at the front of a set. Without a number it fills what is missing
up to `missing` characters. -/
def repetition? (missing : Nat) : List Char → Option (List Char × List Char)
  | '[' :: rest =>
    let (c, rest) := setChar rest
    match rest with
    | '*' :: rest =>
      let digits := rest.takeWhile Char.isDigit
      match rest.drop digits.length with
      | ']' :: after =>
        let base := if digits.head? == some '0' then 8 else 10
        let count := Text.digitsIn base digits
        some (List.replicate (if count = 0 then missing else count) c, after)
      | _ => none
    | _ => none
  | _ => none

/-- The characters of a set as it is written: ranges, named classes, repetitions and escapes. A
set that fills up is brought to `size` characters. -/
def exchangeSet (size : Nat) : Nat → List Char → Except String (List Char)
  | 0, _ | _, [] => .ok []
  | fuel + 1, c :: cs => do
    let named? : Option (List Char × List Char) := match c, cs with
      | '[', ':' :: rest =>
        (CharClass.nameEnd rest).bind fun (name, after) =>
          (CharClass.named? (String.ofList name)).map fun ranges =>
            (ranges.flatMap fun (a, b) => rangeOf a b, after)
      | _, _ => none
    match named?.or (repetition? size (c :: cs)) with
    | some (here, after) => return here ++ (← exchangeSet (size - here.length) fuel after)
    | none =>
      let (low, rest) := setChar (c :: cs)
      match rest with
      | '-' :: high :: after =>
        let (high, after) := setChar (high :: after)
        if high < low then
          let shown := String.ofList ((c :: cs).take ((c :: cs).length - after.length))
          throw s!"range-endpoints of '{shown}' are in reverse collating sequence order"
        else
          let here := rangeOf low high
          return here ++ (← exchangeSet (size - here.length) fuel after)
      | rest => return low :: (← exchangeSet (size - 1) fuel rest)

/-- `c`, or what stands at its place in `target` if it is in `source`. The last character of
`target` stands for all that it lacks. -/
def exchanged (source target : List Char) (c : Char) : Char :=
  match source.reverse.findIdx? (· == c) with
  | none => c
  | some i => (target[source.length - 1 - i]?.or target.getLast?).getD c

/-- Keep one of several equal neighbours in a set. -/
def squeezed (set : List Char) : List Char → List Char
  | a :: b :: rest =>
    if a == b && set.contains a then squeezed set (b :: rest) else a :: squeezed set (b :: rest)
  | cs => cs

def tr (job : Job) : Effect :=
  let o := job.options ""
  let everything := (List.range 256).map Char.ofNat
  let set (size : Nat) (text : String) := exchangeSet size text.length text.toList
  let done (output : List Char) : Effect := { job.prints output with rest := [] }
  match o.operands with
  | [] => job.misused 1 "missing operand"
  | first :: others =>
    let result : Except String Effect := do
      let chosen ← set 0 first
      let source :=
        if o.has "c" || o.has "C" then everything.filter (!chosen.contains ·) else chosen
      let target ← set source.length (others.headD "")
      match others with
      | _ :: extra :: _ => return job.misused 1 s!"extra operand '{extra}'"
      | [] =>
        if o.has "d" then return done (job.input.filter (!source.contains ·))
        else if o.has "s" then return done (squeezed source job.input)
        else
          let hint := "Two strings must be given when translating.\n"
          let e := job.misused 1 s!"missing operand after '{first}'"
          let parts := Text.lines e.errors
          let errors := (parts.take 1).flatten ++ hint.toList ++ (parts.drop 1).flatten
          return { e with errors }
      | [_] =>
        if o.has "d" then
          let kept := job.input.filter (!source.contains ·)
          return done (if o.has "s" then squeezed target kept else kept)
        else if target.isEmpty then
          throw "when not truncating set1, string2 must be non-empty"
        else
          let source := if o.has "t" then source.take target.length else source
          let changed := job.input.map (exchanged source target)
          return done (if o.has "s" then squeezed target changed else changed)
    match result with
    | .ok e => e
    | .error complaint => job.complains 1 complaint

end LayeredSets.Tool

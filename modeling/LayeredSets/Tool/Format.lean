import LayeredSets.Text.Decimal
import LayeredSets.Text.Escape
import LayeredSets.Tool.Usage

/-!
# Escapes and formats

The two ways of printing words: after their escapes have been read, and through a format with
conversions. Both can be cut short by the escape `\c`.
-/

namespace LayeredSets.Tool

/-- The escapes of words that are printed as they are. -/
def Wording.wordEscapes (w : Wording) : Text.EscapeRules := ⟨true, w ≠ .plain, false⟩

/-- The escapes of formats. -/
def Wording.formatEscapes (w : Wording) : Text.EscapeRules := ⟨false, w ≠ .plain, w ≠ .plain⟩

/-- The escapes that arguments of other tools have. -/
def argumentEscapes : Text.EscapeRules := ⟨false, false, false⟩

/-- The words with blanks between them, escapes read if `escapes`, and maybe a line break. -/
def echoText (w : Wording) (escapes lineBreak : Bool) (args : List String) : List Char :=
  let text := (" ".intercalate args).toList
  let u := if escapes then Text.unescape w.wordEscapes text else ⟨text, false⟩
  if lineBreak && !u.cut then u.text ++ ['\n'] else u.text

/-- A conversion of a format: flags, width, precision and its letter. -/
structure Conversion where
  flags : List Char
  width : Nat
  precision : Option Nat
  letter : Char

namespace Conversion

/-- Bring a text to the width of the conversion. -/
def pad (c : Conversion) (cs : List Char) : List Char :=
  let gap := List.replicate (c.width - cs.length) ' '
  if c.flags.contains '-' then cs ++ gap else gap ++ cs

/-- A number's sign and digits, brought to the width of the conversion. -/
def padNumber (c : Conversion) (sign digits : List Char) : List Char :=
  let digits := List.replicate ((c.precision.getD 1) - digits.length) '0' ++ digits
  if c.flags.contains '0' && !c.flags.contains '-' && c.precision.isNone then
    sign ++ List.replicate (c.width - sign.length - digits.length) '0' ++ digits
  else c.pad (sign ++ digits)

/-- What stands before a number. -/
def signOf (c : Conversion) (negative : Bool) : List Char :=
  if negative then ['-'] else if c.flags.contains '+' then ['+']
  else if c.flags.contains ' ' then [' '] else []

/-- A whole number in digits, with what stands before those of its base. -/
def unsigned (c : Conversion) (n : Nat) : List Char :=
  let lead (text : String) : List Char :=
    if c.flags.contains '#' && n != 0 then text.toList else []
  match c.letter with
  | 'o' => c.padNumber (lead "0") (Nat.toDigits 8 n)
  | 'x' => c.padNumber (lead "0x") (Nat.toDigits 16 n)
  | 'X' => c.padNumber (lead "0X") ((Nat.toDigits 16 n).map Char.toUpper)
  | _ => c.padNumber [] (Nat.toDigits 10 n)

def signed (c : Conversion) (n : Int) : List Char :=
  c.padNumber (c.signOf (n < 0)) (Nat.toDigits 10 n.natAbs)

/-- The style in which a number with a point is written. -/
def style? (c : Conversion) : Option Text.Style :=
  match c.letter.toLower with
  | 'e' => some .scientific
  | 'f' => some .positional
  | 'g' => some .general
  | _ => none

/-- A number with a point. -/
def withPoint (c : Conversion) (style : Text.Style) (x : Text.Signed) : List Char :=
  let digits := x.magnitude.text style c.letter.isUpper (c.flags.contains '#') (c.precision.getD 6)
  let filled : Bool := match x.magnitude with
    | .finite _ => c.flags.contains '0' && !c.flags.contains '-'
    | _ => false
  let sign := c.signOf x.negative
  if filled then sign ++ List.replicate (c.width - sign.length - digits.length) '0' ++ digits
  else c.pad (sign ++ digits)

/-- A text, of which no more is taken than the precision allows. -/
def string (c : Conversion) (cs : List Char) : List Char :=
  c.pad ((c.precision.map (cs.take ·)).getD cs)

/-- A number as an unsigned word. -/
def word (n : Int) : Nat := (n % (UInt64.size : Int)).toNat

/-- A width or a precision; a star takes its value from the arguments. -/
def count {α : Type} (value : α → Int) (cs : List Char) (args : List α) :
    Option Int × List Char × List α :=
  match cs, args with
  | '*' :: rest, arg :: args => (some (value arg), rest, args)
  | '*' :: rest, [] => (some 0, rest, [])
  | cs, args =>
    let digits := cs.takeWhile Char.isDigit
    ((Text.decimal? digits).map Int.ofNat, cs.drop digits.length, args)

/-- Read a conversion behind its percent sign. What stands for the size of the argument is left out.
There may be no letter. -/
def read {α : Type} (value : α → Int) (isSize : Char → Bool) (cs : List Char) (args : List α) :
    Option (Conversion × List Char × List α) :=
  let flags := cs.takeWhile fun c => ['-', '+', ' ', '#', '0'].contains c
  let (width, rest, args) := count value (cs.drop flags.length) args
  let width := width.getD 0
  let flags := if width < 0 then '-' :: flags else flags
  let (precision, rest, args) := match rest with
    | '.' :: rest =>
      let (n, rest, args) := count value rest args
      (if n.any (· < 0) then none else some (n.getD 0).toNat, rest, args)
    | rest => (none, rest, args)
  match rest.dropWhile isSize with
  | [] => none
  | letter :: rest => some (⟨flags, width.natAbs, precision, letter⟩, rest, args)

end Conversion

/-- Read a number: decimal, octal after a zero, hexadecimal after `0x`, or the code of the
character after a quote. What cannot be read is told apart. -/
def formatNumber? (text : String) : Option Int :=
  let magnitude (cs : List Char) : Option Nat :=
    match cs with
    | '0' :: x :: digits =>
      if x == 'x' || x == 'X' then
        if digits.isEmpty then none
        else if digits.all fun c => (Text.hexValue? c).isSome then some (Text.hexNumber 0 digits)
        else none
      else if (x :: digits).all Text.isOctal then some (Text.digitsIn 8 (x :: digits)) else none
    | cs => Text.decimal? cs
  match text.toList with
  | [] => some 0
  | '\'' :: c :: _ | '"' :: c :: _ => some c.toNat
  | '-' :: cs => (magnitude cs).map fun n => -Int.ofNat n
  | '+' :: cs => (magnitude cs).map Int.ofNat
  | cs => (magnitude cs).map Int.ofNat

/-- An argument that is no number, though it may begin with one. -/
structure BadNumber where
  arg : String
  startsWell : Bool

namespace BadNumber

def plain (b : BadNumber) : String :=
  if b.startsWell then s!"{b.arg}: not completely converted"
  else s!"{b.arg}: expected numeric value"

def quoted (b : BadNumber) : String :=
  if b.startsWell then s!"'{b.arg}': value not completely converted"
  else s!"'{b.arg}': expected a numeric value"

end BadNumber

/-- Read a number with a point, which has no more than `bits` binary digits. What cannot be read is
told apart. -/
def pointNumber (bits : Nat) (text : String) : Text.Signed × Option BadNumber :=
  match text.toList with
  | '\'' :: c :: _ | '"' :: c :: _ => (⟨false, .finite (.ofNat c.toNat)⟩, none)
  | cs =>
    match Text.readNumeral cs with
    | some (negative, n, rest) =>
      (⟨negative, n.magnitude bits⟩, if rest.isEmpty then none else some ⟨text, true⟩)
    | none => (⟨false, .finite (.ofNat 0)⟩, if cs.isEmpty then none else some ⟨text, false⟩)

/-- What has been printed, what is left of the arguments, and the complaints about arguments that
are no numbers and about conversions that there are not, which end the printing. -/
structure Printed where
  text : List Char
  args : List String
  bad : List BadNumber
  cut : Bool
  /-- A conversion that there is not, or that has no letter at all. -/
  broken : Option (Option Char)

/-- A text as a word that can be read again, with backslashes before what would not be kept. -/
def backslashed (cs : List Char) : List Char :=
  let isSpecial (c : Char) : Bool := " \t!\"#$&'()*;<=>?[\\]^\x60\x7b|\x7d~,".toList.contains c
  if cs.isEmpty then ['\'', '\'']
  else cs.flatMap fun c =>
    if c == '\n' then "$'\\n'".toList else if isSpecial c then ['\\', c] else [c]

/-- How many binary digits numbers with a point have. -/
def Wording.precision (w : Wording) : Nat := if w = .plain then 53 else 64

/-- Print one argument by a conversion. -/
def convert (w : Wording) (c : Conversion) (args : List String) : Printed :=
  let arg := args.headD ""
  let prints (text : List Char) (bad : List BadNumber) : Printed :=
    ⟨text, args.tail, bad, false, none⟩
  let whole : Int × List BadNumber := match formatNumber? arg with
    | some n => (n, [])
    | none =>
      let digits := arg.toList.takeWhile Char.isDigit
      ((Text.decimal? digits).getD 0, [⟨arg, !digits.isEmpty⟩])
  match c.letter, c.style? with
  | _, some style =>
    let (x, bad?) := pointNumber w.precision arg
    prints (c.withPoint style x) bad?.toList
  | 'd', _ | 'i', _ => prints (c.signed whole.1) whole.2
  | 'u', _ | 'o', _ | 'x', _ | 'X', _ => prints (c.unsigned (Conversion.word whole.1)) whole.2
  | 'c', _ => prints (c.pad [arg.toList.headD '\x00']) []
  | 'b', _ =>
    let u := Text.unescape w.wordEscapes arg.toList
    ⟨c.string u.text, args.tail, [], u.cut, none⟩
  | 's', _ => prints (c.string arg.toList) []
  | 'q', _ =>
    if w = .plain then ⟨[], args, [], true, some (some 'q')⟩
    else prints (c.pad (backslashed arg.toList)) []
  | letter, _ => ⟨[], args, [], true, some (some letter)⟩

/-- Print by a format once. -/
def formatOnce (w : Wording) : Nat → List Char → List String → Printed
  | 0, _, args | _, [], args => ⟨[], args, [], false, none⟩
  | fuel + 1, '%' :: '%' :: rest, args =>
    let p := formatOnce w fuel rest args
    { p with text := '%' :: p.text }
  | fuel + 1, '%' :: rest, args =>
    let isSize (c : Char) : Bool := w = .extended && ['h', 'j', 'l', 't', 'z'].contains c
    let value (arg : String) : Int := (formatNumber? arg).getD 0
    match Conversion.read value isSize rest args with
    | none => ⟨[], args, [], true, some none⟩
    | some (c, rest, args) =>
      let here := convert w c args
      if here.cut then here
      else
        let p := formatOnce w fuel rest here.args
        { p with text := here.text ++ p.text, bad := here.bad ++ p.bad }
  | fuel + 1, '\\' :: rest, args =>
    let (here, rest) := Text.readEscape w.formatEscapes rest
    let p := formatOnce w fuel rest args
    { p with text := here.text ++ p.text }
  | fuel + 1, c :: rest, args =>
    let p := formatOnce w fuel rest args
    { p with text := c :: p.text }

/-- Print by a format, as often as it takes to use up the arguments. -/
def formatAll (w : Wording) (format : List Char) : Nat → List String → Printed
  | 0, args => ⟨[], args, [], false, none⟩
  | fuel + 1, args =>
    let p := formatOnce w format.length format args
    if p.cut || p.args.isEmpty || p.args.length = args.length then p
    else
      let more := formatAll w format fuel p.args
      { more with text := p.text ++ more.text, bad := p.bad ++ more.bad }

/-- The complaints about what has been printed by a format. -/
def Printed.complaints (w : Wording) (p : Printed) : List String :=
  let letter (c : Option Char) : String := String.ofList c.toList
  match w with
  | .plain =>
    p.bad.map (·.plain) ++ p.broken.toList.map fun
      | some c => s!"%{c}: invalid directive"
      | none => "missing format character"
  | .extended =>
    (p.bad.map fun b => s!"{b.arg}: invalid number") ++ p.broken.toList.map fun
      | some c => s!"\x60{c}': invalid format character"
      | none => "\x60%': missing format character"
  | .tool =>
    let extra := match p.cut, p.args with
      | false, arg :: _ => [s!"warning: ignoring excess arguments, starting with '{arg}'"]
      | _, _ => []
    p.bad.map (·.quoted) ++ extra ++
      p.broken.toList.map fun c => s!"%{letter c}: invalid conversion specification"

/-- Print words by a format. -/
def printf (w : Wording) (job : Job) : Effect :=
  match job.args with
  | [] | ["--"] =>
    match w with
    | .plain => job.complains 2 "usage: printf format [arg ...]"
    | .extended =>
      { job.ends 2 with errors := "printf: usage: printf [-v var] format [arguments]\n".toList }
    | .tool => job.misused 1 "missing operand"
  | "--" :: format :: args | format :: args =>
    let p := formatAll w format.toList (args.length + 1) args
    let errors := (p.complaints w).flatMap fun text => s!"{job.name}: {text}\n".toList
    let status := if p.broken.isSome && w = .plain then 2
      else if p.broken.isNone && p.bad.isEmpty then 0 else 1
    { job.prints p.text with errors, status }

end LayeredSets.Tool

import LayeredSets.Tool.Format
import LayeredSets.Tool.Regex
import LayeredSets.Tool.Usage

/-!
# Tools for words

Tools that print what they make of their arguments alone: the words themselves, the parts of a
path, a sequence of numbers, or the value of an expression.
-/

namespace LayeredSets.Tool

/-- Print the arguments; escapes count only after the option `-e`. -/
def echo (job : Job) : Effect :=
  let isOption (arg : String) : Bool :=
    match arg.toList with
    | '-' :: c :: letters => (c :: letters).all ['n', 'e', 'E'].contains
    | _ => false
  let letters := (job.args.takeWhile isOption).flatMap (·.toList)
  let escapes := (letters.reverse.find? fun c => c == 'e' || c == 'E') == some 'e'
  job.prints (echoText .tool escapes (!letters.contains 'n') (job.args.dropWhile isOption))

def withoutClosingSlashes (cs : List Char) : List Char :=
  match (cs.reverse.dropWhile (· == '/')).reverse with
  | [] => cs.take 1
  | kept => kept

def baseOf (path : String) : List Char :=
  let cs := withoutClosingSlashes path.toList
  if cs == ['/'] then cs else (cs.reverse.takeWhile (· != '/')).reverse

def basename (job : Job) : Effect :=
  let o := job.options "s"
  let short (ending path : String) : List Char :=
    let base := baseOf path
    let ending := ending.toList
    let kept :=
      if ending.isSuffixOf base && ending != base then base.take (base.length - ending.length)
      else base
    kept ++ ['\n']
  let ending? := o.value? "s"
  match o.operands with
  | [] => job.misused 1 "missing operand"
  | path :: rest =>
    if ending?.isSome || o.has "a" then
      job.prints ((path :: rest).flatMap (short (ending?.getD "")))
    else match rest with
      | [] => job.prints (short "" path)
      | [ending] => job.prints (short ending path)
      | _ :: extra :: _ => job.misused 1 s!"extra operand '{extra}'"

def dirname (job : Job) : Effect :=
  let shown (path : String) : List Char :=
    let cs := withoutClosingSlashes path.toList
    let front := cs.take (cs.length - (cs.reverse.takeWhile (· != '/')).length)
    (if front.isEmpty then ['.'] else withoutClosingSlashes front) ++ ['\n']
  let names := (job.options "").operands
  if names.isEmpty then job.misused 1 "missing operand" else job.prints (names.flatMap shown)

def seq (job : Job) : Effect :=
  let o := job.options "sf"
  let o := if o.operands.isEmpty then Options.mk [] job.args else o
  let bounds : Option (Int × Int × Int) :=
    match job.args.filterMap integer? with
    | [last] => some (1, 1, last)
    | [first, last] => some (first, 1, last)
    | [first, step, last] => some (first, step, last)
    | _ => none
  match bounds with
  | none => job.misused 1 "missing operand"
  | some (first, step, last) =>
    if step = 0 then job.misused 1 "invalid Zero increment value: '0'"
    else
      let count := ((last - first) / step + 1).toNat
      let items := (List.range count).map fun i => toString (first + step * Int.ofNat i)
      let separator := (o.value? "s").getD "\n"
      job.printsText (if items.isEmpty then "" else separator.intercalate items ++ "\n")

/-- Wait for a time, which passes at once. -/
def sleep (job : Job) : Effect :=
  let isTime (arg : String) : Bool :=
    let cs := arg.toList
    let cs := if cs.getLast?.any ['s', 'm', 'h', 'd'].contains then cs.dropLast else cs
    cs != [] && cs.all fun c => c.isDigit || c == '.'
  if job.args.isEmpty then job.misused 1 "missing operand"
  else match job.args.find? (!isTime ·) with
    | some arg => job.misused 1 s!"invalid time interval '{arg}'"
    | none => job.ends 0

namespace Expression

def isTrue (text : String) : Bool := text != "" && integer? text != some 0

def ofBool (b : Bool) : String := if b then "1" else "0"

/-- How tightly an operator binds, the loosest first. -/
def level (op : String) : Nat :=
  match op with
  | "|" => 1
  | "&" => 2
  | "=" | "==" | "!=" | "<" | "<=" | ">" | ">=" => 3
  | "+" | "-" => 4
  | "*" | "/" | "%" => 5
  | ":" => 6
  | _ => 0

/-- The text that a group or else the whole of an expression matches at the front, or its length. -/
def matchFront (text pattern : String) : Except String String :=
  match Regex.parse? .basic pattern.toList with
  | none => .error "Invalid regular expression"
  | some r =>
    let grouped := (pattern.splitOn "\\(").length != 1
    match Regex.matchAt? false r (Regex.startOf text.toList) with
    | none => .ok (if grouped then "" else "0")
    | some k =>
      .ok (if grouped then String.ofList ((k.groups.lookup 1).getD [])
        else toString k.before.length)

def apply (op left right : String) : Except String String :=
  let numbers (f : Int → Int → Except String Int) : Except String String :=
    match integer? left, integer? right with
    | some a, some b => (f a b).map toString
    | _, _ => .error "non-integer argument"
  let compares (f : Int → Int → Bool) (g : String → String → Bool) : Except String String :=
    match integer? left, integer? right with
    | some a, some b => .ok (ofBool (f a b))
    | _, _ => .ok (ofBool (g left right))
  match op with
  | "|" => .ok (if isTrue left then left else if isTrue right then right else "0")
  | "&" => .ok (if isTrue left && isTrue right then left else "0")
  | "=" | "==" => compares (· == ·) (· == ·)
  | "!=" => compares (· != ·) (· != ·)
  | "<" => compares (fun a b => a < b) (fun a b => a < b)
  | "<=" => compares (fun a b => a ≤ b) (fun a b => !(b < a))
  | ">" => compares (fun a b => b < a) (fun a b => b < a)
  | ">=" => compares (fun a b => b ≤ a) (fun a b => !(a < b))
  | "+" => numbers fun a b => .ok (a + b)
  | "-" => numbers fun a b => .ok (a - b)
  | "*" => numbers fun a b => .ok (a * b)
  | "/" => numbers fun a b => if b = 0 then .error "division by zero" else .ok (a.tdiv b)
  | "%" => numbers fun a b => if b = 0 then .error "division by zero" else .ok (a.tmod b)
  | ":" => matchFront left right
  | _ => .error "syntax error"

mutual

/-- The value of what binds at least as tightly as `least`. -/
def value : Nat → Nat → List String → Except String (String × List String)
  | 0, _, _ => .error "syntax error"
  | fuel + 1, least, args => do
    let (left, rest) ← operand fuel args
    more fuel least left rest

def more : Nat → Nat → String → List String → Except String (String × List String)
  | 0, _, left, args => .ok (left, args)
  | fuel + 1, least, left, args =>
    match args with
    | op :: rest =>
      if level op = 0 || level op < least then .ok (left, op :: rest)
      else do
        let (right, rest) ← value fuel (level op + 1) rest
        more fuel least (← apply op left right) rest
    | [] => .ok (left, [])

def operand : Nat → List String → Except String (String × List String)
  | 0, _ => .error "syntax error"
  | fuel + 1, args =>
    match args with
    | "(" :: rest => do
      match ← value fuel 1 rest with
      | (v, ")" :: rest) => return (v, rest)
      | _ => throw "syntax error: expecting ')'"
    | "length" :: text :: rest => .ok (toString text.length, rest)
    | "match" :: text :: pattern :: rest => do return (← matchFront text pattern, rest)
    | "substr" :: text :: start :: count :: rest =>
      let n (s : String) : Nat := ((integer? s).getD 0).toNat
      .ok (if n start = 0 then "" else
        String.ofList ((text.toList.drop (n start - 1)).take (n count)), rest)
    | arg :: rest => .ok (arg, rest)
    | [] => .error "missing operand"

end

end Expression

def expr (job : Job) : Effect :=
  if job.args.isEmpty then job.misused 2 "missing operand"
  else match Expression.value (4 * job.args.length + 4) 1 job.args with
  | .ok (v, []) =>
    { job.printsText (v ++ "\n") with status := if Expression.isTrue v then 0 else 1 }
  | .ok (_, arg :: _) => job.complains 2 s!"syntax error: unexpected argument '{arg}'"
  | .error complaint => job.complains 2 complaint

end LayeredSets.Tool

import LayeredSets.Text.Blank
import LayeredSets.Tool.Format
import LayeredSets.Tool.Usage

/-!
# Tools for streams of lines

Tools that pass on their input changed: whole, cut at either end, counted, sorted, or cut into
fields.
-/

namespace LayeredSets.Tool

/-- The complaint about a file of which a part was to be read. A directory is opened first. -/
def partComplaint (name : String) (fault : FileFault) : String :=
  match fault with
  | .isDirectory => s!"error reading '{name}': {fault.reason}"
  | _ => s!"cannot open '{name}' for reading: {fault.reason}"

/-- Number lines from `n` on, all of them or those that are not blank. -/
def numberLines (all : Bool) : Nat → List (List Char) → List Char
  | _, [] => []
  | n, line :: rest =>
    if all || line != ['\n'] then
      (Text.padStart 6 (toString n)).toList ++ '\t' :: line ++ numberLines all (n + 1) rest
    else line ++ numberLines all n rest

def squeeze : List (List Char) → List (List Char)
  | ['\n'] :: ['\n'] :: rest => squeeze (['\n'] :: rest)
  | line :: rest => line :: squeeze rest
  | [] => []

def cat (job : Job) : Effect :=
  let o := job.options ""
  let isTarget (name : String) : Bool :=
    match (job.files.locate (job.path name)).toOption.bind job.files.idAt?, job.target with
    | some id, some (target, before) => id = target && before != 0
    | _, _ => false
  let (targets, names) := o.operands.partition isTarget
  let s := if names.isEmpty && !targets.isEmpty then ⟨[], [], job.input⟩
    else job.sources plainComplaint names
  let s := { s with
    errors := s.errors ++ targets.flatMap fun name =>
      s!"{job.name}: {name}: input file is output file\n".toList }
  let text := s.contents.flatMap (·.2)
  let lines := if o.has "s" then squeeze (Text.lines text) else Text.lines text
  let lines := if o.has "E" || o.has "A" || o.has "e" then
      lines.map fun l => if l.getLast? == some '\n' then l.dropLast ++ ['$', '\n'] else l
    else lines
  let lines := if o.has "T" || o.has "A" then
      lines.map (·.flatMap fun c => if c == '\t' then ['^', 'I'] else [c])
    else lines
  job.printsFrom s <|
    if o.has "n" || o.has "b" then numberLines (!o.has "b") 1 lines else lines.flatten

/-- The amount of data that `head` and `tail` are told to print: lines or characters, counted from
one end or the other. -/
structure Amount where
  ofChars : Bool
  sign : Option Char
  count : Nat

/-- The suffixes that multiply a number. -/
def multiples : List (String × Nat) :=
  [("", 1), ("b", 512), ("kB", 1000), ("k", 1024), ("K", 1024), ("KiB", 1024), ("MB", 1000000),
    ("M", 1048576), ("MiB", 1048576)]

/-- Read an amount; a sign may precede its digits and a suffix follow them. -/
def Amount.read (ofChars : Bool) (text : String) : Except String Amount :=
  let (sign, number) := match text.toList with
    | '-' :: cs => (some '-', cs)
    | '+' :: cs => (some '+', cs)
    | cs => (none, cs)
  let (digits, suffix) := number.span Char.isDigit
  let unit := if ofChars then "bytes" else "lines"
  match Text.decimal? digits, multiples.lookup (String.ofList suffix) with
  | some n, some multiple => .ok ⟨ofChars, sign, n * multiple⟩
  | _, _ => .error s!"invalid number of {unit}: '{text}'"

/-- The amount that options ask for, ten lines by default. -/
def Amount.ofOptions (o : Options) : Except String Amount :=
  match o.given.reverse.find? fun (key, _) => key == "n" || key == "c" with
  | some (key, text) => Amount.read (key == "c") text
  | none => .ok ⟨false, none, 10⟩

def Amount.front (a : Amount) (cs : List Char) : List Char :=
  let take {α : Type} (xs : List α) : List α :=
    if a.sign == some '-' then xs.take (xs.length - a.count) else xs.take a.count
  if a.ofChars then take cs else (take (Text.lines cs)).flatten

def Amount.back (a : Amount) (cs : List Char) : List Char :=
  let take {α : Type} (xs : List α) : List α :=
    if a.sign == some '+' then xs.drop (a.count - 1) else xs.drop (xs.length - a.count)
  if a.ofChars then take cs else (take (Text.lines cs)).flatten

/-- Print a part of each source, under a heading if there are several. -/
def Job.printParts (job : Job) (o : Options) (s : Sources) (part : List Char → List Char) :
    List Char :=
  let headed := (2 ≤ o.operands.length || o.has "v") && !o.has "q"
  let title (name : String) : String := if name == "-" then "standard input" else name
  let names := if o.operands.isEmpty then ["-"] else o.operands
  let blocks := (job.withDirectories names s.contents).map fun (name, content) =>
    (if headed then s!"==> {title name} <==\n".toList else []) ++ part content
  (blocks.intersperse (if headed then ['\n'] else [])).flatten

/-- How much of its input a tool takes at a time. -/
def blockSize : Nat := 8192

/-- What is left once a tool that needs the first `needed` characters has taken them, `exactly` or
in whole blocks, and given back what it can. -/
def Job.restAfter (job : Job) (exactly : Bool) (needed : Nat) : List Char :=
  job.input.drop <|
    if exactly || job.seekable then needed else (needed + blockSize - 1) / blockSize * blockSize

def head (job : Job) : Effect :=
  let o := job.options "nc"
  match Amount.ofOptions o with
  | .error complaint => job.complains 1 complaint
  | .ok amount =>
    let s := job.sources partComplaint o.operands
    let effect := job.printsFrom s (job.printParts o s amount.front)
    let readsInput := o.operands.isEmpty || o.operands.contains "-"
    if readsInput && (amount.sign.isNone || job.seekable) then
      { effect with rest := job.restAfter amount.ofChars (amount.front job.input).length }
    else effect

def tail (job : Job) : Effect :=
  let o := job.options "ncs"
  match Amount.ofOptions o with
  | .error complaint => job.complains 1 complaint
  | .ok amount =>
    if amount.count = 0 && amount.sign != some '+' then job.ends 0
    else
      let s := job.sources partComplaint o.operands
      job.printsFrom s (job.printParts o s amount.back)

/-- The complaint about a file that was to be read from its end. -/
def backwardComplaint (name : String) (fault : FileFault) : String :=
  match fault with
  | .isDirectory => s!"{name}: read error: {fault.reason}"
  | _ => s!"failed to open '{name}' for reading: {fault.reason}"

def tac (job : Job) : Effect :=
  let s := job.sources backwardComplaint (job.options "").operands
  job.printsFrom s (s.contents.flatMap fun (_, cs) => (Text.lines cs).reverse.flatten)

def rev (job : Job) : Effect :=
  let s := job.sources plainComplaint (job.options "").operands
  job.printsFrom s <| s.contents.flatMap fun (_, cs) =>
    (Text.lines cs).flatMap fun l =>
      (Text.chomp l).reverse ++ if l.getLast? == some '\n' then ['\n'] else []

def countWords (cs : List Char) : Nat :=
  ((Text.splitAt (fun c => c == ' ' || '\t' ≤ c && c ≤ '\r') cs).filter (!·.isEmpty)).length

/-- The length of the longest line. A tab reaches to the next column of eight, and a carriage return
and a form feed begin a line as a line break does. -/
def longestLine (cs : List Char) : Nat :=
  let width (line : List Char) : Nat :=
    line.foldl (fun n c =>
      if c == '\t' then n + 8 - n % 8 else if ' ' ≤ c && c ≤ '~' then n + 1 else n) 0
  ((Text.splitAt (['\n', '\r', '\x0c'].contains ·) cs).map width).foldl max 0

/-- What is counted in a text. -/
structure Counts where
  lines : Nat
  words : Nat
  chars : Nat
  longest : Nat

namespace Counts

def zero : Counts := ⟨0, 0, 0, 0⟩

def ofText (cs : List Char) : Counts := ⟨cs.count '\n', countWords cs, cs.length, longestLine cs⟩

def add (a b : Counts) : Counts :=
  ⟨a.lines + b.lines, a.words + b.words, a.chars + b.chars, max a.longest b.longest⟩

/-- The counts that are asked for, in their fixed order: lines, words and characters by default. -/
def chosen (o : Options) (counts : Counts) : List Nat :=
  let default := !(["l", "w", "c", "m", "L"].any o.has)
  (if default || o.has "l" then [counts.lines] else []) ++
    (if default || o.has "w" then [counts.words] else []) ++
    (if o.has "m" then [counts.chars] else []) ++
    (if default || o.has "c" then [counts.chars] else []) ++
    if o.has "L" then [counts.longest] else []

end Counts

/-- Is this the name of a file whose size is known before it is read? -/
def Job.isSized (job : Job) (name : String) : Bool :=
  if name == "-" then job.seekable
  else match (job.files.locate (job.path name)).toOption.bind job.files.node? with
    | some (.file f) => !f.device
    | _ => false

/-- Counts of lines, words and characters. The columns are as wide as the total size may ask for,
and at least seven wide if a size is not known before. -/
def wc (job : Job) : Effect :=
  let o := job.options ""
  let names := if o.operands.isEmpty then ["-"] else o.operands
  let s := job.sources plainComplaint o.operands
  let contents := job.withDirectories names s.contents
  let rows := contents.map fun (name, cs) => (name, Counts.ofText cs)
  let total := (rows.map (·.2)).foldl Counts.add .zero
  let only := o.value? "total" == some "only"
  let sized := contents.filter fun (name, _) => job.isSized name
  let size := (sized.map (·.2.length)).foldl (· + ·) 0
  let width :=
    if only || names.length = 1 && (total.chosen o).length = 1 then 1
    else max (toString size).length (if sized.length < contents.length then 7 else 1)
  let row (name : Option String) (counts : Counts) : List Char :=
    let columns := (counts.chosen o).map fun n => Text.padStart width (toString n)
    (" ".intercalate (columns ++ name.toList) ++ "\n").toList
  let table := rows.flatMap fun (name, counts) =>
    row (if o.operands.isEmpty then none else some name) counts
  let summed := match o.value? "total" with
    | some "always" | some "only" => true
    | some "never" => false
    | _ => 1 < names.length
  job.printsFrom s <|
    (if only then [] else table) ++
      if summed then row (if only then none else some "total") total else []

/-- The number at the front of a line. -/
def leadingNumber (cs : List Char) : Int :=
  match cs.dropWhile fun c => c == ' ' || c == '\t' with
  | '-' :: rest => -Int.ofNat (Text.digitsIn 10 (rest.takeWhile Char.isDigit))
  | rest => Text.digitsIn 10 (rest.takeWhile Char.isDigit)

/-- The fields of a line, between separators or else runs of blanks. -/
def fields (separator : Option Char) (line : List Char) : List (List Char) :=
  match separator with
  | some c => Text.splitAt (· == c) line
  | none => (Text.splitAt (fun c => c == ' ' || c == '\t') line).filter (!·.isEmpty)

/-- The part of a line that a key names: from its first field to its last. -/
def sortKey (separator : Option Char) (key : String) (line : List Char) : List Char :=
  let bounds := (Text.splitAt (· == ',') key.toList).map fun cs =>
    Text.digitsIn 10 (cs.takeWhile Char.isDigit)
  let all := fields separator line
  let first := (bounds[0]?).getD 1
  let chosen := match bounds[1]? with
    | some last => (all.take last).drop (first - 1)
    | none => all.drop (first - 1)
  (chosen.intersperse [(separator.getD ' ')]).flatten

def sort (job : Job) : Effect :=
  let o := job.options "kto"
  let s := job.sources (fun name fault => s!"cannot read: {name}: {fault.reason}") o.operands
  let lines := (s.contents.flatMap fun (_, cs) => Text.lines cs).map Text.chomp
  let separator := (o.value? "t").bind (·.toList.head?)
  let keys := o.values "k"
  let keyOf (line : List Char) : List Char :=
    match keys.head? with
    | some key => sortKey separator key line
    | none => line
  let numeric := o.has "n" || keys.head?.any (·.toList.contains 'n')
  let reversed := o.has "r" || keys.head?.any (·.toList.contains 'r')
  let fold (cs : List Char) := if o.has "f" then cs.map Char.toUpper else cs
  let before (a b : List Char) : Bool :=
    if numeric then
      leadingNumber (keyOf a) < leadingNumber (keyOf b)
    else Text.precedes (fold (keyOf a)) (fold (keyOf b))
  let notAfter (a b : List Char) : Bool :=
    let less := if reversed then before b a else before a b
    let more := if reversed then before a b else before b a
    let above := if reversed then Text.precedes a b else Text.precedes b a
    less || !more && (o.has "s" || o.has "u" || !above)
  let sorted := lines.mergeSort notAfter
  let same (a b : List Char) : Bool := !before a b && !before b a
  let kept := if o.has "u" then
      sorted.foldr (fun l rest =>
        match rest with
        | next :: others => if same l next then l :: others else l :: rest
        | [] => [l]) []
    else sorted
  let text := kept.flatMap (· ++ ['\n'])
  let effect := job.printsFrom s text
  if effect.status ≠ 0 then { effect with status := 2 }
  else match o.value? "o" with
    | none => effect
    | some name =>
      match job.files.create (job.path name) with
      | .ok (id, files) =>
        let bytes : ByteArray := ⟨(Text.toBytes text).toArray⟩
        { effect with output := [], files := (files.writeAt id 0 bytes).2 }
      | .error fault => job.complains 2 s!"open failed: {name}: {fault.reason}"

/-- Runs of equal lines, each with its length. -/
def runs (same : List Char → List Char → Bool) : List (List Char) → List (Nat × List Char)
  | [] => []
  | line :: rest =>
    match runs same rest with
    | (n, next) :: others =>
      if same line next then (n + 1, line) :: others else (1, line) :: (n, next) :: others
    | [] => [(1, line)]

def uniq (job : Job) : Effect :=
  let o := job.options "fsw"
  let s := job.sources plainComplaint (o.operands.take 1)
  let lines := (s.contents.flatMap fun (_, cs) => Text.lines cs).map Text.chomp
  let fold (cs : List Char) := if o.has "i" then cs.map Char.toLower else cs
  let kept := (runs (fun a b => fold a == fold b) lines).filter fun (n, _) =>
    (!o.has "d" || 1 < n) && (!o.has "u" || n = 1)
  job.printsFrom s <| kept.flatMap fun (n, line) =>
    (if o.has "c" then (Text.padStart 7 (toString n) ++ " ").toList else []) ++ line ++ ['\n']

/-- Does a list such as `1,3-5,7-` name the number `n`? -/
def listNames (list : String) (n : Nat) : Bool :=
  (Text.pieces list ',').any fun item =>
    match (Text.splitAt (· == '-') item.toList).map (Text.decimal? ·) with
    | [some low] => n = low
    | [low, high] => low.getD 1 ≤ n && high.all (n ≤ ·)
    | _ => false

def cut (job : Job) : Effect :=
  let o := job.options "bcdf"
  let lists := o.given.filter fun (key, _) => ["b", "c", "f"].contains key
  if lists.isEmpty then
    job.misused 1 "you must specify a list of bytes, characters, or fields"
  else if 1 < lists.length then job.misused 1 "only one list may be specified"
  else if (o.value? "d").any (1 < ·.length) then
    job.misused 1 "the delimiter must be a single character"
  else
  let s := job.sources plainComplaint o.operands
  let select {α : Type} (list : String) (items : List α) : List α :=
    (items.zipIdx.filter fun (_, i) => listNames list (i + 1) != o.has "complement").map (·.1)
  let cutLine (line : List Char) : Option (List Char) :=
    match (o.value? "c").orElse fun _ => o.value? "b" with
    | some list => some (select list line)
    | none =>
      let separator := ((o.value? "d").bind (·.toList.head?)).getD '\t'
      if line.contains separator then
        some ((select ((o.value? "f").getD "1") (fields (some separator) line)).intersperse
          [separator]).flatten
      else if o.has "s" then none else some line
  job.printsFrom s <| (s.contents.flatMap fun (_, cs) => Text.lines cs).flatMap fun l =>
    ((cutLine (Text.chomp l)).map (· ++ ['\n'])).getD []

/-- A text broken into lines of at most `width` characters. -/
def foldLine (width : Nat) : Nat → List Char → List Char
  | 0, cs => cs
  | fuel + 1, cs =>
    if cs.length ≤ width then cs
    else cs.take width ++ '\n' :: foldLine width fuel (cs.drop width)

def fold (job : Job) : Effect :=
  let o := job.options "w"
  let s := job.sources plainComplaint o.operands
  let width := max 1 (((o.value? "w").bind (Text.decimal? ·.toList)).getD 80)
  job.printsFrom s <| (s.contents.flatMap fun (_, cs) => Text.lines cs).flatMap fun l =>
    foldLine width l.length (Text.chomp l) ++ if l.getLast? == some '\n' then ['\n'] else []

/-- Join lines: those of each source, or else the first lines of all sources, and so on. -/
def paste (job : Job) : Effect :=
  let o := job.options "d"
  let s := job.sources plainComplaint o.operands
  let given := (o.value? "d").map fun d => (Text.unescape argumentEscapes d.toList).text
  let separators := match given with
    | some (c :: cs) => c :: cs
    | _ => ['\t']
  let join (items : List (List Char)) : List Char :=
    (items.zipIdx.flatMap fun (item, i) =>
      (if i = 0 then [] else [separators.getD ((i - 1) % separators.length) '\t']) ++ item) ++
      ['\n']
  let contents := s.contents.map fun (_, cs) => (Text.lines cs).map Text.chomp
  let inputs := (o.operands.filter (· == "-")).length
  let columns :=
    if inputs = o.operands.length && 1 < inputs then
      let lines := contents.flatten
      (List.range inputs).map fun i =>
        (lines.zipIdx.filter fun (_, k) => k % inputs = i).map (·.1)
    else contents
  let count := (columns.map List.length).foldl max 0
  job.printsFrom s <|
    if o.has "s" then columns.flatMap join
    else (List.range count).flatMap fun i => join (columns.map fun column => (column[i]?).getD [])

end LayeredSets.Tool

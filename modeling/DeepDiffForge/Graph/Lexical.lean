import DeepDiffForge.Graph.Risk
import DeepDiffForge.Lib.Utf8

/-! The line-lexical code view: a line's bytes with comments and string contents blanked, read
several ways at once where a string of an earlier line may still be open. -/

namespace DeepDiffForge.Graph
open Text DeepDiffForge.Core

abbrev Bytes := List UInt8

def sign (c : Char) : UInt8 := UInt8.ofNat c.toNat

def ascii (text : String) : Bytes := text.toList.map sign

def blankByte : UInt8 := 0x20

inductive Language where
  | rust | python | javaScript | go | shell | yaml
  deriving DecidableEq, Repr

namespace Language

def extensions : List (String × Language) :=
  [("rs", rust), ("py", python), ("pyi", python), ("js", javaScript), ("mjs", javaScript),
    ("cjs", javaScript), ("jsx", javaScript), ("ts", javaScript), ("mts", javaScript),
    ("cts", javaScript), ("tsx", javaScript), ("go", go), ("sh", shell), ("bash", shell),
    ("zsh", shell), ("mk", shell), ("yml", yaml), ("yaml", yaml)]

def ofExtension (ext : Str) : Option Language :=
  (extensions.find? (·.1.toList = ext)).map (·.2)

def ofShebang (line : Str) : Option Language := do
  let interpreter := trim (← stripPrefix "#!".toList line)
  let named := (stripPrefix "/usr/bin/env".toList interpreter).elim interpreter
    (·.dropWhile isWhitespace)
  let program := basename (← (splitWhitespace named).head?)
  if ["sh", "bash", "zsh", "dash", "ksh"].any (·.toList = program) then some shell
  else if startsWith "python".toList program then some python
  else if ["node", "deno", "bun"].any (·.toList = program) then some javaScript
  else none

def of (path : Str) (firstLine : Option Str) : Option Language :=
  let name := basename path
  if name = "Dockerfile".toList || startsWith "Dockerfile.".toList name ||
      name = "Makefile".toList then some shell
  else ((rsplitOnce '.' name).bind (ofExtension ·.2)).or (firstLine.bind ofShebang)

def cLike : Language → Bool
  | rust | javaScript | go => true
  | _ => false

def opensString : Language → UInt8 → Bool
  | rust, byte => byte = sign '"'
  | python, byte | shell, byte | yaml, byte => byte = sign '"' || byte = sign '\''
  | go, byte | javaScript, byte => byte = sign '"' || byte = sign '\'' || byte = sign '\x60'

/-- Whether a string opened by a quote runs no backslash escapes. -/
def rawQuote (language : Language) (quote : UInt8) : Bool :=
  (language = go && quote = sign '\x60') || (language = yaml && quote = sign '\'')

end Language

/-- A string opened at byte `start`. -/
structure StrFrame where
  quote : UInt8
  start : Nat
  triple : Bool
  fstring : Bool
  ansi : Bool
  raw : Option Nat
  escaped : Bool
  deriving DecidableEq, Repr

/-- Code inside an interpolation, until `close` brings `depth` back to zero. -/
structure CodeFrame where
  opener : Option UInt8
  close : UInt8
  depth : Nat
  cases : Nat
  brackets : Nat
  spec : Bool
  deriving DecidableEq, Repr

inductive Frame where
  | str (held : StrFrame)
  | code (held : CodeFrame)
  | comment
  deriving DecidableEq, Repr

structure Reading where
  inBlockComment : Bool := false
  inTriple : Option UInt8 := none
  jsLast : Option UInt8 := none
  inString : Option Frame := none
  deriving DecidableEq, Repr

def moreReadings : Nat := 3

/-- What the previous lines of a hunk left open: the plain reading and at most a few others. -/
structure ScanState where
  plain : Reading := {}
  more : List Reading := []
  deriving DecidableEq, Repr

namespace ScanState

def readings (state : ScanState) : List Reading := state.plain :: state.more

def fresh : List Reading → List Reading → List Reading
  | _, [] => []
  | earlier, reading :: rest =>
      if reading ∈ earlier then fresh (earlier ++ [reading]) rest
      else reading :: fresh (earlier ++ [reading]) rest

/-- The state after a line: its readings without repeats, capped. -/
def fromReadings (readings : List Reading) : ScanState where
  plain := readings.headD {}
  more := (fresh (readings.take 1) (readings.drop 1)).take moreReadings

end ScanState

section Bytes

def isAsciiWhitespace (b : UInt8) : Bool :=
  b = 0x20 || b = 0x09 || b = 0x0A || b = 0x0C || b = 0x0D

def trimAsciiEnd (bytes : Bytes) : Bytes := bytes.rdropWhile isAsciiWhitespace

def isIdent (b : UInt8) : Bool :=
  (48 ≤ b && b ≤ 57) || (65 ≤ b && b ≤ 90) || (97 ≤ b && b ≤ 122) || b = 95

def isBoundaryBlocker (b : UInt8) : Bool := isIdent b || b = sign '.' || b = sign '$'

def trailing (test : UInt8 → Bool) (bytes : Bytes) : Bytes := (bytes.reverse.takeWhile test).reverse

def isInterpolatingPrefix (before : Bytes) : Bool :=
  let letters := trailing (· ∈ ascii "fFtTrRbBuU") before
  let rest := before.take (before.length - letters.length)
  letters.length ≤ 2 && letters.any (· ∈ ascii "fFtT") && !rest.getLast?.any isIdent

def shellWordAt (before rest word : Bytes) : Bool :=
  startsWith word rest &&
    before.getLast?.all (fun b => isAsciiWhitespace b || b ∈ ascii ";&|(\x7b\x60!)") &&
    (rest[word.length]?).all (fun b => isAsciiWhitespace b || b ∈ ascii ";&|)")

def endsWithWord (before word : Bytes) : Bool :=
  word.isSuffixOf before && !(before.take (before.length - word.length)).getLast?.any isIdent

def commandWords : List Bytes :=
  ["then", "do", "else", "if", "elif", "while", "until", "time"].map ascii

def inCommandPosition (before : Bytes) (inCase : Bool) : Bool :=
  let before := trimAsciiEnd before
  match before.getLast? with
  | none => true
  | some last =>
      if last ∈ ascii ";|&(\x60!" then true
      else if last = sign '\x7b' then before.dropLast.getLast? ≠ some (sign '$')
      else if last = sign ')' then inCase
      else commandWords.any (endsWithWord before)

/-- Whether a shell `(` here opens a case pattern. -/
def opensCasePattern (before : Bytes) : Bool :=
  let before := trimAsciiEnd before
  (ascii ";;").isSuffixOf before || (ascii ";&").isSuffixOf before ||
    endsWithWord before (ascii "in")

def jsOperandKeywords : List Bytes :=
  ["return", "typeof", "void", "delete", "in", "of", "instanceof", "new", "throw", "case", "do",
    "else", "yield", "await"].map ascii

def endsWithOperandKeyword (before : Bytes) : Bool :=
  let word := trailing isIdent before
  jsOperandKeywords.any (fun keyword => keyword = word) &&
    !(ascii ".").isSuffixOf (before.take (before.length - word.length))

/-- Whether a JS `/` starts a regex literal rather than a division. -/
def startsRegex (out : Bytes) (previousLine : Option UInt8) : Bool :=
  let trimmed := trimAsciiEnd out
  let before := if trimmed = [] then previousLine.toList else trimmed
  if (ascii "++").isSuffixOf before || (ascii "--").isSuffixOf before then false
  else if before = [] || (ascii "=>").isSuffixOf before then true
  else if before.getLast? = some (sign '!') &&
      before.dropLast.getLast?.any (fun operand =>
        isIdent operand || operand = sign ')' || operand = sign ']') then false
  else if before.getLast?.any (· ∈ ascii "(,=:[!&|?\x7b\x7d;+-*%~^") then true
  else endsWithOperandKeyword before

/-- The number of `#` of a Rust raw string whose opening quote follows. -/
def rustRawHashes (before : Bytes) : Option Nat :=
  let hashes := (trailing (· = sign '#') before).length
  let start := before.take (before.length - hashes)
  if start.getLast? ≠ some (sign 'r') then none
  else
    let rest := start.dropLast
    let rest :=
      if rest.getLast? = some (sign 'b') || rest.getLast? = some (sign 'c') then rest.dropLast
      else rest
    if rest.getLast?.any isIdent then none else some hashes

/-- The length of a regex literal from after its first `/`, `seen` bytes of it read. -/
def regexEnd : Bool → Bool → Nat → Bytes → Option Nat
  | _, _, _, [] => none
  | inClass, escaped, seen, b :: rest =>
      if escaped then regexEnd inClass false (seen + 1) rest
      else if b = sign '\\' then regexEnd inClass true (seen + 1) rest
      else if b = sign '[' then regexEnd true false (seen + 1) rest
      else if b = sign ']' then regexEnd false false (seen + 1) rest
      else if b = sign '/' && !inClass then some (seen + 1)
      else regexEnd inClass false (seen + 1) rest

def regexLen (rest : Bytes) : Option Nat := regexEnd false false 1 (rest.drop 1)

/-- Whether a `#` here starts a comment. -/
def isCommentStart (language : Language) (before : Bytes) : Bool :=
  let wordStart := before.getLast?.all isAsciiWhitespace
  match language with
  | .python => true
  | .shell => wordStart || before.getLast?.any (· ∈ ascii ";&|(")
  | .yaml => wordStart
  | .rust | .javaScript | .go => false

end Bytes

def Frame.interpolation (language : Language) (quote : UInt8) (fstring : Bool) (rest : Bytes) :
    Option (Frame × Nat) :=
  let code (opener : Option UInt8) (close : UInt8) (len : Nat) : Option (Frame × Nat) :=
    some (.code { opener, close, depth := 1, cases := 0, brackets := 0, spec := false }, len)
  if language = .shell && quote = sign '"' && startsWith (ascii "$(") rest then
    code (some (sign '(')) (sign ')') 2
  else if language = .shell && quote = sign '"' && rest.head? = some (sign '\x60') then
    code none (sign '\x60') 1
  else if ((language = .javaScript && quote = sign '\x60') ||
      (language = .shell && quote = sign '"')) && startsWith (ascii "$\x7b") rest then
    code (some (sign '\x7b')) (sign '\x7d') 2
  else if language = .python && fstring && rest.head? = some (sign '\x7b') then
    code (some (sign '\x7b')) (sign '\x7d') 1
  else none

/-- One line's scan in progress; the innermost frame is the stack's first. -/
structure Scanner where
  out : Bytes := []
  stack : List Frame := []
  blank : Nat := 0
  copy : Nat := 0
  noRegex : Bool := false
  deriving DecidableEq, Repr

namespace Scanner

def push (scan : Scanner) (byte : UInt8) : Scanner := { scan with out := scan.out ++ [byte] }

section Step
variable (language : Language) (before : Bytes) (byte : UInt8) (after : Bytes)

def closes (held : StrFrame) : Bool :=
  let hashes := held.raw.getD 0
  byte = held.quote && (!held.triple || startsWith (List.replicate 3 held.quote) (byte :: after)) &&
    hashes ≤ after.length && (after.take hashes).all (· = sign '#')

def escapes (held : StrFrame) : Bool :=
  byte = sign '\\' && held.raw = none &&
    !(language = .shell && held.quote = sign '\'' && !held.ansi) &&
    !(held.fstring && after.head? = some (sign '\x7b'))

def inString (held : StrFrame) (outer : List Frame) (scan : Scanner) : Scanner :=
  let shown := if language = .yaml then byte else blankByte
  if held.escaped then
    { scan with stack := .str { held with escaped := false } :: outer }.push shown
  else if closes byte after held then
    { scan with stack := outer, copy := if held.triple then 2 else held.raw.getD 0 }.push byte
  else if held.fstring && startsWith (ascii "\x7b\x7b") (byte :: after) then
    { scan with blank := 1 }.push shown
  else
    match Frame.interpolation language held.quote held.fstring (byte :: after) with
    | some (code, len) =>
        { scan with stack := code :: .str held :: outer, copy := len - 1 }.push byte
    | none =>
        if escapes language byte after held then
          { scan with stack := .str { held with escaped := true } :: outer }.push shown
        else scan.push shown

/-- The open `case` statements of the interpolation after a byte of it. -/
def trackCases (held : CodeFrame) : CodeFrame :=
  if language ≠ .shell then held
  else if shellWordAt before (byte :: after) (ascii "case") &&
      inCommandPosition before (0 < held.cases) then { held with cases := held.cases + 1 }
  else if shellWordAt before (byte :: after) (ascii "esac") && inCommandPosition before true &&
      !(ascii "|").isSuffixOf (trimAsciiEnd before) then { held with cases := held.cases - 1 }
  else held

/-- The brackets of a Python replacement field, and whether its format spec starts. -/
def trackBrackets (held : CodeFrame) : CodeFrame :=
  if language ≠ .python then held
  else if byte = sign '(' || byte = sign '[' then { held with brackets := held.brackets + 1 }
  else if byte = sign ')' || byte = sign ']' then { held with brackets := held.brackets - 1 }
  else if byte = sign ':' && held.depth = 1 && held.brackets = 0 then { held with spec := true }
  else held

def trackCode (scan : Scanner) : Scanner :=
  match scan.stack with
  | .code held :: outer =>
      let held := trackCases language before byte after held
      let patternParen := language = .shell && byte = sign '(' && 0 < held.cases &&
        opensCasePattern before
      let held := trackBrackets language byte held
      if held.opener = some byte && !patternParen then
        { scan with stack := .code { held with depth := held.depth + 1 } :: outer }
      else if byte = held.close && !(byte = sign ')' && 0 < held.cases) then
        if held.depth - 1 = 0 then { scan with stack := outer }
        else { scan with stack := .code { held with depth := held.depth - 1 } :: outer }
      else { scan with stack := .code held :: outer }
  | _ => scan

/-- How many bytes of a Rust char literal follow its first quote. -/
def charLiteral : Option Nat :=
  let close := if after.head? = some (sign '\\') then 3 else 2
  if language = .rust && byte = sign '\'' && (byte :: after)[close]? = some (sign '\'') then
    some close
  else none

def afterWord : Bool :=
  before.getLast?.any isIdent &&
    match language with
    | .javaScript => byte ≠ sign '\x60' && !endsWithOperandKeyword before
    | .yaml => true
    | _ => false

def opened : StrFrame where
  quote := byte
  start := before.length
  triple := false
  fstring := language = .python && isInterpolatingPrefix before
  ansi := language = .shell && byte = sign '\'' && before.getLast? = some (sign '$')
  raw :=
    if language.rawQuote byte then some 0
    else if language = .rust && byte = sign '"' then rustRawHashes before
    else none
  escaped := false

def tripleFrame : StrFrame where
  quote := byte
  start := before.length
  triple := true
  fstring := false
  ansi := false
  raw := none
  escaped := false

def inPlainCode (scan : Scanner) (state : Reading) : Option (Scanner × Reading) :=
  let nested := scan.stack ≠ []
  if !nested && byte = sign '#' && isCommentStart language before then none
  else if language = .python && (byte = sign '"' || byte = sign '\'') &&
      startsWith (List.replicate 3 byte) (byte :: after) then
    if nested then
      some ({ scan with stack := .str (tripleFrame before byte) :: scan.stack, copy := 2 }.push byte,
        state)
    else some ({ scan with copy := 2 }.push byte, { state with inTriple := some byte })
  else
    match charLiteral language byte after with
    | some close => some ({ scan with blank := close }.push blankByte, state)
    | none =>
        if language.opensString byte && !afterWord language before byte then
          some ({ scan with stack := .str (opened language before byte) :: scan.stack }.push byte,
            state)
        else some ((trackCode language before byte after scan).push byte, state)

def inCode (scan : Scanner) (state : Reading) : Option (Scanner × Reading) :=
  let nested := scan.stack ≠ []
  let rest := byte :: after
  if byte = sign '\\' && (nested || language = .shell || language = .javaScript) then
    some ({ scan with copy := 1 }.push byte, state)
  else if language.cLike && startsWith (ascii "//") rest then none
  else if language.cLike && startsWith (ascii "/*") rest then
    if nested then
      some ({ scan with stack := .comment :: scan.stack, blank := 1 }.push blankByte, state)
    else some ({ scan with blank := 1 }.push blankByte, { state with inBlockComment := true })
  else if language = .javaScript && byte = sign '/' && !scan.noRegex &&
      startsRegex scan.out state.jsLast then
    match regexLen rest with
    | some len => some ({ scan with blank := len - 2, copy := 1 }.push byte, state)
    | none => inPlainCode language before byte after { scan with noRegex := true } state
  else inPlainCode language before byte after scan state

def step (scan : Scanner) (state : Reading) : Option (Scanner × Reading) :=
  let rest := byte :: after
  if 0 < scan.blank then some ({ scan with blank := scan.blank - 1 }.push blankByte, state)
  else if 0 < scan.copy then some ({ scan with copy := scan.copy - 1 }.push byte, state)
  else if state.inBlockComment then
    if startsWith (ascii "*/") rest then
      some ({ scan with blank := 1 }.push blankByte, { state with inBlockComment := false })
    else some (scan.push blankByte, state)
  else
    match state.inTriple with
    | some triple =>
        if startsWith (List.replicate 3 triple) rest then
          some ({ scan with copy := 2 }.push byte, { state with inTriple := none })
        else some (scan.push blankByte, state)
    | none =>
        match scan.stack with
        | .comment :: outer =>
            if startsWith (ascii "*/") rest then
              some ({ scan with stack := outer, blank := 1 }.push blankByte, state)
            else some (scan.push blankByte, state)
        | .str held :: outer => some (inString language byte after held outer scan, state)
        | .code held :: outer =>
            if held.spec then
              match Frame.interpolation language (sign '"') true rest with
              | some (frame, _) => some ({ scan with stack := frame :: scan.stack }.push byte, state)
              | none =>
                  if byte = sign '\x7d' then some ({ scan with stack := outer }.push byte, state)
                  else some (scan.push blankByte, state)
            else inCode language before byte after scan state
        | [] => inCode language before byte after scan state

end Step

def run (language : Language) : Bytes → Bytes → Scanner → Reading → Scanner × Reading
  | _, [], scan, state => (scan, state)
  | before, byte :: after, scan, state =>
      match step language before byte after scan state with
      | none => (scan, state)
      | some (scan, state) => run language (before ++ [byte]) after scan state

def openString (stack : List Frame) : Option Nat :=
  stack.reverse.findSome? fun frame =>
    match frame with
    | .str held => some held.start
    | _ => none

def carried (stack : List Frame) : Option Frame :=
  match stack with
  | [.str held] => some (.str { held with start := 0, escaped := false })
  | _ => none

/-- The view's bytes, a string still open read as code from its quote, and what goes on. -/
def finish (language : Language) (bytes : Bytes) (scan : Scanner) (state : Reading) :
    Bytes × Reading :=
  let state :=
    if language = .javaScript then
      match (trimAsciiEnd scan.out).getLast? with
      | some last => { state with jsLast := some last }
      | none => state
    else state
  let out :=
    match openString scan.stack with
    | some start =>
        if language ≠ .rust then scan.out.take start ++ bytes.drop start else scan.out
    | none => scan.out
  let state :=
    match carried scan.stack with
    | some frame => { state with inString := some frame }
    | none => state
  (out, state)

end Scanner

/-- `String::from_utf8(bytes).unwrap_or_default()`. -/
def fromUtf8OrDefault (bytes : Bytes) : Str := (Utf8.decode bytes).getD []

/-- One line's view in bytes, starting inside `inside` when the previous line left it open. -/
def scanBytes (language : Language) (line : Str) (state : Reading) (inside : Option Frame) :
    Bytes × Reading :=
  let bytes := Utf8.encode line
  let (scan, state) := Scanner.run language [] bytes { stack := inside.toList } state
  Scanner.finish language bytes scan state

def scanLine (language : Language) (line : Str) (state : Reading) (inside : Option Frame) :
    Str × Reading :=
  let (bytes, state) := scanBytes language line state inside
  (fromUtf8OrDefault bytes, state)

def unionBytes (bytes : Bytes) (views : List Bytes) : Bytes :=
  let len := (views.map List.length).foldl max 0
  (bytes.take len).zipIdx.map fun (byte, i) =>
    if views.any (fun view => view[i]?.any (· ≠ blankByte)) then byte else blankByte

def unionViews (line : Str) (views : List Str) : Str :=
  fromUtf8OrDefault (unionBytes (Utf8.encode line) (views.map Utf8.encode))

def scansOf (language : Language) (line : Str) (start : Reading) : List (Str × Reading) :=
  let plain := { start with inString := none }
  scanLine language line plain none ::
    start.inString.toList.map fun held => scanLine language line plain (some held)

def codeView (language : Language) (line : Str) (state : ScanState) : Str × ScanState :=
  let scans := state.readings.flatMap (scansOf language line)
  (unionViews line (scans.map (·.1)), .fromReadings (scans.map (·.2)))

end DeepDiffForge.Graph
